import Mathlib.Data.List.Forall2

/-!
# Results and lists of results

Changing results or faults brings no faults about. A function with faults is applied to all elements
of a list, and the first fault is the result. What results and faults say about elements they say
about lists. Functions that take related arguments to related results do so under all of this.
-/

namespace KeyTree

variable {α β ε ε' : Type} {f : α → Except ε β}

theorem exists_map_eq_error {result : Except ε α} {g : α → β} :
    (∃ e, result.map g = .error e) ↔ ∃ e, result = .error e := by
  cases result with
  | ok x => exact iff_of_false (fun ⟨_, h⟩ ↦ by cases h) (fun ⟨_, h⟩ ↦ by cases h)
  | error e => exact iff_of_true ⟨e, rfl⟩ ⟨e, rfl⟩

theorem exists_mapError_eq_error {result : Except ε α} {g : ε → ε'} :
    (∃ e, result.mapError g = .error e) ↔ ∃ e, result = .error e := by
  cases result with
  | ok x => exact iff_of_false (fun ⟨_, h⟩ ↦ by cases h) (fun ⟨_, h⟩ ↦ by cases h)
  | error e => exact iff_of_true ⟨g e, rfl⟩ ⟨e, rfl⟩

theorem map_eq_error_iff {result : Except ε α} {g : α → β} {e : ε} :
    result.map g = .error e ↔ result = .error e := by
  cases result with
  | ok x => exact iff_of_false (fun h ↦ by cases h) (fun h ↦ by cases h)
  | error e' =>
    constructor
    · intro h
      rw [Except.error.inj h]
    · intro h
      rw [Except.error.inj h]
      rfl

theorem mapError_eq_error_iff {result : Except ε α} {g : ε → ε'} {e : ε'} :
    result.mapError g = .error e ↔ ∃ e', result = .error e' ∧ g e' = e := by
  cases result with
  | ok x => exact iff_of_false (fun h ↦ by cases h) (fun ⟨_, h, _⟩ ↦ by cases h)
  | error e' =>
    constructor
    · intro h
      exact ⟨e', rfl, Except.error.inj h⟩
    · rintro ⟨_, h, rfl⟩
      rw [Except.error.inj h]
      rfl

/-- A step has a result, and the rest has one from there. -/
theorem exists_of_bind_eq_ok {result : Except ε α} {y : β} (h : result >>= f = .ok y) :
    ∃ x, result = .ok x ∧ f x = .ok y := by
  cases result with
  | ok x => exact ⟨x, rfl, h⟩
  | error e => cases h

theorem bind_eq_error_iff {result : Except ε α} {e : ε} :
    result >>= f = .error e ↔ result = .error e ∨ ∃ x, result = .ok x ∧ f x = .error e := by
  cases result with
  | error e' => simp [bind, Except.bind]
  | ok x => simp [bind, Except.bind]

theorem exists_of_map_eq_ok {result : Except ε α} {g : α → β} {y : β} (h : result.map g = .ok y) :
    ∃ x, result = .ok x ∧ g x = y := by
  cases result with
  | ok x => exact ⟨x, rfl, Except.ok.inj h⟩
  | error e => cases h

theorem eq_ok_of_mapError {result : Except ε α} {g : ε → ε'} {x : α}
    (h : result.mapError g = .ok x) : result = .ok x := by
  cases result with
  | ok x' => exact congrArg _ (Except.ok.inj h)
  | error e => cases h

/-! ## Lists -/

/-- Each result belongs to the element in its place. -/
theorem forall₂_of_mapM {xs : List α} {ys : List β} (h : xs.mapM f = .ok ys) :
    List.Forall₂ (fun x y ↦ f x = .ok y) xs ys := by
  induction xs generalizing ys with
  | nil =>
    obtain rfl : [] = ys := Except.ok.inj h
    exact .nil
  | cons x xs ih =>
    rw [List.mapM_cons] at h
    obtain ⟨y, hx, h⟩ := exists_of_bind_eq_ok h
    obtain ⟨rest, hxs, h⟩ := exists_of_bind_eq_ok h
    obtain rfl : y :: rest = ys := Except.ok.inj h
    exact .cons hx (ih hxs)

theorem exists_of_mem_mapM {xs : List α} {ys : List β} (h : xs.mapM f = .ok ys) {y : β}
    (hy : y ∈ ys) : ∃ x ∈ xs, f x = .ok y := by
  have hall := forall₂_of_mapM h
  clear h
  induction hall with
  | nil => cases hy
  | @cons x y' xs ys hx _ ih =>
    rcases List.mem_cons.1 hy with rfl | hy
    · exact ⟨x, List.mem_cons_self, hx⟩
    · obtain ⟨z, hz, hzy⟩ := ih hy
      exact ⟨z, List.mem_cons_of_mem x hz, hzy⟩

theorem exists_of_mapM_of_mem {xs : List α} {ys : List β} (h : xs.mapM f = .ok ys) {x : α}
    (hx : x ∈ xs) : ∃ y ∈ ys, f x = .ok y := by
  have hall := forall₂_of_mapM h
  clear h
  induction hall with
  | nil => cases hx
  | @cons x' y xs ys hxy _ ih =>
    rcases List.mem_cons.1 hx with rfl | hx
    · exact ⟨y, List.mem_cons_self, hxy⟩
    · obtain ⟨z, hz, hxz⟩ := ih hx
      exact ⟨z, List.mem_cons_of_mem y hz, hxz⟩

/-- A fault ends a list, whatever follows. -/
theorem mapM_eq_error {before after : List α} {x : α} {e : ε}
    (hbefore : ∀ y ∈ before, ∃ z, f y = .ok z) (hx : f x = .error e) :
    (before ++ x :: after).mapM f = .error e := by
  induction before with
  | nil =>
    rw [List.nil_append, List.mapM_cons, hx]
    rfl
  | cons y before ih =>
    obtain ⟨⟨z, hz⟩, hbefore⟩ := List.forall_mem_cons.1 hbefore
    rw [List.cons_append, List.mapM_cons, hz, ih hbefore]
    rfl

/-- The fault of a list is that of its first element with one. -/
theorem exists_of_mapM_error {xs : List α} {e : ε} (h : xs.mapM f = .error e) :
    ∃ before x after, xs = before ++ x :: after ∧ (∀ y ∈ before, ∃ z, f y = .ok z) ∧
      f x = .error e := by
  induction xs with
  | nil => cases h
  | cons x xs ih =>
    rw [List.mapM_cons] at h
    cases hx : f x with
    | error e' =>
      rw [hx] at h
      obtain rfl : e' = e := Except.error.inj h
      refine ⟨[], x, xs, rfl, ?_, hx⟩
      intro y hy
      cases hy
    | ok y =>
      cases hxs : xs.mapM f with
      | ok ys =>
        rw [hx, hxs] at h
        cases h
      | error e' =>
        rw [hx, hxs] at h
        obtain rfl : e' = e := Except.error.inj h
        obtain ⟨before, x', after, rfl, hbefore, hx'⟩ := ih hxs
        exact ⟨x :: before, x', after, rfl, List.forall_mem_cons.2 ⟨⟨y, hx⟩, hbefore⟩, hx'⟩

theorem mapM_eq_self {f : α → Except ε α} {xs : List α} (h : ∀ x ∈ xs, f x = .ok x) :
    xs.mapM f = .ok xs := by
  induction xs with
  | nil => rfl
  | cons x xs ih =>
    rw [List.mapM_cons, h x List.mem_cons_self, ih fun y hy ↦ h y (List.mem_cons_of_mem x hy)]
    rfl

/-- If all elements are their own results or have one fault, so has the list. -/
theorem mapM_eq_ite {f : α → Except ε α} {p : α → Bool} {e : ε} {xs : List α}
    (h : ∀ x ∈ xs, f x = if p x then .ok x else .error e) :
    xs.mapM f = if xs.all p then .ok xs else .error e := by
  induction xs with
  | nil => rfl
  | cons x xs ih =>
    obtain ⟨hx, hxs⟩ := List.forall_mem_cons.1 h
    rw [List.mapM_cons, hx, ih hxs, List.all_cons]
    cases p x <;> cases xs.all p <;> rfl

/-- If all elements but one are their own results, only that one is replaced. -/
theorem mapM_insert_eq_map {f : α → Except ε α} {before after : List α} (x : α)
    (hbefore : ∀ y ∈ before, f y = .ok y) (hafter : after.mapM f = .ok after) :
    (before ++ x :: after).mapM f = (f x).map fun y ↦ before ++ y :: after := by
  rw [List.mapM_append, mapM_eq_self hbefore, List.mapM_cons, hafter]
  cases f x <;> rfl

theorem mapM_insert {f : α → Except ε α} {before after ys : List α} {x : α}
    (hbefore : ∀ y ∈ before, f y = .ok y) (hafter : ∀ y ∈ after, f y = .ok y)
    (h : (before ++ x :: after).mapM f = .ok ys) :
    ∃ y, f x = .ok y ∧ ys = before ++ y :: after := by
  rw [mapM_insert_eq_map x hbefore (mapM_eq_self hafter)] at h
  obtain ⟨y, hx, rfl⟩ := exists_of_map_eq_ok h
  exact ⟨y, hx, rfl⟩

/-! ## Decisions -/

/-- There is a result only if something holds, and otherwise a fault that says why not. -/
inductive Decides (P : Prop) (Q : ε → Prop) : Except ε α → Prop
  | ok (x : α) (h : P) : Decides P Q (.ok x)
  | error {e : ε} (h : Q e) : Decides P Q (.error e)

namespace Decides

variable {P P' : Prop} {Q Q' : ε → Prop} {result : Except ε α}

theorem of_eq_ok {x : α} (h : Decides P Q result) (hresult : result = .ok x) : P := by
  subst hresult
  cases h with
  | ok _ hP => exact hP

theorem of_eq_error {e : ε} (h : Decides P Q result) (hresult : result = .error e) : Q e := by
  subst hresult
  cases h with
  | error hQ => exact hQ

theorem imp (h : Decides P Q result) (hP : P → P') (hQ : ∀ e, Q e → Q' e) :
    Decides P' Q' result := by
  cases h with
  | ok x h => exact .ok x (hP h)
  | error h => exact .error (hQ _ h)

theorem map (h : Decides P Q result) (g : α → β) : Decides P Q (result.map g) := by
  cases h with
  | ok x h => exact .ok (g x) h
  | error h => exact .error h

end Decides

/-- A function that decides about elements decides about lists of them. -/
theorem decides_mapM {P : α → Prop} {Q : α → ε → Prop} (h : ∀ x, Decides (P x) (Q x) (f x))
    (xs : List α) : Decides (∀ x ∈ xs, P x) (fun e ↦ ∃ x ∈ xs, Q x e) (xs.mapM f) := by
  cases hxs : xs.mapM f with
  | ok ys =>
    refine .ok ys fun x hx ↦ ?_
    obtain ⟨y, -, hy⟩ := exists_of_mapM_of_mem hxs hx
    exact (h x).of_eq_ok hy
  | error e =>
    obtain ⟨before, x, after, rfl, -, hx⟩ := exists_of_mapM_error hxs
    exact .error ⟨x, List.mem_append_cons_self, (h x).of_eq_error hx⟩

/-! ## Related results -/

/-- Related results, or the same fault. -/
inductive Alike (R : α → β → Prop) : Except ε α → Except ε β → Prop
  | ok {x : α} {y : β} (h : R x y) : Alike R (.ok x) (.ok y)
  | error (e : ε) : Alike R (.error e) (.error e)

section Related

variable {γ δ : Type} {R : α → β → Prop} {S : γ → δ → Prop}

theorem Alike.cases {first : Except ε α} {second : Except ε β} (h : Alike R first second) :
    (∃ e, first = .error e ∧ second = .error e) ∨
      ∃ x y, first = .ok x ∧ second = .ok y ∧ R x y := by
  cases h with
  | ok hxy => exact .inr ⟨_, _, rfl, rfl, hxy⟩
  | error e => exact .inl ⟨e, rfl, rfl⟩

theorem Alike.map {first : Except ε α} {second : Except ε β} {g : α → γ} {g' : β → δ}
    (h : Alike R first second) (hg : ∀ x y, R x y → S (g x) (g' y)) :
    Alike S (first.map g) (second.map g') := by
  cases h with
  | ok hxy => exact .ok (hg _ _ hxy)
  | error e => exact .error e

theorem Alike.bind {first : Except ε α} {second : Except ε β} {g : α → Except ε γ}
    {g' : β → Except ε δ} (h : Alike R first second) (hg : ∀ x y, R x y → Alike S (g x) (g' y)) :
    Alike S (first >>= g) (second >>= g') := by
  cases h with
  | ok hxy => exact hg _ _ hxy
  | error e => exact .error e

theorem Alike.mapError {first : Except ε α} {second : Except ε β} (h : Alike R first second)
    (g : ε → ε') : Alike R (first.mapError g) (second.mapError g) := by
  cases h with
  | ok hxy => exact .ok hxy
  | error e => exact .error (g e)

theorem alike_mapM {xs : List α} {ys : List β} {g : α → Except ε γ} {g' : β → Except ε δ}
    (h : List.Forall₂ R xs ys) (hg : ∀ x y, R x y → Alike S (g x) (g' y)) :
    Alike (List.Forall₂ S) (xs.mapM g) (ys.mapM g') := by
  induction h with
  | nil => exact .ok .nil
  | cons hxy _ ih =>
    rw [List.mapM_cons, List.mapM_cons]
    refine (hg _ _ hxy).bind fun z w hzw ↦ ?_
    exact ih.bind fun zs ws hzs ↦ .ok (.cons hzw hzs)

theorem alike_refl (result : Except ε α) : Alike Eq result result := by
  cases result with
  | ok x => exact .ok rfl
  | error e => exact .error e

theorem all_eq_of_forall₂ {xs : List α} {ys : List β} {p : α → Bool} {q : β → Bool}
    (h : List.Forall₂ R xs ys) (hpq : ∀ x y, R x y → p x = q y) : xs.all p = ys.all q := by
  induction h with
  | nil => rfl
  | cons hxy _ ih => rw [List.all_cons, List.all_cons, hpq _ _ hxy, ih]

theorem isEmpty_eq_of_forall₂ {xs : List α} {ys : List β} (h : List.Forall₂ R xs ys) :
    xs.isEmpty = ys.isEmpty := by
  cases h with
  | nil => rfl
  | cons hxy hrest => rfl

theorem rel_find? {xs : List α} {ys : List β} {p : α → Bool} {q : β → Bool}
    (h : List.Forall₂ R xs ys) (hpq : ∀ x y, R x y → p x = q y) :
    Option.Rel R (xs.find? p) (ys.find? q) := by
  induction h with
  | nil => exact .none
  | @cons x y xs ys hxy _ ih =>
    rw [List.find?_cons, List.find?_cons, hpq x y hxy]
    cases q y with
    | true => exact .some hxy
    | false => exact ih

theorem none_or_some_of_rel {x : Option α} {y : Option β} (h : Option.Rel R x y) :
    (x = none ∧ y = none) ∨ ∃ a b, x = some a ∧ y = some b ∧ R a b := by
  cases h with
  | none => exact .inl ⟨rfl, rfl⟩
  | some h => exact .inr ⟨_, _, rfl, rfl, h⟩

theorem isSome_eq_of_rel {x : Option α} {y : Option β} (h : Option.Rel R x y) :
    x.isSome = y.isSome := by
  cases h with
  | none => rfl
  | some h => rfl

theorem rel_getElem? {xs : List α} {ys : List β} (h : List.Forall₂ R xs ys) (i : Nat) :
    Option.Rel R xs[i]? ys[i]? := by
  induction h generalizing i with
  | nil => exact .none
  | cons hxy _ ih =>
    cases i with
    | zero => exact .some hxy
    | succ i => exact ih i

end Related

end KeyTree
