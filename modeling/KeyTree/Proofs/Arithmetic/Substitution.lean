import KeyTree.Proofs.Arithmetic.Grammar

/-!
# Atoms replaced by signed atoms

Each atom of an expression gives way to another with or without a minus in front of it. The minus
becomes a sign of the new atom alone: the symbols are those of the expression with each atom replaced
where it stands, the value is that of the expression with signed values of its atoms, and the new
expression nests at most one deeper.
-/

namespace KeyTree.Arithmetic

variable {α β : Type} (f : α → Bool × β)

/-! ## Replacing atoms -/

mutual

/-- Replaces each atom by a signed atom. -/
def Expression.fill : Expression α → Expression β
  | .sum first rest => .sum first.fill (Expression.restFill rest)

def Expression.restFill : List (Additive × Term α) → List (Additive × Term β)
  | [] => []
  | (op, term) :: rest => (op, term.fill) :: Expression.restFill rest

def Term.fill : Term α → Term β
  | .product first rest => .product first.fill (Term.restFill rest)

def Term.restFill : List (Multiplicative × Unary α) → List (Multiplicative × Unary β)
  | [] => []
  | (op, factor) :: rest => (op, factor.fill) :: Term.restFill rest

def Unary.fill : Unary α → Unary β
  | .sign minus operand => .sign minus operand.fill
  | .primary p => p.fill

def Primary.fill : Primary α → Unary β
  | .atom a => match f a with
    | (true, b) => .sign true (.primary (.atom b))
    | (false, b) => .primary (.atom b)
  | .parentheses inside => .primary (.parentheses inside.fill)

end

/-- The symbols that a symbol gives way to. -/
def Symbol.fill : Symbol α → List (Symbol β)
  | .atom a => match f a with
    | (true, b) => [.operator .subtract, .atom b]
    | (false, b) => [.atom b]
  | .operator op => [.operator op]
  | .opening => [.opening]
  | .closing => [.closing]

/-! ## Symbols -/

variable {f} in
/-- What an atom gives way to ends with an atom, and what any other symbol does has none. -/
theorem Symbol.atom_mem_fill {s : Symbol α} {b : β} (h : .atom b ∈ s.fill f) :
    ∃ a, s = .atom a ∧ (f a).2 = b := by
  cases s with
  | atom a =>
    refine ⟨a, rfl, ?_⟩
    rw [Symbol.fill] at h
    match hfill : f a with
    | (true, b') =>
      rw [hfill] at h
      cases h with
      | tail _ h => exact (Symbol.atom.inj (List.mem_singleton.mp h)).symm
    | (false, b') =>
      rw [hfill] at h
      exact (Symbol.atom.inj (List.mem_singleton.mp h)).symm
  | _ => cases List.mem_singleton.mp h

theorem Symbol.fill_ne_nil (s : Symbol α) : s.fill f ≠ [] := by
  cases s with
  | atom a =>
    rw [Symbol.fill]
    match f a with
    | (true, b) => exact List.cons_ne_nil _ _
    | (false, b) => exact List.cons_ne_nil _ _
  | _ => exact List.cons_ne_nil _ _

theorem Symbol.length_le_length_fill (symbols : List (Symbol α)) :
    symbols.length ≤ (symbols.flatMap (Symbol.fill f)).length := by
  induction symbols with
  | nil => exact Nat.le_refl 0
  | cons s symbols ih =>
    have hs := List.length_pos_iff.mpr (s.fill_ne_nil f)
    rw [List.flatMap_cons, List.length_append, List.length_cons]
    omega

variable {f} in
/-- No other operator than a minus is put in. -/
theorem Symbol.operator_mem_fill {s : Symbol α} {op : Operator} (hop : op ≠ .subtract)
    (h : .operator op ∈ s.fill f) : s = .operator op := by
  cases s with
  | atom a =>
    rw [Symbol.fill] at h
    match hfill : f a with
    | (true, b) =>
      rw [hfill] at h
      cases h with
      | head => exact absurd rfl hop
      | tail _ h => cases List.mem_singleton.mp h
    | (false, b) =>
      rw [hfill] at h
      cases List.mem_singleton.mp h
  | operator op' =>
    cases List.mem_singleton.mp h
    rfl
  | _ => cases List.mem_singleton.mp h

mutual

/-- The symbols are filled one by one. -/
theorem Expression.symbols_fill (e : Expression α) :
    (e.fill f).symbols = e.symbols.flatMap (Symbol.fill f) := by
  match e with
  | .sum first rest =>
    rw [Expression.fill, Expression.symbols, Expression.symbols, List.flatMap_append,
      Term.symbols_fill first, Expression.restSymbols_restFill rest]

theorem Expression.restSymbols_restFill (rest : List (Additive × Term α)) :
    Expression.restSymbols (Expression.restFill f rest) =
      (Expression.restSymbols rest).flatMap (Symbol.fill f) := by
  match rest with
  | [] => rfl
  | (op, term) :: rest =>
    rw [Expression.restFill, Expression.restSymbols, Expression.restSymbols, List.flatMap_cons,
      List.flatMap_append, Term.symbols_fill term, Expression.restSymbols_restFill rest]
    rfl

theorem Term.symbols_fill (t : Term α) :
    (t.fill f).symbols = t.symbols.flatMap (Symbol.fill f) := by
  match t with
  | .product first rest =>
    rw [Term.fill, Term.symbols, Term.symbols, List.flatMap_append, Unary.symbols_fill first,
      Term.restSymbols_restFill rest]

theorem Term.restSymbols_restFill (rest : List (Multiplicative × Unary α)) :
    Term.restSymbols (Term.restFill f rest) =
      (Term.restSymbols rest).flatMap (Symbol.fill f) := by
  match rest with
  | [] => rfl
  | (op, factor) :: rest =>
    rw [Term.restFill, Term.restSymbols, Term.restSymbols, List.flatMap_cons,
      List.flatMap_append, Unary.symbols_fill factor, Term.restSymbols_restFill rest]
    rfl

theorem Unary.symbols_fill (u : Unary α) :
    (u.fill f).symbols = u.symbols.flatMap (Symbol.fill f) := by
  match u with
  | .sign minus operand =>
    rw [Unary.fill, Unary.symbols, Unary.symbols, List.flatMap_cons, Unary.symbols_fill operand]
    rfl
  | .primary p => exact Primary.symbols_fill p

theorem Primary.symbols_fill (p : Primary α) :
    (p.fill f).symbols = p.symbols.flatMap (Symbol.fill f) := by
  match p with
  | .atom a =>
    rw [Primary.fill, Primary.symbols, List.flatMap_singleton, Symbol.fill]
    match f a with
    | (true, b) => rfl
    | (false, b) => rfl
  | .parentheses inside =>
    rw [Primary.fill, Unary.symbols, Primary.symbols, Primary.symbols, List.flatMap_cons,
      List.flatMap_append, Expression.symbols_fill inside]
    rfl

end

/-! ## Depth -/

mutual

/-- The minus of an atom is one more sign. -/
theorem Expression.nesting_fill (e : Expression α) :
    e.nesting ≤ (e.fill f).nesting ∧ (e.fill f).nesting ≤ e.nesting + 1 := by
  match e with
  | .sum first rest =>
    have hfirst := Term.nesting_fill first
    have hrest := Expression.restNesting_restFill rest
    rw [Expression.fill, Expression.nesting, Expression.nesting]
    omega

theorem Expression.restNesting_restFill (rest : List (Additive × Term α)) :
    Expression.restNesting rest ≤ Expression.restNesting (Expression.restFill f rest) ∧
      Expression.restNesting (Expression.restFill f rest) ≤ Expression.restNesting rest + 1 := by
  match rest with
  | [] => exact ⟨Nat.le_refl _, Nat.zero_le _⟩
  | (op, term) :: rest =>
    have hterm := Term.nesting_fill term
    have hrest := Expression.restNesting_restFill rest
    rw [Expression.restFill, Expression.restNesting, Expression.restNesting]
    omega

theorem Term.nesting_fill (t : Term α) :
    t.nesting ≤ (t.fill f).nesting ∧ (t.fill f).nesting ≤ t.nesting + 1 := by
  match t with
  | .product first rest =>
    have hfirst := Unary.nesting_fill first
    have hrest := Term.restNesting_restFill rest
    rw [Term.fill, Term.nesting, Term.nesting]
    omega

theorem Term.restNesting_restFill (rest : List (Multiplicative × Unary α)) :
    Term.restNesting rest ≤ Term.restNesting (Term.restFill f rest) ∧
      Term.restNesting (Term.restFill f rest) ≤ Term.restNesting rest + 1 := by
  match rest with
  | [] => exact ⟨Nat.le_refl _, Nat.zero_le _⟩
  | (op, factor) :: rest =>
    have hfactor := Unary.nesting_fill factor
    have hrest := Term.restNesting_restFill rest
    rw [Term.restFill, Term.restNesting, Term.restNesting]
    omega

theorem Unary.nesting_fill (u : Unary α) :
    u.nesting ≤ (u.fill f).nesting ∧ (u.fill f).nesting ≤ u.nesting + 1 := by
  match u with
  | .sign minus operand =>
    have hoperand := Unary.nesting_fill operand
    rw [Unary.fill, Unary.nesting, Unary.nesting]
    omega
  | .primary p => exact Primary.nesting_fill p

theorem Primary.nesting_fill (p : Primary α) :
    p.nesting ≤ (p.fill f).nesting ∧ (p.fill f).nesting ≤ p.nesting + 1 := by
  match p with
  | .atom a =>
    rw [Primary.fill]
    match f a with
    | (true, b) => exact ⟨Nat.zero_le _, Nat.le_refl 1⟩
    | (false, b) => exact ⟨Nat.zero_le _, Nat.zero_le 1⟩
  | .parentheses inside =>
    have hinside := Expression.nesting_fill inside
    rw [Primary.fill, Unary.nesting, Primary.nesting, Primary.nesting]
    omega

end

/-! ## Values -/

/-- A program that is at most one deeper than another, and agrees with it in its value. -/
structure Program.Replaces (agrees : Prop) (p q : Program) : Prop where
  value : agrees → p.value = q.value
  depth : p.depth ≤ q.depth + 1

theorem Program.Replaces.negate {agrees : Prop} {p q : Program} (h : p.Replaces agrees q) :
    (Program.negate p).Replaces agrees (.negate q) := by
  refine ⟨fun hagrees ↦ ?_, Nat.succ_le_succ h.depth⟩
  rw [Program.value, Program.value, h.value hagrees]

theorem Program.Replaces.binary {agrees : Prop} {p q p' q' : Program} (op : Operator)
    (h : p.Replaces agrees q) (h' : p'.Replaces agrees q') :
    (Program.binary op p p').Replaces agrees (.binary op q q') := by
  refine ⟨fun hagrees ↦ ?_, ?_⟩
  · rw [Program.value, Program.value, h.value hagrees, h'.value hagrees]
  · have hleft := h.depth
    have hright := h'.depth
    rw [Program.depth, Program.depth]
    omega

/-- The value of an atom is that of the atom it gives way to, negated if there is a minus. -/
def KeepsValues (leaf : α → Float) (leaf' : β → Float) : Prop :=
  ∀ a, leaf a = if (f a).1 then -leaf' (f a).2 else leaf' (f a).2

section

variable (leaf : α → Float) (leaf' : β → Float)

mutual

/-- The program of a filled expression has the value of the expression with signed atoms. -/
theorem Expression.replaces_fill (e : Expression α) :
    ((e.fill f).program leaf').Replaces (KeepsValues f leaf leaf') (e.program leaf) := by
  match e with
  | .sum first rest => exact Expression.replaces_restFill rest (Term.replaces_fill first)

theorem Expression.replaces_restFill (rest : List (Additive × Term α)) {left left' : Program}
    (hleft : left'.Replaces (KeepsValues f leaf leaf') left) :
    (Expression.restProgram leaf' left' (Expression.restFill f rest)).Replaces
      (KeepsValues f leaf leaf') (Expression.restProgram leaf left rest) := by
  match rest with
  | [] => exact hleft
  | (op, term) :: rest =>
    exact Expression.replaces_restFill rest (hleft.binary op (Term.replaces_fill term))

theorem Term.replaces_fill (t : Term α) :
    ((t.fill f).program leaf').Replaces (KeepsValues f leaf leaf') (t.program leaf) := by
  match t with
  | .product first rest => exact Term.replaces_restFill rest (Unary.replaces_fill first)

theorem Term.replaces_restFill (rest : List (Multiplicative × Unary α)) {left left' : Program}
    (hleft : left'.Replaces (KeepsValues f leaf leaf') left) :
    (Term.restProgram leaf' left' (Term.restFill f rest)).Replaces
      (KeepsValues f leaf leaf') (Term.restProgram leaf left rest) := by
  match rest with
  | [] => exact hleft
  | (op, factor) :: rest =>
    exact Term.replaces_restFill rest (hleft.binary op (Unary.replaces_fill factor))

theorem Unary.replaces_fill (u : Unary α) :
    ((u.fill f).program leaf').Replaces (KeepsValues f leaf leaf') (u.program leaf) := by
  match u with
  | .sign true operand => exact (Unary.replaces_fill operand).negate
  | .sign false operand => exact Unary.replaces_fill operand
  | .primary p => exact Primary.replaces_fill p

theorem Primary.replaces_fill (p : Primary α) :
    ((p.fill f).program leaf').Replaces (KeepsValues f leaf leaf') (p.program leaf) := by
  match p with
  | .parentheses inside => exact Expression.replaces_fill inside
  | .atom a =>
    rw [Primary.fill, Primary.program]
    match hfill : f a with
    | (true, b) =>
      refine ⟨fun hkeeps ↦ ?_, Nat.le_refl 2⟩
      have ha := hkeeps a
      rw [hfill, if_pos rfl] at ha
      exact ha.symm
    | (false, b) =>
      refine ⟨fun hkeeps ↦ ?_, Nat.le_succ 1⟩
      have ha := hkeeps a
      rw [hfill, if_neg Bool.false_ne_true] at ha
      exact ha.symm

end

end

end KeyTree.Arithmetic
