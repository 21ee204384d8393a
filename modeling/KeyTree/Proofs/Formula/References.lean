import KeyTree.Proofs.Formula.Evaluation

/-!
# What a formula depends on

A formula depends on the tree through its references alone. Two trees that give the same text at each
path the formula mentions give it the same result, whatever else they hold.
-/

namespace KeyTree

/-- Two trees have nothing at a path, or nodes that give formulas the same text. -/
def Forest.RenderAlike (first second : Forest) (path : String) : Prop :=
  (first.lookup? path = .ok none ∧ second.lookup? path = .ok none) ∨
    ∃ n m, first.lookup? path = .ok (some n) ∧ second.lookup? path = .ok (some m) ∧
      n.isRenderable = true ∧ m.isRenderable = true ∧ n.rendered = m.rendered

namespace Forest.RenderAlike

variable {first second : Forest} {path : String}

theorem not_overrunsAt (h : first.RenderAlike second path) : ¬ first.OverrunsAt path := by
  rw [← lookup?_error_iff]
  rintro ⟨fault, hfault⟩
  rcases h with ⟨hfirst, -⟩ | ⟨n, m, hfirst, -⟩
  · rw [hfirst] at hfault
    cases hfault
  · rw [hfirst] at hfault
    cases hfault

end Forest.RenderAlike

namespace Formula

variable {first second : Forest} {formula : String}

/-- A reference is filled in alike, with nothing or with the same text. -/
theorem fill_eq_of_renderAlike {path : List Char}
    (h : first.RenderAlike second (String.ofList path)) :
    (Piece.reference path).fill first = (Piece.reference path).fill second := by
  rcases h with ⟨hfirst, hsecond⟩ | ⟨n, m, hfirst, hsecond, hn, hm, htext⟩
  · rw [Piece.fill, Piece.fill, hfirst, hsecond]
  · rw [fill_of_isRenderable hfirst hn, fill_of_isRenderable hsecond hm, htext]

theorem not_leadsTooDeep {path : List Char} (h : first.RenderAlike second (String.ofList path)) :
    ¬ LeadsTooDeep first path := by
  rintro ⟨deep, hdeep, hrefused⟩
  rcases h with ⟨hfirst, -⟩ | ⟨n, m, hfirst, -, hn, -⟩
  · rw [hfirst] at hdeep
    cases hdeep
  · rw [hfirst] at hdeep
    obtain rfl := Option.some.inj (Except.ok.inj hdeep)
    rw [hn] at hrefused
    cases hrefused

/-! ## Paths that a formula mentions -/

/-- A path that stands between two pairs of braces somewhere in a formula. -/
def Mentions (formula : String) (path : List Char) : Prop :=
  path ≠ [] ∧ (∀ c ∈ path, isReferenceChar c = true) ∧
    '{' :: '{' :: path ++ ['}', '}'] <:+: formula.toList

theorem scanReference?_eq_some {s path after : List Char}
    (h : scanReference? s = some (path, after)) : path ≠ [] ∧
      (∀ c ∈ path, isReferenceChar c = true) ∧ s = '{' :: '{' :: path ++ '}' :: '}' :: after := by
  unfold scanReference? at h
  split at h
  case h_1 rest =>
    dsimp only at h
    split at h
    case h_1 hnonempty hclosing =>
      obtain ⟨hpath, rfl⟩ := Prod.mk.inj (Option.some.inj h)
      rw [← hpath]
      refine ⟨List.isEmpty_eq_false_iff.1 hnonempty,
        List.all_eq_true.1 List.all_takeWhile, ?_⟩
      rw [List.cons_append, List.cons_append, ← hclosing, List.takeWhile_append_dropWhile]
    case h_2 => cases h
  case h_2 => cases h

/-- A formula mentions the references that are found in it. -/
theorem mentions_of_mem_pieces {path : List Char}
    (h : .reference path ∈ pieces formula.toList) : Mentions formula path := by
  unfold Mentions
  generalize formula.toList = s at h ⊢
  induction s using pieces.induct with
  | case1 =>
    rw [pieces] at h
    cases h
  | case2 c rest path' after hscan hlength ih =>
    obtain ⟨hnonempty, hchars, hs⟩ := scanReference?_eq_some hscan
    rw [hs, pieces_reference_append hnonempty hchars] at h
    rw [hs]
    rcases List.mem_cons.1 h with heq | hmem
    · obtain rfl := Piece.reference.inj heq
      exact ⟨hnonempty, hchars, [], after, by simp⟩
    · obtain ⟨hnonempty', hchars', hinfix⟩ := ih hmem
      have hsuffix : after <:+ '{' :: '{' :: path' ++ '}' :: '}' :: after :=
        ⟨'{' :: '{' :: path' ++ ['}', '}'], by simp⟩
      exact ⟨hnonempty', hchars', hinfix.trans hsuffix.isInfix⟩
  | case3 c rest hscan ih =>
    rw [pieces_of_scanReference?_none hscan] at h
    rcases List.mem_cons.1 h with heq | hmem
    · cases heq
    · obtain ⟨hnonempty, hchars, hinfix⟩ := ih hmem
      exact ⟨hnonempty, hchars, hinfix.trans (List.suffix_cons c rest).isInfix⟩

/-- A character that a text does not have is found behind it. -/
theorem eq_append_of_not_mem {text rest before after : List Char} {c : Char} (hc : c ∉ text)
    (h : text ++ rest = before ++ c :: after) :
    ∃ between, before = text ++ between ∧ rest = between ++ c :: after := by
  rcases List.append_eq_append_iff.1 h with ⟨between, hbefore, hrest⟩ | ⟨beyond, htext, hrest⟩
  · exact ⟨between, hbefore, hrest⟩
  · cases beyond with
    | nil => exact ⟨[], by rw [htext, List.append_nil, List.append_nil], hrest.symm⟩
    | cons d beyond =>
      obtain ⟨rfl, -⟩ := List.cons.inj hrest
      exact absurd (htext ▸ List.mem_append_right before List.mem_cons_self) hc

theorem mem_pieces_append {path before after s : List Char} (hnonempty : path ≠ [])
    (hchars : ∀ c ∈ path, isReferenceChar c = true)
    (hs : s = before ++ ('{' :: '{' :: path ++ '}' :: '}' :: after)) :
    .reference path ∈ pieces s := by
  induction s using pieces.induct generalizing before with
  | case1 => simp at hs
  | case2 c rest path' after' hscan hlength ih =>
    obtain ⟨hnonempty', hchars', hs'⟩ := scanReference?_eq_some hscan
    cases before with
    | nil =>
      rw [hs, List.nil_append, pieces_reference_append hnonempty hchars]
      exact List.mem_cons_self
    | cons d before =>
      rw [hs', pieces_reference_append hnonempty' hchars']
      -- The second brace that opens the first reference is no start of another one.
      have hinside : '{' ∉ path' ++ ['}', '}'] := by
        intro hmem
        rcases List.mem_append.1 hmem with hmem | hmem
        · exact absurd (hchars' _ hmem) (by decide)
        · exact absurd hmem (by decide)
      rw [hs'] at hs
      obtain ⟨-, htail⟩ := List.cons.inj hs
      cases before with
      | nil =>
        obtain ⟨head, tail, rfl⟩ := List.exists_cons_of_ne_nil hnonempty'
        obtain ⟨rfl, -⟩ := List.cons.inj (List.cons.inj htail).2
        exact absurd (List.mem_append_left _ List.mem_cons_self) hinside
      | cons d' before =>
        have hbehind : (path' ++ ['}', '}']) ++ after' =
            before ++ '{' :: ('{' :: path ++ '}' :: '}' :: after) := by
          rw [List.append_assoc]
          exact (List.cons.inj htail).2
        obtain ⟨between, -, hafter⟩ := eq_append_of_not_mem hinside hbehind
        exact List.mem_cons_of_mem _ (ih hafter)
  | case3 c rest hscan ih =>
    cases before with
    | nil =>
      rw [hs, List.nil_append, pieces_reference_append hnonempty hchars]
      exact List.mem_cons_self
    | cons d before =>
      rw [pieces_of_scanReference?_none hscan]
      exact List.mem_cons_of_mem _ (ih (List.cons.inj hs).2)

/--
The references that a formula mentions are those that are found in it: what one reference takes up
holds no opening braces but its own, so it takes nothing away from another.
-/
theorem mentions_iff {path : List Char} :
    Mentions formula path ↔ .reference path ∈ pieces formula.toList := by
  constructor
  · rintro ⟨hnonempty, hchars, before, after, h⟩
    exact mem_pieces_append hnonempty hchars (by simpa using h.symm)
  · exact mentions_of_mem_pieces

/-! ## Two trees beside each other -/

theorem fill_congr {parts : List Piece}
    (h : ∀ path, .reference path ∈ parts →
      (Piece.reference path).fill first = (Piece.reference path).fill second) :
    fill first parts = fill second parts := by
  have hparts : parts.mapM (Piece.fill first) = parts.mapM (Piece.fill second) := by
    induction parts with
    | nil => rfl
    | cons piece parts ih =>
      have hpiece : piece.fill first = piece.fill second := by
        cases piece with
        | char c => rfl
        | reference path => exact h path List.mem_cons_self
      rw [List.mapM_cons, List.mapM_cons, hpiece,
        ih fun path hpath ↦ h path (List.mem_cons_of_mem piece hpath)]
  rw [fill, fill, hparts]

/-- What a formula comes to is settled by what its references are filled in with. -/
theorem outcome_congr (h : ∀ path, Mentions formula path →
      (Piece.reference path).fill first = (Piece.reference path).fill second) :
    outcome first formula = outcome second formula := by
  unfold outcome
  dsimp only
  rw [fill_congr fun path hpath ↦ h path (mentions_of_mem_pieces hpath)]

theorem exists_outcome (h : ∀ path, Mentions formula path →
      ¬ (first.OverrunsAt (String.ofList path) ∨ LeadsTooDeep first path)) :
    ∃ result, outcome first formula = .ok result := by
  cases houtcome : outcome first formula with
  | ok result => exact ⟨result, rfl⟩
  | error fault =>
    obtain ⟨before, path, after, hpieces, -, hnothing⟩ := outcome_error_iff.1 ⟨fault, houtcome⟩
    have hmem : Piece.reference path ∈ pieces formula.toList := by
      rw [hpieces]
      exact List.mem_append_right _ List.mem_cons_self
    exact absurd hnothing (h path (mentions_of_mem_pieces hmem))

theorem evaluateOnce_eq_outcome (root : Forest) (formula : String) :
    evaluateOnce root formula = outcome root formula :=
  (evaluate_spec (Arithmetic.Cache.isReady_ofCapacity (by decide)) root formula).1

/--
Let two trees both have nothing at a path, or both have nodes that give formulas the same text, for
each path that a formula mentions. Then the formula comes to the same result for both, a value, a
text or a failure with its message.
-/
theorem evaluateOnce_congr (h : ∀ path, Mentions formula path →
      first.RenderAlike second (String.ofList path)) :
    ∃ result, evaluateOnce first formula = .ok result ∧
      evaluateOnce second formula = .ok result := by
  obtain ⟨result, hresult⟩ := exists_outcome fun path hpath ↦
    not_or.2 ⟨(h path hpath).not_overrunsAt, not_leadsTooDeep (h path hpath)⟩
  refine ⟨result, (evaluateOnce_eq_outcome _ _).trans hresult, ?_⟩
  rw [evaluateOnce_eq_outcome, ← outcome_congr fun path hpath ↦ fill_eq_of_renderAlike (h path hpath)]
  exact hresult

/-- A number and a list, with nodes beside and below them. -/
def numbers : Forest :=
  [⟨"1", "a", .leaf (.number 3)⟩,
    ⟨"2", "b", .branch .list [⟨"3", "x", .leaf (.boolean true)⟩, ⟨"4", "y", .leaf (.text "5")⟩]⟩,
    ⟨"5", "c", .leaf (.text "beside")⟩]

/-- The same texts at other places, and below a dictionary. -/
def texts : Forest :=
  [⟨"6", "b", .branch .dictionary [⟨"7", "1", .leaf (.number 5)⟩]⟩,
    ⟨"8", "a", .leaf (.expression "3")⟩]

theorem mentions_product {path : List Char}
    (h : Mentions "\x7b\x7ba\x7d\x7d*\x7b\x7bb.1\x7d\x7d" path) :
    path = ['a'] ∨ path = ['b', '.', '1'] := by
  have hpieces : pieces "\x7b\x7ba\x7d\x7d*\x7b\x7bb.1\x7d\x7d".toList =
      [.reference ['a'], .char '*', .reference ['b', '.', '1']] := by
    have hfirst := @pieces_reference_append ['a'] (List.cons_ne_nil _ _)
      (List.forall_mem_singleton.2 rfl) "*\x7b\x7bb.1\x7d\x7d".toList
    have hsecond := @pieces_reference ['b', '.', '1'] (List.cons_ne_nil _ _)
      (List.all_eq_true.1 (by decide))
    have hchar := @pieces_of_scanReference?_none '*' "\x7b\x7bb.1\x7d\x7d".toList rfl
    exact hfirst.trans (congrArg _ (hchar.trans (congrArg _ hsecond)))
  rw [mentions_iff, hpieces] at h
  simpa using h

theorem evaluateOnce_congr_product :
    (∀ path, Mentions "\x7b\x7ba\x7d\x7d*\x7b\x7bb.1\x7d\x7d" path →
      numbers.RenderAlike texts (String.ofList path)) ∧
    ∃ result, evaluateOnce numbers "\x7b\x7ba\x7d\x7d*\x7b\x7bb.1\x7d\x7d" = .ok result ∧
      evaluateOnce texts "\x7b\x7ba\x7d\x7d*\x7b\x7bb.1\x7d\x7d" = .ok result := by
  have halike (path : List Char) (h : Mentions "\x7b\x7ba\x7d\x7d*\x7b\x7bb.1\x7d\x7d" path) :
      numbers.RenderAlike texts (String.ofList path) := by
    rcases mentions_product h with rfl | rfl
    · exact .inr ⟨_, _, rfl, rfl, by decide, by decide, by decide +kernel⟩
    · exact .inr ⟨_, _, rfl, rfl, by decide, by decide, by decide +kernel⟩
  exact ⟨halike, evaluateOnce_congr halike⟩

end Formula

end KeyTree
