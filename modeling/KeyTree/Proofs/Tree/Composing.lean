import KeyTree.Proofs.Number.Digits
import KeyTree.Proofs.Tree.Ways

/-!
# Lookups one after the other

A path that is put together of two is looked up one part after the other: the second part below what
the first one finds. Below a leaf there is nothing, and neither is there below nothing. So every
lookup comes down to single steps, and a step goes to the first sibling of a name or, failing that, to
a position.
-/

namespace KeyTree

/-! ## Digits of segments -/

namespace Path

/-- The characters of segments are ASCII. -/
theorem toNat_lt_of_isSegmentChar {c : Char} (h : isSegmentChar c = true) : c.toNat < 128 := by
  simp only [isSegmentChar, Char.isAlphanum, Char.isAlpha, Char.isUpper, Char.isLower, Char.isDigit,
    Bool.or_eq_true, Bool.and_eq_true, decide_eq_true_eq, UInt32.le_iff_toNat_le, ge_iff_le,
    beq_iff_eq] at h
  rcases h with h | rfl
  · change ((65 ≤ c.toNat ∧ c.toNat ≤ 90) ∨ (97 ≤ c.toNat ∧ c.toNat ≤ 122)) ∨
      (48 ≤ c.toNat ∧ c.toNat ≤ 57) at h
    omega
  · decide

/-- Of the characters of segments, 0 to 9 alone are digits. -/
theorem isPlainDigit_of_isSegmentChar {c : Char} (h : isSegmentChar c = true)
    (hdigit : Text.isDigit c = true) : Text.isPlainDigit c = true :=
  (Text.isPlainDigit_or_of_isDigit hdigit).resolve_right
    (Nat.not_le.2 (toNat_lt_of_isSegmentChar h))

theorem all_isDigit_of_isSegment {segment : List Char} (h : isSegment segment = true) :
    segment.all Text.isDigit = segment.all Text.isPlainDigit := by
  have hchars := List.all_eq_true.1 ((Bool.and_eq_true _ _).mp h).2
  rw [Bool.eq_iff_iff, List.all_eq_true, List.all_eq_true]
  constructor
  · intro hdigits c hc
    exact isPlainDigit_of_isSegmentChar (hchars c hc) (hdigits c hc)
  · intro hdigits c hc
    exact Text.isDigit_of_isPlainDigit (hdigits c hc)

end Path

namespace Forest

variable {nodes root children : Forest} {segment : String} {found : Option Node} {n : Node}

/-! ## Single steps -/

/-- What a segment leads to among siblings: the first one of that name or, if there is none, the one
at the position that its digits stand for. -/
inductive StandsFor (nodes : Forest) (segment : String) : Option Node → Prop
  | named {before after : List Node} {n : Node} (hnodes : nodes = before ++ n :: after)
      (hname : n.name = segment) (hfirst : segment ∉ names before) :
      StandsFor nodes segment (some n)
  | placed {before after : List Node} {n : Node} (hnodes : nodes = before ++ n :: after)
      (hunnamed : segment ∉ names nodes) (hdigits : segment.toList.all Text.isPlainDigit = true)
      (hplace : Nat.ofDigitChars 10 segment.toList 0 = before.length) :
      StandsFor nodes segment (some n)
  | missed (hunnamed : segment ∉ names nodes)
      (hbeyond : segment.toList.all Text.isPlainDigit = true →
        nodes.length ≤ Nat.ofDigitChars 10 segment.toList 0) :
      StandsFor nodes segment none

theorem child?_of_digits (hsegment : Path.isSegment segment.toList = true)
    (hshort : IsShortPosition segment.toList) (hunnamed : segment ∉ names nodes)
    (hdigits : segment.toList.all Text.isPlainDigit = true) :
    nodes.child? segment true = .ok nodes[Nat.ofDigitChars 10 segment.toList 0]? := by
  have hnonempty : segment.toList.isEmpty = false :=
    (Bool.not_eq_true' _).mp ((Bool.and_eq_true _ _).mp hsegment).1
  have hall : segment.toList.all Text.isDigit = true :=
    (Path.all_isDigit_of_isSegment hsegment).trans hdigits
  have hread : Whole.read segment.toList = .ok (Nat.ofDigitChars 10 segment.toList 0) := by
    rw [Whole.read, if_neg (Nat.not_lt.2 (hshort hall)),
      Text.digitsValue_eq_ofDigitChars (List.all_eq_true.1 hdigits)]
  rw [child?, named?_eq_none_iff.2 hunnamed]
  simp only [hnonempty, hall, hread, Bool.not_false, Bool.and_true, if_true]
  rfl

theorem child?_of_not_digits (hsegment : Path.isSegment segment.toList = true)
    (hunnamed : segment ∉ names nodes)
    (hdigits : segment.toList.all Text.isPlainDigit = false) :
    nodes.child? segment true = .ok none := by
  have hall : segment.toList.all Text.isDigit = false :=
    (Path.all_isDigit_of_isSegment hsegment).trans hdigits
  rw [child?, named?_eq_none_iff.2 hunnamed]
  simp only [hall, Bool.and_false, Bool.false_eq_true, if_false]

/-- The position that digits stand for may lie beyond the siblings. -/
theorem standsFor_getElem? (hunnamed : segment ∉ names nodes)
    (hdigits : segment.toList.all Text.isPlainDigit = true) :
    nodes.StandsFor segment nodes[Nat.ofDigitChars 10 segment.toList 0]? := by
  generalize hplace : Nat.ofDigitChars 10 segment.toList 0 = place
  by_cases hinside : place < nodes.length
  · have hnodes : nodes = nodes.take place ++ nodes[place] :: nodes.drop (place + 1) := by
      rw [← List.drop_eq_getElem_cons hinside, List.take_append_drop]
    rw [List.getElem?_eq_getElem hinside]
    refine .placed hnodes hunnamed hdigits (hplace.trans ?_)
    exact (List.length_take_of_le (Nat.le_of_lt hinside)).symm
  · rw [List.getElem?_eq_none (Nat.not_lt.1 hinside)]
    exact .missed hunnamed fun _ ↦ hplace ▸ Nat.not_lt.1 hinside

/-- A segment stands for something, if only for nothing. -/
theorem exists_standsFor (nodes : Forest) (segment : String) :
    ∃ found, nodes.StandsFor segment found := by
  cases hnamed : nodes.named? segment with
  | some n =>
    obtain ⟨hname, before, after, hnodes, hfirst⟩ := eq_append_of_named? hnamed
    exact ⟨some n, .named hnodes hname hfirst⟩
  | none =>
    have hunnamed := named?_eq_none_iff.1 hnamed
    cases hdigits : segment.toList.all Text.isPlainDigit with
    | true => exact ⟨_, standsFor_getElem? hunnamed hdigits⟩
    | false =>
      refine ⟨none, .missed hunnamed fun h ↦ ?_⟩
      rw [hdigits] at h
      cases h

/-- A single step goes to what its segment stands for. -/
theorem StandsFor.child?_eq (h : nodes.StandsFor segment found)
    (hsegment : Path.isSegment segment.toList = true) (hshort : IsShortPosition segment.toList) :
    nodes.child? segment true = .ok found := by
  cases h with
  | @named before after n hnodes hname hfirst =>
    subst hname
    rw [child?, hnodes, named?_insert n after hfirst]
  | @placed before after n hnodes hunnamed hdigits hplace =>
    rw [child?_of_digits hsegment hshort hunnamed hdigits, hplace, hnodes,
      List.getElem?_append_right (Nat.le_refl before.length), Nat.sub_self, List.getElem?_cons_zero]
  | missed hunnamed hbeyond =>
    cases hdigits : segment.toList.all Text.isPlainDigit with
    | true =>
      rw [child?_of_digits hsegment hshort hunnamed hdigits,
        List.getElem?_eq_none (hbeyond hdigits)]
    | false => exact child?_of_not_digits hsegment hunnamed hdigits

/-- A path of one segment is a single step. -/
theorem lookup?_segment (nodes : Forest) (h : Path.isSegment segment.toList = true) :
    nodes.lookup? segment = nodes.child? segment true := by
  rw [lookup?, Path.parse_segment h]
  rfl

/-! ## Steps one after the other -/

/-- What is found below a node that was found before. Below a leaf, as below nothing, there is
nothing. -/
def inside (find : Forest → Except TooManyDigits (Option Node)) (found : Option Node) :
    Except TooManyDigits (Option Node) :=
  (found.bind Node.children?).elim (.ok none) find

theorem inside_of_children {find : Forest → Except TooManyDigits (Option Node)}
    (h : n.children? = some children) : inside find (some n) = find children := by
  rw [inside, Option.bind_some, h]
  rfl

theorem inside_of_none {find : Forest → Except TooManyDigits (Option Node)}
    (h : found.bind Node.children? = none) : inside find found = .ok none := by
  rw [inside, h]
  rfl

theorem inside_bind (first second : Forest → Except TooManyDigits (Option Node))
    (found : Option Node) :
    inside (fun nodes ↦ first nodes >>= inside second) found =
      inside first found >>= inside second := by
  unfold inside
  cases found.bind Node.children? with
  | none => rfl
  | some children => rfl

theorem follow?_cons (nodes : Forest) (head next : String) (rest : List String) :
    nodes.follow? head (next :: rest) =
      nodes.child? head true >>= inside fun children ↦ children.follow? next rest := by
  rw [follow?]
  cases nodes.child? head true with
  | error fault => rfl
  | ok found =>
    dsimp only [bind, Except.bind]
    unfold inside
    cases found.bind Node.children? with
    | none => rfl
    | some children => rfl

/-- More segments lead on from where the first ones lead to. -/
theorem follow?_append (nodes : Forest) (head : String) (tail : List String) (next : String)
    (rest : List String) :
    nodes.follow? head (tail ++ next :: rest) =
      nodes.follow? head tail >>= inside fun children ↦ children.follow? next rest := by
  -- A last segment is not entered, so the first segments end with the step into the others.
  induction tail generalizing nodes head with
  | nil => exact follow?_cons nodes head next rest
  | cons second tail ih =>
    calc nodes.follow? head (second :: tail ++ next :: rest)
      _ = nodes.child? head true >>=
          inside fun children ↦ children.follow? second (tail ++ next :: rest) :=
        follow?_cons nodes head second (tail ++ next :: rest)
      _ = nodes.child? head true >>= inside fun children ↦
          children.follow? second tail >>= inside fun below ↦ below.follow? next rest := by
        simp only [ih]
      _ = (nodes.child? head true >>= inside fun children ↦ children.follow? second tail) >>=
          inside fun below ↦ below.follow? next rest := by
        rw [bind_assoc]
        congr 1
        funext found
        exact inside_bind _ _ found
      _ = nodes.follow? head (second :: tail) >>= inside fun below ↦ below.follow? next rest := by
        rw [follow?_cons]

/-- What is looked up by a text that is no path is found nowhere, below another node or not. -/
theorem inside_lookup?_of_error {inner : String} {fault : PathFault}
    (h : Path.parse inner = .error fault) (found : Option Node) :
    inside (fun children ↦ children.lookup? inner) found = .ok none := by
  cases hbelow : found.bind Node.children? with
  | none => exact inside_of_none hbelow
  | some children =>
    obtain ⟨n, rfl, hchildren⟩ := Option.bind_eq_some_iff.1 hbelow
    rw [inside_of_children hchildren, lookup?, h]

/-- A path that is put together leads on from where its first part leads to. -/
theorem lookup?_append {outer : String} (inner : String) (h : root.lookup? outer = .ok found) :
    root.lookup? (outer ++ "." ++ inner) = inside (fun children ↦ children.lookup? inner) found := by
  cases hjoined : Path.parse (outer ++ "." ++ inner) with
  | ok r =>
    obtain ⟨p, q, houter, hinner, hsegments⟩ := Path.parse_append_eq_ok_iff.1 hjoined
    obtain ⟨hhead, htail⟩ := List.cons.inj hsegments
    rw [lookup?, houter] at h
    dsimp only at h
    have hfind : (fun children ↦ lookup? children inner) =
        fun children ↦ children.follow? q.head q.tail := by
      funext children
      rw [lookup?, hinner]
    rw [lookup?, hjoined, hfind]
    dsimp only
    change r.tail = p.tail ++ q.head :: q.tail at htail
    rw [hhead, htail, follow?_append, h]
    rfl
  | error fault =>
    rw [lookup?, hjoined]
    cases hinner : Path.parse inner with
    | error fault' => exact (inside_lookup?_of_error hinner found).symm
    | ok q =>
      cases houter : Path.parse outer with
      | error fault' =>
        rw [lookup?, houter] at h
        rw [← Except.ok.inj h]
        rfl
      | ok p =>
        -- Two paths put together are one.
        have hboth := Path.parse_append_eq_ok_iff.2
          ⟨p, q, houter, hinner, (rfl : Path.segments ⟨p.head, p.tail ++ q.segments⟩ = _)⟩
        rw [hjoined] at hboth
        cases hboth

/-- What a path and the two parts of it lead to. -/
structure Composes (root : Forest) (outer inner : String) (found deeper : Option Node) : Prop where
  first : root.lookup? outer = .ok found
  joined : root.lookup? (outer ++ "." ++ inner) = .ok deeper
  entered : ∀ n children, found = some n → n.children? = some children →
    children.lookup? inner = .ok deeper
  missed : found = none → deeper = none
  blocked : ∀ n, found = some n → n.isContainer = false → deeper = none

theorem exists_composes (root : Forest) {outer inner : String} (houter : HasShortPositions outer)
    (hinner : HasShortPositions inner) : ∃ found deeper, Composes root outer inner found deeper := by
  obtain ⟨found, hfound⟩ := houter.exists_lookup? root
  have hjoined := lookup?_append inner hfound
  cases hbelow : found.bind Node.children? with
  | none =>
    rw [inside_of_none hbelow] at hjoined
    refine ⟨found, none, hfound, hjoined, ?_, fun _ ↦ rfl, fun _ _ _ ↦ rfl⟩
    rintro n children rfl hchildren
    rw [Option.bind_some, hchildren] at hbelow
    cases hbelow
  | some children =>
    obtain ⟨n, rfl, hchildren⟩ := Option.bind_eq_some_iff.1 hbelow
    obtain ⟨deeper, hdeeper⟩ := hinner.exists_lookup? children
    rw [inside_of_children hchildren, hdeeper] at hjoined
    refine ⟨some n, deeper, hfound, hjoined, ?_, ?_, ?_⟩
    · intro m others hm hothers
      obtain rfl := Option.some.inj hm
      rw [hchildren] at hothers
      obtain rfl := Option.some.inj hothers
      exact hdeeper
    · intro hnone
      cases hnone
    · intro m hm hleaf
      obtain rfl := Option.some.inj hm
      rw [Node.isContainer, hchildren] at hleaf
      cases hleaf

/-- A lookup takes one step after the other. Each step goes to the first sibling of that name or, if
there is none, to the position that the segment stands for. Where one path ends in a container,
another one leads on among its children, and it leads nowhere from anything else. -/
theorem lookup?_stepwise :
    (∀ (nodes : Forest) (segment : String), Path.isSegment segment.toList = true →
      IsShortPosition segment.toList →
        ∃ found, nodes.lookup? segment = .ok found ∧ nodes.child? segment true = .ok found ∧
          ∀ other, nodes.StandsFor segment other ↔ other = found) ∧
    ∀ (root : Forest) (outer inner : String), HasShortPositions outer → HasShortPositions inner →
      ∃ found deeper, Composes root outer inner found deeper := by
  refine ⟨fun nodes segment hsegment hshort ↦ ?_, fun root outer inner houter hinner ↦ ?_⟩
  · obtain ⟨found, hfound⟩ := exists_standsFor nodes segment
    have hchild := hfound.child?_eq hsegment hshort
    refine ⟨found, (lookup?_segment nodes hsegment).trans hchild, hchild, fun other ↦ ?_⟩
    constructor
    · intro hother
      exact Except.ok.inj ((hother.child?_eq hsegment hshort).symm.trans hchild)
    · rintro rfl
      exact hfound
  · exact exists_composes root houter hinner

/-- By position into the list, and by name into what is found there. -/
theorem lookup?_stepwise_stale :
    HasShortPositions "l.0" ∧ HasShortPositions "x" ∧
      (∃ found, Composes stale "l.0" "x" found (some ⟨"k", "x", .leaf (.boolean true)⟩)) ∧
      ∃ found, stale.lookup? "0" = .ok found ∧ stale.child? "0" true = .ok found ∧
        ∀ other, stale.StandsFor "0" other ↔ other = found := by
  have houter : HasShortPositions "l.0" := by
    unfold HasShortPositions IsShortPosition
    decide
  have hinner : HasShortPositions "x" := by
    unfold HasShortPositions IsShortPosition
    decide
  obtain ⟨found, deeper, h⟩ := lookup?_stepwise.2 stale "l.0" "x" houter hinner
  have hdeeper : stale.lookup? ("l.0" ++ "." ++ "x") =
      .ok (some ⟨"k", "x", .leaf (.boolean true)⟩) := by
    cbv
  rw [h.joined] at hdeeper
  obtain rfl := Except.ok.inj hdeeper
  refine ⟨houter, hinner, ⟨found, h⟩, ?_⟩
  exact lookup?_stepwise.1 stale "0" (by decide) (by unfold IsShortPosition; decide)

end Forest

end KeyTree
