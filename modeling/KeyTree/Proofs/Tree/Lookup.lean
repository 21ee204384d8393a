import KeyTree.Proofs.Text.Fields
import KeyTree.Tree.Lookup

/-!
# Lookups without a result

A lookup has a result, if only a miss, unless a segment is read as a position that has more digits
than are read.
-/

namespace KeyTree

/-! ## Paths -/

theorem Path.not_mem_of_isSegment {segment : List Char} (h : isSegment segment = true) :
    '.' ∉ segment := by
  apply Text.not_mem_of_forall (List.all_eq_true.1 (Bool.and_eq_true _ _ ▸ h).2)
  decide

/-- The path that segments with points between them spell. -/
theorem Path.parse_joined {first : List Char} {others : List (List Char)}
    (h : ∀ segment ∈ first :: others, isSegment segment = true) :
    parse (String.ofList (Text.joined ['.'] (first :: others))) =
      .ok ⟨String.ofList first, others.map String.ofList⟩ := by
  have hpoint : ∀ segment ∈ first :: others, '.' ∉ segment :=
    fun segment hsegment ↦ not_mem_of_isSegment (h segment hsegment)
  have hvalid : (first :: others).find? (fun segment ↦ !isSegment segment) = none := by
    rw [List.find?_eq_none]
    intro segment hsegment
    rw [h segment hsegment]
    decide
  unfold parse
  rw [String.toList_ofList, Text.fields_joined hpoint]
  dsimp only
  rw [hvalid]

theorem Path.parse_segment {segment : String} (h : isSegment segment.toList = true) :
    parse segment = .ok ⟨segment, []⟩ := by
  have hparse := @parse_joined segment.toList [] (List.forall_mem_singleton.2 h)
  rwa [Text.joined, List.map_nil, String.ofList_toList] at hparse

/-- There are paths with any number of segments. -/
theorem Path.exists_parse_replicate (count : Nat) :
    ∃ path, parse (String.ofList (Text.joined ['.'] (List.replicate (count + 1) ['a']))) = .ok path ∧
      path.head = "a" ∧ path.tail.length = count := by
  refine ⟨⟨"a", (List.replicate count ['a']).map String.ofList⟩, ?_, rfl, ?_⟩
  · rw [List.replicate_succ]
    apply parse_joined
    intro segment hsegment
    rw [← List.replicate_succ] at hsegment
    rw [List.eq_of_mem_replicate hsegment]
    rfl
  · rw [List.length_map, List.length_replicate]

/-- A text is refused as a path for the first of its fields that is no segment. -/
theorem Path.parse_eq_error_iff {text : String} {fault : PathFault} : parse text = .error fault ↔
    ∃ before segment after, Text.fieldList '.' text.toList = before ++ segment :: after ∧
      (∀ field ∈ before, isSegment field = true) ∧ isSegment segment = false ∧
      fault = ⟨text, String.ofList segment⟩ := by
  have hfirst (segment : List Char) :
      (Text.fieldList '.' text.toList).find? (fun field ↦ !isSegment field) = some segment ↔
        isSegment segment = false ∧ ∃ before after,
          Text.fieldList '.' text.toList = before ++ segment :: after ∧
            ∀ field ∈ before, isSegment field = true := by
    simp only [List.find?_eq_some_iff_append, Bool.not_eq_true', Bool.not_not]
  unfold parse
  dsimp only
  split
  case h_1 segment hfind =>
    constructor
    · intro h
      obtain ⟨hsegment, before, after, hfields, hbefore⟩ := (hfirst segment).1 hfind
      exact ⟨before, segment, after, hfields, hbefore, hsegment, (Except.error.inj h).symm⟩
    · rintro ⟨before, segment', after, hfields, hbefore, hsegment, rfl⟩
      have hfind' := (hfirst segment').2 ⟨hsegment, before, after, hfields, hbefore⟩
      rw [Option.some.inj (hfind.symm.trans hfind')]
  case h_2 hfind =>
    refine iff_of_false (fun h ↦ by cases h) ?_
    rintro ⟨before, segment, after, hfields, hbefore, hsegment, -⟩
    have hfind' := (hfirst segment).2 ⟨hsegment, before, after, hfields, hbefore⟩
    cases hfind.symm.trans hfind'

namespace Forest

/-! ## Lookups -/

/-- A segment that names no sibling, and has more digits than a position may have. -/
structure IsOverrunBy (nodes : Forest) (segment : String) : Prop where
  unnamed : nodes.named? segment = none
  digits : segment.toList.all Text.isDigit = true
  long : TooManyDigits.limit < segment.toList.length

/-- Segments that lead to siblings which the next segment overruns. -/
inductive Overruns : Forest → String → List String → Prop
  | here {nodes : Forest} {head : String} (tail : List String) (h : nodes.IsOverrunBy head) :
      Overruns nodes head tail
  | inside {nodes children : Forest} {head next : String} {rest : List String} {n : Node}
      (hchild : nodes.child? head true = .ok (some n)) (hchildren : n.children? = some children)
      (h : Overruns children next rest) : Overruns nodes head (next :: rest)

/-- A path whose segments overrun the siblings that they lead to. -/
def OverrunsAt (root : Forest) (path : String) : Prop :=
  ∃ p, Path.parse path = .ok p ∧ root.Overruns p.head p.tail

theorem child?_error_iff {nodes : Forest} {segment : String} :
    (∃ fault, nodes.child? segment true = .error fault) ↔ nodes.IsOverrunBy segment := by
  unfold child?
  cases hnamed : nodes.named? segment with
  | some n =>
    constructor
    · rintro ⟨fault, h⟩
      cases h
    · intro h
      rw [h.unnamed] at hnamed
      cases hnamed
  | none =>
    dsimp only
    constructor
    · rintro ⟨fault, h⟩
      split at h
      case isTrue hdigits =>
        rw [Bool.true_and, Bool.and_eq_true] at hdigits
        unfold Whole.read at h
        split at h
        case isTrue hlong => exact ⟨hnamed, hdigits.2, hlong⟩
        case isFalse => cases h
      case isFalse => cases h
    · intro h
      have hnonempty : segment.toList.isEmpty = false := by
        rw [List.isEmpty_eq_false_iff, ← List.length_pos_iff]
        exact Nat.lt_of_le_of_lt (Nat.zero_le _) h.long
      have hread : Whole.read segment.toList = .error ⟨segment.toList.length⟩ := if_pos h.long
      rw [hnonempty, h.digits, hread]
      exact ⟨_, rfl⟩

theorem follow?_error_iff {nodes : Forest} {head : String} {tail : List String} :
    (∃ fault, nodes.follow? head tail = .error fault) ↔ nodes.Overruns head tail := by
  induction tail generalizing nodes head with
  | nil =>
    rw [follow?, child?_error_iff]
    constructor
    · intro h
      exact .here [] h
    · intro h
      cases h with
      | here _ h => exact h
  | cons next rest ih =>
    rw [follow?]
    cases hchild : nodes.child? head true with
    | error fault => exact iff_of_true ⟨fault, rfl⟩ (.here _ (child?_error_iff.1 ⟨fault, hchild⟩))
    | ok found =>
      have hinside : ¬ nodes.IsOverrunBy head := by
        intro h
        obtain ⟨fault, hfault⟩ := child?_error_iff.2 h
        rw [hchild] at hfault
        cases hfault
      dsimp only [bind, Except.bind]
      constructor
      · rintro ⟨fault, h⟩
        split at h
        case h_1 => cases h
        case h_2 children hbelow =>
          obtain ⟨n, rfl, hchildren⟩ := Option.bind_eq_some_iff.1 hbelow
          exact .inside hchild hchildren (ih.1 ⟨fault, h⟩)
      · intro h
        cases h with
        | here _ h => exact absurd h hinside
        | inside hchild' hchildren h =>
          rw [hchild] at hchild'
          obtain rfl := Except.ok.inj hchild'
          rw [Option.bind_some, hchildren]
          exact ih.2 h

/-- A lookup has a result just where the path does not overrun the siblings on its way. -/
theorem lookup?_error_iff {root : Forest} {path : String} :
    (∃ fault, root.lookup? path = .error fault) ↔ root.OverrunsAt path := by
  unfold lookup? OverrunsAt
  cases hpath : Path.parse path with
  | error fault =>
    constructor
    · rintro ⟨fault, h⟩
      cases h
    · rintro ⟨p, hp, -⟩
      cases hp
  | ok p =>
    dsimp only
    rw [follow?_error_iff]
    constructor
    · intro h
      exact ⟨p, rfl, h⟩
    · rintro ⟨p', hp, h⟩
      obtain rfl := Except.ok.inj hp
      exact h

/-- A run of digits that is too long and names no node of the tree. -/
theorem overrunsAt_replicate {root : Forest} {count : Nat} (hcount : TooManyDigits.limit < count)
    (hroot : root.named? (String.ofList (List.replicate count '1')) = none) :
    root.OverrunsAt (String.ofList (List.replicate count '1')) := by
  have hpositive : count ≠ 0 := by
    rintro rfl
    exact Nat.not_lt_zero _ hcount
  have hsegment : Path.isSegment (String.ofList (List.replicate count '1')).toList = true := by
    rw [String.toList_ofList, Path.isSegment, List.all_replicate, if_neg hpositive, List.isEmpty_replicate]
    rw [decide_eq_false hpositive]
    decide
  refine ⟨_, Path.parse_segment hsegment, .here [] ⟨hroot, ?_, ?_⟩⟩
  · rw [String.toList_ofList, List.all_replicate, if_neg hpositive]
    decide
  · rw [String.toList_ofList, List.length_replicate]
    exact hcount

end Forest

end KeyTree
