import KeyTree.Proofs.Text.Fields
import KeyTree.Proofs.Url.Percent
import KeyTree.Url.Basic

/-!
# Paths resolved once

A resolved path has no dot segments, encoding makes none, and a path without them resolves to itself.
What starts with a slash does so afterwards.
-/

namespace KeyTree.Url

/-! ## Dot segments -/

/-- A segment that stays in a path. -/
def IsPlainSegment (segment : List Char) : Prop := segment ≠ ['.'] ∧ segment ≠ ['.', '.']

/-- A path without dot segments. -/
def IsResolved (path : List Char) : Prop :=
  ∀ segment ∈ Text.fieldList '/' path, IsPlainSegment segment

theorem resolveSegment_of_isPlainSegment {segment : List Char} (h : IsPlainSegment segment)
    (before : List (List Char)) : resolveSegment before segment = segment :: before := by
  rw [resolveSegment, if_neg (by rw [beq_iff_eq]; exact h.1), if_neg (by rw [beq_iff_eq]; exact h.2)]

theorem foldl_resolveSegment {segments : List (List Char)}
    (h : ∀ segment ∈ segments, IsPlainSegment segment) (before : List (List Char)) :
    segments.foldl resolveSegment before = segments.reverse ++ before := by
  induction segments generalizing before with
  | nil => rfl
  | cons segment segments ih =>
    rw [List.forall_mem_cons] at h
    rw [List.foldl_cons, resolveSegment_of_isPlainSegment h.1, ih h.2, List.reverse_cons,
      List.append_assoc, List.singleton_append]

theorem resolveDots_of_isResolved {path : List Char} (h : IsResolved path) :
    resolveDots path = path := by
  rw [resolveDots, foldl_resolveSegment h, List.append_nil, List.reverse_reverse,
    Text.joined_fieldList]

/-- The segments that are left stood in the path, and are no dot segments. -/
theorem mem_resolveSegment {before : List (List Char)} {segment other : List Char}
    (h : other ∈ resolveSegment before segment) :
    other ∈ before ∨ other = segment ∧ IsPlainSegment segment := by
  rw [resolveSegment] at h
  split at h
  case isTrue => exact .inl h
  case isFalse hdot =>
    split at h
    case isTrue =>
      split at h
      case isTrue => exact .inl h
      case isFalse => exact .inl (List.mem_of_mem_drop h)
    case isFalse hdots =>
      rw [beq_iff_eq] at hdot hdots
      exact (List.mem_cons.1 h).symm.imp_right fun heq ↦ ⟨heq, hdot, hdots⟩

theorem mem_foldl_resolveSegment {segments before : List (List Char)} {segment : List Char}
    (h : segment ∈ segments.foldl resolveSegment before) :
    segment ∈ before ∨ segment ∈ segments ∧ IsPlainSegment segment := by
  induction segments generalizing before with
  | nil => exact .inl h
  | cons first segments ih =>
    rcases ih h with h | ⟨hmem, hplain⟩
    · refine (mem_resolveSegment h).imp_right ?_
      rintro ⟨rfl, hplain⟩
      exact ⟨List.mem_cons_self, hplain⟩
    · exact .inr ⟨List.mem_cons_of_mem first hmem, hplain⟩

theorem isResolved_resolveDots (path : List Char) : IsResolved (resolveDots path) := by
  have hleft (segment : List Char)
      (h : segment ∈ ((Text.fieldList '/' path).foldl resolveSegment []).reverse) :
      '/' ∉ segment ∧ IsPlainSegment segment := by
    rcases mem_foldl_resolveSegment (List.mem_reverse.1 h) with h | ⟨hmem, hplain⟩
    · cases h
    · exact ⟨Text.not_mem_of_mem_fieldList hmem, hplain⟩
  intro segment hsegment
  rw [resolveDots] at hsegment
  cases hsegments : ((Text.fieldList '/' path).foldl resolveSegment []).reverse with
  | nil =>
    rw [hsegments] at hsegment
    rw [List.mem_singleton.1 hsegment]
    exact ⟨(List.cons_ne_nil _ _).symm, (List.cons_ne_nil _ _).symm⟩
  | cons first others =>
    rw [hsegments] at hsegment hleft
    rw [Text.fieldList, Text.fields_joined fun field hfield ↦ (hleft field hfield).1] at hsegment
    exact (hleft segment hsegment).2

/-! ## Encoding -/

theorem fieldList_percentEncode {isSafe : Char → Bool} (hslash : isSafe '/' = true) (s : List Char) :
    Text.fieldList '/' (percentEncode isSafe s) =
      (Text.fieldList '/' s).map (percentEncode isSafe) := by
  induction s with
  | nil => rfl
  | cons c s ih =>
    rw [percentEncode_cons]
    by_cases hc : c = '/'
    · have hsafe : isEncoded isSafe '/' = true := by rw [isEncoded, hslash, Bool.or_true]
      rw [hc, if_pos hsafe, List.singleton_append, Text.fieldList_cons_self, ih,
        Text.fieldList_cons_self]
      rfl
    · have hchar : '/' ∉ if isEncoded isSafe c then [c] else percentChar c := by
        intro hmem
        split at hmem
        case isTrue => exact hc (List.mem_singleton.1 hmem).symm
        case isFalse =>
          rcases eq_percent_or_of_mem_percentChar hmem with h | h
          · exact absurd h (by decide)
          · exact absurd h (by decide)
      obtain ⟨hfirst, hothers⟩ := List.cons.inj ih
      rw [Text.fieldList_append_of_not_mem hchar, Text.fieldList_cons_of_ne hc, hfirst, hothers]
      rfl

theorem IsPlainSegment.percentEncode {isSafe : Char → Bool} {segment : List Char}
    (h : IsPlainSegment segment) : IsPlainSegment (percentEncode isSafe segment) := by
  constructor
  · intro hdot
    obtain ⟨rest, rfl, hrest⟩ := exists_of_percentEncode_eq_cons (by decide) hdot
    rw [percentEncode_eq_nil_iff.1 hrest] at h
    exact h.1 rfl
  · intro hdots
    obtain ⟨rest, rfl, hrest⟩ := exists_of_percentEncode_eq_cons (by decide) hdots
    obtain ⟨more, rfl, hmore⟩ := exists_of_percentEncode_eq_cons (by decide) hrest
    rw [percentEncode_eq_nil_iff.1 hmore] at h
    exact h.2 rfl

theorem IsResolved.percentEncode {path : List Char} (h : IsResolved path) :
    IsResolved (percentEncode isPathSafe path) := by
  intro segment hsegment
  rw [fieldList_percentEncode (by decide)] at hsegment
  obtain ⟨plain, hplain, rfl⟩ := List.mem_map.1 hsegment
  exact (h plain hplain).percentEncode

/-! ## Paths from the root -/

/-- A path that is empty or starts with a slash. -/
def IsRooted (path : List Char) : Prop := path = [] ∨ ∃ rest, path = '/' :: rest

theorem checkPath_true_iff {hasScheme : Bool} {path : List Char} :
    checkPath hasScheme true path = .ok () ↔ IsRooted path := by
  cases path with
  | nil => exact iff_of_true rfl (.inl rfl)
  | cons c rest =>
    simp only [checkPath, if_true, List.isEmpty_cons, Bool.false_or, List.head?_cons]
    split
    case isTrue h =>
      rw [beq_iff_eq, Option.some.injEq] at h
      exact iff_of_true rfl (.inr ⟨rest, by rw [h]⟩)
    case isFalse h =>
      refine iff_of_false (fun h ↦ nomatch h) ?_
      rintro (h' | ⟨rest', h'⟩)
      · cases h'
      · obtain ⟨rfl, -⟩ := List.cons.inj h'
        exact h rfl

/-- The root of a path is never left. -/
theorem exists_foldl_resolveSegment (segments before : List (List Char)) :
    ∃ left, segments.foldl resolveSegment (before ++ [[]]) = left ++ [[]] := by
  induction segments generalizing before with
  | nil => exact ⟨before, rfl⟩
  | cons segment segments ih =>
    have hstep : ∃ left, resolveSegment (before ++ [[]]) segment = left ++ [[]] := by
      rw [resolveSegment]
      split
      · exact ⟨before, rfl⟩
      · split
        · split
          · exact ⟨before, rfl⟩
          case isFalse hroot =>
            cases before with
            | nil => exact absurd rfl hroot
            | cons last before => exact ⟨before, rfl⟩
        · exact ⟨segment :: before, rfl⟩
    obtain ⟨left, hleft⟩ := hstep
    rw [List.foldl_cons, hleft]
    exact ih left

theorem IsRooted.resolveDots {path : List Char} (h : IsRooted path) :
    IsRooted (resolveDots path) := by
  rcases h with rfl | ⟨rest, rfl⟩
  · exact .inl rfl
  · obtain ⟨left, hleft⟩ := exists_foldl_resolveSegment (Text.fieldList '/' rest) []
    have hfirst : resolveSegment [] [] = [] ++ [[]] := rfl
    rw [Url.resolveDots, Text.fieldList_cons_self, List.foldl_cons, hfirst, hleft,
      List.reverse_append, List.reverse_singleton, List.singleton_append]
    cases left.reverse with
    | nil => exact .inl rfl
    | cons next others => exact .inr ⟨_, rfl⟩

theorem IsRooted.percentEncode {path : List Char} (h : IsRooted path) :
    IsRooted (percentEncode isPathSafe path) := by
  rcases h with rfl | ⟨rest, rfl⟩
  · exact .inl rfl
  · exact .inr ⟨_, rfl⟩

/-! ## Paths that are read -/

/-- A path as it is read: resolved, unless nothing stands before it, and encoded. -/
def readPath (hasScheme hasAuthority : Bool) (path : List Char) : List Char :=
  percentEncode isPathSafe (if hasScheme || hasAuthority then resolveDots path else path)

variable {hasScheme hasAuthority : Bool} {path : List Char}

theorem checkPath_percentEncode (h : checkPath false false path = .ok ()) :
    checkPath false false (percentEncode isPathSafe path) = .ok () := by
  simp only [checkPath, Bool.false_eq_true, if_false]
  split
  case h_1 rest hslashes =>
    obtain ⟨more, rfl, hmore⟩ := exists_of_percentEncode_eq_cons (by decide) hslashes
    obtain ⟨last, rfl, -⟩ := exists_of_percentEncode_eq_cons (by decide) hmore
    cases h
  case h_2 rest hcolon =>
    obtain ⟨more, rfl, -⟩ := exists_of_percentEncode_eq_cons (by decide) hcolon
    cases h
  case h_3 => rfl

theorem checkPath_readPath (h : checkPath hasScheme hasAuthority path = .ok ()) :
    checkPath hasScheme hasAuthority (readPath hasScheme hasAuthority path) = .ok () := by
  cases hasAuthority with
  | true =>
    rw [readPath, Bool.or_true, if_pos rfl]
    exact checkPath_true_iff.2 (checkPath_true_iff.1 h).resolveDots.percentEncode
  | false =>
    cases hasScheme with
    | true => rfl
    | false => exact checkPath_percentEncode h

theorem isResolved_readPath (h : (hasScheme || hasAuthority) = true) :
    IsResolved (readPath hasScheme hasAuthority path) := by
  rw [readPath, if_pos h]
  exact (isResolved_resolveDots path).percentEncode

/-- A path that was read reads as it is. -/
theorem readPath_eq_self (hchars : ∀ c ∈ path, isEncoded isPathSafe c = true)
    (hresolved : (hasScheme || hasAuthority) = true → IsResolved path) :
    readPath hasScheme hasAuthority path = path := by
  rw [readPath]
  split
  case isTrue h => rw [resolveDots_of_isResolved (hresolved h), percentEncode_eq_self hchars]
  case isFalse => exact percentEncode_eq_self hchars

end KeyTree.Url
