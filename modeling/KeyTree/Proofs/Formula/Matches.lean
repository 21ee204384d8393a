import KeyTree.Proofs.Formula.References
import KeyTree.Proofs.Formula.Substitution
import KeyTree.Proofs.Tree.Ways

/-!
# Where the references of a formula stand

Every text has exactly one list of leftmost references that do not overlap. A formula is filled in
there and nowhere else: what stands between its references is kept, and the text that comes in for a
reference is not searched. The first reference that has no text settles the result: if it leads
nowhere, the failure names it, and if it leads to a container that nests too deeply, there is none.
-/

namespace KeyTree.Formula

/-- A path in braces. -/
def braced (path : List Char) : List Char := '{' :: '{' :: path ++ ['}', '}']

/-- A path that may stand in braces. -/
structure IsBraceable (path : List Char) : Prop where
  nonempty : path ≠ []
  chars : ∀ c ∈ path, isReferenceChar c = true

/-- A reference and what stands in front of it, back to the reference before. -/
structure Occurrence where
  before : List Char
  path : List Char

/-- A text with a word in the place of each reference. -/
def joined (word : List Char → List Char) (occurrences : List Occurrence) (last : List Char) :
    List Char :=
  occurrences.flatMap (fun o ↦ o.before ++ word o.path) ++ last

/-- A reference starts behind the given part of a text. -/
def StartsAfter (s before : List Char) : Prop :=
  ∃ path after, IsBraceable path ∧ s = before ++ (braced path ++ after)

/-- The leftmost references of a text that do not overlap, and what stands behind the last of them. -/
inductive Leftmost : List Char → List Occurrence → List Char → Prop
  | none {s : List Char} (hnone : ∀ before, ¬ StartsAfter s before) : Leftmost s [] s
  | next {before path after last : List Char} {occurrences : List Occurrence}
    (hpath : IsBraceable path)
    (hfirst : ∀ front, StartsAfter (before ++ (braced path ++ after)) front →
      before.length ≤ front.length)
    (hrest : Leftmost after occurrences last) :
    Leftmost (before ++ (braced path ++ after)) (⟨before, path⟩ :: occurrences) last

section

variable {s last : List Char} {occurrences : List Occurrence}

/-- Nothing of a text is lost. -/
theorem Leftmost.joined_braced (h : Leftmost s occurrences last) :
    joined braced occurrences last = s := by
  induction h with
  | none => rfl
  | @next before path after last occurrences hpath hfirst hrest ih =>
    rw [joined, List.flatMap_cons, List.append_assoc, ← joined, ih, List.append_assoc]

theorem scanReference?_braced {path : List Char} (h : IsBraceable path) (after : List Char) :
    scanReference? (braced path ++ after) = some (path, after) := by
  have hscan := scanReference?_append h.nonempty h.chars after
  rwa [braced, List.append_assoc]

/-- The closing braces tell where a path ends. -/
theorem IsBraceable.eq_of_append {path path' after after' : List Char} (h : IsBraceable path)
    (h' : IsBraceable path') (heq : braced path ++ after = braced path' ++ after') :
    path = path' ∧ after = after' := by
  have hscan := scanReference?_braced h after
  rw [heq, scanReference?_braced h'] at hscan
  exact Prod.mk.inj (Option.some.inj hscan.symm)

/-- A text has one list of leftmost references. -/
theorem Leftmost.unique {occurrences' : List Occurrence} {last' : List Char}
    (h : Leftmost s occurrences last) (h' : Leftmost s occurrences' last') :
    occurrences' = occurrences ∧ last' = last := by
  induction h generalizing occurrences' last' with
  | none hnone =>
    cases h' with
    | none => exact ⟨rfl, rfl⟩
    | @next before path after _ _ hpath => exact absurd ⟨path, after, hpath, rfl⟩ (hnone before)
  | @next before path after last occurrences hpath hfirst hrest ih =>
    generalize hs : before ++ (braced path ++ after) = s at h' hfirst
    cases h' with
    | none hnone => exact absurd ⟨path, after, hpath, hs.symm⟩ (hnone before)
    | @next before' path' after' _ occurrences' hpath' hfirst' hrest' =>
      -- Each of the two starts no further behind than the other.
      have hlength : before.length = before'.length :=
        Nat.le_antisymm (hfirst before' ⟨path', after', hpath', rfl⟩)
          (hfirst' before ⟨path, after, hpath, hs.symm⟩)
      obtain ⟨rfl, hbehind⟩ := List.append_inj hs hlength
      obtain ⟨rfl, rfl⟩ := hpath.eq_of_append hpath' hbehind
      obtain ⟨rfl, rfl⟩ := ih hrest'
      exact ⟨rfl, rfl⟩

/-! ## The references that are found -/

/-- The pieces that references make up with what stands around them. -/
def parts (occurrences : List Occurrence) (last : List Char) : List Piece :=
  occurrences.flatMap (fun o ↦ o.before.map .char ++ [.reference o.path]) ++ last.map .char

/-- Where nothing is scanned, references start further behind. -/
theorem startsAfter_cons {c : Char} {rest front : List Char}
    (h : scanReference? (c :: rest) = none) (hfront : StartsAfter (c :: rest) front) :
    ∃ front', front = c :: front' ∧ StartsAfter rest front' := by
  cases front with
  | nil =>
    obtain ⟨path, after, hpath, hs⟩ := hfront
    rw [hs, List.nil_append, scanReference?_braced hpath] at h
    cases h
  | cons d front' =>
    obtain ⟨path, after, hpath, hs⟩ := hfront
    obtain ⟨rfl, hrest⟩ := List.cons.inj hs
    exact ⟨front', rfl, path, after, hpath, hrest⟩

/-- The pieces of a text are cut out at its leftmost references. -/
theorem exists_leftmost (s : List Char) :
    ∃ occurrences last, Leftmost s occurrences last ∧ pieces s = parts occurrences last := by
  induction s using pieces.induct with
  | case1 =>
    refine ⟨[], [], .none ?_, by rw [pieces]; rfl⟩
    rintro before ⟨path, after, -, hs⟩
    simp [braced] at hs
  | case2 c rest path after hscan hlength ih =>
    obtain ⟨occurrences, last, hleftmost, hpieces⟩ := ih
    obtain ⟨hnonempty, hchars, hs⟩ := scanReference?_eq_some hscan
    refine ⟨⟨[], path⟩ :: occurrences, last, ?_, ?_⟩
    · have hbraced : '{' :: '{' :: path ++ '}' :: '}' :: after = [] ++ (braced path ++ after) := by
        rw [braced, List.append_assoc]
        rfl
      rw [hs, hbraced]
      exact .next ⟨hnonempty, hchars⟩ (fun _ _ ↦ Nat.zero_le _) hleftmost
    · rw [hs, pieces_reference_append hnonempty hchars, hpieces]
      rfl
  | case3 c rest hscan ih =>
    obtain ⟨occurrences, last, hleftmost, hpieces⟩ := ih
    rw [pieces_of_scanReference?_none hscan, hpieces]
    -- The character goes in front of the first reference, or of the text that has none.
    cases hleftmost with
    | none hnone =>
      refine ⟨[], c :: rest, .none fun front hfront ↦ ?_, rfl⟩
      obtain ⟨front', -, hrest⟩ := startsAfter_cons hscan hfront
      exact hnone front' hrest
    | @next before path after _ occurrences hpath hfirst hrest =>
      refine ⟨⟨c :: before, path⟩ :: occurrences, last, ?_, rfl⟩
      rw [← List.cons_append]
      refine .next hpath (fun front hfront ↦ ?_) hrest
      obtain ⟨front', rfl, hfront'⟩ := startsAfter_cons hscan hfront
      exact Nat.succ_le_succ (hfirst front' hfront')

theorem parts_cons (o : Occurrence) (occurrences : List Occurrence) (last : List Char) :
    parts (o :: occurrences) last =
      o.before.map .char ++ .reference o.path :: parts occurrences last := by
  rw [parts, List.flatMap_cons, List.append_assoc, ← parts, List.append_assoc,
    List.singleton_append]

theorem joined_cons (word : List Char → List Char) (o : Occurrence)
    (occurrences : List Occurrence) (last : List Char) :
    joined word (o :: occurrences) last =
      o.before ++ (word o.path ++ joined word occurrences last) := by
  rw [joined, List.flatMap_cons, List.append_assoc, ← joined, List.append_assoc]

theorem any_parts (occurrences : List Occurrence) (last : List Char) :
    (parts occurrences last).any Piece.isReference = !occurrences.isEmpty := by
  cases occurrences with
  | nil => exact any_map_char last
  | cons o occurrences =>
    rw [parts_cons, List.any_append, any_map_char, List.any_cons]
    rfl

end

/-! ## Filling in -/

section

variable {root : Forest} {occurrences : List Occurrence}

/-- What comes in for a path that leads to a node. -/
def replacement (root : Forest) (path : List Char) : List Char :=
  match root.lookup? (String.ofList path) with
  | .ok (some n) => n.rendered.toList
  | _ => []

/-- A path leads nowhere. -/
def isMissing (root : Forest) (path : List Char) : Bool :=
  match root.lookup? (String.ofList path) with
  | .ok none => true
  | _ => false

/-- A path leads to a node that becomes a text. -/
def hasText (root : Forest) (path : List Char) : Bool :=
  match root.lookup? (String.ofList path) with
  | .ok (some n) => n.isRenderable
  | _ => false

theorem exists_node_of_hasText {path : List Char} (h : hasText root path = true) :
    ∃ n, root.lookup? (String.ofList path) = .ok (some n) ∧ n.isRenderable = true := by
  unfold hasText at h
  split at h
  case h_1 n hlookup => exact ⟨n, hlookup, h⟩
  case h_2 => cases h

/-- A path that may be followed and has no text leads nowhere, or too deep. -/
theorem isMissing_or_leadsTooDeep {path : List Char}
    (hshort : Forest.HasShortPositions (String.ofList path)) (h : hasText root path = false) :
    isMissing root path = true ∨ LeadsTooDeep root path := by
  obtain ⟨found, hfound⟩ := hshort.exists_lookup? root
  rw [hasText, hfound] at h
  cases found with
  | none =>
    rw [isMissing, hfound]
    exact .inl rfl
  | some n => exact .inr ⟨n, hfound, h⟩

theorem lookup?_of_isMissing {path : List Char} (h : isMissing root path = true) :
    root.lookup? (String.ofList path) = .ok none := by
  unfold isMissing at h
  split at h
  case h_1 hlookup => exact hlookup
  case h_2 => cases h

theorem replacement_of_lookup? {path : List Char} {n : Node}
    (h : root.lookup? (String.ofList path) = .ok (some n)) :
    replacement root path = n.rendered.toList := by
  rw [replacement, h]

theorem fill_reference {path : List Char} (h : hasText root path = true) :
    (Piece.reference path).fill root = .ok (replacement root path) := by
  obtain ⟨n, hlookup, hn⟩ := exists_node_of_hasText h
  rw [fill_of_isRenderable hlookup hn, replacement_of_lookup? hlookup]

theorem fill_parts (last : List Char) (h : ∀ o ∈ occurrences, hasText root o.path = true) :
    fill root (parts occurrences last) = .ok (joined (replacement root) occurrences last) := by
  induction occurrences with
  | nil =>
    have hnil : fill root [] = .ok [] := rfl
    have hfill := fill_chars_append last hnil
    rwa [List.append_nil, List.append_nil] at hfill
  | cons o occurrences ih =>
    obtain ⟨ho, hothers⟩ := List.forall_mem_cons.mp h
    rw [parts_cons, joined_cons]
    exact fill_chars_append o.before (fill_cons (fill_reference ho) (ih hothers))

/-- What stands in front of the first reference without a text is filled in, but comes to nothing. -/
theorem fill_parts_eq_error {before after : List Occurrence} {o : Occurrence} {fault : FillFault}
    (last : List Char) (hbefore : ∀ o ∈ before, hasText root o.path = true)
    (ho : (Piece.reference o.path).fill root = .error fault) :
    fill root (parts (before ++ o :: after) last) = .error fault := by
  have hsplit : parts (before ++ o :: after) last =
      parts before o.before ++ .reference o.path :: parts after last := by
    simp only [parts, List.flatMap_append, List.flatMap_cons, List.append_assoc,
      List.cons_append, List.nil_append]
  have hfront : ∀ piece ∈ parts before o.before, ∃ text, piece.fill root = .ok text := by
    obtain ⟨texts, htexts, -⟩ := exists_of_map_eq_ok (fill_parts o.before hbefore)
    intro piece hpiece
    obtain ⟨text, -, hfill⟩ := exists_of_mapM_of_mem htexts hpiece
    exact ⟨text, hfill⟩
  rw [fill, hsplit, mapM_eq_error hfront ho]
  rfl

end

/-- A formula is evaluated in one pass over its references. -/
structure SinglePass (cache : Arithmetic.Cache) (root : Forest) (formula : String)
    (occurrences : List Occurrence) (last : List Char) : Prop where
  /-- References and what stands around them make up the formula. -/
  whole : joined braced occurrences last = formula.toList
  plain : occurrences = [] → evaluate cache root formula = (.ok (.text formula), cache)
  /-- If the first reference without a text leads nowhere, the failure names it. -/
  missing : ∀ o, occurrences.find? (fun o ↦ !hasText root o.path) = some o →
    isMissing root o.path = true →
    ∃ result, evaluate cache root formula = (.ok result, cache) ∧ result.shown = "ERR" ∧
      result = .failure s!"Key not found: {String.ofList o.path}"
  /-- If it leads too deep, there is no result. -/
  tooDeep : ∀ o, occurrences.find? (fun o ↦ !hasText root o.path) = some o →
    isMissing root o.path = false →
    LeadsTooDeep root o.path ∧ evaluate cache root formula = (.error .tooDeep, cache)
  /-- Otherwise all references give way to the texts of their nodes at once. -/
  filled : occurrences ≠ [] → occurrences.find? (fun o ↦ !hasText root o.path) = none →
    (∀ o ∈ occurrences, ∃ n, root.lookup? (String.ofList o.path) = .ok (some n) ∧
      replacement root o.path = n.rendered.toList) ∧
    evaluate cache root formula = settle cache (joined (replacement root) occurrences last)
  text : ∀ value, (evaluate cache root formula).1 = .ok (.text value) →
    value = String.ofList (joined (replacement root) occurrences last)
  /-- A formula that is referred to comes in as it is written. -/
  expression : ∀ o ∈ occurrences, ∀ n written, root.lookup? (String.ofList o.path) = .ok (some n) →
    n.payload = .leaf (.expression written) → replacement root o.path = written.toList

section

variable {cache : Arithmetic.Cache} {root : Forest} {formula : String}
  {occurrences : List Occurrence} {last : List Char}

theorem text_of_settle {filled : List Char} {value : String}
    (h : (settle cache filled).1 = .ok (.text value)) : value = String.ofList filled := by
  unfold settle at h
  dsimp only at h
  split at h
  case isTrue =>
    split at h
    all_goals cases h
  case isFalse => exact (Evaluation.text.inj (Except.ok.inj h)).symm

theorem hasText_of_find?_eq_none (h : occurrences.find? (fun o ↦ !hasText root o.path) = none) :
    ∀ o ∈ occurrences, hasText root o.path = true := by
  intro o ho
  have hfound := List.find?_eq_none.mp h o ho
  rwa [Bool.not_eq_true, Bool.not_eq_false'] at hfound

variable (hpieces : pieces formula.toList = parts occurrences last)

include hpieces

theorem any_pieces : (pieces formula.toList).any Piece.isReference = !occurrences.isEmpty := by
  rw [hpieces, any_parts]

theorem evaluate_of_nil (hnone : occurrences = []) :
    evaluate cache root formula = (.ok (.text formula), cache) := by
  rw [evaluate, any_pieces hpieces, hnone]
  rfl

theorem evaluate_of_fill {filled : List Char} (hsome : occurrences ≠ [])
    (hfill : fill root (parts occurrences last) = .ok filled) :
    evaluate cache root formula = settle cache filled := by
  rw [evaluate, any_pieces hpieces, List.isEmpty_eq_false_iff.mpr hsome, hpieces, hfill]
  rfl

/-- The first reference without a text settles what a formula is filled in with. -/
theorem fill_of_find?_eq_some {o : Occurrence} {fault : FillFault}
    (ho : occurrences.find? (fun o ↦ !hasText root o.path) = some o)
    (hfault : (Piece.reference o.path).fill root = .error fault) :
    occurrences ≠ [] ∧ fill root (pieces formula.toList) = .error fault := by
  obtain ⟨-, before, after, hsplit, hbefore⟩ := List.find?_eq_some_iff_append.mp ho
  have hfront : ∀ o ∈ before, hasText root o.path = true := by
    intro o ho
    have hfound := hbefore o ho
    rwa [Bool.not_not] at hfound
  rw [hpieces, hsplit]
  exact ⟨List.append_ne_nil_of_right_ne_nil _ (List.cons_ne_nil _ _),
    fill_parts_eq_error last hfront hfault⟩

theorem evaluate_of_isMissing {o : Occurrence}
    (ho : occurrences.find? (fun o ↦ !hasText root o.path) = some o)
    (hmissing : isMissing root o.path = true) :
    evaluate cache root formula = (.ok (.missing (String.ofList o.path)), cache) := by
  have hpiece : (Piece.reference o.path).fill root = .error (.missing (String.ofList o.path)) := by
    rw [Piece.fill, lookup?_of_isMissing hmissing]
  obtain ⟨hsome, hfill⟩ := fill_of_find?_eq_some hpieces ho hpiece
  rw [evaluate, any_pieces hpieces, List.isEmpty_eq_false_iff.mpr hsome, hfill]
  rfl

theorem evaluate_of_leadsTooDeep {o : Occurrence}
    (ho : occurrences.find? (fun o ↦ !hasText root o.path) = some o)
    (hdeep : LeadsTooDeep root o.path) :
    evaluate cache root formula = (.error .tooDeep, cache) := by
  obtain ⟨n, hlookup, hn⟩ := hdeep
  obtain ⟨hsome, hfill⟩ := fill_of_find?_eq_some hpieces ho (fill_of_not_isRenderable hlookup hn)
  rw [evaluate, any_pieces hpieces, List.isEmpty_eq_false_iff.mpr hsome, hfill]
  rfl

theorem evaluate_of_find?_eq_none (hsome : occurrences ≠ [])
    (hnone : occurrences.find? (fun o ↦ !hasText root o.path) = none) :
    evaluate cache root formula = settle cache (joined (replacement root) occurrences last) :=
  evaluate_of_fill hpieces hsome (fill_parts last (hasText_of_find?_eq_none hnone))

variable (hshort : ∀ o ∈ occurrences, Forest.HasShortPositions (String.ofList o.path))

include hshort

/-- The first reference without a text leads nowhere or too deep. -/
theorem evaluate_of_find?_eq_some {o : Occurrence}
    (ho : occurrences.find? (fun o ↦ !hasText root o.path) = some o) :
    (isMissing root o.path = true ∨ LeadsTooDeep root o.path) ∧
      ((evaluate cache root formula = (.ok (.missing (String.ofList o.path)), cache)) ∨
        evaluate cache root formula = (.error .tooDeep, cache)) := by
  have htext := List.find?_some ho
  rw [Bool.not_eq_true'] at htext
  have hcases := isMissing_or_leadsTooDeep (hshort o (List.mem_of_find?_eq_some ho)) htext
  exact ⟨hcases, hcases.imp (evaluate_of_isMissing hpieces ho) (evaluate_of_leadsTooDeep hpieces ho)⟩

/-- A text that a formula comes to is the formula with its references filled in. -/
theorem eq_joined_of_text (hwhole : joined braced occurrences last = formula.toList)
    {value : String} (hvalue : (evaluate cache root formula).1 = .ok (.text value)) :
    value = String.ofList (joined (replacement root) occurrences last) := by
  by_cases hsome : occurrences = []
  · rw [evaluate_of_nil hpieces hsome] at hvalue
    obtain rfl := Evaluation.text.inj (Except.ok.inj hvalue)
    subst hsome
    exact String.ofList_toList.symm.trans (congrArg String.ofList hwhole.symm)
  · cases hfind : occurrences.find? (fun o ↦ !hasText root o.path) with
    | none =>
      rw [evaluate_of_find?_eq_none hpieces hsome hfind] at hvalue
      exact text_of_settle hvalue
    | some o =>
      rcases (evaluate_of_find?_eq_some hpieces hshort hfind).2 with heq | heq
      · rw [heq] at hvalue
        cases Except.ok.inj hvalue
      · rw [heq] at hvalue
        cases hvalue

/-- The cut of a formula into pieces is what it is evaluated by. -/
theorem singlePass_of_pieces (hwhole : joined braced occurrences last = formula.toList) :
    SinglePass cache root formula occurrences last := by
  constructor
  case whole => exact hwhole
  case plain => exact evaluate_of_nil hpieces
  case missing =>
    intro o ho hmissing
    exact ⟨_, evaluate_of_isMissing hpieces ho hmissing, rfl, rfl⟩
  case tooDeep =>
    intro o ho hfound
    have hcases := (@evaluate_of_find?_eq_some cache _ _ _ _ hpieces hshort o ho).1
    have hdeep := hcases.resolve_left (Bool.eq_false_iff.mp hfound)
    exact ⟨hdeep, evaluate_of_leadsTooDeep hpieces ho hdeep⟩
  case filled =>
    intro hsome hnone
    refine ⟨fun o ho ↦ ?_, evaluate_of_find?_eq_none hpieces hsome hnone⟩
    obtain ⟨n, hlookup, -⟩ := exists_node_of_hasText (hasText_of_find?_eq_none hnone o ho)
    exact ⟨n, hlookup, replacement_of_lookup? hlookup⟩
  case text =>
    intro value hvalue
    exact eq_joined_of_text hpieces hshort hwhole hvalue
  case expression =>
    intro o _ n written hlookup hpayload
    rw [replacement_of_lookup? hlookup, Node.rendered, hpayload]
    rfl

end

/--
Every formula has exactly one list of leftmost references that do not overlap, and is evaluated in a
single pass over them.
-/
theorem exists_singlePass (cache : Arithmetic.Cache) (root : Forest) {formula : String}
    (hshort : ∀ path, Mentions formula path → Forest.HasShortPositions (String.ofList path)) :
    ∃ occurrences last, Leftmost formula.toList occurrences last ∧
      (∀ occurrences' last', Leftmost formula.toList occurrences' last' →
        occurrences' = occurrences ∧ last' = last) ∧
      SinglePass cache root formula occurrences last := by
  obtain ⟨occurrences, last, hleftmost, hpieces⟩ := exists_leftmost formula.toList
  refine ⟨occurrences, last, hleftmost, fun _ _ h' ↦ hleftmost.unique h', ?_⟩
  refine singlePass_of_pieces hpieces ?_ hleftmost.joined_braced
  intro o ho
  apply hshort
  rw [mentions_iff, hpieces]
  exact List.mem_append_left _ (List.mem_flatMap.mpr
    ⟨o, ho, List.mem_append_right _ List.mem_cons_self⟩)

/-- A tree of a formula that refers to itself. -/
def loop : Forest := [⟨"", "e", .leaf (.expression "<\x7b\x7be\x7d\x7d>")⟩]

/-- A reference in braces that are not its own. -/
def nested : List Char := ['{'] ++ (braced ['e'] ++ ['}'])

theorem leftmost_nested : Leftmost nested [⟨['{'], ['e']⟩] ['}'] := by
  refine .next ⟨List.cons_ne_nil _ _, List.forall_mem_singleton.mpr rfl⟩ ?_ (.none ?_)
  · intro front hfront
    obtain ⟨front', rfl, -⟩ := startsAfter_cons rfl hfront
    exact Nat.succ_pos _
  · intro front hfront
    obtain ⟨front', -, path, after, -, hnil⟩ := startsAfter_cons rfl hfront
    simp [braced] at hnil

theorem mentions_nested {path : List Char} (h : Mentions (String.ofList nested) path) :
    path = ['e'] := by
  have hpieces : pieces nested = [.char '{', .reference ['e'], .char '}'] := by
    obtain ⟨occurrences, last, hleftmost, hpieces⟩ := exists_leftmost nested
    obtain ⟨rfl, rfl⟩ := leftmost_nested.unique hleftmost
    exact hpieces
  rw [mentions_iff, String.toList_ofList, hpieces] at h
  simpa using h

/-- A formula that names itself comes in once, as it is written. -/
theorem exists_singlePass_nested :
    (∀ path, Mentions (String.ofList nested) path →
      Forest.HasShortPositions (String.ofList path)) ∧
    (evaluate (.ofCapacity defaultCapacity) loop (String.ofList nested)).1 =
      .ok (.text "\x7b<\x7b\x7be\x7d\x7d>\x7d") := by
  have hshort (path : List Char) (hpath : Mentions (String.ofList nested) path) :
      Forest.HasShortPositions (String.ofList path) := by
    rw [mentions_nested hpath]
    unfold Forest.HasShortPositions Forest.IsShortPosition
    decide
  obtain ⟨occurrences, last, -, hunique, hpass⟩ :=
    exists_singlePass (.ofCapacity defaultCapacity) loop hshort
  rw [String.toList_ofList] at hunique
  obtain ⟨rfl, rfl⟩ := hunique _ _ leftmost_nested
  have hjoined : joined (replacement loop) [⟨['{'], ['e']⟩] ['}'] =
      "\x7b<\x7b\x7be\x7d\x7d>\x7d".toList := by decide
  have htext : isArithmetic "\x7b<\x7b\x7be\x7d\x7d>\x7d".toList = false := by decide +kernel
  have hfilled := (hpass.filled (List.cons_ne_nil _ _) rfl).2
  refine ⟨hshort, ?_⟩
  rw [hfilled, hjoined, settle, htext]
  rfl

/-! ## Containers that nest too deeply -/

theorem exportCalls_chain (supply : Supply) (value : Leaf) (head : String) (tail : List String) :
    (Forest.chain supply (.leaf value) head tail).exportCalls = 3 * tail.length + 1 := by
  induction tail generalizing supply head with
  | nil => rfl
  | cons next rest ih =>
    rw [Forest.chain, Node.exportCalls, Forest.exportCalls, Forest.exportCalls, ih, Nat.max_zero,
      List.length_cons]
    omega

/-- A text at the end of a path of four hundred segments. -/
def tall : Forest := [Forest.chain ⟨0⟩ (.leaf (.text "x")) "a" (List.replicate 399 "a")]

/-- A node that is found may nest too deeply to become a text, and then there is no result. -/
theorem evaluate_tall : (∃ n, tall.lookup? "a" = .ok (some n)) ∧
    (evaluate (.ofCapacity defaultCapacity) tall "{{a}}").1 = .error .tooDeep := by
  have hlookup : tall.lookup? "a" =
      .ok (some (Forest.chain ⟨0⟩ (.leaf (.text "x")) "a" (List.replicate 399 "a"))) := rfl
  refine ⟨⟨_, hlookup⟩, ?_⟩
  have hpieces : pieces "{{a}}".toList = parts [⟨[], ['a']⟩] [] :=
    pieces_reference (List.cons_ne_nil 'a' []) (List.forall_mem_singleton.mpr rfl)
  have hdeep : LeadsTooDeep tall ['a'] := by
    refine ⟨_, hlookup, ?_⟩
    rw [Node.isRenderable, exportCalls_chain, List.length_replicate]
    rfl
  have hfirst : [⟨[], ['a']⟩].find? (fun o : Occurrence ↦ !hasText tall o.path) =
      some ⟨[], ['a']⟩ := by
    obtain ⟨n, hn, hrenderable⟩ := hdeep
    rw [List.find?_singleton, hasText, hn]
    exact if_pos (congrArg Bool.not hrenderable)
  rw [evaluate_of_leadsTooDeep hpieces hfirst hdeep]

end KeyTree.Formula
