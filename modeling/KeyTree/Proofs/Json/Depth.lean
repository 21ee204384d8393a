import KeyTree.Proofs.Json.RoundTrip

/-!
# Documents that nest too deeply

The reader refuses what is written for a value in which more arrays and objects nest than may be open
at a time. It gets as far as the first that is one too many, whatever comes before it.
-/

namespace KeyTree.Json

mutual

/-- How deep arrays and objects nest in a value. -/
def depth : Json → Nat
  | .array items => itemsDepth items + 1
  | .object members => membersDepth members + 1
  | .null | .boolean _ | .integer _ | .number _ | .string _ => 0

def itemsDepth : List Json → Nat
  | [] => 0
  | item :: items => max item.depth (itemsDepth items)

def membersDepth : List (String × Json) → Nat
  | [] => 0
  | (_, value) :: members => max value.depth (membersDepth members)

end

mutual

/-- There need be no more room for a value than it takes. -/
theorem isReadable_of_depth_le {room room' : Nat} (j : Json) (hj : j.IsReadable room)
    (hroom : j.depth ≤ room') : j.IsReadable room' := by
  match j with
  | .null | .boolean _ | .integer _ | .number _ | .string _ => exact hj
  | .array items =>
    rw [depth] at hroom
    rw [IsReadable] at hj ⊢
    exact ⟨by omega, itemsReadable_of_depth_le items hj.2 (by omega)⟩
  | .object members =>
    rw [depth] at hroom
    rw [IsReadable] at hj ⊢
    exact ⟨by omega, hj.2.1, membersReadable_of_depth_le members hj.2.2 (by omega)⟩

theorem itemsReadable_of_depth_le {room room' : Nat} (items : List Json)
    (hitems : ItemsReadable room items) (hroom : itemsDepth items ≤ room') :
    ItemsReadable room' items := by
  match items with
  | [] => trivial
  | item :: items =>
    rw [itemsDepth] at hroom
    rw [ItemsReadable] at hitems ⊢
    exact ⟨isReadable_of_depth_le item hitems.1 (by omega),
      itemsReadable_of_depth_le items hitems.2 (by omega)⟩

theorem membersReadable_of_depth_le {room room' : Nat} (members : List (String × Json))
    (hmembers : MembersReadable room members) (hroom : membersDepth members ≤ room') :
    MembersReadable room' members := by
  match members with
  | [] => trivial
  | (key, value) :: members =>
    rw [membersDepth] at hroom
    rw [MembersReadable] at hmembers ⊢
    exact ⟨isReadable_of_depth_le value hmembers.1 (by omega),
      membersReadable_of_depth_le members hmembers.2 (by omega)⟩

end

open Reading

theorem Reading.run_cons_of_error {reading : Reading} {placed : Placed} {stop : Stop}
    (rest : List Placed) (h : reading.next placed = .error stop) :
    reading.run (placed :: rest) = .error stop := by
  rw [run, h]
  rfl

/-- Nothing is opened where too much is open. -/
theorem Reading.Takes.run_open_of_le {reading : Reading} {frames : List Frame}
    (h : reading.Takes frames) (hroom : callLimit ≤ frames.length) (rest : List Char) :
    reading.run (lexemes ('[' :: rest)) = .error .tooDeep ∧
      reading.run (lexemes ('{' :: rest)) = .error .tooDeep := by
  constructor
  · rw [lexemes_punctuation (by decide) rfl]
    apply run_cons_of_error
    rw [h _ (by intro heq; cases heq)]
    exact if_neg (Nat.not_lt.2 hroom)
  · rw [lexemes_punctuation (by decide) rfl]
    apply run_cons_of_error
    rw [h _ (by intro heq; cases heq)]
    exact if_neg (Nat.not_lt.2 hroom)

section

variable {style : Style} (hstyle : style.IsStandard)

include hstyle

/-- Reading a value and what is behind it fails if either does. -/
theorem run_write_append (level : Nat) {room : Nat} {j : Json} (hj : j.IsReadable room)
    {frames : List Frame} {reading : Reading} (htakes : reading.Takes frames) {rest : List Char}
    (hrest : EndsNumber rest)
    (hdeep : callLimit < frames.length + j.depth →
      reading.run (lexemes (write style level j ++ rest)) = .error .tooDeep)
    (hbehind : frames.length + j.depth ≤ callLimit →
      (complete j frames).run (lexemes rest) = .error .tooDeep) :
    reading.run (lexemes (write style level j ++ rest)) = .error .tooDeep := by
  rcases Nat.lt_or_ge callLimit (frames.length + j.depth) with hlt | hle
  · exact hdeep hlt
  · have hroom : j.depth ≤ callLimit - frames.length := by omega
    rw [run_write hstyle level j (isReadable_of_depth_le j hj hroom) frames (by omega) htakes hrest]
    exact hbehind hle

mutual

/-- Reading what is written for a value fails if it nests deeper than the frames around it allow. -/
theorem run_write_of_lt (level : Nat) {room : Nat} (j : Json) (hj : j.IsReadable room)
    (frames : List Frame) (hframes : frames.length ≤ callLimit)
    (hdeep : callLimit < frames.length + j.depth) {reading : Reading}
    (htakes : reading.Takes frames) (rest : List Char) :
    reading.run (lexemes (write style level j ++ rest)) = .error .tooDeep := by
  match j with
  | .null | .boolean _ | .integer _ | .number _ | .string _ =>
    rw [depth] at hdeep
    omega
  | .array [] =>
    rw [depth, itemsDepth] at hdeep
    rw [write, List.cons_append]
    exact (htakes.run_open_of_le (by omega) _).1
  | .object [] =>
    rw [depth, membersDepth] at hdeep
    rw [write, List.cons_append]
    exact (htakes.run_open_of_le (by omega) _).2
  | .array (first :: items) =>
    rw [IsReadable, ItemsReadable] at hj
    rw [depth, itemsDepth] at hdeep
    rw [write, List.cons_append]
    by_cases hopen : callLimit ≤ frames.length
    · exact (htakes.run_open_of_le hopen _).1
    have hclose : EndsNumber (style.newline level ++ ([']'] ++ rest)) := .newline (.cons _ rfl)
    rw [(htakes.run_open (Nat.lt_of_not_le hopen) _).1]
    simp only [List.append_assoc]
    rw [lexemes_newline]
    have hlength : (Frame.array [] :: frames).length ≤ callLimit := Nat.lt_of_not_le hopen
    refine run_write_append hstyle (level + 1) hj.2.1 (takes_firstItem frames)
      (hstyle.endsNumber_items _ _ hclose) (fun hlt ↦ ?_) (fun hle ↦ ?_)
    · exact run_write_of_lt (level + 1) first hj.2.1 _ hlength hlt (takes_firstItem frames) _
    · rw [List.length_cons] at hle
      exact run_writeItems_of_lt (level + 1) items hj.2.2 hlength (by omega) hclose
  | .object ((key, value) :: members) =>
    rw [IsReadable, MembersReadable] at hj
    rw [depth, membersDepth] at hdeep
    rw [write, List.cons_append]
    by_cases hopen : callLimit ≤ frames.length
    · exact (htakes.run_open_of_le hopen _).2
    have hclose : EndsNumber (style.newline level ++ (['}'] ++ rest)) := .newline (.cons _ rfl)
    rw [(htakes.run_open (Nat.lt_of_not_le hopen) _).2]
    simp only [List.append_assoc]
    rw [lexemes_newline, lexemes_writeString, run_cons _ rfl]
    obtain ⟨suffix, hcolon⟩ := hstyle.lexemes_keys (write style (level + 1) value ++
      (writeMembers style (level + 1) members ++ (style.newline level ++ (['}'] ++ rest))))
    rw [hcolon, run_cons _ rfl]
    have hlength : (Frame.object [] key :: frames).length ≤ callLimit := Nat.lt_of_not_le hopen
    refine run_write_append hstyle (level + 1) hj.2.2.1
      (takes_value (.object [] key :: frames)) (hstyle.endsNumber_members _ _ hclose)
      (fun hlt ↦ ?_) (fun hle ↦ ?_)
    · exact run_write_of_lt (level + 1) value hj.2.2.1 (.object [] key :: frames) hlength hlt
        (takes_value _) _
    · rw [List.length_cons] at hle
      exact run_writeMembers_of_lt (level + 1) members hj.2.2.2 hlength (by omega) hclose

theorem run_writeItems_of_lt (level : Nat) {room : Nat} (items : List Json)
    (hitems : ItemsReadable room items) {frames : List Frame}
    (hframes : frames.length < callLimit)
    (hdeep : callLimit < frames.length + 1 + itemsDepth items) {before : List Json}
    {rest : List Char} (hrest : EndsNumber rest) :
    (Reading.mk (.nextItem before) frames).run (lexemes (writeItems style level items ++ rest)) =
      .error .tooDeep := by
  match items with
  | [] =>
    rw [itemsDepth] at hdeep
    omega
  | item :: items =>
    rw [ItemsReadable] at hitems
    rw [itemsDepth] at hdeep
    rw [writeItems]
    simp only [List.append_assoc]
    obtain ⟨suffix, hcomma⟩ := hstyle.lexemes_items
      (style.newline level ++ (write style level item ++ (writeItems style level items ++ rest)))
    rw [hcomma, run_cons _ rfl, lexemes_newline]
    refine run_write_append hstyle level hitems.1 (takes_value (.array before :: frames))
      (hstyle.endsNumber_items _ _ hrest) (fun hlt ↦ ?_) (fun hle ↦ ?_)
    · exact run_write_of_lt level item hitems.1 (.array before :: frames) hframes hlt
        (takes_value _) _
    · rw [List.length_cons] at hle
      exact run_writeItems_of_lt level items hitems.2 hframes (by omega) hrest

theorem run_writeMembers_of_lt (level : Nat) {room : Nat} (members : List (String × Json))
    (hmembers : MembersReadable room members) {frames : List Frame}
    (hframes : frames.length < callLimit)
    (hdeep : callLimit < frames.length + 1 + membersDepth members)
    {before : List (String × Json)} {rest : List Char} (hrest : EndsNumber rest) :
    (Reading.mk (.nextKey before) frames).run
        (lexemes (writeMembers style level members ++ rest)) = .error .tooDeep := by
  match members with
  | [] =>
    rw [membersDepth] at hdeep
    omega
  | (key, value) :: members =>
    rw [MembersReadable] at hmembers
    rw [membersDepth] at hdeep
    rw [writeMembers]
    simp only [List.append_assoc]
    obtain ⟨_, hcomma⟩ := hstyle.lexemes_items
      (style.newline level ++ (writeString style.ascii key ++ (style.keySeparator ++
        (write style level value ++ (writeMembers style level members ++ rest)))))
    obtain ⟨_, hcolon⟩ := hstyle.lexemes_keys
      (write style level value ++ (writeMembers style level members ++ rest))
    rw [hcomma, run_cons _ rfl, lexemes_newline, lexemes_writeString, run_cons _ rfl, hcolon,
      run_cons _ rfl]
    refine run_write_append hstyle level hmembers.1 (takes_value (.object before key :: frames))
      (hstyle.endsNumber_members _ _ hrest) (fun hlt ↦ ?_) (fun hle ↦ ?_)
    · exact run_write_of_lt level value hmembers.1 (.object before key :: frames) hframes hlt
        (takes_value _) _
    · rw [List.length_cons] at hle
      exact run_writeMembers_of_lt level members hmembers.2 hframes (by omega) hrest

end

/-- A document that nests too deeply is not read back. -/
theorem readChars_write_of_lt {room : Nat} {j : Json} (hj : j.IsReadable room)
    (hdeep : callLimit < j.depth) : readChars (write style 0 j) = .error .tooDeep := by
  have hrun := run_write_of_lt hstyle 0 j hj [] (Nat.zero_le _) (by simpa using hdeep)
    (takes_value []) []
  rw [List.append_nil] at hrun
  unfold readChars Reading.start
  rw [hrun]
  rfl

end

end KeyTree.Json
