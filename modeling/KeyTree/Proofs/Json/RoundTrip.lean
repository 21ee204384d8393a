import KeyTree.Json.Reader
import KeyTree.Proofs.Json.Lexemes
import KeyTree.Proofs.Ordered

/-!
# Documents read back

Reading what is written for a value completes the value in the frames that are open around it. So
every document is read back from its text, if none of its whole numbers is too long, no object of it
repeats a key, and it is not nested too deeply.
-/

namespace KeyTree.Json

mutual

/--
Whether a value can be read back. No whole number in it is too long, no object repeats a key, and
arrays and objects nest at most `room` deep.
-/
def IsReadable (room : Nat) : Json → Prop
  | .integer i => i.natAbs < 10 ^ TooManyDigits.limit
  | .array items => 0 < room ∧ ItemsReadable (room - 1) items
  | .object members => 0 < room ∧ (Ordered.keys members).Nodup ∧ MembersReadable (room - 1) members
  | _ => True

def ItemsReadable (room : Nat) : List Json → Prop
  | [] => True
  | item :: rest => item.IsReadable room ∧ ItemsReadable room rest

def MembersReadable (room : Nat) : List (String × Json) → Prop
  | [] => True
  | (_, value) :: rest => value.IsReadable room ∧ MembersReadable room rest

end

/-! ## Separators -/

/-- Only blanks stand around the separators of a style. -/
structure Style.IsStandard (style : Style) : Prop where
  items : ∃ blanks, (∀ c ∈ blanks, isSpace c = true) ∧ style.itemSeparator = ',' :: blanks
  keys : ∃ blanks, (∀ c ∈ blanks, isSpace c = true) ∧ style.keySeparator = ':' :: blanks

theorem Style.isStandard_line (ascii : Bool) : (Style.line ascii).IsStandard := by
  have hblank : ∀ c ∈ [' '], isSpace c = true := by
    intro c hc
    rw [List.mem_singleton.1 hc]
    rfl
  exact ⟨⟨[' '], hblank, rfl⟩, ⟨[' '], hblank, rfl⟩⟩

theorem Style.isStandard_indented (width : Nat) : (Style.indented width).IsStandard := by
  have hblank : ∀ c ∈ [' '], isSpace c = true := by
    intro c hc
    rw [List.mem_singleton.1 hc]
    rfl
  have hnone : ∀ c ∈ [], isSpace c = true := by
    intro c hc
    cases hc
  exact ⟨⟨[], hnone, rfl⟩, ⟨[' '], hblank, rfl⟩⟩

theorem isSpace_of_mem_newline {style : Style} {level : Nat} {c : Char}
    (h : c ∈ style.newline level) : isSpace c = true := by
  unfold Style.newline at h
  split at h
  · cases h
  · rcases List.mem_cons.1 h with rfl | h
    · rfl
    · rw [List.eq_of_mem_replicate h]
      rfl

theorem isNumberChar_of_isSpace {c : Char} (h : isSpace c = true) : isNumberChar c = false := by
  simp only [isSpace, Bool.or_eq_true, beq_iff_eq] at h
  obtain ((rfl | rfl) | rfl) | rfl := h <;> rfl

theorem EndsNumber.space {blanks rest : List Char} (h : ∀ c ∈ blanks, isSpace c = true)
    (hrest : EndsNumber rest) : EndsNumber (blanks ++ rest) := by
  cases blanks with
  | nil => exact hrest
  | cons c blanks => exact .cons _ (isNumberChar_of_isSpace (h c List.mem_cons_self))

theorem EndsNumber.newline {style : Style} {level : Nat} {rest : List Char}
    (hrest : EndsNumber rest) : EndsNumber (style.newline level ++ rest) :=
  .space (fun _ ↦ isSpace_of_mem_newline) hrest

theorem lexemes_newline (style : Style) (level : Nat) (rest : List Char) :
    lexemes (style.newline level ++ rest) = lexemes rest :=
  lexemes_space (fun _ ↦ isSpace_of_mem_newline) rest

theorem Style.IsStandard.lexemes_items {style : Style} (h : style.IsStandard) (rest : List Char) :
    ∃ suffix, lexemes (style.itemSeparator ++ rest) = ⟨.comma, suffix⟩ :: lexemes rest := by
  obtain ⟨blanks, hblanks, hseparator⟩ := h.items
  refine ⟨',' :: (blanks ++ rest), ?_⟩
  rw [hseparator, List.cons_append, lexemes_punctuation (by decide) rfl, lexemes_space hblanks]

theorem Style.IsStandard.lexemes_keys {style : Style} (h : style.IsStandard) (rest : List Char) :
    ∃ suffix, lexemes (style.keySeparator ++ rest) = ⟨.colon, suffix⟩ :: lexemes rest := by
  obtain ⟨blanks, hblanks, hseparator⟩ := h.keys
  refine ⟨':' :: (blanks ++ rest), ?_⟩
  rw [hseparator, List.cons_append, lexemes_punctuation (by decide) rfl, lexemes_space hblanks]

theorem Style.IsStandard.endsNumber_items {style : Style} (h : style.IsStandard) (level : Nat)
    (items : List Json) {rest : List Char} (hrest : EndsNumber rest) :
    EndsNumber (writeItems style level items ++ rest) := by
  obtain ⟨blanks, -, hseparator⟩ := h.items
  cases items with
  | nil => rw [writeItems]; exact hrest
  | cons item items =>
    rw [writeItems, hseparator]
    exact .cons _ rfl

theorem Style.IsStandard.endsNumber_members {style : Style} (h : style.IsStandard) (level : Nat)
    (members : List (String × Json)) {rest : List Char} (hrest : EndsNumber rest) :
    EndsNumber (writeMembers style level members ++ rest) := by
  obtain ⟨blanks, -, hseparator⟩ := h.items
  cases members with
  | nil => rw [writeMembers]; exact hrest
  | cons member members =>
    obtain ⟨key, value⟩ := member
    rw [writeMembers, hseparator]
    exact .cons _ rfl

/-! ## Steps of the reader -/

namespace Reading

theorem run_cons {reading next : Reading} {placed : Placed} (rest : List Placed)
    (h : reading.next placed = .ok next) : reading.run (placed :: rest) = next.run rest := by
  rw [run, h]
  rfl

/-- A reading that takes the first lexeme of a value into some frames. -/
def Takes (reading : Reading) (frames : List Frame) : Prop :=
  ∀ placed : Placed, placed.lexeme ≠ .closeArray → reading.next placed = value frames placed

theorem takes_value (frames : List Frame) : Takes ⟨.value, frames⟩ frames := by
  intro placed _
  rfl

theorem takes_firstItem (frames : List Frame) :
    Takes ⟨.firstItem, frames⟩ (.array [] :: frames) := by
  intro placed hplaced
  obtain ⟨lexeme, suffix⟩ := placed
  cases lexeme <;> first | rfl | exact absurd rfl hplaced

theorem Takes.run_scalar {reading : Reading} {frames : List Frame} (h : reading.Takes frames)
    {text rest : List Char} {j : Json} (hsome : text ≠ [])
    (hscan : scanScalar? (text ++ rest) = some (.scalar j, text.length)) :
    reading.run (lexemes (text ++ rest)) = (complete j frames).run (lexemes rest) := by
  rw [lexemes_scalar hsome hscan]
  apply run_cons
  rw [h _ (by intro heq; cases heq)]
  rfl

theorem Takes.run_string {reading : Reading} {frames : List Frame} (h : reading.Takes frames)
    (ascii : Bool) (s : String) (rest : List Char) :
    reading.run (lexemes (writeString ascii s ++ rest)) =
      (complete (.string s) frames).run (lexemes rest) := by
  rw [lexemes_writeString]
  apply run_cons
  rw [h _ (by intro heq; cases heq)]
  rfl

theorem Takes.run_open {reading : Reading} {frames : List Frame} (h : reading.Takes frames)
    (hroom : frames.length < callLimit) (rest : List Char) :
    reading.run (lexemes ('[' :: rest)) = (Reading.mk .firstItem frames).run (lexemes rest) ∧
      reading.run (lexemes ('{' :: rest)) =
        (Reading.mk .firstKey frames).run (lexemes rest) := by
  constructor
  · rw [lexemes_punctuation (by decide) rfl]
    apply run_cons
    rw [h _ (by intro heq; cases heq)]
    exact if_pos hroom
  · rw [lexemes_punctuation (by decide) rfl]
    apply run_cons
    rw [h _ (by intro heq; cases heq)]
    exact if_pos hroom

end Reading

/-! ## Values -/

open Reading

theorem ne_nil_of_scanScalar? {text : List Char} {found : Lexeme × Nat}
    (h : scanScalar? (text ++ []) = some found) : text ≠ [] := by
  rintro rfl
  cases h

section

variable {style : Style} (hstyle : style.IsStandard)

include hstyle

mutual

/-- Reading what is written for a value completes the value. -/
theorem run_write (level : Nat) {room : Nat} (j : Json) (hj : j.IsReadable room)
    (frames : List Frame) (hroom : frames.length + room ≤ callLimit) {reading : Reading}
    (htakes : reading.Takes frames) {rest : List Char} (hrest : EndsNumber rest) :
    reading.run (lexemes (write style level j ++ rest)) =
      (complete j frames).run (lexemes rest) := by
  match j with
  | .null =>
    rw [write]
    exact htakes.run_scalar (by decide) rfl
  | .boolean true =>
    rw [write]
    exact htakes.run_scalar (by decide) rfl
  | .boolean false =>
    rw [write]
    exact htakes.run_scalar (by decide) rfl
  | .integer i =>
    rw [IsReadable] at hj
    rw [write]
    exact htakes.run_scalar (ne_nil_of_scanScalar? (scanScalar?_integer hj .nil))
      (scanScalar?_integer hj hrest)
  | .number x =>
    rw [write]
    exact htakes.run_scalar (ne_nil_of_scanScalar? (scanScalar?_number x .nil))
      (scanScalar?_number x hrest)
  | .string s =>
    rw [write]
    exact htakes.run_string style.ascii s rest
  | .array [] =>
    rw [IsReadable] at hj
    rw [write, List.cons_append, (htakes.run_open (by omega) _).1]
    rw [List.cons_append, lexemes_punctuation (by decide) rfl]
    exact run_cons _ rfl
  | .array (first :: items) =>
    rw [IsReadable, ItemsReadable] at hj
    obtain ⟨hpos, hfirst, hitems⟩ := hj
    have hclose : EndsNumber (style.newline level ++ ([']'] ++ rest)) := .newline (.cons _ rfl)
    rw [write, List.cons_append, (htakes.run_open (by omega) _).1]
    simp only [List.append_assoc]
    rw [lexemes_newline, run_write (level + 1) first hfirst (.array [] :: frames)
      (by simp only [List.length_cons]; omega) (takes_firstItem frames)
      (hstyle.endsNumber_items _ _ hclose), complete,
      run_writeItems (level + 1) items hitems (by omega) hclose, lexemes_newline,
      List.singleton_append, lexemes_punctuation (by decide) rfl]
    apply run_cons
    simp [next, closeArray]
  | .object [] =>
    rw [IsReadable] at hj
    rw [write, List.cons_append, (htakes.run_open (by omega) _).2]
    rw [List.cons_append, lexemes_punctuation (by decide) rfl]
    exact run_cons _ rfl
  | .object ((key, value) :: members) =>
    rw [IsReadable, MembersReadable] at hj
    obtain ⟨hpos, hkeys, hvalue, hmembers⟩ := hj
    have hclose : EndsNumber (style.newline level ++ (['}'] ++ rest)) := .newline (.cons _ rfl)
    rw [write, List.cons_append, (htakes.run_open (by omega) _).2]
    simp only [List.append_assoc]
    rw [lexemes_newline, lexemes_writeString, run_cons _ rfl]
    obtain ⟨suffix, hcolon⟩ := hstyle.lexemes_keys (write style (level + 1) value ++
      (writeMembers style (level + 1) members ++ (style.newline level ++ (['}'] ++ rest))))
    rw [hcolon, run_cons _ rfl, run_write (level + 1) value hvalue
      (.object [] key :: frames) (by simp only [List.length_cons]; omega)
      (takes_value _) (hstyle.endsNumber_members _ _ hclose), complete,
      run_writeMembers (level + 1) members hmembers (by omega) hclose, lexemes_newline,
      List.singleton_append, lexemes_punctuation (by decide) rfl]
    apply run_cons
    simp [next, closeObject, Ordered.ofList_eq_self hkeys]

theorem run_writeItems (level : Nat) {room : Nat} (items : List Json)
    (hitems : ItemsReadable room items) {frames : List Frame}
    (hroom : frames.length + 1 + room ≤ callLimit) {before : List Json} {rest : List Char}
    (hrest : EndsNumber rest) :
    (Reading.mk (.nextItem before) frames).run (lexemes (writeItems style level items ++ rest)) =
      (Reading.mk (.nextItem (items.reverse ++ before)) frames).run (lexemes rest) := by
  match items with
  | [] => rw [writeItems]; rfl
  | item :: items =>
    rw [ItemsReadable] at hitems
    rw [writeItems]
    simp only [List.append_assoc]
    obtain ⟨suffix, hcomma⟩ := hstyle.lexemes_items
      (style.newline level ++ (write style level item ++ (writeItems style level items ++ rest)))
    rw [hcomma, run_cons _ rfl, lexemes_newline, run_write level item hitems.1
      (.array before :: frames) (by simp only [List.length_cons]; omega)
      (takes_value _) (hstyle.endsNumber_items _ _ hrest), complete,
      run_writeItems level items hitems.2 hroom hrest, List.reverse_cons, List.append_assoc,
      List.singleton_append]

theorem run_writeMembers (level : Nat) {room : Nat} (members : List (String × Json))
    (hmembers : MembersReadable room members) {frames : List Frame}
    (hroom : frames.length + 1 + room ≤ callLimit) {before : List (String × Json)}
    {rest : List Char} (hrest : EndsNumber rest) :
    (Reading.mk (.nextKey before) frames).run
        (lexemes (writeMembers style level members ++ rest)) =
      (Reading.mk (.nextKey (members.reverse ++ before)) frames).run (lexemes rest) := by
  match members with
  | [] => rw [writeMembers]; rfl
  | (key, value) :: members =>
    rw [MembersReadable] at hmembers
    rw [writeMembers]
    simp only [List.append_assoc]
    obtain ⟨_, hcomma⟩ := hstyle.lexemes_items
      (style.newline level ++ (writeString style.ascii key ++ (style.keySeparator ++
        (write style level value ++ (writeMembers style level members ++ rest)))))
    obtain ⟨_, hcolon⟩ := hstyle.lexemes_keys
      (write style level value ++ (writeMembers style level members ++ rest))
    rw [hcomma, run_cons _ rfl, lexemes_newline, lexemes_writeString, run_cons _ rfl, hcolon,
      run_cons _ rfl, run_write level value hmembers.1
      (.object before key :: frames) (by simp only [List.length_cons]; omega)
      (takes_value _) (hstyle.endsNumber_members _ _ hrest), complete,
      run_writeMembers level members hmembers.2 hroom hrest, List.reverse_cons, List.append_assoc,
      List.singleton_append]

end

/-- A document is read back from its text. -/
theorem readChars_write {j : Json} (hj : j.IsReadable callLimit) :
    readChars (write style 0 j) = .ok j := by
  have hrun := run_write hstyle 0 j hj [] (by simp) (takes_value []) .nil
  have hend : (complete j []).run (lexemes []) = .ok j := by
    rw [lexemes]
    rfl
  rw [hend, List.append_nil] at hrun
  unfold readChars Reading.start
  rw [hrun]
  rfl

end

end KeyTree.Json
