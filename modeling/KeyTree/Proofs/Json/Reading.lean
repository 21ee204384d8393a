import KeyTree.Json.Reader
import KeyTree.Proofs.Ordered

/-!
# What every document has

A property of values that holds of scalars, passes from items to arrays, and passes from members
under different keys to objects, holds of every document that is read. Each step of the reader keeps
it for all values that the reading holds.
-/

namespace KeyTree.Json

/-- A property of values that reading keeps. -/
structure IsInductive (P : Json → Prop) : Prop where
  null : P .null
  boolean (value : Bool) : P (.boolean value)
  integer (value : Int) : P (.integer value)
  number (value : Float) : P (.number value)
  string (value : String) : P (.string value)
  array {items : List Json} (h : ∀ item ∈ items, P item) : P (.array items)
  object {members : List (String × Json)} (hkeys : (Ordered.keys members).Nodup)
    (h : ∀ member ∈ members, P member.2) : P (.object members)

def Frame.Holds (P : Json → Prop) : Frame → Prop
  | .array before => ∀ item ∈ before, P item
  | .object before _ => ∀ member ∈ before, P member.2

def Expect.Holds (P : Json → Prop) : Expect → Prop
  | .value | .firstItem | .firstKey => True
  | .key before | .colon before _ | .nextKey before => ∀ member ∈ before, P member.2
  | .nextItem before => ∀ item ∈ before, P item
  | .nothing document => P document

/-- All values that a reading holds have a property. -/
structure Reading.Holds (P : Json → Prop) (reading : Reading) : Prop where
  expect : reading.expect.Holds P
  frames : ∀ frame ∈ reading.frames, frame.Holds P

/-- A lexeme that is a value has a property. -/
def Lexeme.Holds (P : Json → Prop) (lexeme : Lexeme) : Prop :=
  ∀ value, lexeme = .scalar value → P value

section

variable {P : Json → Prop}

/-! ## Values that are put in -/

theorem holds_complete {value : Json} {frames : List Frame} (hvalue : P value)
    (hframes : ∀ frame ∈ frames, frame.Holds P) : (Reading.complete value frames).Holds P := by
  cases frames with
  | nil => exact ⟨hvalue, hframes⟩
  | cons frame frames =>
    rw [List.forall_mem_cons] at hframes
    cases frame with
    | array before => exact ⟨List.forall_mem_cons.2 ⟨hvalue, hframes.1⟩, hframes.2⟩
    | object before key => exact ⟨List.forall_mem_cons.2 ⟨hvalue, hframes.1⟩, hframes.2⟩

theorem holds_key {before : List (String × Json)} {frames : List Frame} {placed : Placed}
    {reading : Reading} (hbefore : ∀ member ∈ before, P member.2)
    (hframes : ∀ frame ∈ frames, frame.Holds P)
    (h : Reading.key before frames placed = .ok reading) : reading.Holds P := by
  unfold Reading.key at h
  split at h
  · rw [← Except.ok.inj h]
    exact ⟨hbefore, hframes⟩
  · cases h
  · cases h

variable (hP : IsInductive P)

include hP

/-! ## Lexemes -/

theorem holds_names {entry : List Char × Json} (h : entry ∈ names) : P entry.2 := by
  simp only [names, List.mem_cons, List.not_mem_nil, or_false] at h
  rcases h with rfl | rfl | rfl | rfl | rfl | rfl
  · exact hP.null
  · exact hP.boolean true
  · exact hP.boolean false
  · exact hP.number _
  · exact hP.number _
  · exact hP.number _

theorem holds_numberLexeme (n : NumberParts) : n.lexeme.Holds P := by
  intro value h
  unfold NumberParts.lexeme at h
  dsimp only at h
  split at h
  · split at h
    · obtain rfl := Lexeme.scalar.inj h
      exact hP.integer _
    · cases h
  · obtain rfl := Lexeme.scalar.inj h
    exact hP.number _

theorem holds_scanScalar? {s : List Char} {lexeme : Lexeme} {size : Nat}
    (h : scanScalar? s = some (lexeme, size)) : lexeme.Holds P := by
  unfold scanScalar? at h
  split at h
  case h_1 name value hfound =>
    obtain ⟨rfl, -⟩ := Prod.mk.inj (Option.some.inj h)
    intro value' heq
    obtain rfl := Lexeme.scalar.inj heq
    exact holds_names hP (List.mem_of_find?_eq_some hfound)
  case h_2 =>
    obtain ⟨n, -, heq⟩ := Option.map_eq_some_iff.1 h
    obtain ⟨rfl, -⟩ := Prod.mk.inj heq
    exact holds_numberLexeme hP n

theorem holds_lexemes (s : List Char) : ∀ placed ∈ lexemes s, placed.lexeme.Holds P := by
  have hother {lexeme : Lexeme} (h : ∀ value, lexeme ≠ .scalar value) : lexeme.Holds P :=
    fun value heq ↦ absurd heq (h value)
  have hnone : ∀ placed ∈ ([] : List Placed), placed.lexeme.Holds P := by
    intro placed hplaced
    cases hplaced
  fun_induction lexemes s with
  | case1 => exact hnone
  | case2 c rest hspace ih => exact ih
  | case3 c rest hspace lexeme hpunctuation ih =>
    refine List.forall_mem_cons.2 ⟨hother ?_, ih⟩
    rintro value rfl
    unfold punctuation? at hpunctuation
    split at hpunctuation <;> cases hpunctuation
  | case4 rest text after _ _ _ _ ih =>
    refine List.forall_mem_cons.2 ⟨hother ?_, ih⟩
    intro value heq
    cases heq
  | case5 | case6 | case8 =>
    refine List.forall_mem_cons.2 ⟨hother ?_, hnone⟩
    intro value heq
    cases heq
  | case7 c rest _ _ _ lexeme size hscan ih =>
    exact List.forall_mem_cons.2 ⟨holds_scanScalar? hP hscan, ih⟩

/-! ## Steps -/

theorem holds_closeArray {before : List Json} {frames : List Frame}
    (hbefore : ∀ item ∈ before, P item) (hframes : ∀ frame ∈ frames, frame.Holds P) :
    (Reading.closeArray before frames).Holds P := by
  apply holds_complete _ hframes
  apply hP.array
  intro item hitem
  exact hbefore item (List.mem_reverse.1 hitem)

theorem holds_closeObject {before : List (String × Json)} {frames : List Frame}
    (hbefore : ∀ member ∈ before, P member.2) (hframes : ∀ frame ∈ frames, frame.Holds P) :
    (Reading.closeObject before frames).Holds P := by
  apply holds_complete _ hframes
  apply hP.object (Ordered.nodup_keys_ofList _)
  intro member hmember
  exact hbefore member (List.mem_reverse.1 (Ordered.mem_of_mem_ofList hmember))

theorem holds_value {frames : List Frame} {placed : Placed} {reading : Reading}
    (hframes : ∀ frame ∈ frames, frame.Holds P) (hplaced : placed.lexeme.Holds P)
    (h : Reading.value frames placed = .ok reading) : reading.Holds P := by
  have hopen (expect : Expect) (hexpect : expect.Holds P)
      (hopened : Reading.openWith expect frames = .ok reading) : reading.Holds P := by
    unfold Reading.openWith at hopened
    split at hopened
    · rw [← Except.ok.inj hopened]
      exact ⟨hexpect, hframes⟩
    · cases hopened
  obtain ⟨lexeme, suffix⟩ := placed
  cases lexeme with
  | openArray => exact hopen .firstItem trivial h
  | openObject => exact hopen .firstKey trivial h
  | string text =>
    rw [← Except.ok.inj h]
    exact holds_complete (hP.string text) hframes
  | scalar value =>
    rw [← Except.ok.inj h]
    exact holds_complete (hplaced value rfl) hframes
  | _ => cases h

/-- One step of the reader keeps the property. -/
theorem Reading.Holds.next {reading reading' : Reading} {placed : Placed}
    (hreading : reading.Holds P) (hplaced : placed.lexeme.Holds P)
    (h : reading.next placed = .ok reading') : reading'.Holds P := by
  obtain ⟨expect, frames⟩ := reading
  obtain ⟨hexpect, hframes⟩ := hreading
  have hnone {α : Type} {Q : α → Prop} : ∀ item ∈ ([] : List α), Q item := by
    intro item hitem
    cases hitem
  unfold Reading.next at h
  dsimp only at h hexpect hframes
  split at h
  case h_1 => exact holds_value hP hframes hplaced h
  case h_2 =>
    rw [← Except.ok.inj h]
    exact holds_closeArray hP hnone hframes
  case h_3 =>
    have hframe : (Frame.array []).Holds P := hnone
    exact holds_value hP (List.forall_mem_cons.2 ⟨hframe, hframes⟩) hplaced h
  case h_4 =>
    rw [← Except.ok.inj h]
    exact holds_closeObject hP hnone hframes
  case h_5 => exact holds_key hnone hframes h
  case h_6 => exact holds_key hexpect hframes h
  case h_7 =>
    rw [← Except.ok.inj h]
    exact ⟨trivial, List.forall_mem_cons.2 ⟨hexpect, hframes⟩⟩
  case h_8 => cases h
  case h_9 =>
    rw [← Except.ok.inj h]
    exact holds_closeArray hP hexpect hframes
  case h_10 =>
    rw [← Except.ok.inj h]
    exact ⟨trivial, List.forall_mem_cons.2 ⟨hexpect, hframes⟩⟩
  case h_11 => cases h
  case h_12 =>
    rw [← Except.ok.inj h]
    exact holds_closeObject hP hexpect hframes
  case h_13 =>
    rw [← Except.ok.inj h]
    exact ⟨hexpect, hframes⟩
  case h_14 => cases h
  case h_15 => cases h

theorem Reading.Holds.run {reading : Reading} {placed : List Placed} {document : Json}
    (hreading : reading.Holds P) (hplaced : ∀ p ∈ placed, p.lexeme.Holds P)
    (h : reading.run placed = .ok document) : P document := by
  induction placed generalizing reading with
  | nil =>
    unfold Reading.run Reading.finish at h
    split at h
    case h_1 heq =>
      obtain ⟨expect, frames⟩ := reading
      dsimp only at heq
      subst heq
      rw [← Except.ok.inj h]
      exact hreading.expect
    all_goals cases h
  | cons p placed ih =>
    rw [Reading.run] at h
    rw [List.forall_mem_cons] at hplaced
    cases hnext : reading.next p with
    | error stop =>
      rw [hnext] at h
      cases h
    | ok reading' =>
      rw [hnext] at h
      exact ih (hreading.next hP hplaced.1 hnext) hplaced.2 h

/-- A property that reading keeps holds of every document that is read. -/
theorem holds_of_read {source : Source} {document : Json} (h : source.read = .ok document) :
    P document := by
  have hstart : Reading.start.Holds P := by
    refine ⟨trivial, ?_⟩
    intro frame hframe
    cases hframe
  have hchars {text : List Char} (hread : readChars text = .ok document) : P document := by
    unfold readChars at hread
    cases hrun : Reading.start.run (lexemes text) with
    | error stop =>
      rw [hrun] at hread
      cases hread
    | ok found =>
      rw [hrun] at hread
      rw [← Except.ok.inj hread]
      exact hstart.run hP (holds_lexemes hP text) hrun
  cases source with
  | text value =>
    change readText value = .ok document at h
    unfold readText at h
    split at h
    · cases h
    · exact hchars h
  | bytes value =>
    unfold Source.read at h
    dsimp only at h
    cases hdecode : Text.decode value with
    | error fault =>
      rw [hdecode] at h
      cases h
    | ok text =>
      rw [hdecode] at h
      exact hchars h

end

end KeyTree.Json
