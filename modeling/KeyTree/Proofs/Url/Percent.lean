import KeyTree.Proofs.Number.Digits
import KeyTree.Proofs.Text.Utf8
import KeyTree.Url.Percent

/-!
# Percent encoding read back

Decoding gives back what was encoded, if the percent sign itself is encoded. If it is not, encoding
leaves alone what is encoded already.
-/

namespace KeyTree.Url

theorem hexDigit?_upperHex (n : Nat) : Json.hexDigit? (upperHex n) = some (n % 16) := by
  have hlt : n % 16 < 16 := Nat.mod_lt n (by decide)
  unfold upperHex
  generalize n % 16 = m at hlt ⊢
  revert m
  decide

theorem isUnreserved_upperHex (n : Nat) : isUnreserved (upperHex n) = true := by
  have hlt : n % 16 < 16 := Nat.mod_lt n (by decide)
  unfold upperHex
  generalize n % 16 = m at hlt ⊢
  revert m
  decide

variable {isSafe : Char → Bool}

/-- A character that an encoded text may have. -/
def isEncoded (isSafe : Char → Bool) (c : Char) : Bool := isUnreserved c || isSafe c

theorem percentEncode_cons (c : Char) (s : List Char) :
    percentEncode isSafe (c :: s) =
      (if isEncoded isSafe c then [c] else percentChar c) ++ percentEncode isSafe s := rfl

theorem percentEncode_append (s t : List Char) :
    percentEncode isSafe (s ++ t) = percentEncode isSafe s ++ percentEncode isSafe t :=
  List.flatMap_append

theorem eq_percent_or_of_mem_percentChar {c d : Char} (h : d ∈ percentChar c) :
    d = '%' ∨ isUnreserved d = true := by
  obtain ⟨byte, -, hd⟩ := List.mem_flatMap.1 h
  rcases List.mem_cons.1 hd with rfl | hd
  · exact .inl rfl
  · right
    rcases List.mem_cons.1 hd with rfl | hd
    · exact isUnreserved_upperHex _
    · rw [List.mem_singleton.1 hd]
      exact isUnreserved_upperHex _

/-- What stands in an encoded text: what stands for itself, and percent signs. -/
theorem eq_percent_or_of_mem_percentEncode {s : List Char} {c : Char}
    (h : c ∈ percentEncode isSafe s) : c = '%' ∨ isEncoded isSafe c = true := by
  obtain ⟨d, -, hd⟩ := List.mem_flatMap.1 h
  split at hd
  case isTrue hsafe =>
    rw [List.mem_singleton.1 hd]
    exact .inr hsafe
  case isFalse =>
    refine (eq_percent_or_of_mem_percentChar hd).imp_right fun hc ↦ ?_
    rw [isEncoded, hc, Bool.true_or]

theorem isEncoded_of_mem_percentEncode {s : List Char} {c : Char} (hpercent : isSafe '%' = true)
    (h : c ∈ percentEncode isSafe s) : isEncoded isSafe c = true := by
  rcases eq_percent_or_of_mem_percentEncode h with rfl | hc
  · rw [isEncoded, hpercent, Bool.or_true]
  · exact hc

theorem percentEncode_eq_self {s : List Char} (h : ∀ c ∈ s, isEncoded isSafe c = true) :
    percentEncode isSafe s = s := by
  induction s with
  | nil => rfl
  | cons c s ih =>
    rw [List.forall_mem_cons] at h
    rw [percentEncode_cons, if_pos h.1, ih h.2, List.singleton_append]

theorem exists_percentChar (c : Char) : ∃ rest, percentChar c = '%' :: rest := by
  obtain ⟨byte, following, -, hbytes, -⟩ := Text.spellsCode_encodeChar c
  have hutf8 : Text.toUtf8 [c] = byte :: following := by
    rw [Text.toUtf8, List.flatMap_singleton, hbytes]
  rw [percentChar, hutf8, List.flatMap_cons, percentByte, List.cons_append]
  exact ⟨_, rfl⟩

/-- A text without a percent sign was not changed by encoding. -/
theorem percentEncode_of_not_mem {s : List Char} (h : '%' ∉ percentEncode isSafe s) :
    percentEncode isSafe s = s := by
  refine percentEncode_eq_self fun c hc ↦ Decidable.byContradiction fun hsafe ↦ ?_
  obtain ⟨rest, hrest⟩ := exists_percentChar c
  refine h (List.mem_flatMap.2 ⟨c, hc, ?_⟩)
  rw [isEncoded] at hsafe
  rw [if_neg hsafe, hrest]
  exact List.mem_cons_self

theorem percentEncode_eq_nil_iff {s : List Char} : percentEncode isSafe s = [] ↔ s = [] := by
  constructor
  · intro h
    cases s with
    | nil => rfl
    | cons c s =>
      obtain ⟨rest, hrest⟩ := exists_percentChar c
      rw [percentEncode_cons, hrest] at h
      split at h
      · cases h
      · cases h
  · rintro rfl
    rfl

/-- A text starts as it does once it is encoded, but for percent signs. -/
theorem exists_of_percentEncode_eq_cons {s rest : List Char} {c : Char} (hc : c ≠ '%')
    (h : percentEncode isSafe s = c :: rest) : ∃ t, s = c :: t ∧ percentEncode isSafe t = rest := by
  cases s with
  | nil => cases h
  | cons d s =>
    rw [percentEncode_cons] at h
    split at h
    case isTrue =>
      obtain ⟨rfl, hrest⟩ := List.cons.inj h
      exact ⟨s, rfl, hrest⟩
    case isFalse =>
      obtain ⟨more, hmore⟩ := exists_percentChar d
      rw [hmore] at h
      exact absurd (List.cons.inj h).1.symm hc

/-! ## Decoding -/

theorem percentBytes_percentByte (byte : UInt8) (rest : List Char) :
    percentBytes (percentByte byte ++ rest) = byte :: percentBytes rest := by
  have hvalue : byte.toNat / 16 % 16 * 16 + byte.toNat % 16 = byte.toNat := by
    have hlt := UInt8.toNat_lt byte
    omega
  change percentBytes ('%' :: upperHex (byte.toNat / 16) :: upperHex byte.toNat :: rest) = _
  rw [percentBytes]
  simp only [hexDigit?_upperHex, hvalue, UInt8.ofNat_toNat]

theorem percentBytes_bytes (bytes : List UInt8) (rest : List Char) :
    percentBytes (bytes.flatMap percentByte ++ rest) = bytes ++ percentBytes rest := by
  induction bytes with
  | nil => rfl
  | cons byte bytes ih =>
    rw [List.flatMap_cons, List.append_assoc, percentBytes_percentByte, ih, List.cons_append]

theorem percentBytes_cons {c : Char} (hc : c ≠ '%') (rest : List Char) :
    percentBytes (c :: rest) = Text.toUtf8 [c] ++ percentBytes rest := by
  rw [percentBytes]
  rintro a b rest' rfl
  exact absurd rfl hc

/-- Decoding gives back what was encoded. -/
theorem percentDecode_percentEncode (hpercent : isSafe '%' = false) (s : List Char) :
    percentDecode (percentEncode isSafe s) = s := by
  have hbytes : percentBytes (percentEncode isSafe s) = Text.toUtf8 s := by
    induction s with
    | nil =>
      change percentBytes [] = []
      rw [percentBytes]
    | cons c s ih =>
      rw [percentEncode_cons, Text.toUtf8, List.flatMap_cons, ← Text.toUtf8]
      split
      case isTrue hsafe =>
        have hc : c ≠ '%' := by
          rintro rfl
          rw [isEncoded, hpercent] at hsafe
          revert hsafe
          decide
        rw [List.singleton_append, percentBytes_cons hc, ih, Text.toUtf8, List.flatMap_singleton]
      case isFalse =>
        rw [percentChar, percentBytes_bytes, ih, Text.toUtf8, List.flatMap_singleton]
  rw [percentDecode, hbytes, Text.lossyUtf8_toUtf8]

end KeyTree.Url
