import KeyTree.Number.Whole
import KeyTree.Proofs.Number.Shown

/-!
# Whole numbers read back

A whole number is read back from its digits, if they are not too many, and what is read has no more.
-/

namespace KeyTree

namespace Text

theorem digit?_lt {c : Char} {n : Nat} (h : digit? c = some n) : n < 10 := by
  unfold digit? at h
  split at h
  case isTrue =>
    split at h
    case isTrue hbounds =>
      have hplain : isPlainDigit c = true := decide_eq_true hbounds
      have hle := (toNat_of_isPlainDigit hplain).2
      have hn := Option.some.inj h
      omega
    case isFalse => cases h
  case isFalse =>
    obtain ⟨first, hfirst, hn⟩ := Option.map_eq_some_iff.1 h
    have hbounds : first ≤ c.toNat ∧ c.toNat < first + 10 := by
      simpa using List.find?_some hfirst
    omega

/-- A run of digits stands for less than one more digit does. -/
theorem digitsValue_lt (s : List Char) : digitsValue s < 10 ^ s.length := by
  induction s using List.reverseRecOn with
  | nil => exact Nat.one_pos
  | append_singleton s c ih =>
    have hvalue : digitsValue (s ++ [c]) = 10 * digitsValue s + (digit? c).getD 0 := by
      unfold digitsValue
      rw [List.foldl_append, List.foldl_cons, List.foldl_nil]
    have hdigit : (digit? c).getD 0 < 10 := by
      cases hc : digit? c with
      | none => exact Nat.succ_pos 9
      | some n => exact digit?_lt hc
    rw [hvalue, List.length_append, List.length_singleton, Nat.pow_succ]
    omega

theorem eq_minus_or_of_mem_toString {i : Int} {c : Char} (h : c ∈ (toString i).toList) :
    c = '-' ∨ isPlainDigit c = true := by
  rw [Json.toList_toString_int] at h
  rcases List.mem_append.1 h with h | h
  · split at h
    · exact .inl (List.mem_singleton.1 h)
    · cases h
  · exact .inr (isPlainDigit_of_mem_toDigits h)

end Text

namespace Whole

theorem natAbs_lt_of_signed? {s : List Char} {i : Int} (h : signed? s = some i) :
    i.natAbs < 10 ^ TooManyDigits.limit := by
  obtain ⟨chars, -, h⟩ := Option.bind_eq_some_iff.1 h
  dsimp only at h
  split at h
  case isTrue => cases h
  case isFalse =>
    obtain ⟨size, hsize, h⟩ := Option.bind_eq_some_iff.1 h
    unfold read at hsize
    split at hsize
    case isTrue => cases hsize
    case isFalse hlength =>
      have hvalue := Option.some.inj hsize
      have hlt : size < 10 ^ TooManyDigits.limit := by
        rw [← hvalue]
        exact Nat.lt_of_lt_of_le (Text.digitsValue_lt _)
          (Nat.pow_le_pow_right (by decide) (Nat.le_of_not_lt hlength))
      have habs : i.natAbs = size := by
        have hi := Option.some.inj h
        split at hi
        · omega
        · omega
      rw [habs]
      exact hlt

theorem isPlain_toDigits (n : Nat) : (Numeral.mk (Nat.toDigits 10 n) none).IsPlain := by
  constructor
  · intro c hc
    rw [Option.getD_none, List.append_nil] at hc
    exact Text.isPlainDigit_of_mem_toDigits hc
  · rw [Option.getD_none, List.append_nil]
    exact List.ne_nil_of_length_pos Nat.length_toDigits_pos

/-- A whole number is read from its digits, if they are not too many. -/
theorem signed?_toString {i : Int} (h : i.natAbs < 10 ^ TooManyDigits.limit) :
    signed? (toString i).toList = some i := by
  have hplain := isPlain_toDigits i.natAbs
  have htext : (Numeral.mk (Nat.toDigits 10 i.natAbs) none).text = Nat.toDigits 10 i.natAbs :=
    List.append_nil _
  have hwritten : (toString i).toList = signText (decide (i < 0)) ++ Nat.toDigits 10 i.natAbs := by
    simp only [Json.toList_toString_int, signText, decide_eq_true_eq]
  have hscan := Number.scanSign_of_isPlain hplain (decide (i < 0))
  have hneutral (c : Char) (hc : c ∈ signText (decide (i < 0)) ++ Nat.toDigits 10 i.natAbs) :=
    Number.not_isMargin_of_mem hplain (htext.symm ▸ hc)
  have hsome := hplain.text_ne_nil
  have hdigits : (Nat.toDigits 10 i.natAbs).all Text.isDigit = true :=
    List.all_eq_true.2 fun c hc ↦
      Text.isDigit_of_isPlainDigit (Text.isPlainDigit_of_mem_toDigits hc)
  have hread : (read (Nat.toDigits 10 i.natAbs)).toOption = some i.natAbs := by
    have hlength := (Nat.length_toDigits_le_iff (b := 10) (by decide) (by decide)).2 h
    rw [read, if_neg (Nat.not_lt.2 hlength), Text.digitsValue_toDigits]
    rfl
  rw [htext] at hscan hsome
  have htrim := Text.trim_append (p := Number.isMargin) (List.forall_mem_nil _)
    (fun c hc ↦ (hneutral c hc).1) (List.append_ne_nil_of_right_ne_nil _ hsome)
    (List.forall_mem_nil _)
  rw [List.nil_append, List.append_nil] at htrim
  rw [signed?, hwritten, htrim, Number.ungroup?_of_not_mem fun hmem ↦ (hneutral '_' hmem).2 rfl,
    Option.bind_eq_bind, Option.bind_some, hscan]
  simp only [hdigits, hread, List.isEmpty_iff, hsome, Bool.not_true, Bool.or_false,
    decide_eq_true_eq, Option.bind_eq_bind, Option.bind_some]
  refine congrArg some ?_
  split
  case isTrue hneg => omega
  case isFalse hneg => omega

end Whole

end KeyTree
