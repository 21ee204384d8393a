import KeyTree.Json.Lexeme
import KeyTree.Tree.Supply
import Mathlib.Algebra.Group.Nat.Defs

/-!
# Digits read back

The digits of a natural number stand for that number, whatever zeros are put in front of them, and
zeros behind them are powers of ten. So different numbers have different texts, and different
counters give different identities.
-/

namespace KeyTree.Text

/-- A run of characters of a class ends where another character follows. -/
theorem takeWhile_append_of_head {p : Char → Bool} {s after : List Char}
    (hs : ∀ c ∈ s, p c = true) (hafter : ∀ c ∈ after.head?, p c = false) :
    (s ++ after).takeWhile p = s ∧ (s ++ after).dropWhile p = after := by
  rw [List.takeWhile_append_of_pos hs, List.dropWhile_append_of_pos hs]
  cases after with
  | nil => exact ⟨List.append_nil s, rfl⟩
  | cons c after =>
    have hc : p c = false := hafter c rfl
    rw [List.takeWhile_cons_of_neg (by rw [hc]; exact Bool.false_ne_true), List.append_nil,
      List.dropWhile_cons_of_neg (by rw [hc]; exact Bool.false_ne_true)]
    exact ⟨rfl, rfl⟩

theorem isPlainDigit_eq_isDigit (c : Char) : isPlainDigit c = c.isDigit := by
  simp [isPlainDigit, Char.isDigit, Char.le_def]

theorem toNat_of_isPlainDigit {c : Char} (h : isPlainDigit c = true) :
    48 ≤ c.toNat ∧ c.toNat ≤ 57 := by
  have hbounds : '0' ≤ c ∧ c ≤ '9' := of_decide_eq_true h
  exact hbounds

theorem digit?_of_isPlainDigit {c : Char} (h : isPlainDigit c = true) :
    digit? c = some (c.toNat - 48) := by
  have hbounds : '0' ≤ c ∧ c ≤ '9' := of_decide_eq_true h
  have hascii : c.toNat < 128 := by
    have := toNat_of_isPlainDigit h
    omega
  unfold digit?
  rw [if_pos hascii, if_pos hbounds]

theorem isDigit_of_isPlainDigit {c : Char} (h : isPlainDigit c = true) : isDigit c = true := by
  unfold isDigit
  rw [digit?_of_isPlainDigit h]
  rfl

theorem isPlainDigit_or_of_isDigit {c : Char} (h : isDigit c = true) :
    isPlainDigit c = true ∨ 128 ≤ c.toNat := by
  by_cases hascii : c.toNat < 128
  · left
    unfold isDigit digit? at h
    rw [if_pos hascii] at h
    split at h
    case isTrue hbounds => exact decide_eq_true hbounds
    case isFalse => cases h
  · exact .inr (Nat.not_lt.1 hascii)

theorem digitsValue_eq_ofDigitChars {s : List Char} (h : ∀ c ∈ s, isPlainDigit c = true) :
    digitsValue s = Nat.ofDigitChars 10 s 0 := by
  have hfold (total : Nat) :
      s.foldl (fun total c ↦ 10 * total + (digit? c).getD 0) total =
        Nat.ofDigitChars 10 s total := by
    induction s generalizing total with
    | nil => rfl
    | cons c s ih =>
      have hdigit := digit?_of_isPlainDigit (h c List.mem_cons_self)
      rw [List.foldl_cons, hdigit, Nat.ofDigitChars_cons,
        ih (fun d hd ↦ h d (List.mem_cons_of_mem c hd))]
      rfl
  exact hfold 0

theorem isPlainDigit_zero : isPlainDigit '0' = true := by decide

theorem isPlainDigit_of_mem_zero : ∀ c ∈ ['0'], isPlainDigit c = true := by
  intro c hc
  rw [List.mem_singleton.1 hc]
  exact isPlainDigit_zero

theorem isPlainDigit_of_mem_zeros {k : Nat} {c : Char} (h : c ∈ List.replicate k '0') :
    isPlainDigit c = true := by
  rw [List.eq_of_mem_replicate h]
  exact isPlainDigit_zero

theorem isPlainDigit_of_mem_toDigits {n : Nat} {c : Char} (h : c ∈ Nat.toDigits 10 n) :
    isPlainDigit c = true := by
  rw [isPlainDigit_eq_isDigit]
  exact Nat.isDigit_of_mem_toDigits (by decide) (by decide) h

theorem digitsValue_toDigits (n : Nat) : digitsValue (Nat.toDigits 10 n) = n := by
  rw [digitsValue_eq_ofDigitChars fun _ hc ↦ isPlainDigit_of_mem_toDigits hc]
  exact Nat.ofDigitChars_ten_toDigits

theorem digitsValue_append_zeros (s : List Char) (k : Nat) :
    digitsValue (s ++ List.replicate k '0') = digitsValue s * 10 ^ k := by
  induction k with
  | zero => simp
  | succ k ih =>
    have hzero : digit? '0' = some 0 := by decide
    unfold digitsValue at ih ⊢
    rw [List.replicate_succ', ← List.append_assoc, List.foldl_append, ih]
    simp only [List.foldl_cons, List.foldl_nil, hzero, Option.getD_some, Nat.add_zero]
    rw [Nat.pow_succ, Nat.mul_comm 10, Nat.mul_assoc]

theorem digitsValue_zeros_append (s : List Char) (k : Nat) :
    digitsValue (List.replicate k '0' ++ s) = digitsValue s := by
  have hzeros := digitsValue_append_zeros [] k
  have hnil : digitsValue [] = 0 := rfl
  rw [List.nil_append, hnil, Nat.zero_mul] at hzeros
  unfold digitsValue at hzeros ⊢
  rw [List.foldl_append, hzeros]

theorem digitsValue_cons_zero (s : List Char) : digitsValue ('0' :: s) = digitsValue s :=
  digitsValue_zeros_append s 1

theorem digitsValue_padded (width n : Nat) :
    digitsValue (Layout.padded width (Nat.toDigits 10 n)) = n := by
  unfold Layout.padded
  rw [digitsValue_zeros_append, digitsValue_toDigits]

/-- A number that is not zero does not start with a zero. -/
theorem toDigits_eq_cons {n : Nat} (h : n ≠ 0) :
    ∃ d ds, Nat.toDigits 10 n = d :: ds ∧ d ≠ '0' := by
  induction n using Nat.strongRecOn with
  | ind n ih =>
    by_cases hsmall : n < 10
    · refine ⟨n.digitChar, [], Nat.toDigits_of_lt_base hsmall, ?_⟩
      simpa using h
    · obtain ⟨d, ds, hdigits, hd⟩ := ih (n / 10) (by omega) (by omega)
      refine ⟨d, ds ++ [(n % 10).digitChar], ?_, hd⟩
      rw [Nat.toDigits_of_base_le (by decide) (by omega), hdigits, List.cons_append]

theorem toString_nat_injective {m n : Nat} (h : toString m = toString n) : m = n := by
  have hdigits : Nat.toDigits 10 m = Nat.toDigits 10 n := by
    rw [← Nat.toList_repr, ← Nat.toList_repr]
    exact congrArg String.toList h
  rw [← digitsValue_toDigits m, hdigits, digitsValue_toDigits]

end KeyTree.Text

namespace KeyTree

/-! ## Hexadecimal digits -/

namespace Json

theorem hexDigit?_digitChar {n : Nat} (h : n < 16) : hexDigit? n.digitChar = some n := by
  revert n
  decide

/-- The number that a run of hexadecimal digits stands for. -/
def hexValue (digits : List Char) : Nat :=
  digits.foldl (fun total c ↦ 16 * total + (hexDigit? c).getD 0) 0

theorem hexValue_nil : hexValue [] = 0 := rfl

theorem hexValue_append_digitChar (s : List Char) {n : Nat} (h : n < 16) :
    hexValue (s ++ [n.digitChar]) = 16 * hexValue s + n := by
  unfold hexValue
  rw [List.foldl_append, List.foldl_cons, hexDigit?_digitChar h]
  rfl

theorem hexValue_zeros_append (s : List Char) (k : Nat) :
    hexValue (List.replicate k '0' ++ s) = hexValue s := by
  have hzeros : hexValue (List.replicate k '0') = 0 := by
    induction k with
    | zero => rfl
    | succ k ih =>
      have hlast : hexValue (List.replicate k '0' ++ ['0']) = 16 * hexValue _ + 0 :=
        hexValue_append_digitChar (List.replicate k '0') (Nat.zero_lt_succ 15)
      rw [List.replicate_succ', hlast, ih]
  unfold hexValue at hzeros ⊢
  rw [List.foldl_append, hzeros]

theorem hexValue_toDigits (n : Nat) : hexValue (Nat.toDigits 16 n) = n := by
  induction n using Nat.strongRecOn with
  | ind n ih =>
    rw [Nat.toDigits_eq_if (by decide)]
    split
    case isTrue hsmall => simpa [hexValue_nil] using hexValue_append_digitChar [] hsmall
    case isFalse hlarge =>
      rw [hexValue_append_digitChar _ (Nat.mod_lt n (by decide)), ih (n / 16) (by omega),
        Nat.div_add_mod]

end Json

namespace Supply

/-- No two identities of a supply are equal. -/
theorem idOf_injective {m n : Nat} (h : idOf m = idOf n) : m = n := by
  have hdigits := congrArg (fun s ↦ Json.hexValue s.toList) h
  simpa only [idOf, String.toList_ofList, Layout.padded, Json.hexValue_zeros_append,
    Json.hexValue_toDigits] using hdigits

end Supply

end KeyTree
