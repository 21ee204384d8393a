import KeyTree.Proofs.Json.Numbers
import KeyTree.Proofs.Text.Utf8

/-!
# Written values as lexemes

Every character of a string is read from what is written for it, be it the character or an escape,
so a written string is one lexeme. Numbers and names are one lexeme too, and blanks are none.
-/

namespace KeyTree.Json

/-! ## Characters of strings -/

theorem hexDigit?_hexDigit (n : Nat) : hexDigit? (Text.hexDigit n) = some (n % 16) :=
  hexDigit?_digitChar (Nat.mod_lt n (by decide))

theorem hex_four (n : Nat) :
    Text.hex 4 n = [Text.hexDigit (n / 16 / 16 / 16), Text.hexDigit (n / 16 / 16),
      Text.hexDigit (n / 16), Text.hexDigit n] := rfl

theorem unit?_hex {n : Nat} (h : n < 0x10000) {rest : List Char} (hrest : rest ≠ []) :
    unit? (Text.hex 4 n ++ rest) = some n := by
  obtain ⟨c, rest, rfl⟩ := List.exists_cons_of_ne_nil hrest
  have hvalue : ((n / 16 / 16 / 16 % 16 * 16 + n / 16 / 16 % 16) * 16 + n / 16 % 16) * 16 +
      n % 16 = n := by
    omega
  rw [hex_four]
  simp only [unit?, List.cons_append, List.nil_append, hexDigit?_hexDigit, Option.bind_eq_bind,
    Option.bind_some, hvalue]

theorem scanString_escape {c d : Char} (h : unescape? c = some d) (hunit : c ≠ 'u')
    (rest : List Char) : scanString ('\\' :: c :: rest) = (scanString rest).cons d := by
  rw [scanString]
  · rw [h]
  · exact hunit

theorem scanString_plain {c : Char} (hquote : c ≠ '"') (hslash : c ≠ '\\') (hprint : 0x20 ≤ c.toNat)
    (rest : List Char) : scanString (c :: rest) = (scanString rest).cons c := by
  have hcontrol : ¬ c.toNat < 0x20 := by omega
  rw [scanString]
  · rw [if_neg hcontrol]
  · exact hquote
  · intro heq
    exact absurd heq hslash
  · intro tail heq
    exact absurd heq hslash
  · intro d tail heq
    exact absurd heq hslash

theorem drop_hex (n : Nat) (rest : List Char) : (Text.hex 4 n ++ rest).drop 4 = rest := rfl

theorem scanString_unitEscape {n : Nat} (h : n < 0x10000) (hhigh : isHighSurrogate n = false)
    {rest : List Char} (hrest : rest ≠ []) :
    scanString (unitEscape n ++ rest) = (scanString rest).cons (Text.scalar n) := by
  rw [unitEscape, List.cons_append, List.cons_append, scanString, unit?_hex h hrest]
  simp only [hhigh, drop_hex]

/-- The two escapes of a surrogate pair are one character. -/
theorem scanString_pair {high low : Nat} (hhigh : 0xD800 ≤ high ∧ high ≤ 0xDBFF)
    (hlow : 0xDC00 ≤ low ∧ low ≤ 0xDFFF) {rest : List Char} (hrest : rest ≠ []) :
    scanString (unitEscape high ++ (unitEscape low ++ rest)) =
      (scanString rest).cons
        (Text.scalar (0x10000 + (high - 0xD800) * 0x400 + (low - 0xDC00))) := by
  have hfirst : unit? (Text.hex 4 high ++ (unitEscape low ++ rest)) = some high :=
    unit?_hex (by omega) (List.cons_ne_nil _ _)
  have hsecond : unit? (Text.hex 4 low ++ rest) = some low := unit?_hex (by omega) hrest
  have hdrop : (Text.hex 4 high ++ (unitEscape low ++ rest)).drop 10 = rest := rfl
  have hpair : (Text.hex 4 high ++ (unitEscape low ++ rest)).drop 4 =
      '\\' :: 'u' :: (Text.hex 4 low ++ rest) := rfl
  have hishigh : isHighSurrogate high = true := decide_eq_true hhigh
  have hislow : isLowSurrogate low = true := decide_eq_true hlow
  rw [unitEscape, List.cons_append, List.cons_append, scanString, hfirst]
  simp only [hishigh, hpair, hsecond, hislow, hdrop, if_true]

/-- Every character is read from what is written for it. -/
theorem scanString_writeChar (ascii : Bool) (c : Char) {rest : List Char} (hrest : rest ≠ []) :
    scanString (writeChar ascii c ++ rest) = (scanString rest).cons c := by
  have hvalid : c.toNat < 0xD800 ∨ 0xDFFF < c.toNat ∧ c.toNat < 0x110000 := c.valid
  have hhigh : isHighSurrogate c.toNat = false := by
    rw [isHighSurrogate, decide_eq_false_iff_not]
    omega
  have hunit (h : c.toNat < 0x10000) :
      scanString (unitEscape c.toNat ++ rest) = (scanString rest).cons c := by
    rw [scanString_unitEscape h hhigh hrest, Text.scalar_toNat]
  by_cases hquote : c = '"'
  · subst hquote
    exact scanString_escape rfl (by decide) rest
  by_cases hslash : c = '\\'
  · subst hslash
    exact scanString_escape rfl (by decide) rest
  by_cases hfeed : c = '\n'
  · subst hfeed
    exact scanString_escape rfl (by decide) rest
  by_cases hreturn : c = '\r'
  · subst hreturn
    exact scanString_escape rfl (by decide) rest
  by_cases htab : c = '\t'
  · subst htab
    exact scanString_escape rfl (by decide) rest
  by_cases hform : c = '\x0c'
  · subst hform
    exact scanString_escape rfl (by decide) rest
  by_cases hback : c = '\x08'
  · subst hback
    exact scanString_escape rfl (by decide) rest
  unfold writeChar
  dsimp only
  rw [if_neg hquote, if_neg hslash, if_neg hfeed, if_neg hreturn, if_neg htab, if_neg hform,
    if_neg hback]
  by_cases hcontrol : c.toNat < 0x20
  · rw [if_pos hcontrol]
    exact hunit (by omega)
  rw [if_neg hcontrol]
  by_cases hplain : c.toNat < 0x7F ∨ ascii = false
  · rw [if_pos hplain]
    exact scanString_plain hquote hslash (by omega) rest
  rw [if_neg hplain]
  by_cases hnarrow : c.toNat < 0x10000
  · rw [if_pos hnarrow]
    exact hunit hnarrow
  rw [if_neg hnarrow, List.append_assoc, scanString_pair (by omega) (by omega) hrest]
  have hcode : 0x10000 + (0xD800 + (c.toNat - 0x10000) / 0x400 - 0xD800) * 0x400 +
      (0xDC00 + (c.toNat - 0x10000) % 0x400 - 0xDC00) = c.toNat := by
    omega
  rw [hcode, Text.scalar_toNat]

/-- Every string is read from what is written for it. -/
theorem scanString_chars (ascii : Bool) (s rest : List Char) :
    scanString (s.flatMap (writeChar ascii) ++ '"' :: rest) = .closed s rest := by
  induction s with
  | nil => rw [List.flatMap_nil, List.nil_append, scanString]
  | cons c s ih =>
    have hsome : s.flatMap (writeChar ascii) ++ '"' :: rest ≠ [] :=
      List.append_ne_nil_of_right_ne_nil _ (List.cons_ne_nil _ _)
    rw [List.flatMap_cons, List.append_assoc, scanString_writeChar ascii c hsome, ih]
    rfl

/-! ## Lexemes -/

theorem lexemes_space {blanks : List Char} (h : ∀ c ∈ blanks, isSpace c = true)
    (rest : List Char) : lexemes (blanks ++ rest) = lexemes rest := by
  induction blanks with
  | nil => rfl
  | cons c blanks ih =>
    rw [List.cons_append, lexemes, if_pos (h c List.mem_cons_self)]
    exact ih fun d hd ↦ h d (List.mem_cons_of_mem c hd)

theorem lexemes_punctuation {c : Char} {lexeme : Lexeme} (hspace : isSpace c = false)
    (h : punctuation? c = some lexeme) (rest : List Char) :
    lexemes (c :: rest) = ⟨lexeme, c :: rest⟩ :: lexemes rest := by
  rw [lexemes, if_neg (Bool.eq_false_iff.1 hspace), h]

theorem lexemes_writeString (ascii : Bool) (s : String) (rest : List Char) :
    lexemes (writeString ascii s ++ rest) =
      ⟨.string s, writeString ascii s ++ rest⟩ :: lexemes rest := by
  have htext : writeString ascii s ++ rest =
      '"' :: (s.toList.flatMap (writeChar ascii) ++ '"' :: rest) := by
    simp [writeString]
  have hscan := scanString_chars ascii s.toList rest
  rw [htext, lexemes]
  have hspace : isSpace '"' = false := by decide
  have hpunctuation : punctuation? '"' = none := rfl
  rw [if_neg (Bool.eq_false_iff.1 hspace), hpunctuation, if_pos rfl]
  dsimp only
  split
  case h_1 text after heq =>
    rw [hscan] at heq
    obtain ⟨rfl, rfl⟩ : s.toList = text ∧ rest = after := by simpa using heq
    rw [String.ofList_toList]
  case h_2 heq =>
    rw [hscan] at heq
    cases heq
  case h_3 heq =>
    rw [hscan] at heq
    cases heq

/-- What starts like a blank, a mark or a string is no scalar. -/
theorem scanScalar?_starts {c : Char} {rest : List Char} {found : Lexeme × Nat}
    (h : scanScalar? (c :: rest) = some found) :
    isSpace c = false ∧ punctuation? c = none ∧ c ≠ '"' := by
  refine ⟨?_, ?_, ?_⟩
  · rw [Bool.eq_false_iff]
    intro hspace
    simp only [isSpace, Bool.or_eq_true, beq_iff_eq] at hspace
    obtain ((rfl | rfl) | rfl) | rfl := hspace <;> cases h
  · unfold punctuation?
    split <;> first | rfl | cases h
  · rintro rfl
    cases h

theorem lexemes_scalar {text rest : List Char} {lexeme : Lexeme} (hsome : text ≠ [])
    (h : scanScalar? (text ++ rest) = some (lexeme, text.length)) :
    lexemes (text ++ rest) = ⟨lexeme, text ++ rest⟩ :: lexemes rest := by
  obtain ⟨c, text, rfl⟩ := List.exists_cons_of_ne_nil hsome
  rw [List.cons_append] at h ⊢
  obtain ⟨hspace, hpunctuation, hquote⟩ := scanScalar?_starts h
  rw [lexemes, if_neg (Bool.eq_false_iff.1 hspace), hpunctuation, if_neg hquote, h]
  simp only [List.length_cons, List.drop_left]

end KeyTree.Json
