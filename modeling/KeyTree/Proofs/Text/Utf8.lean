import KeyTree.Text.Lossy

/-!
# Texts read back from their bytes

Every character is read back from its bytes in UTF-8, so every text is. A document that starts with
two characters of ASCII is seen to be UTF-8 by its first bytes.
-/

namespace KeyTree.Text

/-! ## One character -/

theorem toNat_ofNat_byte {n : Nat} (h : n < 256) : (UInt8.ofNat n).toNat = n := by
  rw [UInt8.toNat_ofNat']
  exact Nat.mod_eq_of_lt h

theorem scalar_toNat (c : Char) : scalar c.toNat = c := by
  have hvalid : c.toNat < 0xD800 ∨ 0xDFFF < c.toNat ∧ c.toNat < 0x110000 := c.valid
  have hscalar : ¬ (0xD800 ≤ c.toNat ∧ c.toNat ≤ 0xDFFF) := by omega
  unfold scalar
  rw [if_neg hscalar, Char.ofNat_toNat]

theorem continueWith_cons {bits least greatest following n code : Nat} {rest : List UInt8}
    (hbyte : n < 256) (hleast : least ≤ n) (hgreatest : n ≤ greatest)
    (h : continueWith (bits * 64 + (n - 0x80)) 0x80 0xBF following rest = .ok code) :
    continueWith bits least greatest (following + 1) (UInt8.ofNat n :: rest) = .ok code := by
  unfold continueWith
  rw [toNat_ofNat_byte hbyte, if_pos ⟨hleast, hgreatest⟩, h]
  rfl

/-- Bytes that are one character, whatever follows them. -/
def SpellsCode (bytes : List UInt8) (code : Nat) : Prop :=
  ∃ byte following lead, bytes = byte :: following ∧ lead? byte = some lead ∧
    lead.following = following.length ∧ ∀ rest,
      continueWith lead.bits lead.least lead.greatest lead.following (following ++ rest) = .ok code

theorem lead?_one {n : Nat} (h : n < 0x80) :
    lead? (UInt8.ofNat n) = some ⟨n, 0, 0x80, 0xBF⟩ := by
  unfold lead?
  rw [toNat_ofNat_byte (by omega)]
  simp only [h, if_true]

theorem lead?_two {n : Nat} (hleast : 2 ≤ n) (hgreatest : n < 0x20) :
    lead? (UInt8.ofNat (n + 0xC0)) = some ⟨n, 1, 0x80, 0xBF⟩ := by
  unfold lead?
  rw [toNat_ofNat_byte (by omega)]
  simp only [show ¬ n + 0xC0 < 0x80 by omega, show ¬ n + 0xC0 < 0xC2 by omega,
    show n + 0xC0 < 0xE0 by omega, if_true, if_false, Nat.add_sub_cancel]

/-- The first byte of three bounds the next, so that nothing short and no surrogate is spelled. -/
theorem lead?_three {n next : Nat} (h : n < 0x10) (hnext : 0x80 ≤ next ∧ next ≤ 0xBF)
    (hshort : n = 0 → 0xA0 ≤ next) (hsurrogate : n = 0xD → next ≤ 0x9F) :
    ∃ least greatest, lead? (UInt8.ofNat (n + 0xE0)) = some ⟨n, 2, least, greatest⟩ ∧
      least ≤ next ∧ next ≤ greatest := by
  unfold lead?
  rw [toNat_ofNat_byte (by omega)]
  simp only [show ¬ n + 0xE0 < 0x80 by omega, show ¬ n + 0xE0 < 0xC2 by omega,
    show ¬ n + 0xE0 < 0xE0 by omega, if_false]
  by_cases hzero : n = 0
  · subst hzero
    exact ⟨0xA0, 0xBF, rfl, hshort rfl, hnext.2⟩
  · by_cases hhalf : n = 0xD
    · subst hhalf
      exact ⟨0x80, 0x9F, rfl, hnext.1, hsurrogate rfl⟩
    · refine ⟨0x80, 0xBF, ?_, hnext⟩
      simp only [show n + 0xE0 ≠ 0xE0 by omega, show n + 0xE0 ≠ 0xED by omega,
        show n + 0xE0 < 0xF0 by omega, if_true, if_false, Nat.add_sub_cancel]

/-- The first byte of four bounds the next one, so that nothing short and nothing too large is
spelled. -/
theorem lead?_four {n next : Nat} (h : n ≤ 4) (hnext : 0x80 ≤ next ∧ next ≤ 0xBF)
    (hshort : n = 0 → 0x90 ≤ next) (hlarge : n = 4 → next ≤ 0x8F) :
    ∃ least greatest, lead? (UInt8.ofNat (n + 0xF0)) = some ⟨n, 3, least, greatest⟩ ∧
      least ≤ next ∧ next ≤ greatest := by
  unfold lead?
  rw [toNat_ofNat_byte (by omega)]
  simp only [show ¬ n + 0xF0 < 0x80 by omega, show ¬ n + 0xF0 < 0xC2 by omega,
    show ¬ n + 0xF0 < 0xE0 by omega, show n + 0xF0 ≠ 0xE0 by omega,
    show n + 0xF0 ≠ 0xED by omega, show ¬ n + 0xF0 < 0xF0 by omega, if_false]
  by_cases hzero : n = 0
  · subst hzero
    exact ⟨0x90, 0xBF, rfl, hshort rfl, hnext.2⟩
  · by_cases hfour : n = 4
    · subst hfour
      exact ⟨0x80, 0x8F, rfl, hnext.1, hlarge rfl⟩
    · refine ⟨0x80, 0xBF, ?_, hnext⟩
      simp only [show n + 0xF0 ≠ 0xF0 by omega, show n + 0xF0 < 0xF4 by omega, if_true, if_false,
        Nat.add_sub_cancel]

theorem spellsCode_one {v : Nat} (h : v < 0x80) : SpellsCode [UInt8.ofNat v] v :=
  ⟨_, [], _, rfl, lead?_one h, rfl, fun _ ↦ rfl⟩

theorem spellsCode_two {v : Nat} (hleast : 0x80 ≤ v) (h : v < 0x800) :
    SpellsCode [UInt8.ofNat (v / 64 + 0xC0), UInt8.ofNat (v % 64 + 0x80)] v := by
  refine ⟨_, [_], _, rfl, lead?_two (by omega) (by omega), rfl, fun rest ↦ ?_⟩
  dsimp only
  apply continueWith_cons (by omega) (by omega) (by omega)
  rw [continueWith, Nat.add_sub_cancel, Nat.div_add_mod']

theorem spellsCode_three {v : Nat} (hleast : 0x800 ≤ v) (h : v < 0x10000)
    (hvalid : v < 0xD800 ∨ 0xDFFF < v) :
    SpellsCode [UInt8.ofNat (v / 4096 + 0xE0), UInt8.ofNat (v / 64 % 64 + 0x80),
      UInt8.ofNat (v % 64 + 0x80)] v := by
  obtain ⟨least, greatest, hlead, hbounds⟩ :=
    @lead?_three (v / 4096) (v / 64 % 64 + 0x80) (by omega) (by omega) (by omega) (by omega)
  have hvalue : (v / 4096 * 64 + (v / 64 % 64 + 0x80 - 0x80)) * 64 + (v % 64 + 0x80 - 0x80) =
      v := by
    omega
  refine ⟨_, [_, _], _, rfl, hlead, rfl, fun rest ↦ ?_⟩
  apply continueWith_cons (by omega) hbounds.1 hbounds.2
  apply continueWith_cons (by omega) (by omega) (by omega)
  rw [continueWith, hvalue]

theorem spellsCode_four {v : Nat} (hleast : 0x10000 ≤ v) (h : v < 0x110000) :
    SpellsCode [UInt8.ofNat (v / 262144 + 0xF0), UInt8.ofNat (v / 4096 % 64 + 0x80),
      UInt8.ofNat (v / 64 % 64 + 0x80), UInt8.ofNat (v % 64 + 0x80)] v := by
  obtain ⟨least, greatest, hlead, hbounds⟩ :=
    @lead?_four (v / 262144) (v / 4096 % 64 + 0x80) (by omega) (by omega) (by omega) (by omega)
  have hvalue : ((v / 262144 * 64 + (v / 4096 % 64 + 0x80 - 0x80)) * 64 +
      (v / 64 % 64 + 0x80 - 0x80)) * 64 + (v % 64 + 0x80 - 0x80) = v := by
    omega
  refine ⟨_, [_, _, _], _, rfl, hlead, rfl, fun rest ↦ ?_⟩
  apply continueWith_cons (by omega) hbounds.1 hbounds.2
  apply continueWith_cons (by omega) (by omega) (by omega)
  apply continueWith_cons (by omega) (by omega) (by omega)
  rw [continueWith, hvalue]

/-- The bytes of a character spell it. -/
theorem spellsCode_encodeChar (c : Char) : SpellsCode (String.utf8EncodeChar c) c.toNat := by
  have hvalid : c.toNat < 0xD800 ∨ 0xDFFF < c.toNat ∧ c.toNat < 0x110000 := c.valid
  unfold String.utf8EncodeChar
  unfold Char.toNat at hvalid ⊢
  generalize c.val.toNat = v at hvalid ⊢
  dsimp only
  split
  case isTrue hone => exact spellsCode_one (by omega)
  case isFalse hone =>
    split
    case isTrue htwo =>
      have hfront : v / 64 % 32 = v / 64 := Nat.mod_eq_of_lt (by omega)
      rw [hfront]
      exact spellsCode_two (by omega) (by omega)
    case isFalse htwo =>
      split
      case isTrue hthree =>
        have hfront : v / 4096 % 16 = v / 4096 := Nat.mod_eq_of_lt (by omega)
        rw [hfront]
        exact spellsCode_three (by omega) (by omega) (by omega)
      case isFalse hthree =>
        have hfront : v / 262144 % 8 = v / 262144 := Nat.mod_eq_of_lt (by omega)
        rw [hfront]
        exact spellsCode_four (by omega) (by omega)

/-! ## Texts -/

/-- Every text is read back from its bytes. -/
theorem ofUtf8_toUtf8 (strict : Bool) (position : Nat) (s : List Char) :
    ofUtf8 strict position (toUtf8 s) = .ok s := by
  induction s generalizing position with
  | nil => rw [toUtf8, List.flatMap_nil, ofUtf8]
  | cons c s ih =>
    obtain ⟨byte, following, lead, hbytes, hlead, hlength, hcode⟩ := spellsCode_encodeChar c
    rw [toUtf8, List.flatMap_cons, ← toUtf8, hbytes, List.cons_append, ofUtf8]
    simp only [hlead, hcode]
    rw [hlength, List.drop_left, ih, scalar_toNat]
    rfl

/-- A text is read back leniently too. -/
theorem lossyUtf8_toUtf8 (s : List Char) : lossyUtf8 (toUtf8 s) = s := by
  induction s with
  | nil => rw [toUtf8, List.flatMap_nil, lossyUtf8]
  | cons c s ih =>
    obtain ⟨byte, following, lead, hbytes, hlead, hlength, hcode⟩ := spellsCode_encodeChar c
    rw [toUtf8, List.flatMap_cons, ← toUtf8, hbytes, List.cons_append, lossyUtf8]
    simp only [hlead, hcode]
    rw [hlength, List.drop_left, ih, scalar_toNat]

theorem encodeChar_ascii {c : Char} (h : c.toNat < 0x80) :
    String.utf8EncodeChar c = [UInt8.ofNat c.toNat] := by
  unfold String.utf8EncodeChar
  exact if_pos (Nat.le_of_lt_succ h)

/-- Bytes of ASCII at the start of a document show that it is in UTF-8. -/
theorem decode_of_ascii {a b : UInt8} (rest : List UInt8) (ha : a ≠ 0 ∧ a < 0x80) (hb : b ≠ 0) :
    decode (a :: b :: rest) = ofUtf8 false 0 (a :: b :: rest) := by
  have hzeros : encodingByZeros (a :: b :: rest) = .utf8 := by
    unfold encodingByZeros
    split <;> simp_all
  unfold decode
  split <;> simp_all

/-- A text that starts with two characters of ASCII is read back as a document. -/
theorem decode_toUtf8 {c d : Char} (rest : List Char) (hc : c.toNat ≠ 0 ∧ c.toNat < 0x80)
    (hd : d.toNat ≠ 0 ∧ d.toNat < 0x80) :
    decode (toUtf8 (c :: d :: rest)) = .ok (c :: d :: rest) := by
  have hbytes : toUtf8 (c :: d :: rest) =
      UInt8.ofNat c.toNat :: UInt8.ofNat d.toNat :: toUtf8 rest := by
    simp only [toUtf8, List.flatMap_cons, encodeChar_ascii hc.2, encodeChar_ascii hd.2]
    rfl
  have hbyte {n : Nat} (hn : n ≠ 0 ∧ n < 0x80) : UInt8.ofNat n ≠ 0 ∧ UInt8.ofNat n < 0x80 := by
    have hnat := @toNat_ofNat_byte n (by omega)
    constructor
    · intro hzero
      rw [hzero] at hnat
      exact hn.1 hnat.symm
    · rw [UInt8.lt_iff_toNat_lt, hnat]
      exact hn.2
  rw [hbytes, decode_of_ascii _ (hbyte hc) (hbyte hd).1, ← hbytes, ofUtf8_toUtf8]

end KeyTree.Text
