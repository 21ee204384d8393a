import KeyTree.Proofs.Arithmetic.Scanning
import KeyTree.Proofs.Number.Nearest
import KeyTree.Trigger.Basic

/-!
# The number at the start of a text

A number is written as a sign, a numeral and an exponent, of which the numeral alone is needed. The
texts of this form are described without the scanner. What the scanner takes off the start of a text is
the longest of them, and it is the text of a number as a whole. If none stands there, the result is
no number, and in no other case.
-/

namespace KeyTree

/-! ## Characters -/

namespace Text

theorem toLower_of_isDigit {c : Char} (h : isDigit c = true) : c.toLower = c := by
  apply dif_neg
  rintro ⟨hleast, hgreatest⟩
  rw [ge_iff_le, UInt32.le_iff_toNat_le] at hleast
  rw [UInt32.le_iff_toNat_le] at hgreatest
  change 65 ≤ c.toNat at hleast
  change c.toNat ≤ 90 at hgreatest
  rcases isPlainDigit_or_of_isDigit h with hplain | hlarge
  · have hbounds := toNat_of_isPlainDigit hplain
    omega
  · omega

end Text

namespace Numeral

variable {n : Numeral} {after : List Char}

theorem IsProper.isDigit_or_of_mem (h : n.IsProper) {c : Char} (hc : c ∈ n.text) :
    Text.isDigit c = true ∨ c = '.' := by
  rw [text, List.mem_append] at hc
  rcases hc with hc | hc
  · exact .inl (h.isDigit_of_mem_whole hc)
  · cases hfraction : n.fraction with
    | none =>
      rw [hfraction] at hc
      cases hc
    | some behind =>
      rw [hfraction] at hc
      rcases List.mem_cons.1 hc with rfl | hc
      · exact .inr rfl
      · exact .inl (h.digits c (List.mem_append_right _ (hfraction ▸ hc)))

theorem IsProper.text_ne_nil (h : n.IsProper) : n.text ≠ [] := by
  intro hnil
  obtain ⟨c, hc⟩ := List.exists_mem_of_ne_nil _ h.nonempty
  have hmem := mem_text_of_mem hc
  rw [hnil] at hmem
  cases hmem

/-- A character that is neither a digit nor a point ends a numeral. -/
theorem isLongest_of_endsNumeral (hafter : EndsNumeral after) : n.IsLongest after := by
  intro m hm hprefix
  by_contra hlonger
  rw [Nat.not_le] at hlonger
  obtain ⟨more, hmore⟩ := List.prefix_of_prefix_length_le (List.prefix_append _ _) hprefix hlonger.le
  have hsome : more ≠ [] := by
    rintro rfl
    rw [List.append_nil] at hmore
    exact hlonger.ne (congrArg List.length hmore)
  obtain ⟨c, rest, rfl⟩ := List.exists_cons_of_ne_nil hsome
  rw [← hmore, List.prefix_append_right_inj] at hprefix
  obtain ⟨hdigit, hpoint⟩ := hafter c (by
    obtain ⟨_, rfl⟩ := hprefix
    rfl)
  have hmem : c ∈ m.text := hmore ▸ List.mem_append_right _ List.mem_cons_self
  rcases hm.isDigit_or_of_mem hmem with h | h
  · rw [hdigit] at h
    cases h
  · exact hpoint h

end Numeral

namespace Number

/-! ## The form of a number -/

/-- What may stand in front of digits. -/
def signs : List (List Char) := [[], ['+'], ['-']]

/-- An exponent and its size. It may be missing, and then it is zero. -/
inductive WritesExponent : List Char → Int → Prop
  | missing : WritesExponent [] 0
  | marked {mark : Char} {sign digits : List Char} (hmark : mark = 'e' ∨ mark = 'E')
      (hsign : sign ∈ signs) (hdigits : ∀ c ∈ digits, Text.isDigit c = true) (hsome : digits ≠ []) :
      WritesExponent (mark :: (sign ++ digits))
        (if sign = ['-'] then -(Text.digitsValue digits : Int) else Text.digitsValue digits)

/-- A sign, a numeral and an exponent, and the double nearest to what they stand for. -/
inductive Writes : List Char → Float → Prop
  | intro {sign exponent : List Char} {n : Numeral} {size : Int} (hsign : sign ∈ signs)
      (hproper : n.IsProper) (hexponent : WritesExponent exponent size) :
      Writes (sign ++ (n.text ++ exponent)) ((n.decimal size).toFloat (sign = ['-']))

variable {s sign text rest after : List Char} {x : Float} {size : Int}

/-! ## Its scan -/

theorem exists_of_scanSign (s : List Char) :
    ∃ sign ∈ signs, s = sign ++ (scanSign s).2 ∧ (scanSign s).1 = decide (sign = ['-']) := by
  unfold scanSign
  split
  case h_1 rest => exact ⟨['-'], by decide, rfl, rfl⟩
  case h_2 rest => exact ⟨['+'], by decide, rfl, rfl⟩
  case h_3 => exact ⟨[], by decide, rfl, rfl⟩

/-- A sign ends where something else begins. -/
theorem scanSign_append (hsign : sign ∈ signs) (hrest : ∀ c ∈ rest.head?, c ≠ '-' ∧ c ≠ '+') :
    scanSign (sign ++ rest) = (decide (sign = ['-']), rest) := by
  simp only [signs, List.mem_cons, List.not_mem_nil, or_false] at hsign
  rcases hsign with rfl | rfl | rfl
  · unfold scanSign
    split
    case h_1 tail heq => exact absurd rfl (hrest '-' (congrArg List.head? heq)).1
    case h_2 tail heq => exact absurd rfl (hrest '+' (congrArg List.head? heq)).2
    case h_3 => rfl
  · rfl
  · rfl

theorem ne_sign_of_isDigit {c : Char} (h : Text.isDigit c = true) : c ≠ '-' ∧ c ≠ '+' := by
  constructor
  · rintro rfl
    exact absurd h (by decide)
  · rintro rfl
    exact absurd h (by decide)

/-- An exponent goes on as far as its digits do. -/
theorem scanExponent_marked {mark : Char} {digits : List Char} (hmark : mark = 'e' ∨ mark = 'E')
    (hsign : sign ∈ signs) (hdigits : ∀ c ∈ digits, Text.isDigit c = true) (hsome : digits ≠ [])
    (after : List Char) :
    scanExponent (mark :: (sign ++ (digits ++ after))) =
      (if sign = ['-'] then -(Text.digitsValue (digits ++ after.takeWhile Text.isDigit) : Int)
        else Text.digitsValue (digits ++ after.takeWhile Text.isDigit),
        after.dropWhile Text.isDigit) := by
  have hhead : ∀ c ∈ (digits ++ after).head?, c ≠ '-' ∧ c ≠ '+' := by
    intro c hc
    rw [List.head?_append_of_ne_nil _ hsome] at hc
    exact ne_sign_of_isDigit (hdigits c (List.mem_of_mem_head? hc))
  have hnonempty : (digits ++ after.takeWhile Text.isDigit).isEmpty = false :=
    List.isEmpty_eq_false_iff.2 (List.append_ne_nil_of_left_ne_nil hsome _)
  rw [scanExponent, if_pos hmark, scanSign_append hsign hhead]
  simp only [List.takeWhile_append_of_pos hdigits, List.dropWhile_append_of_pos hdigits, hnonempty,
    Bool.false_eq_true, if_false, decide_eq_true_eq]

/-- Nothing is lost: an exponent, if only a missing one, and what follows make up the text. -/
theorem exists_of_scanExponent (s : List Char) : ∃ written,
    WritesExponent written (scanExponent s).1 ∧ s = written ++ (scanExponent s).2 := by
  cases s with
  | nil => exact ⟨[], .missing, rfl⟩
  | cons mark rest =>
    by_cases hmark : mark = 'e' ∨ mark = 'E'
    · obtain ⟨sign, hsign, hrest, hminus⟩ := exists_of_scanSign rest
      rw [scanExponent, if_pos hmark]
      dsimp only
      rw [hminus]
      generalize (scanSign rest).2 = tail at hrest
      by_cases hnone : tail.takeWhile Text.isDigit = []
      · rw [hnone]
        exact ⟨[], .missing, rfl⟩
      · have hdigits : ∀ c ∈ tail.takeWhile Text.isDigit, Text.isDigit c = true :=
          List.all_eq_true.1 List.all_takeWhile
        have hwritten := WritesExponent.marked hmark hsign hdigits hnone
        rw [List.isEmpty_eq_false_iff.2 hnone, if_neg Bool.false_ne_true]
        refine ⟨_, by simpa only [decide_eq_true_eq] using hwritten, ?_⟩
        rw [List.cons_append, List.append_assoc, List.takeWhile_append_dropWhile, ← hrest]
    · refine ⟨[], ?_⟩
      rw [scanExponent, if_neg hmark]
      exact ⟨.missing, rfl⟩

theorem length_scanExponent_le (s : List Char) : (scanExponent s).2.length ≤ s.length := by
  obtain ⟨written, -, hs⟩ := exists_of_scanExponent s
  calc (scanExponent s).2.length
    _ ≤ (written ++ (scanExponent s).2).length := by
      rw [List.length_append]
      exact Nat.le_add_left _ _
    _ = s.length := congrArg List.length hs.symm

namespace WritesExponent

variable {exponent : List Char} (h : WritesExponent exponent size)

include h

/-- An exponent that stands in front of a text is scanned, and perhaps more. -/
theorem length_scanExponent_append_le (after : List Char) :
    (scanExponent (exponent ++ after)).2.length ≤ after.length := by
  cases h with
  | missing => exact length_scanExponent_le after
  | marked hmark hsign hdigits hsome =>
    rw [List.cons_append, List.append_assoc, scanExponent_marked hmark hsign hdigits hsome]
    exact (List.dropWhile_sublist _).length_le

theorem scanExponent_eq : scanExponent exponent = (size, []) := by
  cases h with
  | missing => rfl
  | @marked mark sign digits hmark hsign hdigits hsome =>
    have hscan := scanExponent_marked hmark hsign hdigits hsome []
    rwa [List.takeWhile_nil, List.dropWhile_nil, List.append_nil] at hscan

/-- No numeral goes on into an exponent. -/
theorem endsNumeral (hsome : exponent ≠ []) (after : List Char) :
    Numeral.EndsNumeral (exponent ++ after) := by
  cases h with
  | missing => exact absurd rfl hsome
  | @marked mark sign digits hmark =>
    intro c hc
    obtain rfl : mark = c := Option.some.inj hc
    rcases hmark with rfl | rfl
    · decide
    · decide

end WritesExponent

/-- What the scan takes off the start of a text has the form of a number, and nothing is lost. -/
theorem exists_of_scan? (h : scan? s = some (x, rest)) : ∃ written,
    Writes written x ∧ written ++ rest = s := by
  obtain ⟨sign, hsign, hs, hminus⟩ := exists_of_scanSign s
  unfold scan? at h
  dsimp only at h
  obtain ⟨⟨n, behind⟩, hscan, hresult⟩ := Option.map_eq_some_iff.1 h
  obtain ⟨rfl, rfl⟩ := Prod.mk.inj hresult
  obtain ⟨exponent, hexponent, hbehind⟩ := exists_of_scanExponent behind
  refine ⟨sign ++ (n.text ++ exponent), ?_, ?_⟩
  · rw [hminus]
    exact .intro hsign (Numeral.isProper_of_scan? hscan) hexponent
  · rw [List.append_assoc, List.append_assoc, ← hbehind, Numeral.text_append_of_scan? hscan, ← hs]

/-- The sign of a number ends where its numeral begins. -/
theorem scanSign_append_text {n : Numeral} (hsign : sign ∈ signs) (h : n.IsProper)
    (after : List Char) :
    scanSign (sign ++ (n.text ++ after)) = (decide (sign = ['-']), n.text ++ after) := by
  apply scanSign_append hsign
  intro c hc
  rw [List.head?_append_of_ne_nil _ h.text_ne_nil] at hc
  rcases h.isDigit_or_of_mem (List.mem_of_mem_head? hc) with hdigit | rfl
  · exact ne_sign_of_isDigit hdigit
  · decide

namespace Writes

/-- A number that stands at the start of a text is scanned, and perhaps more. -/
theorem exists_scan? (h : Writes text x) (after : List Char) :
    ∃ y rest, scan? (text ++ after) = some (y, rest) ∧ rest.length ≤ after.length := by
  obtain @⟨sign, exponent, n, size, hsign, hproper, hexponent⟩ := h
  rw [List.append_assoc, List.append_assoc, scan?, scanSign_append_text hsign hproper]
  dsimp only
  obtain ⟨m, behind, hscan, hlonger⟩ := hproper.exists_scan? (exponent ++ after)
  refine ⟨_, (scanExponent behind).2, by rw [hscan]; rfl, ?_⟩
  by_cases hnone : exponent = []
  · -- The numeral may go on here, and an exponent may follow.
    subst hnone
    have htext := congrArg List.length (Numeral.text_append_of_scan? hscan)
    rw [List.nil_append, List.length_append, List.length_append] at htext
    have hshorter := length_scanExponent_le behind
    omega
  · have hlongest : n.IsLongest (exponent ++ after) :=
      Numeral.isLongest_of_endsNumeral (hexponent.endsNumeral hnone after)
    rw [hproper.scan?_append hlongest] at hscan
    obtain ⟨rfl, rfl⟩ := Prod.mk.inj (Option.some.inj hscan)
    exact hexponent.length_scanExponent_append_le after

theorem scan?_eq (h : Writes text x) : scan? text = some (x, []) := by
  obtain @⟨sign, exponent, n, size, hsign, hproper, hexponent⟩ := h
  have hlongest : n.IsLongest exponent := by
    by_cases hnone : exponent = []
    · subst hnone
      exact Numeral.isLongest_of_endsNumeral fun c hc ↦ by cases hc
    · have hends := hexponent.endsNumeral hnone []
      rw [List.append_nil] at hends
      exact Numeral.isLongest_of_endsNumeral hends
  rw [scan?, scanSign_append_text hsign hproper]
  dsimp only
  rw [hproper.scan?_append hlongest, Option.map_some, hexponent.scanExponent_eq]

theorem text_ne_nil (h : Writes text x) : text ≠ [] := by
  obtain ⟨hsign, hproper, hexponent⟩ := h
  have hsome := List.append_ne_nil_of_left_ne_nil hproper.text_ne_nil
  exact List.append_ne_nil_of_right_ne_nil _ (hsome _)

/-- Neither blanks around it nor groups of digits belong to the form. -/
theorem not_isMargin_of_mem (h : Writes text x) {c : Char} (hc : c ∈ text) :
    isMargin c = false ∧ c ≠ '_' := by
  have hdigit {c : Char} (hc : Text.isDigit c = true) : isMargin c = false ∧ c ≠ '_' := by
    constructor
    · by_contra hmargin
      rw [Bool.not_eq_false, isMargin, Bool.and_eq_true] at hmargin
      rw [Text.isDigit_of_isBlank hmargin.1] at hc
      cases hc
    · rintro rfl
      exact absurd hc (by decide)
  have hsigns {sign : List Char} (hsign : sign ∈ signs) (hc : c ∈ sign) :
      isMargin c = false ∧ c ≠ '_' := by
    simp only [signs, List.mem_cons, List.not_mem_nil, or_false] at hsign
    rcases hsign with rfl | rfl | rfl
    · cases hc
    · rw [List.mem_singleton.1 hc]
      decide
    · rw [List.mem_singleton.1 hc]
      decide
  obtain ⟨hsign, hproper, hexponent⟩ := h
  rcases List.mem_append.1 hc with hc | hc
  · exact hsigns hsign hc
  · rcases List.mem_append.1 hc with hc | hc
    · rcases hproper.isDigit_or_of_mem hc with hc | rfl
      · exact hdigit hc
      · decide
    · cases hexponent with
      | missing => cases hc
      | marked hmark hsign hdigits =>
        rcases List.mem_cons.1 hc with rfl | hc
        · rcases hmark with rfl | rfl
          · decide
          · decide
        · rcases List.mem_append.1 hc with hc | hc
          · exact hsigns hsign hc
          · exact hdigit (hdigits c hc)

/-- Behind its sign, no text of the form is the name of an infinity or of what is no number. -/
theorem unsigned_ne (h : Writes text x) {name : String} {first : Char}
    (hname : name.toList.head? = some first) (hfirst : first = 'i' ∨ first = 'n') :
    String.ofList ((scanSign text).2.map Char.toLower) ≠ name := by
  obtain ⟨hsign, hproper, hexponent⟩ := h
  rw [scanSign_append_text hsign hproper]
  obtain ⟨c, rest, htext⟩ := List.exists_cons_of_ne_nil hproper.text_ne_nil
  rw [htext, List.cons_append]
  apply ofList_toLower_ne hname
  rcases hproper.isDigit_or_of_mem (htext ▸ List.mem_cons_self) with hdigit | rfl
  · rw [Text.toLower_of_isDigit hdigit]
    rintro rfl
    rcases hfirst with rfl | rfl
    · exact absurd hdigit (by decide)
    · exact absurd hdigit (by decide)
  · rcases hfirst with rfl | rfl
    · decide
    · decide

/-- A text of the form is the text of a number as a whole. -/
theorem read?_eq (h : Writes text x) : read? (String.ofList text) = some x := by
  have htrim : Text.trim isMargin text = text := by
    have hnone : ∀ c ∈ ([] : List Char), isMargin c = true := List.forall_mem_nil _
    have hcore := Text.trim_append hnone (fun c hc ↦ (h.not_isMargin_of_mem hc).1) h.text_ne_nil hnone
    rwa [List.nil_append, List.append_nil] at hcore
  have hgroup : '_' ∉ text := fun hmem ↦ (h.not_isMargin_of_mem hmem).2 rfl
  have hinfinity :
      infinityNames.contains (String.ofList ((scanSign text).2.map Char.toLower)) = false := by
    rw [← Bool.not_eq_true, List.contains_iff_mem]
    intro hmem
    rcases List.mem_pair.1 hmem with hname | hname
    · exact h.unsigned_ne rfl (.inl rfl) hname
    · exact h.unsigned_ne rfl (.inl rfl) hname
  have hnan : String.ofList ((scanSign text).2.map Char.toLower) ≠ "nan" :=
    h.unsigned_ne rfl (.inr rfl)
  unfold read?
  rw [String.toList_ofList, htrim, ungroup?_of_not_mem hgroup]
  simp only [Option.bind_eq_bind, Option.bind_some, hinfinity, if_neg hnan, h.scan?_eq,
    Bool.false_eq_true, if_false]

end Writes

end Number

/-- Rounding gives a double or an infinity. -/
theorem Quanta.isNaN_toFloat (negative : Bool) {bits : Nat} (h : bits ≤ infinityBits) :
    (toFloat negative bits).isNaN = false := by
  rcases Nat.lt_or_eq_of_le h with hlt | rfl
  · by_contra hnan
    rw [Bool.not_eq_false] at hnan
    have hbits := (toFloat_spec negative hlt).1
    rw [eq_nan_of_isNaN hnan] at hbits
    rw [← hbits] at hlt
    exact absurd hlt (by decide)
  · cases negative
    · decide
    · decide

theorem Number.Writes.isNaN_eq {text : List Char} {x : Float} (h : Writes text x) :
    x.isNaN = false := by
  obtain ⟨hsign, hproper, hexponent⟩ := h
  exact Quanta.isNaN_toFloat _ (Decimal.nearestBits_le _)

namespace Trigger

open Number (Writes)

/-! ## Leading numbers -/

/-- The number is written at the start of a text, and none is written that goes on for longer. -/
structure IsLeading (front : List Char) (written : List Char) (x : Float) : Prop where
  writes : Writes written x
  isPrefix : written <+: front
  longest : ∀ other y, Writes other y → other <+: front → other.length ≤ written.length

theorem scan?_eq_none_iff {front : List Char} :
    Number.scan? front = none ↔ ∀ written x, Writes written x → ¬ written <+: front := by
  constructor
  · rintro h written x hwrites ⟨after, rfl⟩
    obtain ⟨y, rest, hscan, -⟩ := hwrites.exists_scan? after
    rw [h] at hscan
    cases hscan
  · intro h
    cases hscan : Number.scan? front with
    | none => rfl
    | some result =>
      obtain ⟨written, hwrites, hfront⟩ := Number.exists_of_scan? hscan
      exact absurd ⟨_, hfront⟩ (h written _ hwrites)

theorem exists_isLeading {front rest : List Char} {x : Float}
    (h : Number.scan? front = some (x, rest)) : ∃ written, IsLeading front written x := by
  obtain ⟨written, hwrites, rfl⟩ := Number.exists_of_scan? h
  refine ⟨written, hwrites, List.prefix_append _ _, ?_⟩
  rintro other y hother ⟨after, hafter⟩
  obtain ⟨z, rest', hscan, hle⟩ := hother.exists_scan? after
  rw [hafter, h] at hscan
  obtain ⟨-, rfl⟩ := Prod.mk.inj (Option.some.inj hscan)
  have hlength := congrArg List.length hafter
  rw [List.length_append, List.length_append] at hlength
  omega

/--
The leading number of every text is the number of the longest part of the form at its start, behind
the blanks there, and this part by itself is the text of that number. It is no number if and only if
no part of the form stands there.
-/
theorem leadingNumber_spec (s : String) :
    ((∃ written, IsLeading (s.toList.dropWhile Text.isBlank) written (leadingNumber s) ∧
        Number.read? (String.ofList written) = some (leadingNumber s)) ∨
      ∀ written x, Writes written x → ¬ written <+: s.toList.dropWhile Text.isBlank) ∧
    ((leadingNumber s).isNaN = true ↔
      ∀ written x, Writes written x → ¬ written <+: s.toList.dropWhile Text.isBlank) := by
  rw [← scan?_eq_none_iff]
  unfold leadingNumber
  cases hscan : Number.scan? (s.toList.dropWhile Text.isBlank) with
  | none => exact ⟨.inr rfl, iff_of_true (by decide) rfl⟩
  | some result =>
    obtain ⟨x, rest⟩ := result
    obtain ⟨written, hleading⟩ := exists_isLeading hscan
    refine ⟨.inl ⟨written, hleading, hleading.writes.read?_eq⟩, iff_of_false ?_ (by rintro ⟨⟩)⟩
    dsimp only
    rw [hleading.writes.isNaN_eq]
    exact Bool.false_ne_true

/-- A mark and a sign without digits behind them are no exponent. -/
example : leadingNumber " 12.e+px" = 12 := by decide +kernel

end Trigger

end KeyTree
