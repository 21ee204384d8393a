import KeyTree.Proofs.Arithmetic.Parser
import KeyTree.Proofs.Number.Shown

/-!
# The tokens of symbols that are set out as text

Symbols are set out with blanks before, between and behind them, or none. If no two numerals stand
side by side, the tokens of the text are the symbols again.
-/

namespace KeyTree.Arithmetic

/-- Words in their order, with any blanks before, between and behind them. -/
inductive Laid {ω : Type} (word : ω → List Char) : List ω → List Char → Prop
  | nil {blanks : List Char} (hblanks : ∀ c ∈ blanks, Text.isBlank c = true) : Laid word [] blanks
  | cons {w : ω} {ws : List ω} {blanks text : List Char}
    (hblanks : ∀ c ∈ blanks, Text.isBlank c = true) (hlaid : Laid word ws text) :
    Laid word (w :: ws) (blanks ++ (word w ++ text))

section

variable {ω : Type} {word : ω → List Char} {ws : List ω} {text : List Char}

theorem Laid.forall_mem (h : Laid word ws text) {P : Char → Prop}
    (hblank : ∀ c, Text.isBlank c = true → P c) (hword : ∀ w ∈ ws, ∀ c ∈ word w, P c) :
    ∀ c ∈ text, P c := by
  induction h with
  | nil hblanks => exact fun c hc ↦ hblank c (hblanks c hc)
  | @cons w ws blanks text hblanks hlaid ih =>
    rw [List.forall_mem_cons] at hword
    intro c hc
    rcases List.mem_append.mp hc with hc | hc
    · exact hblank c (hblanks c hc)
    · rcases List.mem_append.mp hc with hc | hc
      · exact hword.1 c hc
      · exact ih hword.2 c hc

theorem Laid.mem_of_mem (h : Laid word ws text) {w : ω} (hw : w ∈ ws) {c : Char}
    (hc : c ∈ word w) : c ∈ text := by
  induction h with
  | nil => cases hw
  | @cons w' ws blanks text hblanks hlaid ih =>
    apply List.mem_append_right
    rcases List.mem_cons.mp hw with rfl | hw
    · exact List.mem_append_left _ hc
    · exact List.mem_append_right _ (ih hw)

theorem Laid.exists_blanks {w : ω} (h : Laid word [w] text) :
    ∃ before after, (∀ c ∈ before, Text.isBlank c = true) ∧
      (∀ c ∈ after, Text.isBlank c = true) ∧ text = before ++ (word w ++ after) := by
  cases h with
  | cons hbefore hlaid =>
    cases hlaid with
    | nil hafter => exact ⟨_, _, hbefore, hafter, rfl⟩

/-- Words may follow each other without blanks. -/
theorem Laid.append (h : Laid word ws text) {front : List ω} (hfront : front ≠ [])
    {blanks : List Char} (hblanks : ∀ c ∈ blanks, Text.isBlank c = true) :
    Laid word (front ++ ws) (blanks ++ (front.flatMap word ++ text)) := by
  induction front generalizing blanks with
  | nil => exact absurd rfl hfront
  | cons w front ih =>
    rw [List.flatMap_cons, List.append_assoc]
    apply Laid.cons hblanks
    cases front with
    | nil => exact h
    | cons w' front => exact ih (List.cons_ne_nil _ _) (List.forall_mem_nil _)

end

/-- The text of a symbol. -/
def Symbol.text {α : Type} (atom : α → List Char) : Symbol α → List Char
  | .atom a => atom a
  | .operator op => [op.symbol]
  | .opening => ['(']
  | .closing => [')']

/-! ## Single tokens -/

section

variable {c : Char} {rest : List Char}

theorem tokensFrom_nil (position : Nat) : tokensFrom position [] = .ok [] := by
  unfold tokensFrom
  rfl

theorem tokensFrom_blank (h : Text.isBlank c = true) (position : Nat) :
    tokensFrom position (c :: rest) = tokensFrom (position + 1) rest := by
  conv_lhs => unfold tokensFrom
  exact if_pos h

theorem tokensFrom_numeral {after : List Char} {n : Numeral} (h : Text.isBlank c = false)
    (hscan : Numeral.scan? (c :: rest) = some (n, after)) (position : Nat) :
    tokensFrom position (c :: rest) =
      (tokensFrom (position + n.text.length) after).map (⟨.number n, position⟩ :: ·) := by
  conv_lhs => unfold tokensFrom
  dsimp only
  rw [h, if_neg Bool.false_ne_true]
  split
  case h_1 n' after' heq =>
    rw [hscan] at heq
    obtain ⟨rfl, rfl⟩ := Prod.mk.inj (Option.some.inj heq)
    rfl
  case h_2 heq =>
    rw [hscan] at heq
    cases heq

theorem tokensFrom_char {lexeme : Lexeme} (h : Text.isBlank c = false)
    (hscan : Numeral.scan? (c :: rest) = none) (hlexeme : Lexeme.ofChar? c = some lexeme)
    (position : Nat) :
    tokensFrom position (c :: rest) =
      (tokensFrom (position + 1) rest).map (⟨lexeme, position⟩ :: ·) := by
  conv_lhs => unfold tokensFrom
  dsimp only
  rw [h, if_neg Bool.false_ne_true]
  split
  case h_1 n' after' heq =>
    rw [hscan] at heq
    cases heq
  case h_2 => rw [hlexeme]

theorem tokensFrom_blanks {blanks : List Char} (h : ∀ c ∈ blanks, Text.isBlank c = true)
    (position : Nat) :
    tokensFrom position (blanks ++ rest) = tokensFrom (position + blanks.length) rest := by
  induction blanks generalizing position with
  | nil => rfl
  | cons c blanks ih =>
    rw [List.forall_mem_cons] at h
    rw [List.cons_append, tokensFrom_blank h.1, ih h.2, List.length_cons, Nat.add_assoc,
      Nat.add_comm 1]

end

/-! ## What ends a numeral -/

theorem scan?_eq_none {c : Char} (hdigit : Text.isDigit c = false) (hpoint : c ≠ '.')
    (rest : List Char) : Numeral.scan? (c :: rest) = none := by
  unfold Numeral.scan?
  rw [List.takeWhile_cons_of_neg (by rw [hdigit]; exact Bool.false_ne_true),
    List.dropWhile_cons_of_neg (by rw [hdigit]; exact Bool.false_ne_true)]
  split
  case h_1 heq => exact absurd (List.cons.inj heq).1 hpoint
  case h_2 => rfl

/-- The character of an operator or a parenthesis. -/
structure IsMark (s : Symbol Numeral) (c : Char) (lexeme : Lexeme) : Prop where
  text : s.text Numeral.text = [c]
  symbol : lexeme.symbol = s
  ofChar? : Lexeme.ofChar? c = some lexeme
  blank : Text.isBlank c = false
  digit : Text.isDigit c = false
  point : c ≠ '.'

theorem exists_isMark {s : Symbol Numeral} (hs : s.isAtom = false) :
    ∃ c lexeme, IsMark s c lexeme := by
  cases s with
  | atom _ => cases hs
  | opening => exact ⟨'(', .opening, rfl, rfl, rfl, by decide, by decide, by decide⟩
  | closing => exact ⟨')', .closing, rfl, rfl, rfl, by decide, by decide, by decide⟩
  | operator op =>
    refine ⟨op.symbol, .operator op, ?_⟩
    cases op <;> exact ⟨rfl, rfl, rfl, by decide, by decide, by decide⟩

theorem IsMark.tokensFrom {s : Symbol Numeral} {c : Char} {lexeme : Lexeme}
    (h : IsMark s c lexeme) (position : Nat) (after : List Char) :
    tokensFrom position (s.text Numeral.text ++ after) =
      (tokensFrom (position + 1) after).map (⟨lexeme, position⟩ :: ·) := by
  rw [h.text, List.singleton_append]
  exact tokensFrom_char h.blank (scan?_eq_none h.digit h.point after) h.ofChar? position

theorem tokensFrom_plain {n : Numeral} (h : n.IsPlain) {after : List Char}
    (hafter : Numeral.EndsNumeral after) (position : Nat) :
    tokensFrom position (n.text ++ after) =
      (tokensFrom (position + n.text.length) after).map (⟨.number n, position⟩ :: ·) := by
  have hscan := h.scan?_append hafter
  obtain ⟨c, cs, htext⟩ := List.exists_cons_of_ne_nil h.text_ne_nil
  have hc : Numeral.isNumeralChar c = true := h.isNumeralChar_of_mem (htext ▸ List.mem_cons_self)
  have hblank : (!Text.isBlank c) = true :=
    Numeral.all_of_isNumeralChar (p := fun c ↦ !Text.isBlank c) (by decide) hc
  rw [htext, List.cons_append] at hscan ⊢
  rw [tokensFrom_numeral ((Bool.not_eq_true' _).mp hblank) hscan, htext]

/-! ## The tokens of a text -/

theorem endsNumeral_of_isBlank {blanks : List Char}
    (h : ∀ c ∈ blanks, Text.isBlank c = true) : Numeral.EndsNumeral blanks := by
  intro c hc
  have hblank := h c (List.mem_of_mem_head? hc)
  refine ⟨Text.isDigit_of_isBlank hblank, ?_⟩
  rintro rfl
  exact absurd hblank (by decide)

variable {symbols : List (Symbol Numeral)} {text : List Char}

/-- A text whose first symbol is no numeral does not go on with a numeral. -/
theorem Laid.endsNumeral (h : Laid (Symbol.text Numeral.text) symbols text)
    (hhead : ∀ s ∈ symbols.head?, s.isAtom = false) : Numeral.EndsNumeral text := by
  cases h with
  | nil hblanks => exact endsNumeral_of_isBlank hblanks
  | @cons s ss blanks text hblanks hlaid =>
    cases blanks with
    | cons c blanks => exact fun d hd ↦ endsNumeral_of_isBlank hblanks d hd
    | nil =>
      obtain ⟨c, lexeme, hmark⟩ := exists_isMark (hhead s rfl)
      rw [hmark.text]
      intro d hd
      obtain rfl : c = d := Option.some.inj hd
      exact ⟨hmark.digit, hmark.point⟩

/-- The tokens of symbols that are set out are the symbols. -/
theorem Laid.exists_tokens (h : Laid (Symbol.text Numeral.text) symbols text)
    (hplain : ∀ n, .atom n ∈ symbols → n.IsPlain) (hseparated : Separated symbols)
    (position : Nat) :
    ∃ tokens, tokensFrom position text = .ok tokens ∧ tokens.map Token.symbol = symbols := by
  induction h generalizing position with
  | @nil blanks hblanks =>
    refine ⟨[], ?_, rfl⟩
    rw [← List.append_nil blanks, tokensFrom_blanks hblanks, tokensFrom_nil]
  | @cons s ss blanks text hblanks hlaid ih =>
    obtain ⟨hhead, hrest⟩ := List.isChain_cons.mp hseparated
    have hmore := ih (fun n hn ↦ hplain n (List.mem_cons_of_mem s hn)) hrest
    rw [tokensFrom_blanks hblanks]
    cases hs : s.isAtom with
    | false =>
      obtain ⟨c, lexeme, hmark⟩ := exists_isMark hs
      obtain ⟨tokens, htokens, hsymbols⟩ := hmore (position + blanks.length + 1)
      refine ⟨⟨lexeme, position + blanks.length⟩ :: tokens, ?_, ?_⟩
      · rw [hmark.tokensFrom, htokens]
        rfl
      · rw [List.map_cons, hsymbols, Token.symbol, hmark.symbol]
    | true =>
      obtain ⟨n, rfl⟩ : ∃ n, s = .atom n := by
        cases s with
        | atom n => exact ⟨n, rfl⟩
        | _ => cases hs
      -- No numeral stands behind a numeral, so its digits end where they were put.
      have hends : Numeral.EndsNumeral text :=
        hlaid.endsNumeral fun s hs ↦ (hhead s hs).resolve_left Bool.noConfusion
      obtain ⟨tokens, htokens, hsymbols⟩ := hmore (position + blanks.length + n.text.length)
      refine ⟨⟨.number n, position + blanks.length⟩ :: tokens, ?_, ?_⟩
      · rw [Symbol.text, tokensFrom_plain (hplain n List.mem_cons_self) hends, htokens]
        rfl
      · rw [List.map_cons, hsymbols]
        rfl

/-- The text of a tree is read as far as there is room for its depth. -/
theorem Laid.parse_eq_ite {e : Expression Numeral}
    (h : Laid (Symbol.text Numeral.text) e.symbols text)
    (hplain : ∀ n, .atom n ∈ e.symbols → n.IsPlain) (room : Nat) :
    parse room (String.ofList text) =
      if e.nesting ≤ room then .ok (e.program Numeral.toFloat) else .error .tooDeep := by
  obtain ⟨tokens, htokens, hsymbols⟩ := h.exists_tokens hplain e.separated 0
  rw [parse, Arithmetic.tokens, String.toList_ofList, htokens]
  exact parseTokens_of_symbols hsymbols.symm

end KeyTree.Arithmetic
