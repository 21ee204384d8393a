import KeyTree.Proofs.Arithmetic.Parser

/-!
# The first token that cannot stand

The reader refuses a list of tokens at the first one with which no expression goes on. What stands in
front of it can still become an expression: an operand is put in where one is missing, and the open
parentheses are closed. If the list ends too soon, it is its end that is refused.
-/

namespace KeyTree.Arithmetic

/-- Tokens that an expression begins with. -/
def IsViable (tokens : List Token) : Prop :=
  ∃ (e : Expression Numeral) (more : List (Symbol Numeral)),
    e.symbols = tokens.map Token.symbol ++ more

/-- Tokens that are an expression. -/
def IsExpression (tokens : List Token) : Prop :=
  ∃ e : Expression Numeral, e.symbols = tokens.map Token.symbol

/-- The parentheses that are open behind one more token, the innermost first. -/
def openBehind (opened : List Token) (token : Token) : List Token :=
  match token.lexeme with
  | .opening => token :: opened
  | .closing => opened.tail
  | _ => opened

/-- The parentheses that are open behind some tokens, the innermost first. -/
def stillOpen (tokens : List Token) : List Token := tokens.foldl openBehind []

theorem stillOpen_append_singleton (tokens : List Token) (token : Token) :
    stillOpen (tokens ++ [token]) = openBehind (stillOpen tokens) token :=
  List.foldl_concat _ _ _ _

/-- Every symbol is that of a token. -/
theorem exists_tokens (symbols : List (Symbol Numeral)) :
    ∃ tokens : List Token, tokens.map Token.symbol = symbols := by
  have hlexeme (s : Symbol Numeral) : ∃ lexeme : Lexeme, lexeme.symbol = s := by
    cases s with
    | atom n => exact ⟨.number n, rfl⟩
    | operator op => exact ⟨.operator op, rfl⟩
    | opening => exact ⟨.opening, rfl⟩
    | closing => exact ⟨.closing, rfl⟩
  induction symbols with
  | nil => exact ⟨[], rfl⟩
  | cons s symbols ih =>
    obtain ⟨lexeme, rfl⟩ := hlexeme s
    obtain ⟨tokens, rfl⟩ := ih
    exact ⟨⟨lexeme, 0⟩ :: tokens, rfl⟩

namespace State

variable {state state' : State} {token : Token} {level : Level} {outer : List Parenthesis}
  {before terms : List (Symbol Numeral)} {sum : Pending} {fault : Fault} {room : Nat}

/-! ## What has been read goes on -/

/-- Behind a term the open parentheses are closed. -/
theorem OuterReads.exists_expression (houter : OuterReads outer before) (hsum : SumReads sum terms)
    (t : Term Numeral) :
    ∃ (e : Expression Numeral) (more : List (Symbol Numeral)),
      e.symbols = before ++ (terms ++ t.symbols) ++ more := by
  induction houter generalizing sum terms t with
  | nil =>
    obtain ⟨e, hsymbols, -⟩ := hsum.complete t
    refine ⟨e, [], ?_⟩
    rw [hsymbols, List.append_nil, List.nil_append]
  | @cons parenthesis outer before inner houter hlevel ih =>
    obtain ⟨inside, hinside, -⟩ := hsum.complete t
    obtain ⟨terms', t', hsum', hsymbols, -⟩ := hlevel.complete (.parentheses inside)
    obtain ⟨e, more, he⟩ := ih hsum' t'
    refine ⟨e, .closing :: more, ?_⟩
    rw [he, hsymbols, Primary.symbols, hinside]
    simp only [List.append_assoc, List.cons_append, List.nil_append]

/-- In front of an operand a numeral is put in. -/
theorem Reads.exists_expression (h : state.Reads before) :
    ∃ (e : Expression Numeral) (more : List (Symbol Numeral)), e.symbols = before ++ more := by
  cases h with
  | operator houter hsum t => exact houter.exists_expression hsum t
  | @operand level outer before inner houter hlevel =>
    let one : Numeral := ⟨['1'], none⟩
    obtain ⟨terms, t, hsum, hsymbols, -⟩ := hlevel.complete (.atom one)
    obtain ⟨e, more, he⟩ := houter.exists_expression hsum t
    refine ⟨e, .atom one :: more, ?_⟩
    rw [he, hsymbols, Primary.symbols]
    simp only [List.append_assoc, List.cons_append, List.nil_append]

/-! ## What is open -/

/-- The parentheses that are open in a state. -/
def parentheses : State → List Parenthesis
  | operand _ outer => outer
  | operator _ _ outer => outer

/-- Parentheses that stand where tokens do. -/
def StandAt (outer : List Parenthesis) (tokens : List Token) : Prop :=
  outer.map Parenthesis.position = tokens.map Token.position

theorem parentheses_of_deeper (h : next.deeper room level outer = .ok state) :
    state.parentheses = outer := by
  rw [eq_of_deeper h, parentheses]

theorem StandAt.openBehind {opened : List Token} (h : StandAt state.parentheses opened)
    (hnext : state.next room token = .ok state') :
    StandAt state'.parentheses (openBehind opened token) := by
  unfold Arithmetic.openBehind
  unfold next at hnext
  split at hnext
  case h_1 hlexeme =>
    rw [hlexeme]
    cases hnext
    exact h
  case h_2 hlexeme =>
    rw [hlexeme, parentheses_of_deeper hnext]
    exact congrArg (token.position :: ·) h
  case h_3 hlexeme | h_4 hlexeme =>
    rw [hlexeme, parentheses_of_deeper hnext]
    exact h
  case h_5 => cases hnext
  case h_6 hlexeme =>
    rw [hlexeme]
    split at hnext
    all_goals
      cases hnext
      exact h
  case h_7 innermost outer hlexeme =>
    rw [hlexeme]
    cases hnext
    rw [StandAt, List.map_tail, ← h]
    rfl
  case h_8 => cases hnext

/-! ## Faults -/

/-- A token is refused for itself or for the parenthesis that is open in front of it. -/
theorem fault_of_next (h : state.next room token = .error fault) (hshallow : fault ≠ .tooDeep) :
    fault = .unexpectedToken token ∨
      ∃ innermost, state.parentheses.head? = some innermost ∧
        fault = .unbalanced innermost.position := by
  have hdeeper {level : Level} {outer : List Parenthesis} :
      next.deeper room level outer ≠ .error fault := by
    unfold next.deeper
    split
    case isTrue => exact nofun
    case isFalse => exact fun hdeep ↦ hshallow (Except.error.inj hdeep).symm
  unfold next at h
  split at h
  case h_1 | h_7 => cases h
  case h_2 | h_3 | h_4 => exact absurd h hdeeper
  case h_5 => exact .inl (Except.error.inj h).symm
  case h_6 => split at h <;> cases h
  case h_8 sum product outer _ _ =>
    cases outer with
    | nil => exact .inl (Except.error.inj h).symm
    | cons innermost outer => exact .inr ⟨innermost, rfl, (Except.error.inj h).symm⟩

/-- The end is refused for itself or for the parenthesis that is open in front of it. -/
theorem fault_of_finish (h : state.finish = .error fault) :
    fault = .unexpectedEnd ∨
      ∃ innermost, state.parentheses.head? = some innermost ∧
        fault = .unbalanced innermost.position := by
  unfold finish at h
  split at h
  case h_1 => exact .inl (Except.error.inj h).symm
  case h_2 => cases h
  case h_3 sum product innermost outer =>
    exact .inr ⟨innermost, rfl, (Except.error.inj h).symm⟩

/-! ## Runs -/

/-- A state that the reader comes to behind some tokens. -/
structure IsBehind (room : Nat) (state : State) (read : List Token) : Prop where
  reads : state.Reads (read.map Token.symbol)
  opened : StandAt state.parentheses (stillOpen read)
  run (more : List Token) : start.run room (read ++ more) = state.run room more

variable {read rest : List Token}

theorem isBehind_start : start.IsBehind room [] := ⟨reads_start, rfl, fun _ ↦ rfl⟩

theorem IsBehind.next (h : state.IsBehind room read) (hnext : state.next room token = .ok state') :
    state'.IsBehind room (read ++ [token]) where
  reads := by
    rw [List.map_append]
    exact h.reads.next hnext
  opened := by
    rw [stillOpen_append_singleton]
    exact h.opened.openBehind hnext
  run more := by
    rw [List.append_assoc, List.singleton_append, h.run, run_cons, hnext]
    rfl

theorem IsBehind.isViable (h : state.IsBehind room read) : IsViable read := h.reads.exists_expression

/-- A run with a fault reads some tokens, and then refuses the next one or the end. -/
theorem IsBehind.exists_refused (h : state.IsBehind room read) (hrun : state.run room rest = .error fault) :
    ∃ (before : List Token) (state' : State), state'.IsBehind room before ∧
      ((∃ token after, read ++ rest = before ++ token :: after ∧
          state'.next room token = .error fault) ∨
        read ++ rest = before ∧ state'.finish = .error fault) := by
  induction rest generalizing state read with
  | nil => exact ⟨read, state, h, .inr ⟨List.append_nil read, hrun⟩⟩
  | cons token rest ih =>
    rw [run_cons] at hrun
    cases hnext : state.next room token with
    | error fault' =>
      rw [hnext] at hrun
      obtain rfl : fault' = fault := Except.error.inj hrun
      exact ⟨read, state, h, .inl ⟨token, rest, rfl, hnext⟩⟩
    | ok state' =>
      rw [hnext] at hrun
      obtain ⟨before, state'', hbehind, hrefused⟩ := ih (h.next hnext) hrun
      rw [List.append_assoc] at hrefused
      exact ⟨before, state'', hbehind, hrefused⟩

end State

/-! ## Where the reader stops -/

variable {room : Nat} {tokens : List Token} {fault : Fault}

/-- What is refused, but not for its depth, is no expression. -/
theorem not_isExpression (h : parseTokens room tokens = .error fault) (hshallow : fault ≠ .tooDeep) :
    ¬ IsExpression tokens := by
  rintro ⟨e, hsymbols⟩
  rw [parseTokens_of_symbols hsymbols] at h
  split at h
  case isTrue => cases h
  case isFalse => exact hshallow (Except.error.inj h).symm

/-- No expression begins with what is refused whatever follows. -/
theorem not_isViable (h : ∀ more, parseTokens room (tokens ++ more) = .error fault)
    (hshallow : fault ≠ .tooDeep) : ¬ IsViable tokens := by
  rintro ⟨e, more, hsymbols⟩
  obtain ⟨others, rfl⟩ := exists_tokens more
  refine not_isExpression (h others) hshallow ⟨e, ?_⟩
  rw [hsymbols, List.map_append]

/-- What is said about the token or the end that stands behind the first tokens of a list. -/
inductive Blames (tokens : List Token) (count : Nat) : String → Prop
  | token {token : Token} (h : tokens[count]? = some token) :
    Blames tokens count
      s!"Unexpected {Text.quoted token.text} at position {token.position}"
  | parenthesis {opening : Token} (h : (stillOpen (tokens.take count)).head? = some opening) :
    Blames tokens count s!"Unbalanced parentheses: '(' at position {opening.position}"
  | atEnd (h : count = tokens.length) : Blames tokens count "Unexpected end of expression"

/-- The first tokens of a list go on to an expression, but not with the next one if there is one, and
the list is no expression. -/
structure IsRefusedBehind (tokens : List Token) (message : String) (count : Nat) : Prop where
  le_length : count ≤ tokens.length
  isViable : IsViable (tokens.take count)
  not_isViable : count < tokens.length → ¬ IsViable (tokens.take (count + 1))
  not_isExpression : ¬ IsExpression tokens
  blames : Blames tokens count message

/-- The innermost parenthesis of a state is the innermost one that is open behind the tokens. -/
theorem blames_unbalanced {state : State} {count : Nat} {innermost : Parenthesis}
    (hbehind : state.IsBehind room (tokens.take count)) (h : state.parentheses.head? = some innermost) :
    Blames tokens count (Fault.unbalanced innermost.position).message := by
  have hhead := congrArg List.head? hbehind.opened
  rw [List.head?_map, List.head?_map, h] at hhead
  obtain ⟨opening, hopening, hposition⟩ := Option.map_eq_some_iff.mp hhead.symm
  rw [← hposition]
  exact .parenthesis hopening

theorem run_of_parseTokens (hsome : tokens ≠ []) :
    parseTokens room tokens = State.start.run room tokens := by
  obtain ⟨token, others, rfl⟩ := List.exists_cons_of_ne_nil hsome
  rfl

theorem isRefusedBehind_of_next {before after : List Token} {token : Token} {state : State}
    (h : parseTokens room (before ++ token :: after) = .error fault) (hshallow : fault ≠ .tooDeep)
    (hbehind : state.IsBehind room before) (hnext : state.next room token = .error fault) :
    IsRefusedBehind (before ++ token :: after) fault.message before.length := by
  have htake : (before ++ token :: after).take before.length = before := List.take_left
  have htake' : (before ++ token :: after).take (before.length + 1) = before ++ [token] :=
    List.take_length_add_append 1
  refine ⟨?_, htake.symm ▸ hbehind.isViable, fun _ ↦ ?_, not_isExpression h hshallow, ?_⟩
  · rw [List.length_append]
    exact Nat.le_add_right _ _
  · rw [htake']
    have hrefused (more : List Token) :
        parseTokens room ((before ++ [token]) ++ more) = .error fault := by
      rw [run_of_parseTokens (by simp), List.append_assoc, List.singleton_append, hbehind.run,
        State.run_cons, hnext]
      rfl
    exact not_isViable hrefused hshallow
  · rcases State.fault_of_next hnext hshallow with rfl | ⟨innermost, hinnermost, rfl⟩
    · apply Blames.token
      rw [List.getElem?_append_right (Nat.le_refl _), Nat.sub_self]
      rfl
    · exact blames_unbalanced (htake.symm ▸ hbehind) hinnermost

theorem isRefusedBehind_of_finish {state : State} (h : parseTokens room tokens = .error fault)
    (hshallow : fault ≠ .tooDeep) (hbehind : state.IsBehind room tokens)
    (hfinish : state.finish = .error fault) :
    IsRefusedBehind tokens fault.message tokens.length := by
  have htake : tokens.take tokens.length = tokens := List.take_length
  refine ⟨Nat.le_refl _, htake.symm ▸ hbehind.isViable, fun hlt ↦ absurd hlt (Nat.lt_irrefl _),
    not_isExpression h hshallow, ?_⟩
  rcases State.fault_of_finish hfinish with rfl | ⟨innermost, hinnermost, rfl⟩
  · exact .atEnd rfl
  · exact blames_unbalanced (htake.symm ▸ hbehind) hinnermost

/-- The reader stops behind tokens that go on to an expression, at a token with which they do not, or
at an end that comes too soon, and says so. -/
theorem exists_isRefusedBehind (hsome : tokens ≠ []) (h : parseTokens room tokens = .error fault)
    (hshallow : fault ≠ .tooDeep) : ∃ count, IsRefusedBehind tokens fault.message count := by
  have hrun : State.start.run room tokens = .error fault := (run_of_parseTokens hsome).symm.trans h
  obtain ⟨before, state, hbehind, hrefused⟩ := State.isBehind_start.exists_refused hrun
  rw [List.nil_append] at hrefused
  rcases hrefused with ⟨token, after, rfl, hnext⟩ | ⟨rfl, hfinish⟩
  · exact ⟨before.length, isRefusedBehind_of_next h hshallow hbehind hnext⟩
  · exact ⟨tokens.length, isRefusedBehind_of_finish h hshallow hbehind hfinish⟩

/-- The tokens of `2 * (-1 3`. -/
def unclosed : List Token := [
  ⟨.number ⟨['2'], none⟩, 0⟩, ⟨.operator .multiply, 2⟩, ⟨.opening, 4⟩, ⟨.operator .subtract, 5⟩,
  ⟨.number ⟨['1'], none⟩, 6⟩, ⟨.number ⟨['3'], none⟩, 8⟩]

/-- A numeral behind a numeral is blamed on the parenthesis that should have been closed. -/
theorem exists_isRefusedBehind_unclosed :
    unclosed ≠ [] ∧ parseTokens 10 unclosed = .error (.unbalanced 4) ∧
      Fault.unbalanced 4 ≠ .tooDeep ∧
      ∃ count, IsRefusedBehind unclosed "Unbalanced parentheses: '(' at position 4" count := by
  have hsome : unclosed ≠ [] := List.cons_ne_nil _ _
  have h : parseTokens 10 unclosed = .error (.unbalanced 4) := rfl
  exact ⟨hsome, h, nofun, exists_isRefusedBehind hsome h nofun⟩

end KeyTree.Arithmetic
