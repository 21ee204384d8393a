import KeyTree.Arithmetic.Parser
import KeyTree.Proofs.Arithmetic.Grammar
import KeyTree.Proofs.Results

/-!
# The reader accepts the grammar

The reader gives a program exactly for the tokens that the grammar derives, as far as their tree nests
no deeper than there is room for, and it is the program of the tree. A tree that nests deeper is
refused for that. The two directions are inductions on the tree, for what the reader does with the tokens of a
tree, and on the tokens, for what has been read when the reader is in a state.
-/

namespace KeyTree.Arithmetic

/-- The terminal symbol of a lexeme. -/
def Lexeme.symbol : Lexeme → Symbol Numeral
  | number numeral => .atom numeral
  | operator op => .operator op
  | opening => .opening
  | closing => .closing

theorem Lexeme.symbol_injective : Function.Injective symbol := by
  intro a b h
  cases a <;> cases b <;> cases h <;> rfl

def Token.symbol (t : Token) : Symbol Numeral := t.lexeme.symbol

namespace State

variable {room : Nat} {token : Token} {level : Level} {outer : List Parenthesis}

/-! ## Steps -/

theorem next_number {numeral : Numeral} (h : token.lexeme = .number numeral) :
    (operand level outer).next room token =
      .ok (operator level.sum (level.complete (.literal numeral.toFloat)) outer) := by
  unfold next
  simp only [h]

theorem next_sign {minus : Bool} (h : token.lexeme = .operator (.ofSign minus)) :
    (operand level outer).next room token = next.deeper room (level.signed minus) outer := by
  unfold next
  cases minus with
  | true => simp only [h, Operator.ofSign, if_true]
  | false => simp only [h, Operator.ofSign, Bool.false_eq_true, if_false]

theorem next_opening (h : token.lexeme = .opening) :
    (operand level outer).next room token =
      next.deeper room .fresh (⟨level, token.position⟩ :: outer) := by
  unfold next
  simp only [h]

theorem next_additive {sum : Pending} {product : Program} (op : Additive)
    (h : token.lexeme = .operator op) :
    (operator sum product outer).next room token =
      .ok (operand ⟨some (op, sum.complete product), none, []⟩ outer) := by
  unfold next
  simp only [h]
  rw [if_pos op.2]

theorem next_multiplicative {sum : Pending} {product : Program} (op : Multiplicative)
    (h : token.lexeme = .operator op) :
    (operator sum product outer).next room token =
      .ok (operand ⟨sum, some (op, product), []⟩ outer) := by
  unfold next
  simp only [h]
  rw [op.2, if_neg Bool.false_ne_true]

theorem next_closing {sum : Pending} {product : Program} {innermost : Parenthesis}
    (h : token.lexeme = .closing) :
    (operator sum product (innermost :: outer)).next room token =
      .ok (operator innermost.level.sum (innermost.level.complete (sum.complete product)) outer) := by
  unfold next
  simp only [h]

/-! ## Depth -/

/-- A result that is only reached where there is room for the depth. -/
def limited (room depth : Nat) (result : Except Fault Program) : Except Fault Program :=
  if depth ≤ room then result else .error .tooDeep

theorem limited_limited (depth depth' : Nat) (result : Except Fault Program) :
    limited room depth (limited room depth' result) = limited room (max depth depth') result := by
  unfold limited
  by_cases h : depth ≤ room
  · by_cases h' : depth' ≤ room
    · rw [if_pos h, if_pos h', if_pos (Nat.max_le.mpr ⟨h, h'⟩)]
    · rw [if_pos h, if_neg h', if_neg fun hmax ↦ h' (Nat.max_le.mp hmax).2]
  · rw [if_neg h, if_neg fun hmax ↦ h (Nat.max_le.mp hmax).1]

theorem limited_of_le {depth : Nat} (h : depth ≤ room) (result : Except Fault Program) :
    limited room depth result = result := if_pos h

/-- What nests somewhere is read in two parts. -/
theorem limited_trans {depth left right : Nat} {start middle finish : Except Fault Program}
    (hleft : limited room depth start = limited room (depth + left) middle)
    (hright : limited room depth middle = limited room (depth + right) finish) :
    limited room depth start = limited room (depth + max left right) finish := by
  calc
    limited room depth start = limited room (depth + left) middle := hleft
    _ = limited room (depth + left) (limited room depth middle) := by
      rw [limited_limited, Nat.max_eq_left (Nat.le_add_right depth left)]
    _ = limited room (depth + left) (limited room (depth + right) finish) := by rw [hright]
    _ = limited room (depth + max left right) finish := by
      rw [limited_limited, Nat.add_max_add_left]

theorem deeper_bind (level : Level) (outer : List Parenthesis) (tokens : List Token) :
    (next.deeper room level outer >>= fun state ↦ state.run room tokens) =
      limited room (nesting level outer) ((operand level outer).run room tokens) := by
  unfold next.deeper limited
  by_cases h : nesting level outer ≤ room
  · rw [if_pos h, if_pos h]
    rfl
  · rw [if_neg h, if_neg h]
    rfl

theorem foldl_nesting (depth more : Nat) (outer : List Parenthesis) :
    outer.foldl (fun depth parenthesis ↦ depth + parenthesis.level.signs.length + 4)
        (depth + more) =
      outer.foldl (fun depth parenthesis ↦ depth + parenthesis.level.signs.length + 4) depth +
        more := by
  induction outer generalizing depth with
  | nil => rfl
  | cons innermost outer ih =>
    rw [List.foldl_cons, List.foldl_cons, ← ih]
    congr 1
    omega

theorem nesting_signed (minus : Bool) (level : Level) (outer : List Parenthesis) :
    nesting (level.signed minus) outer = nesting level outer + 1 :=
  foldl_nesting level.signs.length 1 outer

theorem nesting_parenthesis (level : Level) (position : Nat) (outer : List Parenthesis) :
    nesting .fresh (⟨level, position⟩ :: outer) = nesting level outer + 4 := by
  unfold nesting
  rw [List.foldl_cons, ← foldl_nesting]
  congr 1
  exact congrArg (· + 4) (Nat.zero_add _)

/-! ## The tokens of a tree are read -/

theorem run_cons (state : State) (token : Token) (rest : List Token) :
    state.run room (token :: rest) = state.next room token >>= fun state ↦ state.run room rest := rfl

/-- What follows an expression is read with the program of the whole expression. -/
def Continues (room : Nat) (outer : List Parenthesis) (after : List Token)
    (continuation : Program → Except Fault Program) : Prop :=
  ∀ sum product, (operator sum product outer).run room after = continuation (sum.complete product)

theorem Continues.closing (level : Level) (position : Nat) (outer : List Parenthesis)
    (h : token.lexeme = .closing) (after : List Token) :
    Continues room (⟨level, position⟩ :: outer) (token :: after)
      fun p ↦ (operator level.sum (level.complete p) outer).run room after := by
  intro sum product
  rw [run_cons, next_closing h]
  rfl

theorem Continues.nil : Continues room [] [] .ok := fun _ _ ↦ rfl

mutual

/--
Reading an expression comes to its program, or to the limit if it nests too deeply. The limit is met
on the way, so what is compared is cut off at the depth on either side.
-/
theorem run_expression (e : Expression Numeral) (outer : List Parenthesis)
    {tokens after : List Token} {continuation : Program → Except Fault Program}
    (hafter : Continues room outer after continuation)
    (htokens : tokens.map Token.symbol = e.symbols) :
    limited room (nesting .fresh outer) ((operand .fresh outer).run room (tokens ++ after)) =
      limited room (nesting .fresh outer + e.nesting) (continuation (e.program Numeral.toFloat)) := by
  match e with
  | .sum first rest =>
    rw [Expression.symbols, List.map_eq_append_iff] at htokens
    obtain ⟨firstTokens, restTokens, rfl, hfirst, hrest⟩ := htokens
    rw [List.append_assoc, Expression.nesting, Expression.program]
    exact limited_trans (run_term first none outer hfirst) (run_restTerms rest none _ outer hafter
      hrest)

theorem run_restTerms (rest : List (Additive × Term Numeral)) (sum : Pending) (product : Program)
    (outer : List Parenthesis) {tokens after : List Token}
    {continuation : Program → Except Fault Program} (hafter : Continues room outer after continuation)
    (htokens : tokens.map Token.symbol = Expression.restSymbols rest) :
    limited room (nesting .fresh outer) ((operator sum product outer).run room (tokens ++ after)) =
      limited room (nesting .fresh outer + Expression.restNesting rest)
        (continuation (Expression.restProgram Numeral.toFloat (sum.complete product) rest)) := by
  match rest with
  | [] =>
    rw [Expression.restSymbols, List.map_eq_nil_iff] at htokens
    rw [htokens, List.nil_append, hafter sum product]
    rfl
  | (op, term) :: rest =>
    rw [Expression.restSymbols, List.map_eq_cons_iff] at htokens
    obtain ⟨token, tokens, rfl, hop, htokens⟩ := htokens
    rw [List.map_eq_append_iff] at htokens
    obtain ⟨termTokens, restTokens, rfl, hterm, hrest⟩ := htokens
    have hlexeme : token.lexeme = .operator op := Lexeme.symbol_injective hop
    rw [List.cons_append, List.append_assoc, run_cons, next_additive op hlexeme,
      Expression.restNesting, Expression.restProgram]
    exact limited_trans (run_term term (some (op, sum.complete product)) outer hterm)
      (run_restTerms rest (some (op, sum.complete product)) _ outer hafter hrest)

theorem run_term (t : Term Numeral) (sum : Pending) (outer : List Parenthesis)
    {tokens after : List Token} (htokens : tokens.map Token.symbol = t.symbols) :
    limited room (nesting .fresh outer) ((operand ⟨sum, none, []⟩ outer).run room (tokens ++ after)) =
      limited room (nesting .fresh outer + t.nesting)
        ((operator sum (t.program Numeral.toFloat) outer).run room after) := by
  match t with
  | .product first rest =>
    rw [Term.symbols, List.map_eq_append_iff] at htokens
    obtain ⟨firstTokens, restTokens, rfl, hfirst, hrest⟩ := htokens
    rw [List.append_assoc, Term.nesting, Term.program]
    exact limited_trans (run_unary first ⟨sum, none, []⟩ outer hfirst)
      (run_restFactors rest sum _ outer hrest)

theorem run_restFactors (rest : List (Multiplicative × Unary Numeral)) (sum : Pending)
    (product : Program) (outer : List Parenthesis) {tokens after : List Token}
    (htokens : tokens.map Token.symbol = Term.restSymbols rest) :
    limited room (nesting .fresh outer) ((operator sum product outer).run room (tokens ++ after)) =
      limited room (nesting .fresh outer + Term.restNesting rest)
        ((operator sum (Term.restProgram Numeral.toFloat product rest) outer).run room after) := by
  match rest with
  | [] =>
    rw [Term.restSymbols, List.map_eq_nil_iff] at htokens
    rw [htokens, List.nil_append]
    rfl
  | (op, factor) :: rest =>
    rw [Term.restSymbols, List.map_eq_cons_iff] at htokens
    obtain ⟨token, tokens, rfl, hop, htokens⟩ := htokens
    rw [List.map_eq_append_iff] at htokens
    obtain ⟨factorTokens, restTokens, rfl, hfactor, hrest⟩ := htokens
    have hlexeme : token.lexeme = .operator op := Lexeme.symbol_injective hop
    rw [List.cons_append, List.append_assoc, run_cons, next_multiplicative op hlexeme,
      Term.restNesting, Term.restProgram]
    exact limited_trans (run_unary factor ⟨sum, some (op, product), []⟩ outer hfactor)
      (run_restFactors rest sum _ outer hrest)

theorem run_unary (u : Unary Numeral) (level : Level) (outer : List Parenthesis)
    {tokens after : List Token} (htokens : tokens.map Token.symbol = u.symbols) :
    limited room (nesting level outer) ((operand level outer).run room (tokens ++ after)) =
      limited room (nesting level outer + u.nesting)
        ((operator level.sum (level.complete (u.program Numeral.toFloat)) outer).run room after) := by
  match u with
  | .sign minus u =>
    rw [Unary.symbols, List.map_eq_cons_iff] at htokens
    obtain ⟨token, tokens, rfl, hsign, htokens⟩ := htokens
    have hlexeme : token.lexeme = .operator (.ofSign minus) := Lexeme.symbol_injective hsign
    have hdepth : max (nesting level outer) (nesting level outer + 1 + u.nesting) =
        nesting level outer + (u.nesting + 1) := by omega
    rw [List.cons_append, run_cons, next_sign hlexeme, deeper_bind,
      run_unary u (level.signed minus) outer htokens, limited_limited, nesting_signed, hdepth,
      Unary.nesting]
    cases minus with
    | true => rfl
    | false => rfl
  | .primary p => exact run_primary p level outer htokens

theorem run_primary (p : Primary Numeral) (level : Level) (outer : List Parenthesis)
    {tokens after : List Token} (htokens : tokens.map Token.symbol = p.symbols) :
    limited room (nesting level outer) ((operand level outer).run room (tokens ++ after)) =
      limited room (nesting level outer + p.nesting)
        ((operator level.sum (level.complete (p.program Numeral.toFloat)) outer).run room after) := by
  match p with
  | .atom numeral =>
    rw [Primary.symbols, List.map_eq_singleton_iff] at htokens
    obtain ⟨token, rfl, hatom⟩ := htokens
    have hlexeme : token.lexeme = .number numeral := Lexeme.symbol_injective hatom
    rw [List.singleton_append, run_cons, next_number hlexeme]
    rfl
  | .parentheses inside =>
    rw [Primary.symbols, List.map_eq_cons_iff] at htokens
    obtain ⟨first, tokens, rfl, hopening, htokens⟩ := htokens
    rw [List.map_eq_append_iff] at htokens
    obtain ⟨tokens, closing, rfl, hinside, hclosing⟩ := htokens
    rw [List.map_eq_singleton_iff] at hclosing
    obtain ⟨last, rfl, hlast⟩ := hclosing
    have hfirst : first.lexeme = .opening := Lexeme.symbol_injective hopening
    have hlast : last.lexeme = .closing := Lexeme.symbol_injective hlast
    have hafter := @Continues.closing room last level first.position outer hlast after
    have hdepth : max (nesting level outer) (nesting level outer + 4 + inside.nesting) =
        nesting level outer + (inside.nesting + 4) := by omega
    rw [List.cons_append, List.append_assoc, List.singleton_append, run_cons, next_opening hfirst,
      deeper_bind, run_expression inside _ hafter hinside, limited_limited, nesting_parenthesis,
      hdepth, Primary.nesting]
    rfl

end

/-! ## What has been read is derived -/

/-- The terms and the operator in front of a term. -/
inductive SumReads : Pending → List (Symbol Numeral) → Prop
  | none : SumReads none []
  | some (e : Expression Numeral) (op : Additive) :
    SumReads (some (op, e.program Numeral.toFloat)) (e.symbols ++ [.operator op])

/-- The factors and the operator in front of a factor. -/
inductive ProductReads : Pending → List (Symbol Numeral) → Prop
  | none : ProductReads none []
  | some (t : Term Numeral) (op : Multiplicative) :
    ProductReads (some (op, t.program Numeral.toFloat)) (t.symbols ++ [.operator op])

/-- The symbols in front of an operand, within one level of parentheses. -/
inductive LevelReads : Level → List (Symbol Numeral) → Prop
  | intro {sum product : Pending} {terms factors : List (Symbol Numeral)} (signs : List Bool)
    (hsum : SumReads sum terms) (hproduct : ProductReads product factors) :
    LevelReads ⟨sum, product, signs⟩
      (terms ++ (factors ++ signs.reverse.map fun minus ↦ .operator (.ofSign minus)))

/-- The symbols up to the innermost open parenthesis. -/
inductive OuterReads : List Parenthesis → List (Symbol Numeral) → Prop
  | nil : OuterReads [] []
  | cons {parenthesis : Parenthesis} {outer : List Parenthesis}
    {before inner : List (Symbol Numeral)} (houter : OuterReads outer before)
    (hlevel : LevelReads parenthesis.level inner) :
    OuterReads (parenthesis :: outer) (before ++ (inner ++ [.opening]))

/-- The symbols that lead to a state. -/
inductive Reads : State → List (Symbol Numeral) → Prop
  | operand {level : Level} {outer : List Parenthesis} {before inner : List (Symbol Numeral)}
    (houter : OuterReads outer before) (hlevel : LevelReads level inner) :
    Reads (operand level outer) (before ++ inner)
  | operator {sum : Pending} {outer : List Parenthesis} {before terms : List (Symbol Numeral)}
    (houter : OuterReads outer before) (hsum : SumReads sum terms) (t : Term Numeral) :
    Reads (operator sum (t.program Numeral.toFloat) outer) (before ++ (terms ++ t.symbols))

theorem SumReads.complete {sum : Pending} {terms : List (Symbol Numeral)}
    (h : SumReads sum terms) (t : Term Numeral) :
    ∃ e : Expression Numeral, e.symbols = terms ++ t.symbols ∧
      e.program Numeral.toFloat = sum.complete (t.program Numeral.toFloat) := by
  cases h with
  | none =>
    refine ⟨.sum t [], ?_, rfl⟩
    rw [Expression.symbols, Expression.restSymbols, List.append_nil, List.nil_append]
  | some e op =>
    refine ⟨e.snoc op t, ?_, e.program_snoc _ op t⟩
    rw [e.symbols_snoc, List.append_assoc, List.singleton_append]

theorem ProductReads.complete {product : Pending} {factors : List (Symbol Numeral)}
    (h : ProductReads product factors) (u : Unary Numeral) :
    ∃ t : Term Numeral, t.symbols = factors ++ u.symbols ∧
      t.program Numeral.toFloat = product.complete (u.program Numeral.toFloat) := by
  cases h with
  | none =>
    refine ⟨.product u [], ?_, rfl⟩
    rw [Term.symbols, Term.restSymbols, List.append_nil, List.nil_append]
  | some t op =>
    refine ⟨t.snoc op u, ?_, t.program_snoc _ op u⟩
    rw [t.symbols_snoc, List.append_assoc, List.singleton_append]

theorem exists_signed (signs : List Bool) (u : Unary Numeral) :
    ∃ u' : Unary Numeral,
      u'.symbols = (signs.reverse.map fun minus ↦ .operator (.ofSign minus)) ++ u.symbols ∧
      u'.program Numeral.toFloat = signs.foldl (fun p minus ↦ if minus then .negate p else p)
        (u.program Numeral.toFloat) := by
  induction signs generalizing u with
  | nil => exact ⟨u, rfl, rfl⟩
  | cons minus signs ih =>
    obtain ⟨u', hsymbols, hprogram⟩ := ih (.sign minus u)
    refine ⟨u', ?_, ?_⟩
    · rw [hsymbols, Unary.symbols, List.reverse_cons, List.map_append, List.append_assoc]
      rfl
    · rw [hprogram, List.foldl_cons]
      cases minus with
      | true => rfl
      | false => rfl

theorem LevelReads.complete {level : Level} {inner : List (Symbol Numeral)}
    (h : LevelReads level inner) (p : Primary Numeral) :
    ∃ (terms : List (Symbol Numeral)) (t : Term Numeral), SumReads level.sum terms ∧
      terms ++ t.symbols = inner ++ p.symbols ∧
      t.program Numeral.toFloat = level.complete (p.program Numeral.toFloat) := by
  cases h with
  | @intro sum product terms factors signs hsum hproduct =>
    obtain ⟨u, husymbols, huprogram⟩ := exists_signed signs (.primary p)
    obtain ⟨t, htsymbols, htprogram⟩ := hproduct.complete u
    refine ⟨terms, t, hsum, ?_, ?_⟩
    · rw [htsymbols, husymbols, Unary.symbols, List.append_assoc, List.append_assoc]
    · rw [htprogram, huprogram]
      rfl

theorem LevelReads.of_sum {sum : Pending} {terms : List (Symbol Numeral)}
    (h : SumReads sum terms) : LevelReads ⟨sum, none, []⟩ terms := by
  have hlevel : LevelReads ⟨sum, none, []⟩ (terms ++ []) := .intro [] h .none
  rwa [List.append_nil] at hlevel

theorem LevelReads.of_product {sum : Pending} {terms : List (Symbol Numeral)}
    (h : SumReads sum terms) (t : Term Numeral) (op : Multiplicative) :
    LevelReads ⟨sum, some (op, t.program Numeral.toFloat), []⟩
      (terms ++ (t.symbols ++ [.operator op])) := by
  have hlevel : LevelReads ⟨sum, some (op, t.program Numeral.toFloat), []⟩
      (terms ++ ((t.symbols ++ [.operator op]) ++ [])) := .intro [] h (.some t op)
  rwa [List.append_nil] at hlevel

theorem LevelReads.signed {inner : List (Symbol Numeral)} (h : LevelReads level inner)
    (minus : Bool) : LevelReads (level.signed minus) (inner ++ [.operator (.ofSign minus)]) := by
  cases h with
  | intro signs hsum hproduct =>
    have hsigned := LevelReads.intro (minus :: signs) hsum hproduct
    rw [List.reverse_cons, List.map_append] at hsigned
    rw [List.append_assoc, List.append_assoc]
    exact hsigned

/-- A primary takes the reader from the operand in front of it to the term that it completes. -/
theorem Reads.complete {before inner : List (Symbol Numeral)} (houter : OuterReads outer before)
    (hlevel : LevelReads level inner) (p : Primary Numeral) :
    Reads (State.operator level.sum (level.complete (p.program Numeral.toFloat)) outer)
      (before ++ (inner ++ p.symbols)) := by
  obtain ⟨terms, t, hsum, hsymbols, hprogram⟩ := hlevel.complete p
  rw [← hsymbols, ← hprogram]
  exact .operator houter hsum t

theorem eq_of_deeper {state : State} (h : next.deeper room level outer = .ok state) :
    state = operand level outer := by
  unfold next.deeper at h
  split at h
  · cases h
    rfl
  · cases h

theorem symbol_of_lexeme {lexeme : Lexeme} (h : token.lexeme = lexeme) :
    token.symbol = lexeme.symbol := congrArg Lexeme.symbol h

/-- What a token does where an operand is expected. -/
theorem reads_next_operand {state' : State} {before inner : List (Symbol Numeral)}
    (houter : OuterReads outer before) (hlevel : LevelReads level inner)
    (hnext : (operand level outer).next room token = .ok state') :
    state'.Reads (before ++ inner ++ [token.symbol]) := by
  have hsigned (minus : Bool) (hlexeme : token.lexeme = .operator (.ofSign minus)) :
      state'.Reads (before ++ inner ++ [token.symbol]) := by
    rw [next_sign hlexeme] at hnext
    rw [eq_of_deeper hnext, symbol_of_lexeme hlexeme, List.append_assoc]
    exact .operand houter (hlevel.signed minus)
  cases hlexeme : token.lexeme with
  | number numeral =>
    rw [next_number hlexeme] at hnext
    cases hnext
    rw [symbol_of_lexeme hlexeme, List.append_assoc]
    exact .complete houter hlevel (.atom numeral)
  | opening =>
    rw [next_opening hlexeme] at hnext
    rw [eq_of_deeper hnext, symbol_of_lexeme hlexeme, List.append_assoc]
    have hinner : OuterReads (⟨level, token.position⟩ :: outer)
        (before ++ (inner ++ [.opening])) := .cons houter hlevel
    have hreads := Reads.operand hinner (.of_sum .none)
    rwa [List.append_nil] at hreads
  | closing =>
    unfold State.next at hnext
    simp only [hlexeme] at hnext
    cases hnext
  | operator op =>
    cases op with
    | add => exact hsigned false hlexeme
    | subtract => exact hsigned true hlexeme
    | _ =>
      unfold State.next at hnext
      simp only [hlexeme] at hnext
      cases hnext

/-- What a token does where an operator is expected. -/
theorem reads_next_operator {state' : State} {sum : Pending} {t : Term Numeral}
    {before terms : List (Symbol Numeral)} (houter : OuterReads outer before)
    (hsum : SumReads sum terms)
    (hnext : (operator sum (t.program Numeral.toFloat) outer).next room token = .ok state') :
    state'.Reads (before ++ (terms ++ t.symbols) ++ [token.symbol]) := by
  cases hlexeme : token.lexeme with
  | operator op =>
    rw [symbol_of_lexeme hlexeme]
    cases hadditive : op.isAdditive with
    | true =>
      rw [next_additive ⟨op, hadditive⟩ hlexeme] at hnext
      cases hnext
      obtain ⟨e, hsymbols, hprogram⟩ := hsum.complete t
      rw [List.append_assoc, ← hsymbols, ← hprogram]
      exact .operand houter (.of_sum (.some e ⟨op, hadditive⟩))
    | false =>
      rw [next_multiplicative ⟨op, hadditive⟩ hlexeme] at hnext
      cases hnext
      rw [List.append_assoc, List.append_assoc]
      exact .operand houter (.of_product hsum t ⟨op, hadditive⟩)
  | closing =>
    cases houter with
    | nil =>
      unfold State.next at hnext
      simp only [hlexeme] at hnext
      cases hnext
    | @cons parenthesis outer before inner houter hlevel =>
      -- The expression inside is an operand of the level outside.
      rw [next_closing hlexeme] at hnext
      cases hnext
      obtain ⟨e, hsymbols, hprogram⟩ := hsum.complete t
      have hcomplete := Reads.complete houter hlevel (.parentheses e)
      rw [Primary.symbols, Primary.program, hsymbols, hprogram] at hcomplete
      have hclosing : token.symbol = .closing := symbol_of_lexeme hlexeme
      rw [hclosing]
      simp only [List.append_assoc, List.cons_append] at hcomplete ⊢
      exact hcomplete
  | _ =>
    unfold State.next at hnext
    simp only [hlexeme] at hnext
    cases hnext

/-- A token that is not refused has been read then. -/
theorem Reads.next {state state' : State} {before : List (Symbol Numeral)}
    (h : state.Reads before) (hnext : state.next room token = .ok state') :
    state'.Reads (before ++ [token.symbol]) := by
  cases h with
  | operand houter hlevel => exact reads_next_operand houter hlevel hnext
  | operator houter hsum t => exact reads_next_operator houter hsum hnext

theorem Reads.finish {state : State} {before : List (Symbol Numeral)} {p : Program}
    (h : state.Reads before) (hfinish : state.finish = .ok p) :
    ∃ e : Expression Numeral, e.symbols = before ∧ e.program Numeral.toFloat = p := by
  cases h with
  | operand _ _ => cases hfinish
  | operator houter hsum t =>
    cases houter with
    | cons _ _ => cases hfinish
    | nil =>
      cases hfinish
      exact hsum.complete t

theorem Reads.run {state : State} {before : List (Symbol Numeral)} {tokens : List Token}
    {p : Program} (h : state.Reads before) (hrun : state.run room tokens = .ok p) :
    ∃ e : Expression Numeral, e.symbols = before ++ tokens.map Token.symbol ∧
      e.program Numeral.toFloat = p := by
  induction tokens generalizing state before with
  | nil =>
    rw [List.map_nil, List.append_nil]
    exact h.finish hrun
  | cons token tokens ih =>
    rw [run_cons] at hrun
    obtain ⟨state', hnext, hrest⟩ := exists_of_bind_eq_ok hrun
    obtain ⟨e, hsymbols, hprogram⟩ := ih (h.next hnext) hrest
    refine ⟨e, ?_, hprogram⟩
    rw [hsymbols, List.append_assoc, List.map_cons, List.singleton_append]

theorem reads_start : start.Reads [] := .operand .nil (.of_sum .none)

end State

/-! ## The reader and the grammar -/

/-- What is read of the tokens of a tree. -/
theorem parseTokens_of_symbols {room : Nat} {e : Expression Numeral} {tokens : List Token}
    (h : e.symbols = tokens.map Token.symbol) :
    parseTokens room tokens =
      if e.nesting ≤ room then .ok (e.program Numeral.toFloat) else .error .tooDeep := by
  have hrun := State.run_expression e [] (State.Continues.nil : State.Continues room [] [] .ok) h.symm
  have hdepth : nesting .fresh [] = 0 := rfl
  rw [hdepth, Nat.zero_add, List.append_nil, State.limited_of_le (Nat.zero_le _)] at hrun
  rw [← State.limited, ← hrun]
  cases tokens with
  | nil => exact absurd h e.symbols_ne_nil
  | cons token tokens => rfl

theorem exists_symbols_of_parseTokens {room : Nat} {tokens : List Token} {p : Program}
    (h : parseTokens room tokens = .ok p) :
    ∃ e : Expression Numeral, e.symbols = tokens.map Token.symbol ∧
      e.program Numeral.toFloat = p := by
  cases tokens with
  | nil => cases h
  | cons token tokens => exact State.reads_start.run h

/-- A tree that nests deeper than there is room for is not read. Nothing else depends on the room. -/
theorem parseTokens_of_ok {room : Nat} {tokens : List Token} {p : Program}
    (h : parseTokens room tokens = .ok p) (room' : Nat) :
    parseTokens room' tokens = .ok p ∨ parseTokens room' tokens = .error .tooDeep := by
  obtain ⟨e, hsymbols, hprogram⟩ := exists_symbols_of_parseTokens h
  rw [parseTokens_of_symbols hsymbols, hprogram]
  by_cases hnesting : e.nesting ≤ room'
  · exact .inl (if_pos hnesting)
  · exact .inr (if_neg hnesting)

theorem parse_of_ok {room : Nat} {source : String} {p : Program} (h : parse room source = .ok p)
    (room' : Nat) : parse room' source = .ok p ∨ parse room' source = .error .tooDeep := by
  obtain ⟨tokens, htokens, hparse⟩ := exists_of_bind_eq_ok h
  rw [parse, htokens]
  exact parseTokens_of_ok hparse room'

/-- What is read is also read where there is more room. -/
theorem parse_of_le {room room' : Nat} {source : String} {p : Program}
    (h : parse room source = .ok p) (hroom : room ≤ room') : parse room' source = .ok p := by
  obtain ⟨tokens, htokens, hparse⟩ := exists_of_bind_eq_ok h
  obtain ⟨e, hsymbols, hprogram⟩ := exists_symbols_of_parseTokens hparse
  rw [parseTokens_of_symbols hsymbols] at hparse
  split at hparse
  case isFalse => cases hparse
  case isTrue hnesting =>
    rw [parse, htokens]
    exact (parseTokens_of_symbols hsymbols).trans
      ((if_pos (hnesting.trans hroom)).trans (congrArg Except.ok hprogram))

/--
A list of tokens is read if and only if the grammar derives it from a tree that does not nest too
deeply, and what is read is the program of the tree. There is at most one tree. If it nests too
deeply, that is the fault.
-/
theorem parseTokens_eq_ok_iff (room : Nat) (tokens : List Token) :
    (∀ p, parseTokens room tokens = .ok p ↔
      ∃ e : Expression Numeral, e.symbols = tokens.map Token.symbol ∧
        e.nesting ≤ room ∧ e.program Numeral.toFloat = p) ∧
    (∀ e e' : Expression Numeral, e.symbols = tokens.map Token.symbol →
      e'.symbols = tokens.map Token.symbol → e = e') ∧
    ∀ e : Expression Numeral, e.symbols = tokens.map Token.symbol →
      room < e.nesting → parseTokens room tokens = .error .tooDeep := by
  refine ⟨fun p ↦ ⟨fun hparse ↦ ?_, fun hderived ↦ ?_⟩, fun e e' he he' ↦ ?_, fun e he hdeep ↦ ?_⟩
  · obtain ⟨e, hsymbols, hprogram⟩ := exists_symbols_of_parseTokens hparse
    rw [parseTokens_of_symbols hsymbols] at hparse
    have hshallow : e.nesting ≤ room := by
      by_contra hdeep
      rw [if_neg hdeep] at hparse
      cases hparse
    exact ⟨e, hsymbols, hshallow, hprogram⟩
  · obtain ⟨e, hsymbols, hshallow, hprogram⟩ := hderived
    rw [parseTokens_of_symbols hsymbols, if_pos hshallow, hprogram]
  · exact Expression.symbols_injective (he.trans he'.symm)
  · rw [parseTokens_of_symbols he, if_neg (Nat.not_le.mpr hdeep)]

end KeyTree.Arithmetic
