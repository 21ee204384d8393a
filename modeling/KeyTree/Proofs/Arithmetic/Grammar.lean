import KeyTree.Arithmetic.Program
import Mathlib.Data.List.Chain

/-!
# The grammar of arithmetic expressions

```
expression := term (('+' | '-') term)*
term       := unary (('*' | '/' | '%') unary)*
unary      := ('-' | '+') unary | primary
primary    := atom | '(' expression ')'
```

A derivation is a tree with one type for each of these rules. The atoms are of any kind, such as
numerals. The symbols of a tree are what it derives, and different trees derive different symbols.
-/

namespace KeyTree.Arithmetic

/-- The operators between the terms of an expression. -/
abbrev Additive := {op : Operator // op.isAdditive = true}

/-- The operators between the factors of a term. -/
abbrev Multiplicative := {op : Operator // op.isAdditive = false}

/-- The operator that a sign looks like. -/
def Operator.ofSign (minus : Bool) : Operator := if minus then .subtract else .add

mutual

inductive Expression (α : Type) where
  | sum (first : Term α) (rest : List (Additive × Term α))

inductive Term (α : Type) where
  | product (first : Unary α) (rest : List (Multiplicative × Unary α))

inductive Unary (α : Type) where
  | sign (minus : Bool) (operand : Unary α)
  | primary (p : Primary α)

inductive Primary (α : Type) where
  | atom (a : α)
  | parentheses (inside : Expression α)

end

/-- The terminal symbols of the grammar. -/
inductive Symbol (α : Type) where
  | atom (a : α)
  | operator (op : Operator)
  | opening
  | closing

variable {α : Type}

/-! ## What a tree derives -/

mutual

def Expression.symbols : Expression α → List (Symbol α)
  | .sum first rest => first.symbols ++ Expression.restSymbols rest

def Expression.restSymbols : List (Additive × Term α) → List (Symbol α)
  | [] => []
  | (op, term) :: rest => .operator op :: (term.symbols ++ Expression.restSymbols rest)

def Term.symbols : Term α → List (Symbol α)
  | .product first rest => first.symbols ++ Term.restSymbols rest

def Term.restSymbols : List (Multiplicative × Unary α) → List (Symbol α)
  | [] => []
  | (op, factor) :: rest => .operator op :: (factor.symbols ++ Term.restSymbols rest)

def Unary.symbols : Unary α → List (Symbol α)
  | .sign minus operand => .operator (.ofSign minus) :: operand.symbols
  | .primary p => p.symbols

def Primary.symbols : Primary α → List (Symbol α)
  | .atom a => [.atom a]
  | .parentheses inside => .opening :: (inside.symbols ++ [.closing])

end

mutual

theorem Expression.symbols_ne_nil (e : Expression α) : e.symbols ≠ [] := by
  match e with
  | .sum first rest => exact List.append_ne_nil_of_left_ne_nil first.symbols_ne_nil _

theorem Term.symbols_ne_nil (t : Term α) : t.symbols ≠ [] := by
  match t with
  | .product first rest => exact List.append_ne_nil_of_left_ne_nil first.symbols_ne_nil _

theorem Unary.symbols_ne_nil (u : Unary α) : u.symbols ≠ [] := by
  match u with
  | .sign _ _ => exact List.cons_ne_nil _ _
  | .primary p => exact p.symbols_ne_nil

theorem Primary.symbols_ne_nil (p : Primary α) : p.symbols ≠ [] := by
  match p with
  | .atom _ => exact List.cons_ne_nil _ _
  | .parentheses _ => exact List.cons_ne_nil _ _

end

/-! ## What a tree means -/

section

variable (leaf : α → Float)

mutual

/-- The program of a tree whose atoms stand for numbers. -/
def Expression.program : Expression α → Program
  | .sum first rest => Expression.restProgram (first.program) rest

/-- The terms behind a program, each taken together with all that stands to the left of it. -/
def Expression.restProgram (left : Program) : List (Additive × Term α) → Program
  | [] => left
  | (op, term) :: rest => Expression.restProgram (.binary op left term.program) rest

def Term.program : Term α → Program
  | .product first rest => Term.restProgram first.program rest

/-- The factors behind a program, each taken together with all that stands to the left of it. -/
def Term.restProgram (left : Program) : List (Multiplicative × Unary α) → Program
  | [] => left
  | (op, factor) :: rest => Term.restProgram (.binary op left factor.program) rest

/-- A minus negates, and a plus leaves nothing. -/
def Unary.program : Unary α → Program
  | .sign true operand => .negate operand.program
  | .sign false operand => operand.program
  | .primary p => p.program

def Primary.program : Primary α → Program
  | .atom a => .literal (leaf a)
  | .parentheses inside => inside.program

end

end

/-! ## One more operand -/

/-- An expression with one more term. -/
def Expression.snoc : Expression α → Additive → Term α → Expression α
  | .sum first rest, op, term => .sum first (rest ++ [(op, term)])

theorem Expression.restSymbols_concat (rest : List (Additive × Term α)) (op : Additive)
    (term : Term α) :
    restSymbols (rest ++ [(op, term)]) = restSymbols rest ++ .operator op :: term.symbols := by
  induction rest with
  | nil => simp only [List.nil_append, restSymbols, List.append_nil]
  | cons head rest ih => simp only [List.cons_append, restSymbols, ih, List.append_assoc]

theorem Expression.symbols_snoc (e : Expression α) (op : Additive) (term : Term α) :
    (e.snoc op term).symbols = e.symbols ++ .operator op :: term.symbols := by
  cases e with
  | sum first rest => rw [snoc, symbols, symbols, restSymbols_concat, List.append_assoc]

theorem Expression.restProgram_concat (leaf : α → Float) (left : Program)
    (rest : List (Additive × Term α)) (op : Additive) (term : Term α) :
    restProgram leaf left (rest ++ [(op, term)]) =
      .binary op (restProgram leaf left rest) (term.program leaf) := by
  induction rest generalizing left with
  | nil => rfl
  | cons head rest ih => exact ih _

theorem Expression.program_snoc (leaf : α → Float) (e : Expression α) (op : Additive)
    (term : Term α) :
    (e.snoc op term).program leaf = .binary op (e.program leaf) (term.program leaf) := by
  cases e with
  | sum first rest => exact restProgram_concat leaf _ rest op term

/-- A term with one more factor. -/
def Term.snoc : Term α → Multiplicative → Unary α → Term α
  | .product first rest, op, factor => .product first (rest ++ [(op, factor)])

theorem Term.restSymbols_concat (rest : List (Multiplicative × Unary α)) (op : Multiplicative)
    (factor : Unary α) :
    restSymbols (rest ++ [(op, factor)]) = restSymbols rest ++ .operator op :: factor.symbols := by
  induction rest with
  | nil => simp only [List.nil_append, restSymbols, List.append_nil]
  | cons head rest ih => simp only [List.cons_append, restSymbols, ih, List.append_assoc]

theorem Term.symbols_snoc (t : Term α) (op : Multiplicative) (factor : Unary α) :
    (t.snoc op factor).symbols = t.symbols ++ .operator op :: factor.symbols := by
  cases t with
  | product first rest => rw [snoc, symbols, symbols, restSymbols_concat, List.append_assoc]

theorem Term.restProgram_concat (leaf : α → Float) (left : Program)
    (rest : List (Multiplicative × Unary α)) (op : Multiplicative) (factor : Unary α) :
    restProgram leaf left (rest ++ [(op, factor)]) =
      .binary op (restProgram leaf left rest) (factor.program leaf) := by
  induction rest generalizing left with
  | nil => rfl
  | cons head rest ih => exact ih _

theorem Term.program_snoc (leaf : α → Float) (t : Term α) (op : Multiplicative)
    (factor : Unary α) :
    (t.snoc op factor).program leaf = .binary op (t.program leaf) (factor.program leaf) := by
  cases t with
  | product first rest => exact restProgram_concat leaf _ rest op factor

/-! ## How deep a tree nests -/

mutual

/-- How deep the operands of a tree nest, where a sign counts one and a parenthesis four. -/
def Expression.nesting : Expression α → Nat
  | .sum first rest => max first.nesting (Expression.restNesting rest)

def Expression.restNesting : List (Additive × Term α) → Nat
  | [] => 0
  | (_, term) :: rest => max term.nesting (Expression.restNesting rest)

def Term.nesting : Term α → Nat
  | .product first rest => max first.nesting (Term.restNesting rest)

def Term.restNesting : List (Multiplicative × Unary α) → Nat
  | [] => 0
  | (_, factor) :: rest => max factor.nesting (Term.restNesting rest)

def Unary.nesting : Unary α → Nat
  | .sign _ operand => operand.nesting + 1
  | .primary p => p.nesting

def Primary.nesting : Primary α → Nat
  | .atom _ => 0
  | .parentheses inside => inside.nesting + 4

end

/-- A tree in parentheses, some levels deep. -/
def Expression.enclosed (e : Expression α) : Nat → Expression α
  | 0 => e
  | levels + 1 => .sum (.product (.primary (.parentheses (e.enclosed levels))) []) []

theorem Expression.nesting_enclosed (e : Expression α) (levels : Nat) :
    (e.enclosed levels).nesting = e.nesting + 4 * levels := by
  induction levels with
  | zero => rfl
  | succ levels ih =>
    simp only [enclosed, nesting, restNesting, Term.nesting, Term.restNesting, Unary.nesting,
      Primary.nesting, ih]
    omega

theorem Expression.symbols_enclosed (e : Expression α) (levels : Nat) :
    (e.enclosed levels).symbols =
      List.replicate levels .opening ++ (e.symbols ++ List.replicate levels .closing) := by
  induction levels with
  | zero => exact (List.append_nil _).symm
  | succ levels ih =>
    simp only [enclosed, symbols, restSymbols, Term.symbols, Term.restSymbols, Unary.symbols,
      Primary.symbols, ih]
    rw [List.replicate_succ, List.replicate_succ']
    simp only [List.append_nil, List.append_assoc, List.cons_append]

theorem Expression.program_enclosed (leaf : α → Float) (e : Expression α) (levels : Nat) :
    (e.enclosed levels).program leaf = e.program leaf := by
  induction levels with
  | zero => rfl
  | succ levels ih =>
    simp only [enclosed, program, restProgram, Term.program, Term.restProgram, Unary.program,
      Primary.program, ih]

/-! ## Atoms stand apart -/

def Symbol.isAtom : Symbol α → Bool
  | .atom _ => true
  | _ => false

/-- No two atoms stand side by side. -/
def Separated (symbols : List (Symbol α)) : Prop :=
  symbols.IsChain fun left right ↦ left.isAtom = false ∨ right.isAtom = false

theorem Separated.append {front back : List (Symbol α)} (hfront : Separated front)
    (hback : Separated back) (hhead : ∀ s ∈ back.head?, s.isAtom = false) :
    Separated (front ++ back) :=
  List.isChain_append.mpr ⟨hfront, hback, fun _ _ s hs ↦ .inr (hhead s hs)⟩

theorem Separated.cons {s : Symbol α} {back : List (Symbol α)} (hs : s.isAtom = false)
    (hback : Separated back) : Separated (s :: back) :=
  List.isChain_cons.mpr ⟨fun _ _ ↦ .inl hs, hback⟩

/-- Atoms alone are one atom. -/
theorem Separated.exists_atom {symbols : List (Symbol α)} (h : Separated symbols)
    (hsome : symbols ≠ []) (hatoms : ∀ s ∈ symbols, s.isAtom = true) :
    ∃ a, symbols = [.atom a] := by
  match symbols with
  | [] => exact absurd rfl hsome
  | [s] =>
    have hs := hatoms s List.mem_cons_self
    cases s with
    | atom a => exact ⟨a, rfl⟩
    | _ => cases hs
  | s :: s' :: _ =>
    have hs := hatoms s List.mem_cons_self
    have hs' := hatoms s' (List.mem_cons_of_mem s List.mem_cons_self)
    rcases (List.isChain_cons_cons.mp h).1 with hleft | hright
    · rw [hs] at hleft
      cases hleft
    · rw [hs'] at hright
      cases hright

mutual

theorem Expression.separated (e : Expression α) : Separated e.symbols := by
  match e with
  | .sum first rest =>
    rw [Expression.symbols]
    obtain ⟨hrest, hhead⟩ := Expression.separated_rest rest
    exact .append (Term.separated first) hrest hhead

theorem Expression.separated_rest (rest : List (Additive × Term α)) :
    Separated (Expression.restSymbols rest) ∧
      ∀ s ∈ (Expression.restSymbols rest).head?, s.isAtom = false := by
  match rest with
  | [] => exact ⟨.nil, fun _ h ↦ by cases h⟩
  | (op, term) :: rest =>
    obtain ⟨hrest, hhead⟩ := Expression.separated_rest rest
    rw [Expression.restSymbols]
    exact ⟨.cons rfl (.append (Term.separated term) hrest hhead), fun _ h ↦ by cases h; rfl⟩

theorem Term.separated (t : Term α) : Separated t.symbols := by
  match t with
  | .product first rest =>
    rw [Term.symbols]
    obtain ⟨hrest, hhead⟩ := Term.separated_rest rest
    exact .append (Unary.separated first) hrest hhead

theorem Term.separated_rest (rest : List (Multiplicative × Unary α)) :
    Separated (Term.restSymbols rest) ∧
      ∀ s ∈ (Term.restSymbols rest).head?, s.isAtom = false := by
  match rest with
  | [] => exact ⟨.nil, fun _ h ↦ by cases h⟩
  | (op, factor) :: rest =>
    obtain ⟨hrest, hhead⟩ := Term.separated_rest rest
    rw [Term.restSymbols]
    exact ⟨.cons rfl (.append (Unary.separated factor) hrest hhead), fun _ h ↦ by cases h; rfl⟩

theorem Unary.separated (u : Unary α) : Separated u.symbols := by
  match u with
  | .sign minus operand =>
    rw [Unary.symbols]
    exact .cons rfl (Unary.separated operand)
  | .primary p => exact Primary.separated p

theorem Primary.separated (p : Primary α) : Separated p.symbols := by
  match p with
  | .atom _ => exact .singleton _
  | .parentheses inside =>
    rw [Primary.symbols]
    exact .cons rfl (.append (Expression.separated inside) (.singleton _)
      fun _ h ↦ by cases h; rfl)

end

/-! ## Every word has at most one tree -/

theorem Operator.ofSign_inj {minus minus' : Bool} (h : ofSign minus = ofSign minus') :
    minus = minus' := by
  cases minus <;> cases minus' <;> first | rfl | cases h

/-- What follows is no operator of a term. -/
def EndsTerm (after : List (Symbol α)) : Prop :=
  ∀ op rest, after = .operator op :: rest → op.isAdditive = true

/-- What follows is no operator. -/
def EndsExpression (after : List (Symbol α)) : Prop :=
  ∀ op rest, after ≠ .operator op :: rest

theorem EndsExpression.nil : EndsExpression ([] : List (Symbol α)) :=
  fun _ _ h ↦ by cases h

theorem EndsExpression.closing (after : List (Symbol α)) :
    EndsExpression (.closing :: after) := fun _ _ h ↦ by cases h

/-- A further term begins with an additive operator. -/
theorem EndsExpression.restSymbols {after : List (Symbol α)} (h : EndsExpression after)
    (rest : List (Additive × Term α)) : EndsTerm (Expression.restSymbols rest ++ after) := by
  intro op symbols heq
  match rest with
  | [] => exact absurd heq (h op symbols)
  | (op', _) :: _ =>
    rw [Expression.restSymbols, List.cons_append] at heq
    injection heq with hop
    injection hop with hop
    rw [← hop]
    exact op'.2

/-- A primary does not begin with an operator. -/
theorem Primary.symbols_append_ne (p : Primary α) (after : List (Symbol α)) (op : Operator)
    (rest : List (Symbol α)) : p.symbols ++ after ≠ .operator op :: rest := by
  intro h
  cases p with
  | atom _ => cases h
  | parentheses _ => cases h

mutual

theorem Expression.eq_of_symbols_append (e e' : Expression α) {after after' : List (Symbol α)}
    (hafter : EndsExpression after) (hafter' : EndsExpression after')
    (h : e.symbols ++ after = e'.symbols ++ after') : e = e' ∧ after = after' := by
  match e, e' with
  | .sum first rest, .sum first' rest' =>
    simp only [Expression.symbols, List.append_assoc] at h
    obtain ⟨rfl, hrest⟩ := Term.eq_of_symbols_append first first' (hafter.restSymbols rest)
      (hafter'.restSymbols rest') h
    obtain ⟨rfl, hend⟩ := Expression.eq_of_restSymbols_append rest rest' hafter hafter' hrest
    exact ⟨rfl, hend⟩

theorem Expression.eq_of_restSymbols_append (rest rest' : List (Additive × Term α))
    {after after' : List (Symbol α)} (hafter : EndsExpression after)
    (hafter' : EndsExpression after')
    (h : Expression.restSymbols rest ++ after = Expression.restSymbols rest' ++ after') :
    rest = rest' ∧ after = after' := by
  match rest, rest' with
  | [], [] => exact ⟨rfl, h⟩
  | [], _ :: _ => exact absurd h (hafter _ _)
  | _ :: _, [] => exact absurd h.symm (hafter' _ _)
  | (op, term) :: rest, (op', term') :: rest' =>
    simp only [Expression.restSymbols, List.cons_append, List.append_assoc] at h
    injection h with hop htail
    injection hop with hop
    obtain rfl := Subtype.ext hop
    obtain ⟨rfl, hrest⟩ := Term.eq_of_symbols_append term term' (hafter.restSymbols rest)
      (hafter'.restSymbols rest') htail
    obtain ⟨rfl, hend⟩ := Expression.eq_of_restSymbols_append rest rest' hafter hafter' hrest
    exact ⟨rfl, hend⟩

theorem Term.eq_of_symbols_append (t t' : Term α) {after after' : List (Symbol α)}
    (hafter : EndsTerm after) (hafter' : EndsTerm after')
    (h : t.symbols ++ after = t'.symbols ++ after') : t = t' ∧ after = after' := by
  match t, t' with
  | .product first rest, .product first' rest' =>
    simp only [Term.symbols, List.append_assoc] at h
    obtain ⟨rfl, hrest⟩ := Unary.eq_of_symbols_append first first' h
    obtain ⟨rfl, hend⟩ := Term.eq_of_restSymbols_append rest rest' hafter hafter' hrest
    exact ⟨rfl, hend⟩

theorem Term.eq_of_restSymbols_append (rest rest' : List (Multiplicative × Unary α))
    {after after' : List (Symbol α)} (hafter : EndsTerm after) (hafter' : EndsTerm after')
    (h : Term.restSymbols rest ++ after = Term.restSymbols rest' ++ after') :
    rest = rest' ∧ after = after' := by
  match rest, rest' with
  | [], [] => exact ⟨rfl, h⟩
  | [], (op', _) :: _ =>
    have hadditive := hafter _ _ h
    rw [op'.2] at hadditive
    cases hadditive
  | (op, _) :: _, [] =>
    have hadditive := hafter' _ _ h.symm
    rw [op.2] at hadditive
    cases hadditive
  | (op, factor) :: rest, (op', factor') :: rest' =>
    simp only [Term.restSymbols, List.cons_append, List.append_assoc] at h
    injection h with hop htail
    injection hop with hop
    obtain rfl := Subtype.ext hop
    obtain ⟨rfl, hrest⟩ := Unary.eq_of_symbols_append factor factor' htail
    obtain ⟨rfl, hend⟩ := Term.eq_of_restSymbols_append rest rest' hafter hafter' hrest
    exact ⟨rfl, hend⟩

theorem Unary.eq_of_symbols_append (u u' : Unary α) {after after' : List (Symbol α)}
    (h : u.symbols ++ after = u'.symbols ++ after') : u = u' ∧ after = after' := by
  match u, u' with
  | .sign minus operand, .sign minus' operand' =>
    simp only [Unary.symbols, List.cons_append] at h
    injection h with hsign htail
    injection hsign with hsign
    obtain rfl := Operator.ofSign_inj hsign
    obtain ⟨rfl, hend⟩ := Unary.eq_of_symbols_append operand operand' htail
    exact ⟨rfl, hend⟩
  | .sign _ _, .primary p => exact absurd h.symm (p.symbols_append_ne _ _ _)
  | .primary p, .sign _ _ => exact absurd h (p.symbols_append_ne _ _ _)
  | .primary p, .primary p' =>
    obtain ⟨rfl, hend⟩ := Primary.eq_of_symbols_append p p' h
    exact ⟨rfl, hend⟩

theorem Primary.eq_of_symbols_append (p p' : Primary α) {after after' : List (Symbol α)}
    (h : p.symbols ++ after = p'.symbols ++ after') : p = p' ∧ after = after' := by
  match p, p' with
  | .atom _, .atom _ =>
    injection h with hatom hend
    injection hatom with hatom
    exact ⟨congrArg Primary.atom hatom, hend⟩
  | .atom _, .parentheses _ => cases h
  | .parentheses _, .atom _ => cases h
  | .parentheses inside, .parentheses inside' =>
    simp only [Primary.symbols, List.cons_append, List.append_assoc] at h
    injection h with _ htail
    obtain ⟨rfl, hend⟩ := Expression.eq_of_symbols_append inside inside' (.closing _) (.closing _)
      htail
    injection hend with _ hend
    exact ⟨rfl, hend⟩

end

/-- The grammar is unambiguous. -/
theorem Expression.symbols_injective : Function.Injective (symbols (α := α)) := by
  intro e e' h
  have hword : e.symbols ++ [] = e'.symbols ++ [] := by rw [h]
  exact (e.eq_of_symbols_append e' .nil .nil hword).1

end KeyTree.Arithmetic
