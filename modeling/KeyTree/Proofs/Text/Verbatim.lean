import KeyTree.Proofs.Text.Markup

/-!
# Texts that are shown as they are

In a label a text stands in a style, with a closing tag behind it, or by itself. Either way it loses the
backslashes before brackets that open no tag. Of the backslashes at its end, the closing tag takes half
unless there is just one, and by itself a text that ends in just one gets another. All other texts are
shown as they are.
-/

namespace KeyTree.Text.Markup

variable {s t body after rest x y : List Char} {count : Nat} {ps qs : List Piece}

/-! ## Backslashes before brackets -/

/-- Whether a text starts with a bracket that opens no tag. -/
def startsUntagged : List Char → Bool
  | '[' :: rest => !opensTag rest
  | _ => false

/-- A text without the backslashes before brackets that open no tag. -/
def unslashed : List Char → List Char
  | [] => []
  | c :: rest =>
    if c == '\\' && startsUntagged rest then unslashed rest else c :: unslashed rest

/-- Every bracket behind a backslash opens a tag. -/
def KeepsBrackets (s : List Char) : Prop :=
  ∀ before after, s = before ++ '\\' :: '[' :: after → opensTag after = true

theorem exists_of_startsUntagged (h : startsUntagged s = true) : ∃ rest,
    s = '[' :: rest ∧ opensTag rest = false := by
  unfold startsUntagged at h
  split at h
  case h_1 rest => exact ⟨rest, rfl, Bool.not_eq_true' _ ▸ h⟩
  case h_2 => cases h

theorem startsUntagged_of_ne {c : Char} (hc : c ≠ '[') (rest : List Char) :
    startsUntagged (c :: rest) = false := by
  unfold startsUntagged
  split
  case h_1 heq => exact absurd (List.cons.inj heq).1 hc
  case h_2 => rfl

theorem startsUntagged_of_opens (h : opens s = true) : startsUntagged s = false := by
  by_contra hstarts
  obtain ⟨rest, rfl, hnone⟩ := exists_of_startsUntagged (Bool.not_eq_false _ ▸ hstarts)
  change opensTag rest = true at h
  rw [hnone] at h
  cases h

theorem unslashed_cons_of_not {c : Char} (h : (c == '\\' && startsUntagged rest) = false) :
    unslashed (c :: rest) = c :: unslashed rest := by
  rw [unslashed, h]
  rfl

theorem unslashed_cons_of_ne {c : Char} (hc : c ≠ '\\') (rest : List Char) :
    unslashed (c :: rest) = c :: unslashed rest := by
  apply unslashed_cons_of_not
  rw [beq_eq_false_iff_ne.2 hc]
  rfl

/-- Where a backslash is taken away, the bracket behind it comes next. -/
theorem exists_unslashed {c : Char} (h : (c == '\\' && startsUntagged rest) = true) :
    c = '\\' ∧ ∃ more, unslashed (c :: rest) = '[' :: more := by
  have hslash := h
  rw [Bool.and_eq_true, beq_iff_eq] at h
  obtain ⟨rfl, hrest⟩ := h
  obtain ⟨after, rfl, -⟩ := exists_of_startsUntagged hrest
  refine ⟨rfl, unslashed after, ?_⟩
  rw [unslashed, if_pos hslash, unslashed_cons_of_ne (by decide)]

theorem keepsBrackets_cons {c : Char} : KeepsBrackets (c :: rest) ↔
    (c == '\\' && startsUntagged rest) = false ∧ KeepsBrackets rest := by
  constructor
  · intro h
    constructor
    · by_contra hstarts
      rw [Bool.not_eq_false, Bool.and_eq_true, beq_iff_eq] at hstarts
      obtain ⟨rfl, hrest⟩ := hstarts
      obtain ⟨after, rfl, hnone⟩ := exists_of_startsUntagged hrest
      rw [h [] after rfl] at hnone
      cases hnone
    · intro before after hrest
      exact h (c :: before) after (congrArg (c :: ·) hrest)
  · rintro ⟨hc, h⟩ before after heq
    cases before with
    | nil =>
      obtain ⟨rfl, rfl⟩ := List.cons.inj heq
      exact Bool.not_eq_false' _ ▸ hc
    | cons d before => exact h before after (List.cons.inj heq).2

theorem unslashed_eq_iff : unslashed s = s ↔ KeepsBrackets s := by
  induction s with
  | nil =>
    refine iff_of_true rfl fun before after heq ↦ ?_
    cases before <;> cases heq
  | cons c rest ih =>
    rw [keepsBrackets_cons, ← ih]
    cases hslash : c == '\\' && startsUntagged rest with
    | true =>
      obtain ⟨rfl, more, hmore⟩ := exists_unslashed hslash
      rw [hmore]
      exact iff_of_false (fun h ↦ absurd (List.cons.inj h).1 (by decide)) fun h ↦ by cases h.1
    | false =>
      rw [unslashed_cons_of_not hslash, List.cons_inj_right]
      exact (and_iff_right rfl).symm

/-- What is shown differs from the text where the first backslash is taken away, if not earlier. -/
theorem unslashed_append_cancel (h : unslashed s ++ x = s ++ y) : unslashed s = s ∧ x = y := by
  induction s with
  | nil => exact ⟨rfl, h⟩
  | cons c rest ih =>
    cases hslash : c == '\\' && startsUntagged rest with
    | true =>
      obtain ⟨rfl, more, hmore⟩ := exists_unslashed hslash
      rw [hmore] at h
      exact absurd (List.cons.inj h).1 (by decide)
    | false =>
      rw [unslashed_cons_of_not hslash] at h ⊢
      obtain ⟨hrest, hxy⟩ := ih (List.cons.inj h).2
      exact ⟨congrArg (c :: ·) hrest, hxy⟩

theorem unslashed_sublist (s : List Char) : (unslashed s).Sublist s := by
  induction s with
  | nil => exact .slnil
  | cons c rest ih =>
    rw [unslashed]
    split
    · exact ih.cons c
    · exact ih.cons_cons c

/-! ## What is shown of escaped parts -/

theorem shown_char {c : Char} (h : c = '\\' → ps.head? ≠ some (.char '[')) :
    shown (.char c :: ps) = c :: shown ps := by
  rw [shown]
  rintro rest rfl hc
  exact h hc rfl

theorem shown_append (h : qs.head? ≠ some (.char '[')) (ps : List Piece) :
    shown (ps ++ qs) = shown ps ++ shown qs := by
  induction ps using shown.induct with
  | case1 => rfl
  | case2 rest ih =>
    rw [List.cons_append, List.cons_append, shown, shown, ih]
    rfl
  | case3 c rest hnot ih =>
    have hhead : c = '\\' → (rest ++ qs).head? ≠ some (.char '[') := by
      intro hc hbracket
      cases rest with
      | nil => exact h hbracket
      | cons piece rest =>
        obtain rfl : piece = .char '[' := Option.some.inj hbracket
        exact hnot rest rfl hc
    rw [List.cons_append, shown_char hhead, shown.eq_3 c rest hnot, ih]
    rfl
  | case4 count body rest ih =>
    rw [List.cons_append, shown, shown, ih, ← List.append_assoc]

theorem shown_chars {s : List Char} (h : ∀ c ∈ s, c ≠ '[') : shown (s.map .char) = s := by
  induction s with
  | nil => rfl
  | cons c s ih =>
    rw [List.forall_mem_cons] at h
    rw [List.map_cons, shown_char, ih h.2]
    intro _ hbracket
    cases s with
    | nil => cases hbracket
    | cons d s => exact h.2 d List.mem_cons_self (Piece.char.inj (Option.some.inj hbracket))

theorem IsBody.ne_bracket (h : IsBody body) : ∀ c ∈ body, c ≠ '[' := by
  obtain ⟨hstart, hinside⟩ := h
  refine List.forall_mem_cons.2 ⟨?_, fun c hc ↦ (hinside c hc).1⟩
  rintro rfl
  exact absurd hstart (by decide)

/-- Up to its closing bracket, nothing is taken away in a tag. -/
theorem unslashed_inside (h : ∀ c ∈ s, c ≠ '[') (after : List Char) :
    unslashed (s ++ ']' :: after) = s ++ ']' :: unslashed after := by
  induction s with
  | nil => exact unslashed_cons_of_ne (by decide) after
  | cons c s ih =>
    rw [List.forall_mem_cons] at h
    have hrest : startsUntagged (s ++ ']' :: after) = false := by
      cases s with
      | nil => exact startsUntagged_of_ne (by decide) after
      | cons d s => exact startsUntagged_of_ne (h.2 d List.mem_cons_self) _
    have hnot : (c == '\\' && startsUntagged (s ++ ']' :: after)) = false := by
      rw [hrest, Bool.and_false]
    rw [List.cons_append, unslashed_cons_of_not hnot, ih h.2]
    rfl

/-- A tag and its backslashes keep what they are. -/
theorem IsBody.unslashed_tag (h : IsBody body) (count : Nat) (after : List Char) :
    unslashed (slashes count ++ (bracketed body ++ after)) =
      slashes count ++ (bracketed body ++ unslashed after) := by
  induction count with
  | zero =>
    have hinside := unslashed_inside h.ne_bracket after
    change unslashed ('[' :: body ++ [']'] ++ after) = '[' :: body ++ [']'] ++ unslashed after
    rw [List.append_assoc, List.append_assoc, List.singleton_append, List.singleton_append,
      List.cons_append, List.cons_append, unslashed_cons_of_ne (by decide), hinside]
  | succ count ih =>
    have hopens : opens (slashes count ++ (bracketed body ++ after)) = true := by
      rw [opens_slashes_append, h.opens_append]
    have hnot : ('\\' == '\\' && startsUntagged (slashes count ++ (bracketed body ++ after))) =
        false := by
      rw [startsUntagged_of_opens hopens, Bool.and_false]
    change unslashed ('\\' :: (slashes count ++ (bracketed body ++ after))) = _
    rw [unslashed_cons_of_not hnot, ih]
    rfl

/-- A bracket that opens no tag is a part by itself. -/
theorem Parsed.head?_eq_iff (h : Parsed s ps) :
    ps.head? = some (.char '[') ↔ startsUntagged s = true := by
  cases h with
  | nil => exact iff_of_false (by decide) (by decide)
  | @tag count body after ps hbody h =>
    have hopens : opens (slashes count ++ (bracketed body ++ after)) = true := by
      rw [opens_slashes_append, hbody.opens_append]
    rw [startsUntagged_of_opens hopens]
    exact iff_of_false (fun heq ↦ by cases Option.some.inj heq) Bool.false_ne_true
  | @char c rest ps hnone h =>
    constructor
    · intro heq
      obtain rfl : c = '[' := Piece.char.inj (Option.some.inj heq)
      exact Bool.not_eq_true' _ ▸ hnone
    · intro hstarts
      obtain ⟨after, heq, -⟩ := exists_of_startsUntagged hstarts
      rw [(List.cons.inj heq).1]
      rfl

theorem head?_map_guarded (ps : List Piece) :
    (ps.map Piece.guarded).head? = some (.char '[') ↔ ps.head? = some (.char '[') := by
  cases ps with
  | nil => rfl
  | cons piece ps =>
    cases piece with
    | char c => rfl
    | tag count body => exact iff_of_false (fun h ↦ by cases Option.some.inj h) fun h ↦ by cases h

/-- Of escaped parts everything is shown but backslashes before brackets that open no tag. -/
theorem Parsed.shown_guarded (h : Parsed s ps) : shown (ps.map Piece.guarded) = unslashed s := by
  induction h with
  | nil => rfl
  | @tag count body after ps hbody h ih =>
    have hhalf : (2 * count + 1) / 2 = count := by omega
    have hodd : (2 * count + 1) % 2 = 1 := by omega
    rw [List.map_cons, Piece.guarded, shown, hhalf, if_pos hodd, ih, hbody.unslashed_tag,
      List.append_assoc]
  | @char c rest ps hnone h ih =>
    rw [List.map_cons, Piece.guarded]
    cases hslash : c == '\\' && startsUntagged rest with
    | true =>
      rw [unslashed, if_pos hslash]
      rw [Bool.and_eq_true, beq_iff_eq] at hslash
      obtain ⟨rfl, hrest⟩ := hslash
      obtain ⟨others, heq⟩ := List.head?_eq_some_iff.1
        ((head?_map_guarded ps).2 (h.head?_eq_iff.2 hrest))
      rw [heq] at ih ⊢
      rw [shown, ← ih, shown_char fun h ↦ absurd h (by decide)]
    | false =>
      rw [unslashed_cons_of_not hslash, ← ih]
      apply shown_char
      rintro rfl hbracket
      rw [h.head?_eq_iff.1 ((head?_map_guarded ps).1 hbracket)] at hslash
      cases hslash

/-! ## Backslashes at the end -/

/-- A text without the backslashes at its end. -/
def front (s : List Char) : List Char := (s.reverse.dropWhile (· == '\\')).reverse

/-- How many backslashes a text ends in. -/
def endSlashes (s : List Char) : Nat := (s.reverse.takeWhile (· == '\\')).length

/-- How many backslashes an escaped text ends in. -/
def guardedCount (count : Nat) : Nat := if count = 1 then 2 else count

theorem front_append_slashes (s : List Char) : front s ++ slashes (endSlashes s) = s := by
  have hslashes : s.reverse.takeWhile (· == '\\') = slashes (endSlashes s) := by
    apply List.eq_replicate_iff.2
    refine ⟨rfl, fun c hc ↦ ?_⟩
    exact eq_of_beq (List.all_eq_true.1 List.all_takeWhile c hc)
  calc front s ++ slashes (endSlashes s)
    _ = (s.reverse.takeWhile (· == '\\') ++ s.reverse.dropWhile (· == '\\')).reverse := by
      rw [List.reverse_append, hslashes, slashes, List.reverse_replicate]
      rfl
    _ = s := by rw [List.takeWhile_append_dropWhile, List.reverse_reverse]

theorem getLast?_front (s : List Char) : (front s).getLast? ≠ some '\\' := by
  intro hlast
  rw [front, List.getLast?_reverse] at hlast
  have hhead := List.head?_dropWhile_not (· == '\\') s.reverse
  rw [hlast] at hhead
  cases hhead

theorem slashes_succ (count : Nat) : slashes (count + 1) = '\\' :: slashes count := rfl

theorem slashes_add (m n : Nat) : slashes (m + n) = slashes m ++ slashes n :=
  List.replicate_append_replicate.symm

theorem closes_slashes (count : Nat) : closes (slashes count) = false := by
  rw [← List.append_nil (slashes count), closes_slashes_append]
  rfl

theorem slashes_ne_bracket (count : Nat) : ∀ c ∈ slashes count, c ≠ '[' := by
  intro c hc
  rw [List.eq_of_mem_replicate hc]
  decide

theorem opens_of_forall_ne (h : ∀ c ∈ s, c ≠ '[') : opens s = false := by
  induction s with
  | nil => rfl
  | cons c s ih =>
    rw [List.forall_mem_cons] at h
    rw [opens, ih h.2, beq_eq_false_iff_ne.2 h.1]
    exact ite_self false

/-- A text without opening brackets has no tags. -/
theorem parsed_chars (h : ∀ c ∈ s, c ≠ '[') : Parsed s (s.map .char) := by
  induction s with
  | nil => exact .nil
  | cons c s ih => exact .char (opens_of_forall_ne h) (ih (List.forall_mem_cons.1 h).2)

theorem escaped_chars (s : List Char) : (s.map Piece.char).flatMap Piece.escaped = s := by
  rw [List.flatMap_map]
  exact List.flatMap_singleton' s

/-- A text that ends in one backslash gets another. -/
theorem guarded_append_slashes (h : s.getLast? ≠ some '\\') (count : Nat) :
    guarded (s ++ slashes count) = s ++ slashes (guardedCount count) := by
  rw [← List.head?_reverse] at h
  have hreverse : (s ++ slashes count).reverse = slashes count ++ s.reverse := by
    rw [List.reverse_append, slashes, List.reverse_replicate]
  unfold guarded
  rw [hreverse]
  obtain _ | _ | count := count
  · split
    case h_1 rest heq => exact absurd (congrArg List.head? heq) h
    case h_2 rest _ heq => exact absurd (congrArg List.head? heq) h
    case h_3 => rfl
  · split
    case h_1 rest heq => exact absurd (congrArg List.head? (List.cons.inj heq).2) h
    case h_2 => exact List.append_assoc _ _ _
    case h_3 hnot => exact absurd rfl (hnot _)
  · rfl

theorem escape_eq (s : List Char) :
    escape s = (pieces (front s)).flatMap Piece.escaped ++ slashes (guardedCount (endSlashes s)) := by
  have hlast : ((pieces (front s)).flatMap Piece.escaped).getLast? ≠ some '\\' := by
    rw [(parsed_pieces (front s)).getLast?_escaped]
    exact getLast?_front s
  have hslashes := parsed_chars (slashes_ne_bracket (endSlashes s))
  have hparsed := (parsed_pieces (front s)).append hslashes (closes_slashes _)
    fun _ ↦ getLast?_front s
  rw [front_append_slashes] at hparsed
  rw [escape, hparsed.pieces_eq, List.flatMap_append, escaped_chars, guarded_append_slashes hlast]

/-- A text without brackets and backslashes is its own markup. -/
theorem escape_eq_self (hbracket : '[' ∉ s) (hslash : '\\' ∉ s) : escape s = s := by
  have hlast : s.getLast? ≠ some '\\' := fun hlast ↦ hslash (List.mem_of_getLast? hlast)
  have hguarded := guarded_append_slashes hlast 0
  rw [slashes, List.replicate_zero, List.append_nil] at hguarded
  have hparsed := parsed_chars fun c hc ↦ ne_of_mem_of_not_mem hc hbracket
  rw [escape, hparsed.pieces_eq, escaped_chars, hguarded]
  exact List.append_nil s

/-! ## Texts in a label -/

/-- What is shown of a text with a closing tag behind it. -/
def styledText (s : List Char) : List Char :=
  unslashed (front s) ++ (slashes (guardedCount (endSlashes s) / 2) ++
    if guardedCount (endSlashes s) % 2 = 1 then bracketed ['/'] else [])

/-- What is shown of a text with nothing or a space behind it. -/
def bareText (s : List Char) : List Char :=
  unslashed (front s) ++ slashes (guardedCount (endSlashes s))

/-- The parts of an escaped text, with the backslashes at its end apart. -/
theorem parsed_front (s : List Char) : Parsed ((pieces (front s)).flatMap Piece.escaped)
    ((pieces (front s)).map Piece.guarded) :=
  (parsed_pieces (front s)).escaped

theorem getLast?_escaped_front (s : List Char) :
    ((pieces (front s)).flatMap Piece.escaped).getLast? ≠ some '\\' := by
  rw [(parsed_pieces (front s)).getLast?_escaped]
  exact getLast?_front s

theorem shown_front (s : List Char) :
    shown ((pieces (front s)).map Piece.guarded) = unslashed (front s) :=
  (parsed_pieces (front s)).shown_guarded

theorem isBody_closing : IsBody ['/'] := .intro (by decide) (List.forall_mem_nil _)

/-- A text in a style. The backslashes at its end belong to the closing tag. -/
theorem shown_styled {style : List Char} (hstyle : IsBody style) (s rest : List Char) :
    shown (pieces (bracketed style ++ (escape s ++ (bracketed ['/'] ++ rest)))) =
      styledText s ++ shown (pieces rest) := by
  have hclosing : Parsed (slashes (guardedCount (endSlashes s)) ++ (bracketed ['/'] ++ rest))
      (.tag (guardedCount (endSlashes s)) ['/'] :: pieces rest) :=
    .tag _ isBody_closing (parsed_pieces rest)
  have hnone : closes (slashes (guardedCount (endSlashes s)) ++ (bracketed ['/'] ++ rest)) =
      false := by
    rw [closes_slashes_append]
    rfl
  have hinside := (parsed_front s).append hclosing hnone fun _ ↦ getLast?_escaped_front s
  rw [← List.append_assoc, ← escape_eq] at hinside
  have hparsed := (Parsed.tag 0 hstyle hinside).pieces_eq
  have hhead : (Piece.tag (guardedCount (endSlashes s)) ['/'] :: pieces rest).head? ≠
      some (.char '[') := fun h ↦ by cases Option.some.inj h
  have hopening (ps : List Piece) : shown (.tag 0 style :: ps) = shown ps := by
    rw [shown]
    rfl
  change pieces (bracketed style ++ (escape s ++ (bracketed ['/'] ++ rest))) = _ at hparsed
  rw [hparsed, hopening, shown_append hhead, shown_front, shown, ← List.append_assoc]
  rfl

/-- A text by itself keeps all backslashes at its end. -/
theorem shown_bare (s : List Char) {rest : List Char} (hclosing : closes rest = false)
    (hrest : ∀ c ∈ rest.head?, c = ' ') :
    shown (pieces (escape s ++ rest)) = bareText s ++ shown (pieces rest) := by
  obtain ⟨hopens, hstarts⟩ : opens rest = false ∧ startsUntagged rest = false := by
    cases rest with
    | nil => exact ⟨rfl, rfl⟩
    | cons c rest =>
      rw [hrest c rfl]
      exact ⟨rfl, rfl⟩
  have hplain := parsed_chars (slashes_ne_bracket (guardedCount (endSlashes s)))
  have hslashes := hplain.append (parsed_pieces rest) hclosing fun h ↦ by
    rw [hopens] at h
    cases h
  have hnone : closes (slashes (guardedCount (endSlashes s)) ++ rest) = false := by
    rw [closes_slashes_append, hclosing]
  have hparsed := (parsed_front s).append hslashes hnone fun _ ↦ getLast?_escaped_front s
  rw [← List.append_assoc, ← escape_eq] at hparsed
  have hbracket : (pieces rest).head? ≠ some (.char '[') := by
    rw [ne_eq, (parsed_pieces rest).head?_eq_iff, hstarts]
    exact Bool.false_ne_true
  have hchars := shown_chars (slashes_ne_bracket (guardedCount (endSlashes s)))
  have hhead : ((slashes (guardedCount (endSlashes s))).map Piece.char ++ pieces rest).head? ≠
      some (.char '[') := by
    cases guardedCount (endSlashes s) with
    | zero => exact hbracket
    | succ count => exact fun h ↦ absurd (Piece.char.inj (Option.some.inj h)) (by decide)
  rw [hparsed.pieces_eq, shown_append hhead, shown_front, shown_append hbracket, hchars, bareText,
    List.append_assoc]

/-! ## Texts that are kept -/

/-- A text that is shown as it is in a style. -/
structure IsKeptStyled (s : List Char) : Prop where
  brackets : KeepsBrackets s
  ending : endSlashes s ≤ 1

/-- A text that is shown as it is by itself. -/
structure IsKeptBare (s : List Char) : Prop where
  brackets : KeepsBrackets s
  ending : endSlashes s ≠ 1

theorem unslashed_append_slashes (s : List Char) (count : Nat) :
    unslashed (s ++ slashes count) = unslashed s ++ slashes count := by
  induction s with
  | nil =>
    induction count with
    | zero => rfl
    | succ count ih =>
      have hnot : ('\\' == '\\' && startsUntagged (slashes count)) = false := by
        cases count <;> rfl
      exact (unslashed_cons_of_not hnot).trans (congrArg ('\\' :: ·) ih)
  | cons c s ih =>
    have hstarts : startsUntagged (s ++ slashes count) = startsUntagged s := by
      cases s with
      | nil => cases count <;> rfl
      | cons d s =>
        by_cases hd : d = '['
        · rw [hd]
          exact congrArg (!·) (opensTag_append_of_not (closes_slashes count) s)
        · rw [List.cons_append, startsUntagged_of_ne hd, startsUntagged_of_ne hd]
    rw [List.cons_append, unslashed, unslashed, hstarts, ih]
    split <;> rfl

theorem keepsBrackets_iff_front : KeepsBrackets s ↔ unslashed (front s) = front s := by
  have hs := front_append_slashes s
  rw [← unslashed_eq_iff]
  constructor
  · intro h
    rw [← hs, unslashed_append_slashes] at h
    exact List.append_cancel_right h
  · intro h
    rw [← hs, unslashed_append_slashes, h]

/-- Before the backslashes at its end, a text is told apart from what is shown of it. -/
theorem front_append_cancel (h : unslashed (front s) ++ x = s ++ y) :
    KeepsBrackets s ∧ x = slashes (endSlashes s) ++ y := by
  have hfront : unslashed (front s) ++ x = front s ++ (slashes (endSlashes s) ++ y) := by
    rw [h, ← List.append_assoc, front_append_slashes]
  rw [keepsBrackets_iff_front]
  exact unslashed_append_cancel hfront

theorem IsKeptStyled.styledText_eq (h : IsKeptStyled s) : styledText s = s := by
  have hending := h.ending
  calc styledText s
    _ = front s ++ slashes (endSlashes s) := by
      rw [styledText, keepsBrackets_iff_front.1 h.brackets]
      generalize endSlashes s = count at hending
      obtain rfl | rfl := Nat.le_one_iff_eq_zero_or_eq_one.1 hending
      · rfl
      · rfl
    _ = s := front_append_slashes s

/-- A text in a style is told apart from what is shown of it, unless a backslash follows. -/
theorem isKeptStyled_of_append (hx : x.head? ≠ some '\\') (h : styledText s ++ x = s ++ y) :
    IsKeptStyled s ∧ x = y := by
  rw [styledText, List.append_assoc] at h
  obtain ⟨hbrackets, hend⟩ := front_append_cancel h
  have hending : endSlashes s ≤ 1 := by
    by_contra hmore
    -- The closing tag leaves fewer backslashes, and a bracket or what follows comes next.
    generalize endSlashes s = count at hend hmore
    have hslashes : slashes count =
        slashes (count / 2) ++ '\\' :: slashes (count - count / 2 - 1) := by
      rw [← slashes_succ, ← slashes_add]
      congr 1
      omega
    rw [guardedCount, if_neg (by omega), hslashes, List.append_assoc, List.append_assoc] at hend
    have hhead := congrArg List.head? (List.append_cancel_left hend)
    split at hhead
    · exact absurd (Option.some.inj hhead) (by decide)
    · exact hx hhead
  have hkept : IsKeptStyled s := ⟨hbrackets, hending⟩
  rw [← List.append_assoc, ← styledText, hkept.styledText_eq] at h
  exact ⟨hkept, List.append_cancel_left h⟩

theorem styledText_eq_iff : styledText s = s ↔ IsKeptStyled s := by
  constructor
  · intro h
    have happend : styledText s ++ [] = s ++ [] := by rw [h]
    exact (isKeptStyled_of_append (by decide) happend).1
  · exact IsKeptStyled.styledText_eq

theorem IsKeptBare.bareText_eq (h : IsKeptBare s) : bareText s = s := by
  rw [bareText, guardedCount, if_neg h.ending, keepsBrackets_iff_front.1 h.brackets,
    front_append_slashes]

/-- A text by itself is told apart from what is shown of it, unless a backslash would follow. -/
theorem isKeptBare_of_append (hy : y.head? ≠ some '\\') (h : bareText s ++ x = s ++ y) :
    IsKeptBare s ∧ x = y := by
  rw [bareText, List.append_assoc] at h
  obtain ⟨hbrackets, hend⟩ := front_append_cancel h
  have hending : endSlashes s ≠ 1 := by
    intro hone
    rw [hone] at hend
    exact hy (congrArg List.head? (List.cons.inj hend).2.symm)
  have hkept : IsKeptBare s := ⟨hbrackets, hending⟩
  rw [← List.append_assoc, ← bareText, hkept.bareText_eq] at h
  exact ⟨hkept, List.append_cancel_left h⟩

theorem bareText_eq_iff : bareText s = s ↔ IsKeptBare s := by
  constructor
  · intro h
    have happend : bareText s ++ [] = s ++ [] := by rw [h]
    exact (isKeptBare_of_append (by decide) happend).1
  · exact IsKeptBare.bareText_eq

theorem isKeptStyled_of_not_mem (hslash : '\\' ∉ s) : IsKeptStyled s where
  brackets before after hs := absurd (hs ▸ List.mem_append_cons_self) hslash
  ending := by
    by_contra hmore
    have hmem : '\\' ∈ slashes (endSlashes s) :=
      List.mem_replicate.2 ⟨fun hzero ↦ hmore (hzero ▸ Nat.zero_le 1), rfl⟩
    exact hslash (front_append_slashes s ▸ List.mem_append_right _ hmem)

/-! ## Characters that are shown -/

theorem mem_of_mem_front {c : Char} (h : c ∈ unslashed (front s)) : c ∈ s := by
  rw [← front_append_slashes s]
  exact List.mem_append_left _ ((unslashed_sublist (front s)).mem h)

/-- Only marks of tags are shown beside the characters of a text. -/
theorem mem_styledText {c : Char} (h : c ∈ styledText s) : c ∈ s ∨ c ∈ ['\\', '[', '/', ']'] := by
  rw [styledText, List.mem_append, List.mem_append] at h
  rcases h with hfront | hslash | htag
  · exact .inl (mem_of_mem_front hfront)
  · rw [List.eq_of_mem_replicate hslash]
    exact .inr List.mem_cons_self
  · split at htag
    · exact .inr (List.mem_cons_of_mem _ htag)
    · cases htag

theorem mem_bareText {c : Char} (h : c ∈ bareText s) : c ∈ s ∨ c = '\\' := by
  rw [bareText, List.mem_append] at h
  rcases h with hfront | hslash
  · exact .inl (mem_of_mem_front hfront)
  · exact .inr (List.eq_of_mem_replicate hslash)

end KeyTree.Text.Markup
