import KeyTree.Proofs.Number.Digits
import KeyTree.Text.Markup
import Mathlib.Tactic.ByContra

/-!
# What markup shows of an escaped text

Escaping doubles the backslashes before a tag and adds one, so that the tag is shown as text. A backslash
before a bracket that opens no tag is left as it is, and it is not shown. Those at the end of a text are
left as they are too, and belong to the tag that comes next. A text is shown as it is just where neither
takes anything away.
-/

namespace KeyTree.Text.Markup

variable {s t body after rest : List Char} {count : Nat} {ps qs : List Piece}

/-! ## Tags -/

/-- Whether the next bracket closes. -/
def closes : List Char → Bool
  | [] => false
  | c :: rest => c == ']' || c != '[' && closes rest

/-- Whether a bracket in front of a text opens a tag. -/
def opensTag : List Char → Bool
  | [] => false
  | c :: rest => isTagStart c && closes rest

/-- Whether a tag stands at the start of a text, behind its backslashes. -/
def opens : List Char → Bool
  | [] => false
  | c :: rest => if c = '\\' then opens rest else c == '[' && opensTag rest

/-- What may stand between the brackets of a tag. -/
inductive IsBody : List Char → Prop
  | intro {c : Char} {rest : List Char} (hstart : isTagStart c = true)
      (hinside : ∀ d ∈ rest, d ≠ '[' ∧ d ≠ ']') : IsBody (c :: rest)

instance : DecidablePred IsBody
  | [] => isFalse fun h ↦ by cases h
  | c :: rest =>
    have : Decidable (∀ d ∈ rest, d ≠ '[' ∧ d ≠ ']') := List.decidableBAll _ rest
    decidable_of_iff (isTagStart c = true ∧ ∀ d ∈ rest, d ≠ '[' ∧ d ≠ ']')
      ⟨fun h ↦ .intro h.1 h.2, fun ⟨hstart, hinside⟩ ↦ ⟨hstart, hinside⟩⟩

theorem closes_append (h : ∀ c ∈ s, c ≠ '[' ∧ c ≠ ']') (rest : List Char) :
    closes (s ++ rest) = closes rest := by
  induction s with
  | nil => rfl
  | cons c s ih =>
    rw [List.forall_mem_cons] at h
    rw [List.cons_append, closes, ih h.2, beq_eq_false_iff_ne.2 h.1.2, bne_iff_ne.2 h.1.1]
    rfl

theorem exists_of_closes (h : closes s = true) : ∃ front after,
    s = front ++ ']' :: after ∧ ∀ c ∈ front, c ≠ '[' ∧ c ≠ ']' := by
  induction s with
  | nil => cases h
  | cons c s ih =>
    by_cases hclosing : c = ']'
    · exact ⟨[], s, congrArg (· :: s) hclosing, List.forall_mem_nil _⟩
    · rw [closes, beq_eq_false_iff_ne.2 hclosing, Bool.false_or, Bool.and_eq_true, bne_iff_ne] at h
      obtain ⟨front, after, rfl, hfront⟩ := ih h.2
      exact ⟨c :: front, after, rfl, List.forall_mem_cons.2 ⟨⟨h.1, hclosing⟩, hfront⟩⟩

theorem exists_of_opensTag (h : opensTag s = true) : ∃ body after,
    IsBody body ∧ s = body ++ ']' :: after := by
  cases s with
  | nil => cases h
  | cons c s =>
    rw [opensTag, Bool.and_eq_true] at h
    obtain ⟨front, after, rfl, hfront⟩ := exists_of_closes h.2
    exact ⟨c :: front, after, .intro h.1 hfront, rfl⟩

theorem IsBody.opensTag_append (h : IsBody body) (after : List Char) :
    opensTag (body ++ ']' :: after) = true := by
  obtain ⟨hstart, hinside⟩ := h
  rw [List.cons_append, opensTag, hstart, closes_append hinside]
  rfl

theorem IsBody.scanTag?_append (h : IsBody body) (after : List Char) :
    scanTag? (body ++ ']' :: after) = some (body, after) := by
  obtain @⟨c, rest, hstart, hinside⟩ := h
  have hrest : ∀ c ∈ rest, (c != '[' && c != ']') = true := by
    intro d hd
    rw [Bool.and_eq_true, bne_iff_ne, bne_iff_ne]
    exact hinside d hd
  have hclosing : ∀ c ∈ (']' :: after).head?, (c != '[' && c != ']') = false := by
    intro d hd
    obtain rfl : ']' = d := Option.some.inj hd
    decide
  obtain ⟨htake, hdrop⟩ := Text.takeWhile_append_of_head hrest hclosing
  rw [List.cons_append, scanTag?]
  simp only [hstart, htake, hdrop]

theorem opensTag_of_scanTag? {tag : List Char} (h : scanTag? s = some (tag, after)) :
    opensTag s = true := by
  cases s with
  | nil => cases h
  | cons c rest =>
    have hinside : ∀ c ∈ rest.takeWhile fun c ↦ c != '[' && c != ']', c ≠ '[' ∧ c ≠ ']' := by
      intro d hd
      have hboth := List.all_eq_true.1 List.all_takeWhile d hd
      rwa [Bool.and_eq_true, bne_iff_ne, bne_iff_ne] at hboth
    unfold scanTag? at h
    dsimp only at h
    split at h
    case h_1 tail hstart hclosing =>
      rw [opensTag, hstart, ← List.takeWhile_append_dropWhile (p := fun c ↦ c != '[' && c != ']')
        (l := rest), closes_append hinside, hclosing]
      rfl
    case h_2 => cases h

/-! ## Parts of a text -/

theorem opens_slashes_append (count : Nat) (rest : List Char) :
    opens (slashes count ++ rest) = opens rest := by
  induction count with
  | zero => rfl
  | succ count ih => exact ih

theorem closes_slashes_append (count : Nat) (rest : List Char) :
    closes (slashes count ++ rest) = closes rest := by
  apply closes_append
  intro c hc
  rw [List.eq_of_mem_replicate hc]
  decide

theorem IsBody.opens_append (h : IsBody body) (after : List Char) :
    opens (bracketed body ++ after) = true := by
  rw [bracketed, List.cons_append, List.cons_append, List.append_assoc]
  exact h.opensTag_append after

theorem scanTagged?_append (h : IsBody body) (count : Nat) (after : List Char) :
    scanTagged? (slashes count ++ (bracketed body ++ after)) = some (count, body, after) := by
  have hslashes : ∀ c ∈ slashes count, (c == '\\') = true := by
    intro c hc
    rw [List.eq_of_mem_replicate hc]
    rfl
  have hbracket : ∀ c ∈ (bracketed body ++ after).head?, (c == '\\') = false := by
    intro c hc
    obtain rfl : '[' = c := Option.some.inj hc
    decide
  obtain ⟨htake, hdrop⟩ := Text.takeWhile_append_of_head hslashes hbracket
  have hscan := h.scanTag?_append after
  unfold scanTagged?
  rw [htake, hdrop, bracketed, List.cons_append, List.cons_append, List.append_assoc,
    List.singleton_append]
  simp only [hscan, Option.map_some, slashes, List.length_replicate]

theorem opens_dropWhile (s : List Char) : opens (s.dropWhile (· == '\\')) = opens s := by
  induction s with
  | nil => rfl
  | cons c s ih =>
    by_cases hc : c = '\\'
    · rw [hc, List.dropWhile_cons_of_pos rfl, ih]
      rfl
    · rw [List.dropWhile_cons_of_neg (by rwa [beq_iff_eq])]

theorem scanTagged?_eq_none (h : opens s = false) : scanTagged? s = none := by
  rw [← opens_dropWhile] at h
  unfold scanTagged?
  split
  case h_1 rest hbracket =>
    rw [hbracket] at h
    rw [Option.map_eq_none_iff]
    by_contra hscan
    obtain ⟨⟨tag, after⟩, hscan⟩ := Option.ne_none_iff_exists'.1 hscan
    have hopens : opens ('[' :: rest) = true := opensTag_of_scanTag? hscan
    rw [h] at hopens
    cases hopens
  case h_2 => rfl

theorem exists_of_opens (h : opens s = true) : ∃ count body after,
    IsBody body ∧ s = slashes count ++ (bracketed body ++ after) := by
  induction s with
  | nil => cases h
  | cons c s ih =>
    rw [opens] at h
    split at h
    case isTrue hc =>
      obtain ⟨count, body, after, hbody, rfl⟩ := ih h
      exact ⟨count + 1, body, after, hbody, by rw [hc]; rfl⟩
    case isFalse =>
      rw [Bool.and_eq_true, beq_iff_eq] at h
      obtain ⟨body, after, hbody, rfl⟩ := exists_of_opensTag h.2
      refine ⟨0, body, after, hbody, ?_⟩
      change c :: _ = '[' :: (body ++ [']'] ++ after)
      rw [h.1, List.append_assoc, List.singleton_append]

/-- A text and its parts, described without the scanner. -/
inductive Parsed : List Char → List Piece → Prop
  | nil : Parsed [] []
  | tag (count : Nat) {body after : List Char} {ps : List Piece} (hbody : IsBody body)
      (h : Parsed after ps) :
      Parsed (slashes count ++ (bracketed body ++ after)) (.tag count body :: ps)
  | char {c : Char} {rest : List Char} {ps : List Piece} (hnone : opens (c :: rest) = false)
      (h : Parsed rest ps) : Parsed (c :: rest) (.char c :: ps)

theorem Parsed.pieces_eq (h : Parsed s ps) : pieces s = ps := by
  induction h with
  | nil => rw [pieces]
  | @tag count body after ps hbody h ih =>
    have hscan := scanTagged?_append hbody count after
    have hsome : slashes count ++ (bracketed body ++ after) ≠ [] :=
      List.append_ne_nil_of_right_ne_nil _ (List.cons_ne_nil '[' _)
    obtain ⟨c, rest, heq⟩ := List.exists_cons_of_ne_nil hsome
    rw [heq] at hscan
    rw [heq, pieces]
    split
    case h_1 count' body' after' hscan' =>
      rw [hscan] at hscan'
      obtain ⟨rfl, htag⟩ := Prod.mk.inj (Option.some.inj hscan')
      obtain ⟨rfl, rfl⟩ := Prod.mk.inj htag
      rw [ih]
    case h_2 hscan' =>
      rw [hscan] at hscan'
      cases hscan'
  | @char c rest ps hnone h ih =>
    have hscan := scanTagged?_eq_none hnone
    rw [pieces]
    split
    case h_1 hscan' =>
      rw [hscan] at hscan'
      cases hscan'
    case h_2 => rw [ih]

theorem parsed_pieces (s : List Char) : Parsed s (pieces s) := by
  induction s using pieces.induct with
  | case1 =>
    rw [pieces]
    exact .nil
  | case2 c rest count body after hscan hlength ih =>
    have hopens : opens (c :: rest) = true := by
      by_contra hnone
      rw [scanTagged?_eq_none (Bool.not_eq_true _ ▸ hnone)] at hscan
      cases hscan
    obtain ⟨count', body', after', hbody, heq⟩ := exists_of_opens hopens
    rw [heq, scanTagged?_append hbody] at hscan
    obtain ⟨rfl, htag⟩ := Prod.mk.inj (Option.some.inj hscan)
    obtain ⟨rfl, rfl⟩ := Prod.mk.inj htag
    rw [heq, (Parsed.tag count' hbody ih).pieces_eq]
    exact .tag count' hbody ih
  | case3 c rest hscan ih =>
    have hnone : opens (c :: rest) = false := by
      by_contra hopens
      obtain ⟨count, body, after, hbody, heq⟩ := exists_of_opens (Bool.not_eq_false _ ▸ hopens)
      rw [heq, scanTagged?_append hbody] at hscan
      cases hscan
    rw [(Parsed.char hnone ih).pieces_eq]
    exact .char hnone ih

/-! ## Texts side by side -/

theorem closes_append_of_not (h : closes t = false) (s : List Char) :
    closes (s ++ t) = closes s := by
  induction s with
  | nil => exact h
  | cons c s ih => rw [List.cons_append, closes, closes, ih]

theorem opensTag_append_of_not (h : closes t = false) (s : List Char) :
    opensTag (s ++ t) = opensTag s := by
  cases s with
  | nil =>
    cases t with
    | nil => rfl
    | cons c rest =>
      rw [closes, Bool.or_eq_false_iff, Bool.and_eq_false_iff, bne_eq_false_iff_eq] at h
      change (isTagStart c && closes rest) = false
      rw [Bool.and_eq_false_iff]
      refine h.2.imp_left ?_
      rintro rfl
      decide
  | cons c s => rw [List.cons_append, opensTag, opensTag, closes_append_of_not h]

/-- What follows a text opens no tag in it, unless backslashes of the text belong to a tag there. -/
theorem opens_append_of_not (hs : s ≠ []) (hclosing : closes t = false)
    (hend : opens t = true → s.getLast? ≠ some '\\') : opens (s ++ t) = opens s := by
  induction s with
  | nil => exact absurd rfl hs
  | cons c s ih =>
    rw [List.cons_append, opens, opens, opensTag_append_of_not hclosing]
    split
    case isFalse => rfl
    case isTrue hc =>
      cases s with
      | nil =>
        change opens t = false
        rw [← Bool.not_eq_true]
        exact fun hopens ↦ hend hopens (congrArg some hc)
      | cons d s =>
        apply ih (List.cons_ne_nil d s)
        rwa [List.getLast?_cons_cons] at hend

/-- The parts of a text are those of two texts side by side, unless the first one ends in a backslash
and a tag follows, or a bracket that follows closes one of the first text. -/
theorem Parsed.append (hs : Parsed s ps) (ht : Parsed t qs) (hclosing : closes t = false)
    (hend : opens t = true → s.getLast? ≠ some '\\') : Parsed (s ++ t) (ps ++ qs) := by
  induction hs with
  | nil => exact ht
  | @tag count body after ps hbody h ih =>
    rw [List.append_assoc, List.append_assoc]
    refine .tag count hbody (ih fun hopens hlast ↦ hend hopens ?_)
    rw [List.getLast?_append, List.getLast?_append, hlast]
    rfl
  | @char c rest ps hnone h ih =>
    have hopens := opens_append_of_not (List.cons_ne_nil c rest) hclosing hend
    refine .char (hopens.trans hnone) (ih fun hopens hlast ↦ hend hopens ?_)
    rw [List.getLast?_cons, hlast]
    rfl

/-! ## Escaped parts -/

/-- The part that an escaped part is read back as. -/
def Piece.guarded : Piece → Piece
  | char c => char c
  | tag count body => tag (2 * count + 1) body

namespace Parsed

variable (h : Parsed s ps)

include h

theorem closes_escaped : closes (ps.flatMap Piece.escaped) = closes s := by
  induction h with
  | nil => rfl
  | @tag count body after ps hbody h ih =>
    rw [List.flatMap_cons, Piece.escaped, List.append_assoc, closes_slashes_append,
      closes_slashes_append]
    rfl
  | @char c rest ps hnone h ih =>
    rw [List.flatMap_cons, Piece.escaped, List.singleton_append, closes, closes, ih]

theorem opensTag_escaped : opensTag (ps.flatMap Piece.escaped) = opensTag s := by
  cases h with
  | nil => rfl
  | @tag count body after ps hbody h =>
    have hnone (count : Nat) : opensTag (slashes count ++ (bracketed body ++ after)) = false := by
      cases count <;> rfl
    rw [hnone]
    rfl
  | @char c rest ps hnone h =>
    rw [List.flatMap_cons, Piece.escaped, List.singleton_append, opensTag, opensTag,
      h.closes_escaped]

theorem opens_escaped : opens (ps.flatMap Piece.escaped) = opens s := by
  induction h with
  | nil => rfl
  | @tag count body after ps hbody h ih =>
    rw [List.flatMap_cons, Piece.escaped, List.append_assoc, opens_slashes_append,
      opens_slashes_append, hbody.opens_append, hbody.opens_append]
  | @char c rest ps hnone h ih =>
    rw [List.flatMap_cons, Piece.escaped, List.singleton_append, opens, opens, ih,
      h.opensTag_escaped]

/-- The parts of an escaped text, but for backslashes at its end. -/
theorem escaped : Parsed (ps.flatMap Piece.escaped) (ps.map Piece.guarded) := by
  induction h with
  | nil => exact .nil
  | @tag count body after ps hbody h ih =>
    rw [List.flatMap_cons, Piece.escaped, List.append_assoc]
    exact .tag _ hbody ih
  | @char c rest ps hnone h ih =>
    have hopens : opens (c :: ps.flatMap Piece.escaped) = opens (c :: rest) := by
      rw [opens, opens, h.opens_escaped, h.opensTag_escaped]
    exact .char (hopens.trans hnone) ih

theorem getLast?_escaped : (ps.flatMap Piece.escaped).getLast? = s.getLast? := by
  induction h with
  | nil => rfl
  | @tag count body after ps hbody h ih =>
    rw [List.flatMap_cons, Piece.escaped, List.append_assoc, List.getLast?_append,
      List.getLast?_append, List.getLast?_append, List.getLast?_append, ih, bracketed,
      List.getLast?_concat]
    cases after.getLast? <;> rfl
  | @char c rest ps hnone h ih =>
    rw [List.flatMap_cons, Piece.escaped, List.singleton_append, List.getLast?_cons,
      List.getLast?_cons, ih]

end Parsed

end KeyTree.Text.Markup
