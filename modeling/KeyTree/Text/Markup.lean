import KeyTree.Text.Fields

/-!
# Markup

Markup is text with tags in square brackets that style what stands between them. Shown without
styles, a tag leaves nothing behind, unless an odd number of backslashes before it makes it text.
Escaping a text is meant to keep all of its brackets.
-/

namespace KeyTree.Text.Markup

/-- The characters that a tag can start with. -/
def isTagStart (c : Char) : Bool := c.isLower || c == '#' || c == '/' || c == '@'

/-- The tag whose opening bracket stands before a text, and what follows its closing bracket. A tag
holds no bracket. -/
def scanTag? : List Char → Option (List Char × List Char)
  | [] => none
  | c :: rest =>
    let isInside (c : Char) := c != '[' && c != ']'
    match isTagStart c, rest.dropWhile isInside with
    | true, ']' :: after => some (c :: rest.takeWhile isInside, after)
    | _, _ => none

/-- The tag at the start of a text behind its backslashes: their number, the tag, and what follows. -/
def scanTagged? (s : List Char) : Option (Nat × List Char × List Char) :=
  match s.dropWhile (· == '\\') with
  | '[' :: rest => (scanTag? rest).map fun (tag, after) ↦
    ((s.takeWhile (· == '\\')).length, tag, after)
  | _ => none

theorem length_lt_of_scanTag? {s tag after : List Char} (h : scanTag? s = some (tag, after)) :
    after.length < s.length := by
  unfold scanTag? at h
  split at h
  · simp at h
  · rename_i c rest
    dsimp only at h
    split at h
    · rename_i tail _ closing
      obtain ⟨-, rfl⟩ : _ ∧ _ := by simpa using h
      have shorter :=
        (List.dropWhile_suffix (l := rest) fun c ↦ c != '[' && c != ']').length_le
      rw [closing] at shorter
      simp only [List.length_cons] at shorter ⊢
      omega
    · simp at h

theorem length_lt_of_scanTagged? {s tag after : List Char} {slashes : Nat}
    (h : scanTagged? s = some (slashes, tag, after)) : after.length < s.length := by
  unfold scanTagged? at h
  split at h
  · rename_i rest bracket
    obtain ⟨⟨tag', after'⟩, scanned, same⟩ := Option.map_eq_some_iff.1 h
    obtain ⟨-, -, rfl⟩ : _ ∧ _ ∧ _ := by simpa using same
    have inner := length_lt_of_scanTag? scanned
    have outer := (List.dropWhile_suffix (l := s) (· == '\\')).length_le
    rw [bracket] at outer
    simp only [List.length_cons] at outer
    omega
  · simp at h

/-- A part of a markup text. -/
inductive Piece where
  | char (c : Char)
  /-- A tag with a number of backslashes before it. -/
  | tag (slashes : Nat) (body : List Char)
  deriving DecidableEq

/-- The parts of a markup text, in order. -/
def pieces (s : List Char) : List Piece :=
  match s with
  | [] => []
  | c :: rest => match h : scanTagged? (c :: rest) with
    | some (slashes, tag, after) =>
      have : after.length < (c :: rest).length := length_lt_of_scanTagged? h
      .tag slashes tag :: pieces after
    | none => .char c :: pieces rest
termination_by s.length
decreasing_by
  · exact this
  · exact Nat.lt_add_one _

def slashes (count : Nat) : List Char := List.replicate count '\\'

def bracketed (body : List Char) : List Char := '[' :: body ++ [']']

/-- A part that is text, as markup. -/
def Piece.escaped : Piece → List Char
  | char c => [c]
  | tag count body => slashes (2 * count + 1) ++ bracketed body

/-- A second backslash behind one that ends a text, so that it escapes nothing that follows. -/
def guarded (s : List Char) : List Char :=
  match s.reverse with
  | '\\' :: '\\' :: _ => s
  | '\\' :: _ => s ++ ['\\']
  | _ => s

/-- A text as markup. -/
def escape (s : List Char) : List Char := guarded ((pieces s).flatMap Piece.escaped)

/-- Controls that nothing is shown for: the bell, the backspace, and line ends but the line feed. -/
def isDropped (c : Char) : Bool :=
  c == '\x07' || c == '\x08' || c == '\x0b' || c == '\x0c' || c == '\r'

/-- What is shown of the parts. A backslash before a bracket that opens no tag is not shown. -/
def shown : List Piece → List Char
  | [] => []
  | .char '\\' :: .char '[' :: rest => '[' :: shown rest
  | .char c :: rest => c :: shown rest
  | .tag count body :: rest =>
    slashes (count / 2) ++ (if count % 2 = 1 then bracketed body else []) ++ shown rest

/-- A markup text as it is shown without styles. -/
def render (s : List Char) : List Char := (shown (pieces s)).filter (!isDropped ·)

end KeyTree.Text.Markup
