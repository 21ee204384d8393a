/-!
# Text for a terminal

Sequences that set colours and the like mean something to a terminal only, and are taken out of what
goes elsewhere.
-/

namespace KeyTree.Text

/-- Parameters of a control sequence: digits, colons, semicolons and a few signs. -/
def isParameter (c : Char) : Bool := decide ('0' ≤ c ∧ c ≤ '?')

/-- What may stand between the parameters and the end of a control sequence. -/
def isIntermediate (c : Char) : Bool := decide (' ' ≤ c ∧ c ≤ '/')

/-- What a control sequence ends with. -/
def isFinal (c : Char) : Bool := decide ('@' ≤ c ∧ c ≤ '~')

/-- What follows the control sequence at the start of a text: an escape, a bracket, parameters,
intermediate characters and a final one. -/
def afterControl? : List Char → Option (List Char)
  | '\x1b' :: '[' :: rest =>
    match (rest.dropWhile isParameter).dropWhile isIntermediate with
    | c :: after => if isFinal c then some after else none
    | [] => none
  | _ => none

theorem length_lt_of_afterControl? {s after : List Char} (h : afterControl? s = some after) :
    after.length < s.length := by
  unfold afterControl? at h
  split at h
  · rename_i rest
    have shorter := ((List.dropWhile_suffix (l := rest.dropWhile isParameter) isIntermediate).trans
      (List.dropWhile_suffix isParameter)).length_le
    split at h
    · rename_i c tail ending
      rw [ending] at shorter
      obtain ⟨-, rfl⟩ : _ ∧ _ := by simpa using h
      simp only [List.length_cons] at shorter ⊢
      omega
    · simp at h
  · simp at h

/-- A text without its control sequences. -/
def withoutControls (s : List Char) : List Char :=
  match s with
  | [] => []
  | c :: rest => match h : afterControl? (c :: rest) with
    | some after =>
      have : after.length < (c :: rest).length := length_lt_of_afterControl? h
      withoutControls after
    | none => c :: withoutControls rest
termination_by s.length
decreasing_by
  · exact this
  · exact Nat.lt_add_one _

end KeyTree.Text
