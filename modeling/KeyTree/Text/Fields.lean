/-!
# Fields of a text

A text is the fields between its separators, so there is always a first one.
-/

namespace KeyTree.Text

/-- The first field and the others. -/
def fields (separator : Char) : List Char → List Char × List (List Char)
  | [] => ([], [])
  | c :: rest =>
    let (first, others) := fields separator rest
    if c = separator then ([], first :: others) else (c :: first, others)

/-- All fields. -/
def fieldList (separator : Char) (s : List Char) : List (List Char) :=
  (fields separator s).1 :: (fields separator s).2

/-- Fields put together with a separator between them. -/
def joined (separator : List Char) : List (List Char) → List Char
  | [] => []
  | [field] => field
  | field :: rest => field ++ separator ++ joined separator rest

/-- A text cut at the first separator, if it has one. -/
def cut? (separator : Char) : List Char → Option (List Char × List Char)
  | [] => none
  | c :: rest =>
    if c = separator then some ([], rest)
    else (cut? separator rest).map fun (before, after) ↦ (c :: before, after)

end KeyTree.Text
