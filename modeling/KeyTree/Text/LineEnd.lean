/-!
# Line ends

A line may end in a carriage return, a line feed, or both.
-/

namespace KeyTree.Text

/-- A text with line feeds at the ends of its lines. -/
def withLineFeeds : List Char → List Char
  | '\r' :: '\n' :: rest => '\n' :: withLineFeeds rest
  | '\r' :: rest => '\n' :: withLineFeeds rest
  | c :: rest => c :: withLineFeeds rest
  | [] => []

end KeyTree.Text
