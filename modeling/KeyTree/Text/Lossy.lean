import KeyTree.Text.Encoding

/-!
# Bytes read leniently

Bytes that spell no character give the replacement character, one for each longest start of a
character that goes wrong.
-/

namespace KeyTree.Text

/-- The characters of bytes in UTF-8, whatever the bytes. -/
def lossyUtf8 (bytes : List UInt8) : List Char :=
  match bytes with
  | [] => []
  | byte :: rest => match lead? byte with
    | none => '\uFFFD' :: lossyUtf8 rest
    | some lead => match continueWith lead.bits lead.least lead.greatest lead.following rest with
      | .ok code => scalar code :: lossyUtf8 (rest.drop lead.following)
      | .error (count, _) => '\uFFFD' :: lossyUtf8 (rest.drop (count - 1))
termination_by bytes.length
decreasing_by all_goals (simp only [List.length_cons, List.length_drop]; omega)

end KeyTree.Text
