/-! Ends of lines. -/

namespace TypedImp
namespace Text

/-- A carriage return, together with a newline behind it if there is one, becomes a newline. --/
def unifyNewlines : List Char → List Char
  | [] => []
  | c :: cs =>
    if c = '\r' then
      match cs with
      | '\n' :: cs => '\n' :: unifyNewlines cs
      | cs => '\n' :: unifyNewlines cs
    else c :: unifyNewlines cs

end Text
end TypedImp
