/-!
# Line ends

Text files may end a line with CR LF, with a lone CR or with LF; a program only ever sees LF.
-/

namespace FrontEnd.Text

def unifyNewlines : List Char → List Char
  | [] => []
  | '\r' :: '\n' :: cs => '\n' :: unifyNewlines cs
  | '\r' :: cs => '\n' :: unifyNewlines cs
  | c :: cs => c :: unifyNewlines cs

end FrontEnd.Text
