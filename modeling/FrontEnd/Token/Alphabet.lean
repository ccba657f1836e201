import FrontEnd.Token.Kind

/-!
# The alphabet

Character classes, all within ASCII, and the punctuation table. The underscore is in the table but also starts words;
words come first, so no token is ever a lone underscore sign.
-/

namespace FrontEnd

def blanks : List Char := [' ', '\t', '\n', '\r', '\x0b', '\x0c']

def isBlank (c : Char) : Bool :=
  blanks.contains c

def isDigit (c : Char) : Bool :=
  '0' ≤ c && c ≤ '9'

def isLetter (c : Char) : Bool :=
  ('a' ≤ c && c ≤ 'z') || ('A' ≤ c && c ≤ 'Z')

def isWordStart (c : Char) : Bool :=
  isLetter c || c == '_'

def isWordPart (c : Char) : Bool :=
  isWordStart c || isDigit c

def punctuation : List (Char × Kind) := [
  (':', .colon),
  ('.', .dot),
  ('[', .bracketLeft),
  (']', .bracketRight),
  ('`', .backtick),
  ('_', .underscore),
  ('>', .greater),
  ('<', .less),
  ('+', .plus),
  ('-', .minus),
  ('*', .times),
  ('/', .division),
  ('\'', .quote),
  ('"', .doubleQuote),
  ('=', .equals)]

def punctuation? (c : Char) : Option Kind :=
  punctuation.lookup c

/-- The words that denote truth values. -/
def truthValue? (word : String) : Option Bool :=
  if word = "true" then some true else if word = "false" then some false else none

end FrontEnd
