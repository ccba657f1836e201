import FrontEnd.Text.Printable

/-!
# Quoted text

A text is shown between quotes with everything that could be misread escaped. Single quotes are used unless the text
has a single quote and no double quote.
-/

namespace FrontEnd.Text

/-- Lower-case hexadecimal digits, padded with zeros to at least `width`. -/
def hex (width n : Nat) : List Char :=
  (Nat.toDigits 16 n).leftpad width '0'

/-- How one character is written between two `quote`s. -/
def escape (quote c : Char) : List Char :=
  if c = quote ∨ c = '\\' then ['\\', c]
  else if c = '\n' then ['\\', 'n']
  else if c = '\r' then ['\\', 'r']
  else if c = '\t' then ['\\', 't']
  else if isPrintable c then [c]
  else if c.toNat < 0x100 then '\\' :: 'x' :: hex 2 c.toNat
  else if c.toNat < 0x10000 then '\\' :: 'u' :: hex 4 c.toNat
  else '\\' :: 'U' :: hex 8 c.toNat

def quoteFor (cs : List Char) : Char :=
  if '\'' ∈ cs ∧ '"' ∉ cs then '"' else '\''

def quotedChars (cs : List Char) : List Char :=
  quoteFor cs :: cs.flatMap (escape (quoteFor cs)) ++ [quoteFor cs]

def quoted (s : String) : String :=
  String.ofList (quotedChars s.toList)

/-- A code point in the form `U+002A`: at least four upper-case hexadecimal digits. -/
def codePoint (c : Char) : String :=
  "U+" ++ String.ofList ((hex 4 c.toNat).map Char.toUpper)

end FrontEnd.Text
