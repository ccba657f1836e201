import FrontEnd.Diagnostic
import FrontEnd.Grammar.Entry
import FrontEnd.Text.Integer
import FrontEnd.Token.Basic

/-!
# What can go wrong

`LexicalFault` and `SyntaxFault` are faults of a source text: each has a short message and a full diagnostic.
`Misuse` is a request that makes no sense whatever the text is, or one for an integer with too many digits to be
converted. A `LexicalRefusal` is what keeps a token from being read: the one or the other.
-/

namespace FrontEnd

/-! ## Misuse -/

inductive Misuse where
  /-- A place that the text does not have. -/
  | positionOutside (position : Int) (length : Nat)
  | lookBehind
  | unknownEntry (name : String)
  /-- A numeral without a value whose text is no integer. -/
  | notAnInteger (text : String)
  /-- A numeral without a value whose text has too many digits to be read. -/
  | tooManyDigits (limit count : Nat)
  /-- An integer that has too many digits to be written. -/
  | tooLong (limit : Nat)
  /-- A node that has no source form. -/
  | noSourceForm (typeName : String)
  /-- A code point was asked for, of a text that is not one character. -/
  | notOneCharacter (length : Nat)
  | noText
  /-- A value was needed that the command line had left out. -/
  | noValue
deriving DecidableEq, Repr

def Misuse.tooLongMessage (limit : Nat) : String :=
  "Exceeds the limit (" ++ Text.decimal limit ++ " digits) for integer string conversion; use " ++
    "sys.set_int_max_str_digits() to increase the limit"

def Misuse.message : Misuse → String
  | positionOutside p n =>
    match Text.writeInteger (some Text.digitLimit) p with
    | .ok place => "position " ++ place ++ " outside source of length " ++ Text.decimal n
    | .error limit => tooLongMessage limit
  | lookBehind => "look_ahead only looks forward"
  | unknownEntry name =>
    "Unknown entry production " ++ Text.quoted name ++ " (expected one of: " ++
      String.intercalate ", " Entry.names ++ ")"
  | notAnInteger text =>
    -- only the first two hundred characters of the quoted text are shown
    "invalid literal for int() with base 10: " ++ String.ofList ((Text.quoted text).toList.take 200)
  | tooManyDigits limit count =>
    "Exceeds the limit (" ++ Text.decimal limit ++ " digits) for integer string conversion: value has " ++
      Text.decimal count ++ " digits; use sys.set_int_max_str_digits() to increase the limit"
  | tooLong limit => tooLongMessage limit
  | noSourceForm name => "Cannot format node of type " ++ name
  | notOneCharacter n => "ord() expected a character, but string of length " ++ Text.decimal n ++ " found"
  | noText => "object of type 'NoneType' has no len()"
  | noValue => "unhashable type: 'list'"

/-- What it means that `text` cannot be read as an integer. -/
def Misuse.ofIntegerFault (text : String) : Text.IntegerFault → Misuse
  | .malformed => notAnInteger text
  | .tooManyDigits limit count => tooManyDigits limit count

/-- The decimal text of an integer that is to be shown. -/
def shownInteger (limit : Option Nat) (v : Int) : Except Misuse String :=
  (Text.writeInteger limit v).mapError .tooLong

/-! ## Lexical faults -/

inductive LexicalFault where
  | unknownCharacter (character : String) (location : Location)
  | numericOverflow (text : String) (limit : Int) (location : Location)
deriving DecidableEq, Repr

namespace LexicalFault

def location : LexicalFault → Location
  | unknownCharacter _ l => l
  | numericOverflow _ _ l => l

def message : LexicalFault → String
  | unknownCharacter c _ => "Unknown character: '" ++ c ++ "'"
  | numericOverflow text _ _ => "Numeric literal out of range: '" ++ text ++ "'"

/-- Whether `part` stands somewhere in a text without gaps. -/
def occursIn (part : List Char) : List Char → Bool
  | [] => part.isEmpty
  | c :: cs => part.isPrefixOf (c :: cs) || occursIn part cs

/-- The ASCII punctuation that no token uses. -/
def foreignSigns : List Char := "!#$%&(),;?@\\^\x7b|\x7d~".toList

/-- Help is chosen by the text that was met: a run of foreign signs, printable ASCII, printable, or neither. -/
def unknownHelp (character : String) : String :=
  let cs := character.toList
  if occursIn cs foreignSigns then
    "The punctuation character '" ++ character ++ "' is not part of the Clita language."
  else if cs.all Text.isPrintable then
    if cs.all fun c => c.toNat < 0x80 then
      "The character '" ++ character ++ "' is not valid in Clita source code."
    else
      "Only ASCII letters, digits, underscores and punctuation are accepted."
  else
    "Non-printable character (Unicode: " ++ String.join (cs.map Text.codePoint) ++ ") is not allowed."

def diagnostic : LexicalFault → Diagnostic
  | f@(unknownCharacter c l) => ⟨f.message, l, "error", some "L001", some (unknownHelp c), none⟩
  | f@(numericOverflow _ limit l) =>
    ⟨f.message, l, "error", some "L007", some ("Numeric literals must not exceed " ++ Text.decimal limit ++ "."),
      some ["Use a smaller literal"]⟩

/-- The fault for any text in place of a character. A text that is not printable has to be a single character, since
the help shows its code point. -/
def ofText (character : String) (location : Location) : Except Misuse LexicalFault :=
  let cs := character.toList
  if occursIn cs foreignSigns ∨ cs.all Text.isPrintable ∨ cs.length = 1 then
    .ok (unknownCharacter character location)
  else
    .error (.notOneCharacter cs.length)

/-- Every character makes a fault. -/
theorem ofText_singleton (c : Char) (location : Location) :
    ofText (String.singleton c) location = .ok (unknownCharacter (String.singleton c) location) := by
  rw [ofText, if_pos (.inr (.inr (by simp)))]

end LexicalFault

inductive LexicalRefusal where
  | fault (f : LexicalFault)
  | misuse (m : Misuse)
deriving DecidableEq, Repr

/-! ## Syntax faults -/

/-- What to do about a missing token. -/
def Kind.hints? : Kind → Option (List String)
  | .dot => some ["Add a dot '.' to end the statement"]
  | .colon => some ["Declarations are written 'name := value.'"]
  | .equals => some ["Add an '=' after the name"]
  | .bracketLeft => some ["Pragma arguments are written '`name[3]`'"]
  | .bracketRight => some ["Add a closing bracket ']'"]
  | .backtick => some ["Close the pragma with a backtick '`'"]
  | .endOfFile => some ["Remove the trailing input"]
  | _ => none

inductive SyntaxFault where
  /-- The input ended where a token of the given kind, or any token, was needed. -/
  | endOfInput (expected : Option Kind) (found : Token)
  | unexpectedKind (expected : Kind) (found : Token)
  /-- No form of `production` begins with the token; `forms` says what would have. -/
  | noProduction (production : String) (found : Token) (forms : List String)
deriving DecidableEq, Repr

namespace SyntaxFault

/-- A token of another kind than the expected one. At the end of input it is the end that is reported, unless the end is
what was expected. -/
def mismatch (expected : Kind) (found : Token) : SyntaxFault :=
  if found.kind = .endOfFile ∧ expected ≠ .endOfFile then endOfInput (some expected) found
  else unexpectedKind expected found

def found : SyntaxFault → Token
  | endOfInput _ t => t
  | unexpectedKind _ t => t
  | noProduction _ t _ => t

def message : SyntaxFault → String
  | endOfInput expected _ => "Unexpected end of input, expected " ++ (expected.elim "a token" Kind.title)
  | unexpectedKind expected t => "Expected " ++ expected.title ++ ", found " ++ t.kind.title
  | noProduction production t _ => "Expected " ++ production ++ ", found " ++ t.kind.title

def code : SyntaxFault → String
  | endOfInput .. => "P010"
  | unexpectedKind .. => "P001"
  | noProduction .. => "P005"

def help : SyntaxFault → Option String
  | endOfInput expected _ =>
    some ("The parser reached the end of the input while expecting " ++ expected.elim "more input" Kind.title ++ ".")
  | unexpectedKind expected t =>
    some ("The parser expected to see " ++ expected.title ++ " at this position, but found '" ++ t.text ++ "' instead.")
  | noProduction _ _ [] => none
  | noProduction production _ forms =>
    some ("A " ++ production ++ " starts with one of: " ++ String.intercalate ", " forms ++ ".")

def hints : SyntaxFault → Option (List String)
  | endOfInput expected _ => some ((expected.bind Kind.hints?).getD ["Check for incomplete statements"])
  | unexpectedKind expected _ => some (expected.hints?.getD [])
  | noProduction .. => none

def diagnostic (f : SyntaxFault) : Diagnostic :=
  ⟨f.message, f.found.location, "error", some f.code, f.help, f.hints⟩

end SyntaxFault

end FrontEnd
