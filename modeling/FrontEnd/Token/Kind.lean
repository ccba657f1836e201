/-!
# Token kinds

The closed set of kinds, in the order of their definition, with the code and the title each one is shown by.
-/

namespace FrontEnd

inductive Kind where
  | endOfFile
  | numeric
  | symbol
  | keyword
  | colon
  | dot
  | bracketLeft
  | bracketRight
  | backtick
  | underscore
  | greater
  | less
  | greaterEqual
  | lessEqual
  | plus
  | minus
  | times
  | division
  | quote
  | doubleQuote
  | equals
deriving DecidableEq, Repr

namespace Kind

def all : List Kind :=
  [endOfFile, numeric, symbol, keyword, colon, dot, bracketLeft, bracketRight, backtick, underscore, greater, less,
    greaterEqual, lessEqual, plus, minus, times, division, quote, doubleQuote, equals]

/-- The short code that token dumps use. -/
def code : Kind → String
  | endOfFile => "EOF"
  | numeric => "NUMERIC"
  | symbol => "SYMBOL"
  | keyword => "KEYWORD"
  | colon => "COLON"
  | dot => "DOT"
  | bracketLeft => "BRACKET_LEFT"
  | bracketRight => "BRACKET_RIGHT"
  | backtick => "BACKTICK"
  | underscore => "UNDERSCORE"
  | greater => "GT"
  | less => "LT"
  | greaterEqual => "GTE"
  | lessEqual => "LTE"
  | plus => "PLUS"
  | minus => "MINUS"
  | times => "TIMES"
  | division => "DIVISION"
  | quote => "QUOTE"
  | doubleQuote => "DBL_QUOTE"
  | equals => "EQUALS"

def ofCode? (s : String) : Option Kind :=
  all.find? (·.code = s)

theorem mem_all (k : Kind) : k ∈ all := by
  cases k <;> decide

/-- Every code is that of one kind. -/
theorem ofCode?_eq_some_iff {s : String} {k : Kind} : ofCode? s = some k ↔ k.code = s := by
  constructor
  · intro h
    simpa using List.find?_some h
  · rintro rfl
    cases k <;> rfl

/-- The title that diagnostics use. -/
def title : Kind → String
  | endOfFile => "End of file"
  | numeric => "Numeric"
  | symbol => "Symbol"
  | keyword => "Keyword"
  | colon => "Colon"
  | dot => "Dot"
  | bracketLeft => "Bracket left"
  | bracketRight => "Bracket right"
  | backtick => "Backtick"
  | underscore => "Underscore"
  | greater => "Greater than"
  | less => "Lesser than"
  | greaterEqual => "Greater than or Equal"
  | lessEqual => "Lesser than or Equal"
  | plus => "Plus"
  | minus => "Minus"
  | times => "Times"
  | division => "Division"
  | quote => "Quote"
  | doubleQuote => "Double quote"
  | equals => "Equals"

/-- The operator text of a kind that can stand in a binary expression. -/
def arithmetic? : Kind → Option String
  | plus => some "+"
  | minus => some "-"
  | times => some "*"
  | division => some "/"
  | _ => none

/-- The operator text of a kind that can stand in a comparison. -/
def comparison? : Kind → Option String
  | less => some "<"
  | lessEqual => some "<="
  | greater => some ">"
  | greaterEqual => some ">="
  | equals => some "="
  | _ => none

/-- The kind that `>` or `<` becomes with an `=` right after it. -/
def withEquals? : Kind → Option Kind
  | greater => some greaterEqual
  | less => some lessEqual
  | _ => none

end Kind

end FrontEnd
