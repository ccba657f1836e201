import FrontEnd.Location
import FrontEnd.Token.Alphabet

/-!
# Tokens

A token keeps its text, the range of offsets it was read from and, for a numeral, its value. Tokens made by hand may
hold anything.
-/

namespace FrontEnd

structure Token where
  kind : Kind
  text : String
  start : Int
  stop : Int
  location : Location
  value : Option Int
deriving DecidableEq, Repr

namespace Token

def render (t : Token) : String :=
  t.text ++ " = (" ++ t.kind.title ++ ")"

def describe (t : Token) : String :=
  "Token(" ++ t.kind.code ++ ", " ++ Text.quoted t.text ++ ", " ++ Text.decimal t.start ++ ", " ++
    Text.decimal t.stop ++ ")"

def isEnd (t : Token) : Bool :=
  t.kind == .endOfFile

def isWord (t : Token) : Bool :=
  t.kind == .symbol || t.kind == .keyword

/-- Reserving `true` or `false` does not stop them from denoting truth values. -/
def isTruthWord (t : Token) : Bool :=
  t.isWord && (truthValue? t.text).isSome

/-- Whether the token can stand as a literal. -/
def isLiteral (t : Token) : Bool :=
  t.kind == .numeric || t.kind == .symbol || t.isTruthWord

/-- The end of input right after `t`, on the same line. -/
def endAfter (t : Token) : Token where
  kind := .endOfFile
  text := ""
  start := t.stop
  stop := t.stop
  location := ⟨t.location.file, t.location.line, t.location.column + (t.stop - t.start), t.stop⟩
  value := none

/-- The end of an input that has no tokens. -/
def lone : Token :=
  ⟨.endOfFile, "", 0, 0, ⟨"<unknown>", 1, 1, 0⟩, none⟩

end Token

end FrontEnd
