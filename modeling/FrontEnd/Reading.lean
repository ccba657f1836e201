import FrontEnd.Grammar.Statement
import FrontEnd.Token.Scan

/-!
# Reading a source text

The whole text is tokenized before any of it is parsed, so a lexical fault wins over every syntax fault.
-/

namespace FrontEnd

inductive Failure where
  | lexical (f : LexicalFault)
  | syntactic (f : SyntaxFault)
  | misuse (m : Misuse)
deriving DecidableEq, Repr

def Failure.ofLexical : LexicalRefusal → Failure
  | .fault f => .lexical f
  | .misuse m => .misuse m

def Failure.ofRefusal : Refusal → Failure
  | .fault f => .syntactic f
  | .misuse m => .misuse m

/-- The tree of `text`, read from the entry of the given name. -/
def Lexicon.parse (lx : Lexicon) (file : String) (entry : String) (allowTrailing : Bool) (text : String) :
    Except Failure Node :=
  match lx.tokenize file text with
  | .error f => .error (.ofLexical f)
  | .ok tokens => (Parse.named entry allowTrailing (.ofTokens tokens)).1.mapError .ofRefusal

end FrontEnd
