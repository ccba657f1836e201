import FrontEnd.Grammar.Entry
import FrontEnd.Grammar.Expression

/-!
# Statements, programs and entries

* a declaration is `name := expression.` and an assignment is `name = expression.`;
* a pragma is a backtick, `name[numeral]` and a backtick;
* a block is statements up to the next end of input, and a program is a block.

`Entry.parser` is the parser of each entry, and `Entry.parse` also sees to it that nothing is left over.
-/

namespace FrontEnd

namespace Parse

/-- The dot that ends a statement. -/
def dot : Parse Token :=
  expect .dot

def declaration : Parse Node :=
  spanned do
    let name ← symbol
    let _ ← expect .colon
    let _ ← expect .equals
    let init ← expression
    let _ ← dot
    return .declaration name init

def assignment : Parse Node :=
  spanned do
    let name ← symbol
    let _ ← expect .equals
    let value ← expression
    let _ ← dot
    return .assignment name value

def pragma : Parse Node :=
  spanned do
    let _ ← expect .backtick
    let name ← expect .symbol
    let _ ← expect .bracketLeft
    let argument ← numeral
    let _ ← expect .bracketRight
    let _ ← expect .backtick
    return .pragma name.text argument

/-- The token after the name decides: a colon declares and an equals sign assigns. -/
def statement : Parse Node := do
  let t ← peek
  let u ← peekNext
  if t.kind = .symbol then
    if u.kind = .colon then declaration
    else if u.kind = .equals then assignment
    else fail (.noProduction "statement" u ["'name := value.'", "'name = value.'"])
  else fail (.noProduction "statement" t ["'name := value.'", "'name = value.'"])

theorem advances_declaration : Advances declaration :=
  (advances_symbol.bind fun _ => (advances_expect _).shrinks.bind fun _ => (advances_expect _).shrinks.bind fun _ =>
    advances_expression.shrinks.bind fun _ => (advances_expect _).shrinks.bind fun _ => shrinks_pure _).spanned

theorem advances_assignment : Advances assignment :=
  (advances_symbol.bind fun _ => (advances_expect _).shrinks.bind fun _ => advances_expression.shrinks.bind fun _ =>
    (advances_expect _).shrinks.bind fun _ => shrinks_pure _).spanned

theorem advances_statement : Advances statement :=
  shrinks_peek.bind_advances fun _ => shrinks_peekNext.bind_advances fun _ =>
    .ite (.ite advances_declaration (.ite advances_assignment (advances_fail _))) (advances_fail _)

/-- Statements up to the next end of input. -/
def statements : Parse (List Node) := fun s =>
  if s.peek.isEnd then (.ok [], s)
  else
    match h : statement s with
    | (.error e, s₁) => (.error e, s₁)
    | (.ok first, s₁) =>
      have := advances_statement.lt h
      match statements s₁ with
      | (.error e, s₂) => (.error e, s₂)
      | (.ok rest, s₂) => (.ok (first :: rest), s₂)
termination_by s => s.ahead.length

theorem statements_eq :
    statements = (do
      let t ← peek
      if t.isEnd then return []
      else
        let first ← statement
        let rest ← statements
        return first :: rest) := by
  funext s
  rw [statements]
  simp only [bind_apply, peek_apply, ite_apply, pure_apply]
  congr 1
  split <;> simp_all only
  split <;> simp_all only

def block : Parse Node :=
  spanned do
    let xs ← statements
    return .block xs

def program : Parse Node :=
  spanned do
    let body ← block
    return .program body

end Parse

namespace Entry

def parser : Entry → Parse Node
  | program => Parse.program
  | block => Parse.block
  | statement => Parse.statement
  | declaration => Parse.declaration
  | assignment => Parse.assignment
  | pragma => Parse.pragma
  | expression => Parse.expression
  | binary => Parse.binary
  | comparison => Parse.comparison
  | unary => Parse.unary
  | literal => Parse.literal
  | symbol => Parse.symbol
  | numeral => Parse.numeral
  | truth => Parse.truth

/-- Reads the entry; unless `allowTrailing`, the end of input has to follow. -/
def parse (e : Entry) (allowTrailing : Bool) : Parse Node := do
  let n ← e.parser
  let t ← Parse.peek
  if allowTrailing || t.isEnd then return n else Parse.fail (.mismatch .endOfFile t)

end Entry

/-- Reads the entry of the given name. -/
def Parse.named (entry : String) (allowTrailing : Bool) : Parse Node :=
  match Entry.ofName? entry with
  | some e => e.parse allowTrailing
  | none => Parse.misuse (.unknownEntry entry)

end FrontEnd
