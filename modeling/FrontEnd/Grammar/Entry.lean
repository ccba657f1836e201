/-!
# Entries of the grammar

Parsing may start from any production; these are their names.
-/

namespace FrontEnd

inductive Entry where
  | program
  | block
  | statement
  | declaration
  | assignment
  | pragma
  | expression
  | binary
  | comparison
  | unary
  | literal
  | symbol
  | numeral
  | truth
deriving DecidableEq, Repr

namespace Entry

def name : Entry → String
  | program => "program"
  | block => "block"
  | statement => "statement"
  | declaration => "symbol_declaration"
  | assignment => "symbol_assignment"
  | pragma => "pragma"
  | expression => "expression"
  | binary => "binary_expr"
  | comparison => "comparison_expr"
  | unary => "unary_expr"
  | literal => "literal_expr"
  | symbol => "symbol_literal"
  | numeral => "numeric_literal"
  | truth => "boolean_literal"

/-- Every entry, in the order of the names. -/
def all : List Entry :=
  [binary, block, truth, comparison, expression, literal, numeral, pragma, program, statement, assignment, declaration,
    symbol, unary]

def names : List String :=
  all.map name

def ofName? (s : String) : Option Entry :=
  all.find? (·.name = s)

end Entry

end FrontEnd
