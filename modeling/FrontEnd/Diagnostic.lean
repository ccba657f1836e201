import FrontEnd.Location
import FrontEnd.Text.UpperCase

/-!
# Diagnostics

A report about a place in a source text, and its rendering. An empty help text or an empty list of hints is not shown.
-/

namespace FrontEnd

structure Diagnostic where
  message : String
  location : Location
  severity : String
  code : Option String
  help : Option String
  hints : Option (List String)
deriving DecidableEq, Repr

namespace Diagnostic

def helpLine : Option String → String
  | none | some "" => ""
  | some text => "  help: " ++ text ++ "\n"

def hintLines : Option (List String) → String
  | none | some [] => ""
  | some hints => "  suggestions:\n" ++ String.join (hints.map fun h => "    - " ++ h ++ "\n")

def render (d : Diagnostic) : String :=
  Text.upper d.severity ++ ": " ++ d.message ++ "\n  --> " ++ d.location.render ++ "\n" ++ helpLine d.help ++
    hintLines d.hints

end Diagnostic

end FrontEnd
