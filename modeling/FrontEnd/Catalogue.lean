import FrontEnd.Node.Basic
import FrontEnd.Fault
import FrontEnd.Token.Scan

/-!
# Catalogue of tables

The tables of the library in the order in which they are listed to users: by definition where the definition has an
order, and otherwise sorted.
-/

namespace FrontEnd.Catalogue

def kinds : List (String × String) :=
  Kind.all.map fun k => (k.code, k.title)

def punctuation : List (Char × String) :=
  FrontEnd.punctuation.map fun (c, k) => (c, k.code)

/-- The values of a partial table on kinds, sorted by the codes of the kinds. -/
def byCode {α : Type} (table : Kind → Option α) : List (String × α) :=
  (Kind.all.filterMap fun k => (table k).map fun a => (k.code, a)).mergeSort fun x y => x.1 ≤ y.1

/-- The values of all kinds are listed. -/
theorem mem_byCode {α : Type} {table : Kind → Option α} {entry : String × α} :
    entry ∈ byCode table ↔ ∃ k, Kind.ofCode? entry.1 = some k ∧ table k = some entry.2 := by
  rw [byCode, List.mem_mergeSort, List.mem_filterMap]
  constructor
  · rintro ⟨k, -, h⟩
    obtain ⟨a, ha, rfl⟩ := Option.map_eq_some_iff.1 h
    exact ⟨k, Kind.ofCode?_eq_some_iff.2 rfl, ha⟩
  · rintro ⟨k, hcode, h⟩
    exact ⟨k, k.mem_all, by rw [h, Option.map_some, Kind.ofCode?_eq_some_iff.1 hcode]⟩

def arithmetic : List (String × String) :=
  byCode Kind.arithmetic?

def comparison : List (String × String) :=
  byCode Kind.comparison?

def compound : List (String × String) :=
  byCode fun k => k.withEquals?.map Kind.code

def hints : List (String × List String) :=
  byCode Kind.hints?

def nodeTypes : List String :=
  ["Program", "Block", "SymbolDeclaration", "SymbolAssignment", "Pragma", "SymbolLiteral", "NumericLiteral",
    "BooleanLiteral", "BinaryExpr", "ComparisonExpr", "UnaryExpr"]

/-- The list is complete but for types unknown to this library. -/
theorem typeName_mem_nodeTypes (n : Node) : n.typeName ∈ nodeTypes ∨ ∃ name parts span, n = .other name parts span := by
  cases n with
  | other name parts span => exact .inr ⟨name, parts, span, rfl⟩
  | _ => exact .inl (by rw [Node.typeName]; decide)

def faultKinds : List (String × String) := [
  ("UNKNOWN_CHARACTER", "UnknownCharacter"),
  ("NUMERIC_OVERFLOW", "NumericOverflow"),
  ("UNEXPECTED_END_OF_INPUT", "UnexpectedEndOfInput"),
  ("UNEXPECTED_TOKEN_KIND", "UnexpectedTokenKind"),
  ("NO_MATCHING_PRODUCTION", "NoMatchingProduction")]

/-- The ASCII characters of a class, in ascending order. -/
def members (p : Char → Bool) : List Char :=
  ((List.range 0x80).map Char.ofNat).filter p

theorem mem_members {p : Char → Bool} {c : Char} : c ∈ members p ↔ c.toNat < 0x80 ∧ p c = true := by
  rw [members, List.mem_filter, List.mem_map]
  refine and_congr_left fun _ => ⟨?_, fun hc => ⟨c.toNat, List.mem_range.2 hc, Char.ofNat_toNat c⟩⟩
  have hascii : ∀ n < 0x80, (Char.ofNat n).toNat < 0x80 := by decide
  rintro ⟨n, hn, rfl⟩
  exact hascii n (List.mem_range.1 hn)

/-- Any ASCII character that is neither a blank, nor a control, nor a letter, nor a digit. -/
def isPunctuation (c : Char) : Bool :=
  0x20 < c.toNat && c.toNat < 0x7f && !isLetter c && !isDigit c

def classes : List (String × List Char) := [
  ("WHITESPACE", members isBlank),
  ("DIGITS", members isDigit),
  ("SYMBOL_START", members isWordStart),
  ("SYMBOL_PART", members isWordPart),
  ("PUNCTUATION_CHARS", members isPunctuation)]

end FrontEnd.Catalogue
