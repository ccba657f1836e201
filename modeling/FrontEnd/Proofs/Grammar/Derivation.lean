import FrontEnd.Grammar.Entry
import FrontEnd.Node.Basic
import FrontEnd.Token.Basic

/-!
# Derivations

The grammar apart from any parser: `Derives e ts n` says that the tokens `ts` have the tree `n` as entry `e`. The
alternatives of an entry are separate rules and nothing chooses between them. Spans play no part: a rule builds its
node with any span, so a derivation of a tree is a derivation of every tree of the same structure (`Derives.of_same`).
-/

namespace FrontEnd

/-- The tokens have the tree as the given entry. -/
inductive Derives : Entry → List Token → Node → Prop
  | symbol {t : Token} {sp : Option Span} : t.kind = .symbol → Derives .symbol [t] (.symbol t.text sp)
  | numeral {t : Token} {v : Int} {sp : Option Span} : t.kind = .numeric → t.value = some v →
      Derives .numeral [t] (.numeral v sp)
  | truth {t : Token} {b : Bool} {sp : Option Span} : t.isWord = true → truthValue? t.text = some b →
      Derives .truth [t] (.truth b sp)
  | literalNumeral {ts : List Token} {x : Node} : Derives .numeral ts x → Derives .literal ts x
  | literalTruth {ts : List Token} {x : Node} : Derives .truth ts x → Derives .literal ts x
  | literalSymbol {t : Token} {x : Node} : Derives .symbol [t] x → truthValue? t.text = none → Derives .literal [t] x
  | minus {t : Token} {ts : List Token} {x : Node} {sp : Option Span} : t.kind = .minus → Derives .literal ts x →
      Derives .unary (t :: ts) (.unary "-" x sp)
  | minusMinus {t u : Token} {ts : List Token} {x : Node} {sp : Option Span} : t.kind = .minus → u.kind = .minus →
      u.start = t.stop → Derives .literal ts x → Derives .unary (t :: u :: ts) (.unary "--" x sp)
  | plusPlus {t u : Token} {ts : List Token} {x : Node} {sp : Option Span} : t.kind = .plus → u.kind = .plus →
      u.start = t.stop → Derives .literal ts x → Derives .unary (t :: u :: ts) (.unary "++" x sp)
  | comparisonNumeral {ts : List Token} {x : Node} : Derives .numeral ts x → Derives .comparison ts x
  | comparison {t : Token} {ts us : List Token} {x y : Node} {op : String} {sp : Option Span} :
      Derives .numeral ts x → t.kind.comparison? = some op → Derives .numeral us y →
      Derives .comparison (ts ++ t :: us) (.comparison x op y sp)
  | binaryLiteral {ts : List Token} {x : Node} : Derives .literal ts x → Derives .binary ts x
  | binary {t : Token} {ts us : List Token} {x y : Node} {op : String} {sp : Option Span} :
      Derives .literal ts x → t.kind.arithmetic? = some op → Derives .expression us y →
      Derives .binary (ts ++ t :: us) (.binary x op y sp)
  | expressionUnary {ts : List Token} {x : Node} : Derives .unary ts x → Derives .expression ts x
  | expressionComparison {ts : List Token} {x : Node} : Derives .comparison ts x → Derives .expression ts x
  | expressionBinary {ts : List Token} {x : Node} : Derives .binary ts x → Derives .expression ts x
  | declaration {c q d : Token} {ts us : List Token} {i x : Node} {sp : Option Span} :
      Derives .symbol ts i → c.kind = .colon → q.kind = .equals → Derives .expression us x → d.kind = .dot →
      Derives .declaration (ts ++ c :: q :: (us ++ [d])) (.declaration i x sp)
  | assignment {q d : Token} {ts us : List Token} {i x : Node} {sp : Option Span} :
      Derives .symbol ts i → q.kind = .equals → Derives .expression us x → d.kind = .dot →
      Derives .assignment (ts ++ q :: (us ++ [d])) (.assignment i x sp)
  | pragma {b n l r b' : Token} {ts : List Token} {x : Node} {sp : Option Span} :
      b.kind = .backtick → n.kind = .symbol → l.kind = .bracketLeft → Derives .numeral ts x →
      r.kind = .bracketRight → b'.kind = .backtick →
      Derives .pragma (b :: n :: l :: (ts ++ [r, b'])) (.pragma n.text x sp)
  | statementDeclaration {ts : List Token} {x : Node} : Derives .declaration ts x → Derives .statement ts x
  | statementAssignment {ts : List Token} {x : Node} : Derives .assignment ts x → Derives .statement ts x
  | blockNil {sp : Option Span} : Derives .block [] (.block [] sp)
  | blockCons {ts us : List Token} {x : Node} {xs : List Node} {sp sp' : Option Span} :
      Derives .statement ts x → Derives .block us (.block xs sp) → Derives .block (ts ++ us) (.block (x :: xs) sp')
  | program {ts : List Token} {x : Node} {sp : Option Span} : Derives .block ts x → Derives .program ts (.program x sp)

namespace Derives

variable {e : Entry} {ts : List Token} {n m : Node}

/-- Spans play no part in a derivation. -/
theorem of_same (h : Derives e ts n) (hm : n.same m = true) : Derives e ts m := by
  induction h generalizing m with
  | symbol hk =>
    cases m <;> simp only [Node.same, Bool.false_eq_true] at hm
    rw [← eq_of_beq hm]
    exact symbol hk
  | numeral hk hv =>
    cases m <;> simp only [Node.same, Bool.false_eq_true] at hm
    rw [← eq_of_beq hm]
    exact numeral hk hv
  | truth hw hb =>
    cases m <;> simp only [Node.same, Bool.false_eq_true] at hm
    rw [← eq_of_beq hm]
    exact truth hw hb
  | literalNumeral _ ih => exact literalNumeral (ih hm)
  | literalTruth _ ih => exact literalTruth (ih hm)
  | literalSymbol _ ht ih => exact literalSymbol (ih hm) ht
  | minus hk _ ih =>
    cases m <;> simp only [Node.same, Bool.and_eq_true, Bool.false_eq_true] at hm
    rw [← eq_of_beq hm.1]
    exact minus hk (ih hm.2)
  | minusMinus ht hu hadj _ ih =>
    cases m <;> simp only [Node.same, Bool.and_eq_true, Bool.false_eq_true] at hm
    rw [← eq_of_beq hm.1]
    exact minusMinus ht hu hadj (ih hm.2)
  | plusPlus ht hu hadj _ ih =>
    cases m <;> simp only [Node.same, Bool.and_eq_true, Bool.false_eq_true] at hm
    rw [← eq_of_beq hm.1]
    exact plusPlus ht hu hadj (ih hm.2)
  | comparisonNumeral _ ih => exact comparisonNumeral (ih hm)
  | comparison _ hop _ ihx ihy =>
    cases m <;> simp only [Node.same, Bool.and_eq_true, Bool.false_eq_true] at hm
    rw [← eq_of_beq hm.1.2]
    exact comparison (ihx hm.1.1) hop (ihy hm.2)
  | binaryLiteral _ ih => exact binaryLiteral (ih hm)
  | binary _ hop _ ihx ihy =>
    cases m <;> simp only [Node.same, Bool.and_eq_true, Bool.false_eq_true] at hm
    rw [← eq_of_beq hm.1.2]
    exact binary (ihx hm.1.1) hop (ihy hm.2)
  | expressionUnary _ ih => exact expressionUnary (ih hm)
  | expressionComparison _ ih => exact expressionComparison (ih hm)
  | expressionBinary _ ih => exact expressionBinary (ih hm)
  | declaration _ hc hq _ hd ihi ihx =>
    cases m <;> simp only [Node.same, Bool.and_eq_true, Bool.false_eq_true] at hm
    exact declaration (ihi hm.1) hc hq (ihx hm.2) hd
  | assignment _ hq _ hd ihi ihx =>
    cases m <;> simp only [Node.same, Bool.and_eq_true, Bool.false_eq_true] at hm
    exact assignment (ihi hm.1) hq (ihx hm.2) hd
  | pragma hb hn hl _ hr hb' ih =>
    cases m <;> simp only [Node.same, Bool.and_eq_true, Bool.false_eq_true] at hm
    rw [← eq_of_beq hm.1]
    exact pragma hb hn hl (ih hm.2) hr hb'
  | statementDeclaration _ ih => exact statementDeclaration (ih hm)
  | statementAssignment _ ih => exact statementAssignment (ih hm)
  | blockNil =>
    cases m <;> simp only [Node.same, Bool.false_eq_true] at hm
    rename_i ys _
    cases ys with
    | nil => exact blockNil
    | cons => simp [Node.sameAll] at hm
  | blockCons _ _ ihx ihxs =>
    cases m <;> simp only [Node.same, Bool.false_eq_true] at hm
    rename_i ys sp
    cases ys with
    | nil => simp [Node.sameAll] at hm
    | cons y ys =>
      simp only [Node.sameAll, Bool.and_eq_true] at hm
      exact blockCons (ihx hm.1) (ihxs (m := .block ys sp) (by rw [Node.same]; exact hm.2))
  | program _ ih =>
    cases m <;> simp only [Node.same, Bool.false_eq_true] at hm
    exact program (ih hm)

/-- Only blocks and programs can be empty. -/
theorem ne_nil (h : Derives e ts n) : e ≠ .block → e ≠ .program → ts ≠ [] := by
  induction h with
  | literalNumeral _ ih | literalTruth _ ih | comparisonNumeral _ ih | binaryLiteral _ ih | expressionUnary _ ih
  | expressionComparison _ ih | expressionBinary _ ih | statementDeclaration _ ih | statementAssignment _ ih =>
    exact fun _ _ => ih nofun nofun
  | blockNil | blockCons => exact fun hb _ => absurd rfl hb
  | program => exact fun _ hp => absurd rfl hp
  | _ => simp

end Derives

end FrontEnd
