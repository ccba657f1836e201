import FrontEnd.Grammar.Parse

/-!
# Literals and expressions

The forms, chosen by the next two tokens:

* a literal is a numeral, `true` or `false`, or any other symbol;
* a unary expression is `-`, `--` or `++` and a literal, where the two signs of `--` and `++` have to touch;
* a comparison is a numeral, a comparison sign and a numeral;
* a binary expression is a literal, an arithmetic sign and an expression, so signs associate to the right.

**`Parse.expression_eq`** states the choice without the termination argument.
-/

namespace FrontEnd

namespace Parse

/-! ## Literals -/

def symbol : Parse Node :=
  spanned do
    let t ← expect .symbol
    return .symbol t.text

/-- The value of a numeral: the one it carries, or else the one its text denotes. -/
def valueOf (t : Token) : Parse Int :=
  match t.value with
  | some v => pure v
  | none => do
    match Text.readInteger (← here).maxDigits t.text with
    | .ok v => return v
    | .error f => misuse (.ofIntegerFault t.text f)

def numeral : Parse Node :=
  spanned do
    let t ← expect .numeric
    let v ← valueOf t
    return .numeral v

def truth : Parse Node :=
  spanned do
    let t ← peek
    if t.isWord then
      match truthValue? t.text with
      | some b =>
        let _ ← consume
        return .truth b
      | none => fail (.noProduction "boolean literal" t ["true", "false"])
    else fail (.mismatch .symbol t)

def literal : Parse Node := do
  let t ← peek
  if t.kind = .numeric then numeral
  else if t.isTruthWord then truth
  else if t.kind = .symbol then symbol
  else fail (.noProduction "literal" t ["a number", "a symbol", "true", "false"])

/-! ## Expressions without recursion -/

/-- The sign of a unary expression. -/
def unarySign : Parse String := do
  let first ← peek
  if first.kind = .minus then
    let _ ← consume
    let second ← peek
    if second.kind = .minus ∧ second.start = first.stop then
      let _ ← consume
      return "--"
    else return "-"
  else if first.kind = .plus then
    let _ ← consume
    let second ← peek
    if second.kind ≠ .plus then fail (.mismatch .plus second)
    else if second.start ≠ first.stop then fail (.noProduction "unary operator" second ["'++'"])
    else
      let _ ← consume
      return "++"
  else fail (.noProduction "unary expression" first ["'-'", "'--'", "'++'"])

def unary : Parse Node :=
  spanned do
    let op ← unarySign
    let x ← literal
    return .unary op x

/-- A comparison, or a numeral alone. -/
def comparison : Parse Node := do
  let start ← here
  let left ← numeral
  let t ← peek
  match t.kind.comparison? with
  | none => return left
  | some op =>
    let _ ← consume
    let right ← numeral
    return .comparison left op right (some (start.spanTo (← here)))

/-- A literal and the arithmetic sign after it, if there is one. -/
def operand : Parse (Node × Option String) := do
  let left ← literal
  let t ← peek
  match t.kind.arithmetic? with
  | none => return (left, none)
  | some op =>
    let _ ← consume
    return (left, some op)

/-! ## Progress -/

theorem shrinks_valueOf (t : Token) : Shrinks (valueOf t) := by
  unfold valueOf
  split
  · exact shrinks_pure _
  · refine shrinks_here.bind fun s => ?_
    split
    · exact shrinks_pure _
    · exact shrinks_misuse _

theorem advances_symbol : Advances symbol :=
  ((advances_expect _).bind fun _ => shrinks_pure _).spanned

theorem advances_numeral : Advances numeral :=
  ((advances_expect _).bind fun t => (shrinks_valueOf t).bind fun _ => shrinks_pure _).spanned

theorem advances_truth : Advances truth := by
  refine (shrinks_peek.bind_advances fun t => .ite ?_ (advances_fail _)).spanned
  split
  · exact advances_consume.bind fun _ => shrinks_pure _
  · exact advances_fail _

theorem advances_literal : Advances literal :=
  shrinks_peek.bind_advances fun _ =>
    .ite advances_numeral (.ite advances_truth (.ite advances_symbol (advances_fail _)))

theorem advances_unarySign : Advances unarySign := by
  have one := advances_consume
  refine shrinks_peek.bind_advances fun first => .ite ?_ (.ite ?_ (advances_fail _))
  · exact one.bind fun _ => shrinks_peek.bind fun _ => .ite (one.bind fun _ => shrinks_pure _).shrinks (shrinks_pure _)
  · refine one.bind fun _ => shrinks_peek.bind fun _ => .ite (advances_fail _).shrinks ?_
    refine .ite (advances_fail _).shrinks ?_
    exact (one.bind fun _ => shrinks_pure _).shrinks

theorem advances_unary : Advances unary :=
  (advances_unarySign.bind fun _ => advances_literal.shrinks.bind fun _ => shrinks_pure _).spanned

theorem advances_comparison : Advances comparison := by
  refine shrinks_here.bind_advances fun _ => advances_numeral.bind fun _ => shrinks_peek.bind fun _ => ?_
  split
  · exact shrinks_pure _
  · exact advances_consume.shrinks.bind fun _ => advances_numeral.shrinks.bind fun _ => shrinks_here.bind fun _ =>
      shrinks_pure _

theorem advances_operand : Advances operand := by
  refine advances_literal.bind fun left => shrinks_peek.bind fun t => ?_
  split
  · exact shrinks_pure _
  · exact advances_consume.shrinks.bind fun _ => shrinks_pure _

/-! ## Expressions -/

/-- What an expression can begin with. -/
def expressionForms : List String :=
  ["a number", "a symbol", "true", "false", "'-'", "'--'", "'++'"]

/-- Any expression. -/
def expression : Parse Node := fun s =>
  if s.peek.kind = .minus ∨ s.peek.kind = .plus then unary s
  else if s.peek.kind = .numeric ∧ (s.look 1).kind.comparison?.isSome then comparison s
  else if s.peek.isLiteral then
    match h : operand s with
    | (.error e, s₁) => (.error e, s₁)
    | (.ok (left, none), s₁) => (.ok left, s₁)
    | (.ok (left, some op), s₁) =>
      have := advances_operand.lt h
      match expression s₁ with
      | (.error e, s₂) => (.error e, s₂)
      | (.ok right, s₂) => (.ok (.binary left op right (some (s.spanTo s₂))), s₂)
  else fail (.noProduction "expression" s.peek expressionForms) s
termination_by s => s.ahead.length

/-- A binary expression, or a literal alone. -/
def binary : Parse Node := do
  let start ← here
  let (left, op?) ← operand
  match op? with
  | none => return left
  | some op =>
    let right ← expression
    return .binary left op right (some (start.spanTo (← here)))

theorem expression_eq :
    expression = (do
      let t ← peek
      let u ← peekNext
      if t.kind = .minus ∨ t.kind = .plus then unary
      else if t.kind = .numeric ∧ u.kind.comparison?.isSome then comparison
      else if t.isLiteral then binary
      else fail (.noProduction "expression" t expressionForms)) := by
  funext s
  rw [expression]
  simp only [bind_apply, peek_apply, peekNext_apply, ite_apply]
  congr 3
  simp only [binary, bind_apply, here_apply]
  split <;> simp_all only [pure_apply, bind_apply, here_apply]
  split <;> simp_all only

theorem advances_expression : Advances expression := by
  suffices h : ∀ s, (expression s).2.ahead.length ≤ s.ahead.length ∧
      ∀ a s', expression s = (.ok a, s') → s'.ahead.length < s.ahead.length from
    ⟨fun s => (h s).1, fun s => (h s).2⟩
  intro s
  fun_induction expression s with
  | case1 s _ => exact ⟨advances_unary.shrinks s, fun _ _ => advances_unary.lt⟩
  | case2 s _ _ => exact ⟨advances_comparison.shrinks s, fun _ _ => advances_comparison.lt⟩
  | case3 s _ _ _ e s₁ hs => exact ⟨by simpa [hs] using advances_operand.shrinks s, fun _ _ h => by simp at h⟩
  | case4 s _ _ _ left s₁ hs =>
    have hlt := advances_operand.lt hs
    refine ⟨Nat.le_of_lt hlt, fun _ _ h => ?_⟩
    obtain ⟨_, rfl⟩ := by simpa using h
    exact hlt
  | case5 s _ _ _ left op s₁ hs hlt e s₂ hs₂ ih =>
    rw [hs₂] at ih
    exact ⟨Nat.le_trans ih.1 (Nat.le_of_lt hlt), fun _ _ h => by simp at h⟩
  | case6 s _ _ _ left op s₁ hs hlt r s₂ hs₂ ih =>
    rw [hs₂] at ih
    refine ⟨Nat.le_trans ih.1 (Nat.le_of_lt hlt), fun _ _ h => ?_⟩
    obtain ⟨_, rfl⟩ := by simpa using h
    exact Nat.lt_of_le_of_lt ih.1 hlt
  | case7 s => exact ⟨(advances_fail _).shrinks s, fun _ _ => (advances_fail _).lt⟩

end Parse

end FrontEnd
