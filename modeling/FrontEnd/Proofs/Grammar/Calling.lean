import FrontEnd.Proofs.Grammar.Sequence
import FrontEnd.Proofs.Grammar.Subrun

/-!
# Calls between productions

`Parse.Calls e s e' s'` says that the parser of the entry `e`, begun at `s`, calls that of `e'` at `s'`: there is one
rule for each place of the grammar where a production is called, with the tests that it stands behind and with what was
read before it. The loop of a block is `Parse.Turns`.

A parser has no way to recover, so what a called production refuses is refused by its caller, in the same words and at
the same place (**`Parse.Calls.refusal`**). And calls inside each other come to an end: each of them has fewer tokens
ahead or a lower rank than its caller, and the one call that goes up in rank has two tokens behind it
(**`Parse.Calls.weight_lt`**).
-/

namespace FrontEnd

namespace Parse

variable {α β : Type} {s s' s₁ s₂ s₃ : Stream} {r : Refusal} {x : Node} {xs : List Node}

theorem bind_of_error {p : Parse α} {f : α → Parse β} (h : p s = (.error r, s')) : (p >>= f) s = (.error r, s') := by
  rw [bind_apply, h]

theorem spanned_of_error {p : Parse (Option Span → Node)} (h : p s = (.error r, s')) :
    spanned p s = (.error r, s') := by
  rw [spanned, h]

/-! ## The loop of a block -/

/-- The loop of a block, begun at the first stream, has read these statements and come to the second. -/
inductive Turns : Stream → List Node → Stream → Prop
  | nil (s : Stream) : Turns s [] s
  | cons {s s₁ s' : Stream} {x : Node} {xs : List Node} : s.peek.isEnd = false → statement s = (.ok x, s₁) →
      Turns s₁ xs s' → Turns s (x :: xs) s'

theorem Turns.onward (h : Turns s xs s') : s.Onward s' := by
  induction h with
  | nil s => exact .refl s
  | cons _ hx _ ih => exact (moves_statement.of_ok hx).trans ih

/-- The loop ends at an end of input. -/
theorem Turns.statements_of_end (h : Turns s xs s') (hend : s'.peek.isEnd = true) : statements s = (.ok xs, s') := by
  induction h with
  | nil s => exact Parse.statements_of_end hend
  | cons hs hx _ ih =>
    rw [statements_of_statement hs hx, bind_of_ok (ih hend)]
    rfl

/-- The loop ends at a statement that is refused. -/
theorem Turns.statements_of_refusal (h : Turns s xs s₁) (hs : s₁.peek.isEnd = false)
    (hr : statement s₁ = (.error r, s')) : statements s = (.error r, s') := by
  induction h with
  | nil s =>
    rw [congrFun statements_eq s, bind_of_ok (peek_eq_ok.2 ⟨rfl, rfl⟩), if_neg (by simp [hs])]
    exact bind_of_error hr
  | cons hs' hx _ ih =>
    rw [statements_of_statement hs' hx]
    exact bind_of_error (ih hs hr)

/-- The loop comes to its end, because every turn takes a token. -/
theorem exists_turns (s : Stream) :
    ∃ xs s₁, Turns s xs s₁ ∧ (s₁.peek.isEnd = true ∨
      s₁.peek.isEnd = false ∧ ∃ r s', statement s₁ = (.error r, s')) := by
  induction h : s.ahead.length using Nat.strongRecOn generalizing s with
  | ind N ih =>
    subst h
    cases hend : s.peek.isEnd with
    | true => exact ⟨[], s, .nil s, .inl hend⟩
    | false =>
      cases hs : statement s with
      | mk answer s' =>
        cases answer with
        | error r => exact ⟨[], s, .nil s, .inr ⟨hend, r, s', hs⟩⟩
        | ok x =>
          obtain ⟨xs, s₁, hturns, hlast⟩ := ih _ (advances_statement.lt hs) s' rfl
          exact ⟨x :: xs, s₁, .cons hend hs hturns, hlast⟩

/-! ## Calls -/

/-- The parser of the first entry, begun at the first stream, calls the parser of the second entry at the second
stream. -/
inductive Calls : Entry → Stream → Entry → Stream → Prop
  | body {s : Stream} : Calls .program s .block s
  | statement {s s₁ : Stream} {xs : List Node} : Turns s xs s₁ → s₁.peek.isEnd = false → Calls .block s .statement s₁
  | declaration {s : Stream} : s.peek.kind = .symbol → (s.look 1).kind = .colon → Calls .statement s .declaration s
  | assignment {s : Stream} : s.peek.kind = .symbol → (s.look 1).kind = .equals → Calls .statement s .assignment s
  | declaredName {s : Stream} : Calls .declaration s .symbol s
  | declaredValue {s s₁ s₂ s₃ : Stream} {name : Node} {c q : Token} : symbol s = (.ok name, s₁) →
      expect .colon s₁ = (.ok c, s₂) → expect .equals s₂ = (.ok q, s₃) → Calls .declaration s .expression s₃
  | assignedName {s : Stream} : Calls .assignment s .symbol s
  | assignedValue {s s₁ s₂ : Stream} {name : Node} {q : Token} : symbol s = (.ok name, s₁) →
      expect .equals s₁ = (.ok q, s₂) → Calls .assignment s .expression s₂
  | argument {s s₁ s₂ s₃ : Stream} {b name l : Token} : expect .backtick s = (.ok b, s₁) →
      expect .symbol s₁ = (.ok name, s₂) → expect .bracketLeft s₂ = (.ok l, s₃) → Calls .pragma s .numeral s₃
  | unary {s : Stream} : s.peek.kind = .minus ∨ s.peek.kind = .plus → Calls .expression s .unary s
  | comparison {s : Stream} : s.peek.kind = .numeric → (s.look 1).kind.comparison?.isSome = true →
      Calls .expression s .comparison s
  | binary {s : Stream} : ¬ (s.peek.kind = .minus ∨ s.peek.kind = .plus) →
      ¬ (s.peek.kind = .numeric ∧ (s.look 1).kind.comparison?.isSome = true) → s.peek.isLiteral = true →
      Calls .expression s .binary s
  | left {s : Stream} : Calls .binary s .literal s
  | right {s s₁ s₂ : Stream} {x : Node} {t : Token} {op : String} : literal s = (.ok x, s₁) →
      s₁.peek.kind.arithmetic? = some op → consume s₁ = (.ok t, s₂) → Calls .binary s .expression s₂
  | compared {s : Stream} : Calls .comparison s .numeral s
  | comparedWith {s s₁ s₂ : Stream} {x : Node} {t : Token} {op : String} : numeral s = (.ok x, s₁) →
      s₁.peek.kind.comparison? = some op → consume s₁ = (.ok t, s₂) → Calls .comparison s .numeral s₂
  | operand {s s₁ : Stream} {op : String} : unarySign s = (.ok op, s₁) → Calls .unary s .literal s₁
  | numeral {s : Stream} : s.peek.kind = .numeric → Calls .literal s .numeral s
  | truth {s : Stream} : s.peek.kind ≠ .numeric → s.peek.isTruthWord = true → Calls .literal s .truth s
  | symbol {s : Stream} : s.peek.kind ≠ .numeric → s.peek.isTruthWord = false → s.peek.kind = .symbol →
      Calls .literal s .symbol s

/-- A chain of so many calls, one inside the other, leads from the first entry to the second. -/
inductive Nested : Nat → Entry → Stream → Entry → Stream → Prop
  | refl (e : Entry) (s : Stream) : Nested 0 e s e s
  | call {k : Nat} {e e₁ e' : Entry} {s s₁ s' : Stream} : Calls e s e₁ s₁ → Nested k e₁ s₁ e' s' →
      Nested (k + 1) e s e' s'

variable {e e₁ e' : Entry} {k : Nat}

/-- A call is made where the caller is, or further on. -/
theorem Calls.onward (h : Calls e s e' s') : s.Onward s' := by
  cases h with
  | statement hturns => exact hturns.onward
  | declaredValue hname hc hq =>
    exact ((moves_symbol.of_ok hname).trans ((moves_expect _).of_ok hc)).trans ((moves_expect _).of_ok hq)
  | assignedValue hname hq => exact (moves_symbol.of_ok hname).trans ((moves_expect _).of_ok hq)
  | argument hb hname hl =>
    exact (((moves_expect _).of_ok hb).trans ((moves_expect _).of_ok hname)).trans ((moves_expect _).of_ok hl)
  | right hx _ ht => exact (moves_literal.of_ok hx).trans (moves_consume.of_ok ht)
  | comparedWith hx _ ht => exact (moves_numeral.of_ok hx).trans (moves_consume.of_ok ht)
  | operand hop => exact moves_unarySign.of_ok hop
  | _ => exact .refl s

theorem Nested.onward (h : Nested k e s e' s') : s.Onward s' := by
  induction h with
  | refl e s => exact .refl s
  | call hc _ ih => exact hc.onward.trans ih

/-- The last call of a chain. -/
theorem Nested.eq_or_last (h : Nested k e s e' s') :
    (e = e' ∧ s = s') ∨ ∃ j e₁ s₁, Nested j e s e₁ s₁ ∧ Calls e₁ s₁ e' s' := by
  induction h with
  | refl => exact .inl ⟨rfl, rfl⟩
  | @call k e e₁ e' s s₁ s' hc _ ih =>
    rcases ih with ⟨rfl, rfl⟩ | ⟨j, e₂, s₂, hchain, hlast⟩
    · exact .inr ⟨0, e, s, .refl e s, hc⟩
    · exact .inr ⟨j + 1, e₂, s₂, .call hc hchain, hlast⟩

/-! ## Refusals go up unchanged -/

/-- An operand with its sign, from the literal and the sign. -/
theorem operand_of_sign {t : Token} {op : String} (hx : literal s = (.ok x, s₁))
    (hop : s₁.peek.kind.arithmetic? = some op) (ht : consume s₁ = (.ok t, s₂)) :
    Parse.operand s = (.ok (x, some op), s₂) := by
  rw [Parse.operand, bind_of_ok hx, bind_of_ok (peek_eq_ok.2 ⟨rfl, rfl⟩), hop]
  dsimp only
  rw [bind_of_ok ht]
  rfl

/-- The literal and the sign of an operand that has one. -/
theorem operand_eq_sign {op : String} (h : operand s = (.ok (x, some op), s')) :
    ∃ s₁ t, literal s = (.ok x, s₁) ∧ s₁.peek.kind.arithmetic? = some op ∧ consume s₁ = (.ok t, s') := by
  obtain ⟨y, s₁, hy, h⟩ := bind_eq_ok.1 h
  rw [bind_of_ok (peek_eq_ok.2 ⟨rfl, rfl⟩)] at h
  cases hop : s₁.peek.kind.arithmetic? with
  | none => simp [hop, pure_apply] at h
  | some op' =>
    rw [hop] at h
    obtain ⟨t, s₂, ht, h⟩ := bind_eq_ok.1 h
    simp only [pure_apply, Prod.mk.injEq, Except.ok.injEq, Option.some.injEq] at h
    obtain ⟨⟨rfl, rfl⟩, rfl⟩ := h
    exact ⟨s₁, t, hy, hop, ht⟩

/-- **What a called production refuses, its caller refuses**, with the same refusal and at the same place. -/
theorem Calls.refusal (h : Calls e s e₁ s₁) (hr : e₁.parser s₁ = (.error r, s')) : e.parser s = (.error r, s') := by
  cases h with
  | body | declaredName | assignedName => exact spanned_of_error (bind_of_error hr)
  | statement hturns hs => exact spanned_of_error (bind_of_error (hturns.statements_of_refusal hs hr))
  | declaration hk hn => exact ((statement_eq hk).1 hn).trans hr
  | assignment hk hn => exact ((statement_eq hk).2 hn).trans hr
  | declaredValue hname hc hq =>
    refine spanned_of_error ?_
    rw [bind_of_ok hname, bind_of_ok hc, bind_of_ok hq]
    exact bind_of_error hr
  | assignedValue hname hq =>
    refine spanned_of_error ?_
    rw [bind_of_ok hname, bind_of_ok hq]
    exact bind_of_error hr
  | argument hb hname hl =>
    refine spanned_of_error ?_
    rw [bind_of_ok hb, bind_of_ok hname, bind_of_ok hl]
    exact bind_of_error hr
  | unary hk => exact (expression_eq_unary hk).trans hr
  | comparison hk hop => exact (expression_eq_comparison hk hop).trans hr
  | binary hu hc hl => exact (expression_eq_binary_of hu hc hl).trans hr
  | left =>
    show Parse.binary s = _
    rw [Parse.binary, bind_of_ok (here_eq_ok.2 ⟨rfl, rfl⟩)]
    exact bind_of_error (bind_of_error hr)
  | right hx hop ht =>
    have hoperand := operand_of_sign hx hop ht
    show Parse.binary s = _
    rw [Parse.binary, bind_of_ok (here_eq_ok.2 ⟨rfl, rfl⟩), bind_of_ok hoperand]
    exact bind_of_error hr
  | compared =>
    show Parse.comparison s = _
    rw [Parse.comparison, bind_of_ok (here_eq_ok.2 ⟨rfl, rfl⟩)]
    exact bind_of_error hr
  | comparedWith hx hop ht =>
    show Parse.comparison s = _
    rw [Parse.comparison, bind_of_ok (here_eq_ok.2 ⟨rfl, rfl⟩), bind_of_ok hx,
      bind_of_ok (peek_eq_ok.2 ⟨rfl, rfl⟩), hop]
    dsimp only
    rw [bind_of_ok ht]
    exact bind_of_error hr
  | operand hop =>
    refine spanned_of_error ?_
    rw [bind_of_ok hop]
    exact bind_of_error hr
  | numeral hk =>
    show literal s = _
    rw [literal, bind_of_ok (peek_eq_ok.2 ⟨rfl, rfl⟩), if_pos hk]
    exact hr
  | truth hk hw =>
    show literal s = _
    rw [literal, bind_of_ok (peek_eq_ok.2 ⟨rfl, rfl⟩), if_neg hk, if_pos hw]
    exact hr
  | symbol hk hw hs =>
    show literal s = _
    rw [literal, bind_of_ok (peek_eq_ok.2 ⟨rfl, rfl⟩), if_neg hk, if_neg (by simp [hw]), if_pos hs]
    exact hr

end Parse

/-! ## Calls come to an end -/

/-- How many calls deep an entry can go before it has to take a token. -/
def Entry.rank : Entry → Nat
  | program => 7
  | block => 6
  | statement => 5
  | declaration | assignment => 4
  | expression => 3
  | binary | comparison | unary => 2
  | literal | pragma => 1
  | symbol | numeral | truth => 0

namespace Stream

variable {s s' : Stream}

theorem Onward.skip (s : Stream) (n : Nat) : s.Onward (s.skip n) := by
  induction n generalizing s with
  | zero => exact .refl s
  | succ n ih =>
    cases ha : s.ahead with
    | nil => simpa [skip_nil ha] using Onward.refl s
    | cons t rest =>
      have hone : s.Onward (s.taking t rest) := ⟨1, by simp [ha], (skip_one ha).symm⟩
      rw [skip_cons ha]
      exact hone.trans (ih _)

theorem Onward.final_eq (h : s.Onward s') : s'.final = s.final := by
  obtain ⟨n, -, rfl⟩ := h
  exact final_skip s n

theorem Onward.length_le (h : s.Onward s') : s'.ahead.length ≤ s.ahead.length := by
  obtain ⟨n, -, rfl⟩ := h
  rw [ahead_skip, List.length_drop]
  omega

end Stream

namespace Parse

variable {e e' : Entry} {s s' : Stream} {k : Nat}

/-- **Calls inside each other come to an end.** The rank goes down with every call but that of the expression behind an
arithmetic sign, and there a literal and the sign were taken before. -/
theorem Calls.weight_lt (h : Calls e s e' s') : s'.ahead.length + e'.rank < s.ahead.length + e.rank := by
  have hle := h.onward.length_le
  cases h with
  | right hx _ ht =>
    have hliteral := advances_literal.lt hx
    have hsign := advances_consume.lt ht
    simp only [Entry.rank]
    omega
  | _ =>
    simp only [Entry.rank]
    omega

theorem Nested.le_weight (h : Nested k e s e' s') : k ≤ s.ahead.length + e.rank := by
  induction h with
  | refl => exact Nat.zero_le _
  | call hc _ ih =>
    have := hc.weight_lt
    omega

end Parse

end FrontEnd
