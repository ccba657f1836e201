import FrontEnd.Proofs.Grammar.Lockstep
import FrontEnd.Proofs.Grammar.Refusing

/-!
# Orderly parsers

A stream may hold ends of input before its last token, and its numerals may have no values. However a parser of the
grammar ends on it, it has taken no end of input, and a fault is about the token that the stream was left at, or, for a
statement, about the one behind its name; what the fault says of that token is true of it (`Parse.Orderly`). One lemma
for each production, and **`Entry.orderly`** for all of them. Taking a token is orderly only behind a test of its kind,
so the lemma about `Parse.consume` asks for the test, and every production has to have made it.
-/

namespace FrontEnd

theorem Token.isEnd_eq_false {t : Token} {k : Kind} (ht : t.kind = k) (hk : k ≠ .endOfFile) : t.isEnd = false := by
  rwa [isEnd, ht, beq_eq_false_iff_ne]

namespace SyntaxFault

/-- What the fault says of its token is true: it is the end of input and another kind was needed, or it is no end of
input and not of the kind that was needed. -/
def Apt : SyntaxFault → Prop
  | endOfInput expected t => t.isEnd = true ∧ ∃ k, expected = some k ∧ k ≠ .endOfFile
  | unexpectedKind expected t => t.isEnd = false ∧ t.kind ≠ expected
  | noProduction .. => True

theorem apt_mismatch {k : Kind} {t : Token} (h : t.kind ≠ k) : (mismatch k t).Apt := by
  unfold mismatch
  split
  case isTrue hend => exact ⟨by simp [Token.isEnd, hend.1], k, rfl, hend.2⟩
  case isFalse hend =>
    refine ⟨?_, h⟩
    rw [Token.isEnd, beq_eq_false_iff_ne]
    intro ht
    exact hend ⟨ht, fun hk => h (ht.trans hk.symm)⟩

end SyntaxFault

namespace Parse

variable {α β : Type} {p q : Parse α} {s : Stream} {k : Kind} {f : SyntaxFault}

/-- However `p` ends at `s`, it has taken no end of input, and a fault is apt and about the token it lags behind. -/
def Orderly (p : Parse α) (s : Stream) : Prop :=
  s.final.isEnd = true → (∃ n, s.Clear n ∧ (p s).2 = s.skip n) ∧
    ∀ f, (p s).1 = .error (.fault f) → f.Apt ∧ f.found = (p s).2.look (f.lag (p s).2)

/-! ## Sequencing -/

theorem orderly_pure (a : α) : Orderly (pure a) s :=
  fun _ => ⟨⟨0, s.clear_zero, rfl⟩, fun f h => by simp [pure_apply] at h⟩

theorem orderly_fail (hapt : f.Apt) (hfound : f.found = s.look (f.lag s)) : Orderly (fail f : Parse α) s := by
  refine fun _ => ⟨⟨0, s.clear_zero, rfl⟩, fun g h => ?_⟩
  obtain rfl : f = g := by simpa [fail] using h
  exact ⟨hapt, hfound⟩

/-- A token of the wrong kind. -/
theorem orderly_mismatch (h : s.peek.kind ≠ k) : Orderly (fail (.mismatch k s.peek) : Parse α) s :=
  orderly_fail (SyntaxFault.apt_mismatch h) (by simp [Stream.peek])

/-- A token that begins no form of a production. -/
theorem orderly_noProduction {production : String} {forms : List String} (h : production ≠ "statement") :
    Orderly (fail (.noProduction production s.peek forms) : Parse α) s :=
  orderly_fail trivial (by simp [SyntaxFault.lag, SyntaxFault.found, Stream.peek, h])

theorem orderly_consume (h : s.peek.isEnd = false) : Orderly consume s := by
  intro hf
  have hlt := Stream.lt_of_look hf h
  rw [consume_apply hf h]
  refine ⟨⟨1, ⟨hlt, fun i hi => ?_⟩, rfl⟩, fun f hx => by simp at hx⟩
  obtain rfl : i = 0 := by omega
  exact h

/-- What follows is orderly wherever the first parser leads. -/
theorem Orderly.bind {g : α → Parse β} (hp : Orderly p s) (hg : ∀ {a s'}, p s = (.ok a, s') → Orderly (g a) s') :
    Orderly (p >>= g) s := by
  intro hf
  obtain ⟨⟨m, hm, hs⟩, hfault⟩ := hp hf
  unfold Orderly at hg
  rw [bind_apply]
  cases hps : p s with
  | mk r s₁ =>
    rw [hps] at hs hfault
    obtain rfl : s₁ = s.skip m := hs
    cases r with
    | error e => exact ⟨⟨m, hm, rfl⟩, fun f hx => hfault f (by simpa using hx)⟩
    | ok a =>
      obtain ⟨⟨n, hn, hs'⟩, hfault'⟩ := hg hps (by rw [Stream.final_skip, hf])
      exact ⟨⟨m + n, hm.append hn, by rw [hs', Stream.skip_skip]⟩, hfault'⟩

/-- What follows a look at the current token may rely on it. -/
theorem orderly_peek {g : Token → Parse β} (h : Orderly (g s.peek) s) : Orderly (peek >>= g) s := h

theorem orderly_peekNext {g : Token → Parse β} (h : Orderly (g (s.look 1)) s) : Orderly (peekNext >>= g) s := h

theorem orderly_here {g : Stream → Parse β} (h : Orderly (g s) s) : Orderly (here >>= g) s := h

theorem Orderly.ite {c : Prop} [Decidable c] (hp : c → Orderly p s) (hq : ¬ c → Orderly q s) :
    Orderly (if c then p else q) s := by
  split
  · next h => exact hp h
  · next h => exact hq h

theorem orderly_expect (hk : k ≠ .endOfFile) : Orderly (expect k) s :=
  orderly_peek (.ite (fun h => orderly_consume (Token.isEnd_eq_false h hk)) orderly_mismatch)

theorem Orderly.spanned {p : Parse (Option Span → Node)} (hp : Orderly p s) : Orderly (spanned p) s := by
  intro hf
  obtain ⟨hclear, hfault⟩ := hp hf
  unfold Parse.spanned
  cases hps : p s with
  | mk r s' =>
    rw [hps] at hclear hfault
    cases r with
    | ok F => exact ⟨hclear, fun f hx => by simp at hx⟩
    | error e => exact ⟨hclear, fun f hx => hfault f (by simpa using hx)⟩

/-! ## Literals -/

theorem orderly_symbol : Orderly symbol s :=
  ((orderly_expect (by decide)).bind fun _ => orderly_pure _).spanned

/-- A numeral that cannot be read is taken, and is no fault of the text. -/
theorem orderly_valueOf (t : Token) : Orderly (valueOf t) s := by
  intro _
  rw [valueOf_apply]
  exact ⟨⟨0, s.clear_zero, rfl⟩, fun f h => absurd h reading_ne_fault⟩

theorem orderly_numeral : Orderly numeral s :=
  ((orderly_expect (by decide)).bind fun {t _} _ => (orderly_valueOf t).bind fun _ => orderly_pure _).spanned

theorem orderly_truth : Orderly truth s := by
  refine (orderly_peek (.ite (fun hw => ?_) fun hw => orderly_mismatch ?_)).spanned
  · split
    · exact (orderly_consume (isEnd_of_isWord hw)).bind fun _ => orderly_pure _
    · exact orderly_noProduction (by decide)
  · intro hk
    simp [Token.isWord, hk] at hw

theorem orderly_literal : Orderly literal s :=
  orderly_peek (.ite (fun _ => orderly_numeral) fun _ => .ite (fun _ => orderly_truth) fun _ =>
    .ite (fun _ => orderly_symbol) fun _ => orderly_noProduction (by decide))

/-! ## Expressions -/

theorem orderly_unarySign : Orderly unarySign s := by
  have sign {s : Stream} {k : Kind} (h : s.peek.kind = k) (hk : k ≠ .endOfFile) : Orderly consume s :=
    orderly_consume (Token.isEnd_eq_false h hk)
  refine orderly_peek (.ite (fun hm => ?_) fun _ => .ite (fun hp => ?_) fun _ => orderly_noProduction (by decide))
  · refine (sign hm (by decide)).bind fun _ => orderly_peek (.ite (fun h => ?_) fun _ => ?_)
    · exact (sign h.1 (by decide)).bind fun _ => orderly_pure _
    · exact orderly_pure _
  · refine (sign hp (by decide)).bind fun _ => orderly_peek (.ite orderly_mismatch fun h => ?_)
    refine .ite (fun _ => orderly_noProduction (by decide)) fun _ => ?_
    exact (sign (Decidable.not_not.1 h) (by decide)).bind fun _ => orderly_pure _

theorem orderly_unary : Orderly unary s :=
  (orderly_unarySign.bind fun _ => orderly_literal.bind fun _ => orderly_pure _).spanned

theorem orderly_comparison : Orderly comparison s := by
  refine orderly_here (orderly_numeral.bind fun {_ s'} _ => orderly_peek ?_)
  cases hop : s'.peek.kind.comparison? with
  | none => exact orderly_pure _
  | some op =>
    exact (orderly_consume (isEnd_of_comparison hop)).bind fun _ => orderly_numeral.bind fun _ =>
      orderly_here (orderly_pure _)

theorem orderly_operand : Orderly operand s := by
  refine orderly_literal.bind fun {_ s'} _ => orderly_peek ?_
  cases hop : s'.peek.kind.arithmetic? with
  | none => exact orderly_pure _
  | some op => exact (orderly_consume (isEnd_of_arithmetic hop)).bind fun _ => orderly_pure _

/-- The expression behind an operand and its sign. -/
theorem orderly_binary_of (ih : ∀ {s' : Stream}, s'.ahead.length < s.ahead.length → Orderly expression s') :
    Orderly binary s := by
  refine orderly_here (orderly_operand.bind fun {x s'} hs => ?_)
  obtain ⟨left, op?⟩ := x
  cases op? with
  | none => exact orderly_pure _
  | some op => exact (ih (advances_operand.lt hs)).bind fun _ => orderly_here (orderly_pure _)

/-- The induction is on the tokens ahead, of which the expression behind a sign has fewer. -/
theorem orderly_expression : Orderly expression s := by
  induction h : s.ahead.length using Nat.strongRecOn generalizing s with
  | ind N ih =>
    subst h
    rw [expression_eq]
    refine orderly_peek (orderly_peekNext (.ite (fun _ => orderly_unary) fun _ => .ite (fun _ => orderly_comparison)
      fun _ => .ite (fun _ => ?_) fun _ => orderly_noProduction (by decide)))
    exact orderly_binary_of fun hlt => ih _ hlt rfl

theorem orderly_binary : Orderly binary s :=
  orderly_binary_of fun _ => orderly_expression

/-! ## Statements and programs -/

theorem orderly_declaration : Orderly declaration s :=
  (orderly_symbol.bind fun _ => (orderly_expect (by decide)).bind fun _ => (orderly_expect (by decide)).bind fun _ =>
    orderly_expression.bind fun _ => (orderly_expect (by decide)).bind fun _ => orderly_pure _).spanned

theorem orderly_assignment : Orderly assignment s :=
  (orderly_symbol.bind fun _ => (orderly_expect (by decide)).bind fun _ => orderly_expression.bind fun _ =>
    (orderly_expect (by decide)).bind fun _ => orderly_pure _).spanned

theorem orderly_pragma : Orderly pragma s :=
  ((orderly_expect (by decide)).bind fun _ => (orderly_expect (by decide)).bind fun _ =>
    (orderly_expect (by decide)).bind fun _ => orderly_numeral.bind fun _ => (orderly_expect (by decide)).bind fun _ =>
    (orderly_expect (by decide)).bind fun _ => orderly_pure _).spanned

/-- The only fault about the token behind the one that the stream was left at. -/
theorem orderly_statement : Orderly statement s := by
  refine orderly_peek (orderly_peekNext (.ite (fun hk => ?_) fun hk => ?_))
  · refine .ite (fun _ => orderly_declaration) fun _ => .ite (fun _ => orderly_assignment) fun _ => ?_
    exact orderly_fail trivial (by simp [SyntaxFault.lag, SyntaxFault.found, hk])
  · refine orderly_fail trivial ?_
    simp only [SyntaxFault.lag, SyntaxFault.found, hk, and_false, if_false]
    rfl

theorem orderly_statements : Orderly statements s := by
  induction h : s.ahead.length using Nat.strongRecOn generalizing s with
  | ind N ih =>
    subst h
    rw [statements_eq]
    refine orderly_peek (.ite (fun _ => orderly_pure _) fun _ => orderly_statement.bind fun {_ s'} hs => ?_)
    exact (ih s'.ahead.length (advances_statement.lt hs) rfl).bind fun _ => orderly_pure _

theorem orderly_block : Orderly block s :=
  (orderly_statements.bind fun _ => orderly_pure _).spanned

theorem orderly_program : Orderly program s :=
  (orderly_block.bind fun _ => orderly_pure _).spanned

end Parse

namespace Entry

open Parse

variable {s : Stream}

/-- **Parsers are orderly**: whatever the stream holds, no end of input is taken, and faults are apt and about the token
that reading came to. -/
theorem orderly : ∀ e : Entry, Orderly e.parser s
  | program => orderly_program
  | block => orderly_block
  | statement => orderly_statement
  | declaration => orderly_declaration
  | assignment => orderly_assignment
  | pragma => orderly_pragma
  | expression => orderly_expression
  | binary => orderly_binary
  | comparison => orderly_comparison
  | unary => orderly_unary
  | literal => orderly_literal
  | symbol => orderly_symbol
  | numeral => orderly_numeral
  | truth => orderly_truth

/-- So is reading a whole entry, where a token that is left over is another one than the end of input. -/
theorem parse_orderly (e : Entry) (allowTrailing : Bool) : Orderly (e.parse allowTrailing) s := by
  refine e.orderly.bind fun _ => orderly_peek (.ite (fun _ => orderly_pure _) fun h => orderly_mismatch ?_)
  intro hk
  simp [Token.isEnd, hk] at h

end Entry

end FrontEnd
