import FrontEnd.Proofs.Grammar.Soundness
import FrontEnd.Proofs.Grammar.Tracking
import FrontEnd.Proofs.Grammar.Viable

/-!
# Where parsers refuse

A parser that refuses has taken tokens that fit so far: up to the offending token they are viable for its entry
(`Refused`). One lemma for each production, and **`Entry.parse_refused`** for reading a whole entry, where a token that
is left over is refused as well.
-/

namespace FrontEnd

theorem Derives.eq_block {ts : List Token} {n : Node} (h : Derives .block ts n) : ∃ xs sp, n = .block xs sp := by
  cases h with
  | blockNil | blockCons => exact ⟨_, _, rfl⟩

/-! ## Faults -/

namespace SyntaxFault

variable {k : Kind} {t : Token} {s : Stream}

@[simp]
theorem found_mismatch : (mismatch k t).found = t := by
  unfold mismatch
  split <;> rfl

@[simp]
theorem lag_mismatch : (mismatch k t).lag s = 0 := by
  unfold mismatch
  split <;> rfl

theorem lag_le (g : SyntaxFault) (hf : s.final.isEnd = true) : g.lag s ≤ s.ahead.length := by
  unfold lag
  split
  · split
    · next h =>
      have hkind : (s.look 0).kind = .symbol := h.2
      exact Stream.lt_of_look hf (by simp [Token.isEnd, hkind])
    · exact Nat.zero_le _
  · exact Nat.zero_le _

end SyntaxFault

namespace Parse

variable {α β : Type} {s s' s'' : Stream} {f g : SyntaxFault}

theorem bind_eq_fault {p : Parse α} {q : α → Parse β} (h : (p >>= q) s = (.error (.fault g), s'')) :
    p s = (.error (.fault g), s'') ∨ ∃ a s', p s = (.ok a, s') ∧ q a s' = (.error (.fault g), s'') := by
  rw [bind_apply] at h
  split at h
  · next a s' hp => exact .inr ⟨a, s', hp, h⟩
  · next e s' hp =>
    obtain ⟨he, rfl⟩ := Prod.mk.inj h
    exact .inl (by rw [hp, Except.error.inj he])

theorem spanned_eq_fault {p : Parse (Option Span → Node)} (h : spanned p s = (.error (.fault g), s')) :
    p s = (.error (.fault g), s') := by
  unfold spanned at h
  split at h <;> simp_all

theorem pure_ne_fault {a : α} : (pure a : Parse α) s ≠ (.error (.fault g), s') := by
  simp [pure_apply]

/-! ## Refusing the current token -/

/-- Nothing was taken, and the fault is about the current token. -/
structure Stopped (s s' : Stream) (g : SyntaxFault) : Prop where
  stay : s' = s
  found : g.found = s.peek
  lag : g.lag s = 0

theorem fail_stopped (hf : f.found = s.peek) (hl : f.lag s = 0)
    (h : (fail f : Parse α) s = (.error (.fault g), s')) : Stopped s s' g := by
  simp only [fail, Prod.mk.injEq, Except.error.injEq, Refusal.fault.injEq] at h
  obtain ⟨rfl, rfl⟩ := h
  exact ⟨rfl, hf, hl⟩

theorem consume_stopped (h : consume s = (.error (.fault g), s')) : Stopped s s' g := by
  unfold consume at h
  split at h
  · next ha =>
    refine fail_stopped (α := Token) ?_ rfl h
    simp [SyntaxFault.found, Stream.peek, Stream.look, ha]
  · simp at h

theorem expect_stopped {k : Kind} (h : expect k s = (.error (.fault g), s')) : Stopped s s' g := by
  simp only [expect, bind_apply, peek_apply, ite_apply] at h
  split at h
  · exact consume_stopped h
  · exact fail_stopped SyntaxFault.found_mismatch SyntaxFault.lag_mismatch h

theorem symbol_stopped (h : symbol s = (.error (.fault g), s')) : Stopped s s' g := by
  obtain h | ⟨t, s₁, _, h⟩ := bind_eq_fault (spanned_eq_fault h)
  · exact expect_stopped h
  · exact absurd h pure_ne_fault

theorem numeral_stopped (h : numeral s = (.error (.fault g), s')) : Stopped s s' g := by
  obtain h | ⟨t, s₁, _, h⟩ := bind_eq_fault (spanned_eq_fault h)
  · exact expect_stopped h
  · obtain h | ⟨v, s₂, _, h⟩ := bind_eq_fault h
    · rw [valueOf_apply] at h
      exact absurd (Prod.mk.inj h).1 reading_ne_fault
    · exact absurd h pure_ne_fault

theorem truth_stopped (h : truth s = (.error (.fault g), s')) : Stopped s s' g := by
  have h := spanned_eq_fault h
  simp only [bind_apply, peek_apply, ite_apply] at h
  split at h
  case isTrue =>
    cases hb : truthValue? s.peek.text with
    | none =>
      rw [hb] at h
      exact fail_stopped rfl (by simp [SyntaxFault.lag]) h
    | some b =>
      rw [hb] at h
      obtain h | ⟨t, s₁, _, h⟩ := bind_eq_fault h
      · exact consume_stopped h
      · exact absurd h pure_ne_fault
  case isFalse => exact fail_stopped SyntaxFault.found_mismatch SyntaxFault.lag_mismatch h

theorem literal_stopped (h : literal s = (.error (.fault g), s')) : Stopped s s' g := by
  simp only [literal, bind_apply, peek_apply, ite_apply] at h
  split at h
  · exact numeral_stopped h
  · split at h
    · exact truth_stopped h
    · split at h
      · exact symbol_stopped h
      · exact fail_stopped rfl (by simp [SyntaxFault.lag]) h

/-! ## Refusing a later token -/

/-- Some tokens were taken, and the tokens before the offending one are viable. -/
def Refused (lx : Lexicon) (e : Entry) (s s' : Stream) (g : SyntaxFault) : Prop :=
  ∃ ts, s.Takes ts s' ∧ g.found = s'.look (g.lag s') ∧ Viable lx e (ts ++ s'.ahead.take (g.lag s'))

variable {lx : Lexicon} {e e' : Entry} {ts : List Token}

/-- The token after those that were taken is refused. -/
theorem Stopped.refused (h : Stopped s s' g) {s₀ : Stream} (ht : s₀.Takes ts s) (hv : Viable lx e ts) :
    Refused lx e s₀ s' g := by
  obtain ⟨rfl, hfound, hlag⟩ := h
  exact ⟨ts, ht, by rw [hlag, hfound, Stream.peek], by simpa [hlag] using hv⟩

/-- A part is refused behind tokens that were taken. -/
theorem Refused.sub (h : Refused lx e' s s' g) {s₀ : Stream} (ht : s₀.Takes ts s)
    (hd : ∀ {us n}, Derives e' us n → Viable lx e (ts ++ us)) : Refused lx e s₀ s' g := by
  obtain ⟨us, hu, hfound, hv⟩ := h
  exact ⟨ts ++ us, ht.append hu, hfound, by simpa using hv.sub hd⟩

theorem Refused.wrap (h : Refused lx e' s s' g) (hd : ∀ {us n}, Derives e' us n → ∃ n', Derives e us n') :
    Refused lx e s s' g :=
  h.sub (.nil s) fun hn =>
    let ⟨_, hn'⟩ := hd hn
    .of_derives hn'

theorem unarySign_refused (h : unarySign s = (.error (.fault g), s')) : Refused lx .unary s s' g := by
  rw [unarySign, bind_of_ok (peek_eq_ok.2 ⟨rfl, rfl⟩), ite_apply] at h
  split at h
  case isTrue hm =>
    obtain h | ⟨t, s₁, ht, h⟩ := bind_eq_fault h
    · exact (consume_stopped h).refused (.nil s) .unary_nil
    obtain ⟨rest, ha, rfl⟩ := consume_eq_ok.1 ht
    rw [Stream.peek_eq ha] at hm
    rw [bind_of_ok (peek_eq_ok.2 ⟨rfl, rfl⟩), ite_apply] at h
    split at h
    · obtain h | ⟨u, s₂, _, h⟩ := bind_eq_fault h
      · exact (consume_stopped h).refused (.one ha) (.minus hm)
      · exact absurd h pure_ne_fault
    · exact absurd h pure_ne_fault
  case isFalse =>
    rw [ite_apply] at h
    split at h
    case isFalse => exact (fail_stopped rfl (by simp [SyntaxFault.lag]) h).refused (.nil s) .unary_nil
    case isTrue hp =>
      obtain h | ⟨t, s₁, ht, h⟩ := bind_eq_fault h
      · exact (consume_stopped h).refused (.nil s) .unary_nil
      obtain ⟨rest, ha, rfl⟩ := consume_eq_ok.1 ht
      rw [Stream.peek_eq ha] at hp
      -- whatever is wrong with the second token, a plus sign that touches the first would have done
      suffices hstop : Stopped (s.taking t rest) s' g from hstop.refused (.one ha) (.plus hp)
      rw [bind_of_ok (peek_eq_ok.2 ⟨rfl, rfl⟩), ite_apply] at h
      split at h
      · exact fail_stopped SyntaxFault.found_mismatch SyntaxFault.lag_mismatch h
      · rw [ite_apply] at h
        split at h
        · exact fail_stopped rfl (by simp [SyntaxFault.lag]) h
        · obtain h | ⟨u, s₂, _, h⟩ := bind_eq_fault h
          · exact consume_stopped h
          · exact absurd h pure_ne_fault

theorem unary_refused (h : unary s = (.error (.fault g), s')) : Refused lx .unary s s' g := by
  obtain h | ⟨op, s₁, hop, h⟩ := bind_eq_fault (spanned_eq_fault h)
  · exact unarySign_refused h
  · obtain ⟨ts, ht, hd⟩ := unarySign_derives hop
    obtain h | ⟨x, s₂, hx, h⟩ := bind_eq_fault h
    · refine (literal_stopped h).refused ht (Viable.literal_nil.next fun hx => ?_)
      exact .of_derives (n := .unary op _ none) (hd hx)
    · exact absurd h pure_ne_fault

theorem comparison_refused (hs : s.Valued) (h : comparison s = (.error (.fault g), s')) :
    Refused lx .comparison s s' g := by
  rw [comparison, bind_of_ok (here_eq_ok.2 ⟨rfl, rfl⟩)] at h
  obtain h | ⟨x, s₁, hx, h⟩ := bind_eq_fault h
  · exact (numeral_stopped h).refused (.nil s) .comparison_nil
  obtain ⟨ts, ht, hx⟩ := numeral_derives hs hx
  rw [bind_of_ok (peek_eq_ok.2 ⟨rfl, rfl⟩)] at h
  cases hop : s₁.peek.kind.comparison? with
  | none =>
    rw [hop] at h
    exact absurd h pure_ne_fault
  | some op =>
    rw [hop] at h
    obtain h | ⟨t, s₂, hc, h⟩ := bind_eq_fault h
    · exact (consume_stopped h).refused ht (.of_derives (.comparisonNumeral hx))
    obtain ⟨rest, ha, rfl⟩ := consume_eq_ok.1 hc
    rw [Stream.peek_eq ha] at hop
    obtain h | ⟨y, s₃, hy, h⟩ := bind_eq_fault h
    · refine (numeral_stopped h).refused (ht.append (.one ha)) (Viable.numeral_nil.next fun hy => ?_)
      exact .of_derives (n := .comparison x op _ none) (by simpa using .comparison hx hop hy)
    · rw [bind_of_ok (here_eq_ok.2 ⟨rfl, rfl⟩)] at h
      exact absurd h pure_ne_fault

theorem operand_refused (hs : s.Valued) (h : operand s = (.error (.fault g), s')) : Refused lx .binary s s' g := by
  obtain h | ⟨x, s₁, hx, h⟩ := bind_eq_fault h
  · exact (literal_stopped h).refused (.nil s) .binary_nil
  obtain ⟨ts, ht, hx⟩ := literal_derives hs hx
  rw [bind_of_ok (peek_eq_ok.2 ⟨rfl, rfl⟩)] at h
  cases hop : s₁.peek.kind.arithmetic? with
  | none =>
    rw [hop] at h
    exact absurd h pure_ne_fault
  | some op =>
    rw [hop] at h
    obtain h | ⟨t, s₂, _, h⟩ := bind_eq_fault h
    · exact (consume_stopped h).refused ht (.of_derives (.binaryLiteral hx))
    · exact absurd h pure_ne_fault

/-- The expression behind an operand and its sign is refused. -/
theorem Refused.behind_operand {s₁ : Stream} {left : Node} {op : String} (hs : s.Valued)
    (ho : operand s = (.ok (left, some op), s₁)) (h : s₁.Valued → Refused lx .expression s₁ s' g) :
    Refused lx .binary s s' g := by
  obtain ⟨hc, _⟩ | ⟨ts, t, _, hc, ht, hx, hop⟩ := operand_derives hs ho
  · cases hc
  · cases hc
    refine (h (hs.of_takes ht)).sub ht fun {us y} hy => .of_derives (n := .binary left op y none) ?_
    simpa using .binary hx hop hy

/-- The induction is on the tokens ahead: the expression behind an arithmetic sign has fewer of them. -/
theorem expression_refused (hs : s.Valued) (h : expression s = (.error (.fault g), s')) :
    Refused lx .expression s s' g := by
  fun_induction expression s generalizing s' with
  | case1 s _ => exact (unary_refused h).wrap fun hd => ⟨_, .expressionUnary hd⟩
  | case2 s _ _ => exact (comparison_refused hs h).wrap fun hd => ⟨_, .expressionComparison hd⟩
  | case3 s _ _ _ e s₁ ho =>
    cases h
    exact (operand_refused hs ho).wrap fun hd => ⟨_, .expressionBinary hd⟩
  | case4 | case6 => simp at h
  | case5 s _ _ _ left op s₁ ho _ e s₂ he ih =>
    exact (Refused.behind_operand hs ho fun hs₁ => ih hs₁ (he.trans h)).wrap fun hd => ⟨_, .expressionBinary hd⟩
  | case7 s => exact (fail_stopped rfl (by simp [SyntaxFault.lag]) h).refused (.nil s) .expression_nil

theorem binary_refused (hs : s.Valued) (h : binary s = (.error (.fault g), s')) : Refused lx .binary s s' g := by
  rw [binary, bind_of_ok (here_eq_ok.2 ⟨rfl, rfl⟩)] at h
  obtain h | ⟨⟨x, op?⟩, s₁, ho, h⟩ := bind_eq_fault h
  · exact operand_refused hs h
  cases op? with
  | none => exact absurd h pure_ne_fault
  | some op =>
    obtain h | ⟨y, s₂, _, h⟩ := bind_eq_fault h
    · exact .behind_operand hs ho fun hs₁ => expression_refused hs₁ h
    · rw [bind_of_ok (here_eq_ok.2 ⟨rfl, rfl⟩)] at h
      exact absurd h pure_ne_fault

/-! ## Statements and programs -/

theorem declaration_refused (hs : s.Valued) (h : declaration s = (.error (.fault g), s')) :
    Refused lx .declaration s s' g := by
  obtain h | ⟨i, s₁, ei, h⟩ := bind_eq_fault (spanned_eq_fault h)
  · exact (symbol_stopped h).refused (.nil s) .declaration_nil
  obtain ⟨t, rest, ha, rfl, hi⟩ := symbol_derives ei
  obtain h | ⟨c, s₂, ec, h⟩ := bind_eq_fault h
  · exact (expect_stopped h).refused (.one ha) (.declaration_colon hi)
  obtain ⟨rest₂, ha₂, hc, rfl⟩ := expect_eq_ok.1 ec
  obtain h | ⟨q, s₃, eq, h⟩ := bind_eq_fault h
  · exact (expect_stopped h).refused (.cons ha (.one ha₂)) (.declaration_equals hi hc)
  obtain ⟨rest₃, ha₃, hq, rfl⟩ := expect_eq_ok.1 eq
  have ht := Stream.Takes.cons ha (.cons ha₂ (.one ha₃))
  obtain h | ⟨x, s₄, ex, h⟩ := bind_eq_fault h
  · exact (expression_refused (hs.of_takes ht) h).sub ht fun hx => .declaration_dot hi hc hq hx
  obtain ⟨us, hu, hx⟩ := expression_derives (hs.of_takes ht) ex
  obtain h | ⟨d, s₅, _, h⟩ := bind_eq_fault h
  · exact (expect_stopped h).refused (ht.append hu) (.declaration_dot hi hc hq hx)
  · exact absurd h pure_ne_fault

theorem assignment_refused (hs : s.Valued) (h : assignment s = (.error (.fault g), s')) :
    Refused lx .assignment s s' g := by
  obtain h | ⟨i, s₁, ei, h⟩ := bind_eq_fault (spanned_eq_fault h)
  · exact (symbol_stopped h).refused (.nil s) .assignment_nil
  obtain ⟨t, rest, ha, rfl, hi⟩ := symbol_derives ei
  obtain h | ⟨q, s₂, eq, h⟩ := bind_eq_fault h
  · exact (expect_stopped h).refused (.one ha) (.assignment_equals hi)
  obtain ⟨rest₂, ha₂, hq, rfl⟩ := expect_eq_ok.1 eq
  have ht := Stream.Takes.cons ha (.one ha₂)
  obtain h | ⟨x, s₃, ex, h⟩ := bind_eq_fault h
  · exact (expression_refused (hs.of_takes ht) h).sub ht fun hx => .assignment_dot hi hq hx
  obtain ⟨us, hu, hx⟩ := expression_derives (hs.of_takes ht) ex
  obtain h | ⟨d, s₄, _, h⟩ := bind_eq_fault h
  · exact (expect_stopped h).refused (ht.append hu) (.assignment_dot hi hq hx)
  · exact absurd h pure_ne_fault

theorem pragma_refused (hs : s.Valued) (h : pragma s = (.error (.fault g), s')) : Refused lx .pragma s s' g := by
  obtain h | ⟨b, s₁, eb, h⟩ := bind_eq_fault (spanned_eq_fault h)
  · exact (expect_stopped h).refused (.nil s) .pragma_nil
  obtain ⟨rest₁, ha₁, hb, rfl⟩ := expect_eq_ok.1 eb
  obtain h | ⟨t, s₂, en, h⟩ := bind_eq_fault h
  · exact (expect_stopped h).refused (.one ha₁) (.pragma_name hb)
  obtain ⟨rest₂, ha₂, hn, rfl⟩ := expect_eq_ok.1 en
  obtain h | ⟨l, s₃, el, h⟩ := bind_eq_fault h
  · exact (expect_stopped h).refused (.cons ha₁ (.one ha₂)) (.pragma_left hb hn)
  obtain ⟨rest₃, ha₃, hl, rfl⟩ := expect_eq_ok.1 el
  have ht := Stream.Takes.cons ha₁ (.cons ha₂ (.one ha₃))
  obtain h | ⟨x, s₄, ex, h⟩ := bind_eq_fault h
  · exact (numeral_stopped h).refused ht (.pragma_argument hb hn hl)
  obtain ⟨us, hu, hx⟩ := numeral_derives (hs.of_takes ht) ex
  obtain h | ⟨r, s₅, er, h⟩ := bind_eq_fault h
  · exact (expect_stopped h).refused (ht.append hu) (.pragma_right hb hn hl hx)
  obtain ⟨rest₅, ha₅, hr, rfl⟩ := expect_eq_ok.1 er
  obtain h | ⟨b', s₆, _, h⟩ := bind_eq_fault h
  · exact (expect_stopped h).refused (ht.append (hu.append (.one ha₅))) (.pragma_close hb hn hl hx hr)
  · exact absurd h pure_ne_fault

/-- Only here the offending token is the one after the current token: the name that begins a statement was not taken
when the token behind it is refused. -/
theorem statement_refused (hs : s.Valued) (hf : s.final.isEnd = true) (h : statement s = (.error (.fault g), s')) :
    Refused lx .statement s s' g := by
  simp only [statement, bind_apply, peek_apply, peekNext_apply, ite_apply] at h
  split at h
  case isFalse hk =>
    exact (fail_stopped rfl (by simp [SyntaxFault.lag, hk]) h).refused (.nil s) .statement_nil
  case isTrue hk =>
    split at h
    case isTrue => exact (declaration_refused hs h).wrap fun hd => ⟨_, .statementDeclaration hd⟩
    case isFalse =>
      split at h
      case isTrue => exact (assignment_refused hs h).wrap fun hd => ⟨_, .statementAssignment hd⟩
      case isFalse =>
        simp only [fail, Prod.mk.injEq, Except.error.injEq, Refusal.fault.injEq] at h
        obtain ⟨rfl, rfl⟩ := h
        obtain ⟨rest, ha⟩ := Stream.exists_ahead hf (by simp [Token.isEnd, hk])
        refine ⟨[], .nil s, ?_, ?_⟩
        · simp [SyntaxFault.lag, SyntaxFault.found, hk]
        · rw [show SyntaxFault.lag s _ = 1 by simp [SyntaxFault.lag, hk], ha]
          exact .statement_sign (n := .symbol _ none) (.symbol hk)

theorem statements_refused (hs : s.Valued) (hf : s.final.isEnd = true) (h : statements s = (.error (.fault g), s')) :
    Refused lx .block s s' g := by
  fun_induction statements s generalizing s' with
  | case1 | case4 => simp at h
  | case2 s _ e s₁ hx =>
    cases h
    refine (statement_refused hs hf hx).wrap fun {us y} hd => ⟨.block [y] none, ?_⟩
    simpa using hd.blockCons (Derives.blockNil : Derives .block [] (.block [] none))
  | case3 s _ x s₁ hx _ e s₂ hxs ih =>
    obtain ⟨ts, ht, hx⟩ := statement_derives hs hx
    refine (ih (hs.of_takes ht) (by rw [ht.final_eq, hf]) (hxs.trans h)).sub ht fun hd => ?_
    obtain ⟨xs, sp, rfl⟩ := hd.eq_block
    exact .of_derives (n := .block (x :: xs) none) (.blockCons hx hd)

theorem block_refused (hs : s.Valued) (hf : s.final.isEnd = true) (h : block s = (.error (.fault g), s')) :
    Refused lx .block s s' g := by
  obtain h | ⟨xs, s₁, _, h⟩ := bind_eq_fault (spanned_eq_fault h)
  · exact statements_refused hs hf h
  · exact absurd h pure_ne_fault

theorem program_refused (hs : s.Valued) (hf : s.final.isEnd = true) (h : program s = (.error (.fault g), s')) :
    Refused lx .program s s' g := by
  obtain h | ⟨x, s₁, _, h⟩ := bind_eq_fault (spanned_eq_fault h)
  · exact (block_refused hs hf h).wrap fun hd => ⟨.program _ none, .program hd⟩
  · exact absurd h pure_ne_fault

end Parse

namespace Entry

open Parse

variable {lx : Lexicon} {s s' : Stream} {g : SyntaxFault}

/-- The tokens before the one that the parser of an entry refuses are viable for the entry. -/
theorem parser_refused (hs : s.Valued) (hf : s.final.isEnd = true) :
    ∀ {e : Entry}, e.parser s = (.error (.fault g), s') → Refused lx e s s' g
  | .program, h => program_refused hs hf h
  | .block, h => block_refused hs hf h
  | .statement, h => statement_refused hs hf h
  | .declaration, h => declaration_refused hs h
  | .assignment, h => assignment_refused hs h
  | .pragma, h => pragma_refused hs h
  | .expression, h => expression_refused hs h
  | .binary, h => binary_refused hs h
  | .comparison, h => comparison_refused hs h
  | .unary, h => unary_refused h
  | .literal, h => (literal_stopped h).refused (.nil s) .literal_nil
  | .symbol, h => (symbol_stopped h).refused (.nil s) .symbol_nil
  | .numeral, h => (numeral_stopped h).refused (.nil s) .numeral_nil
  | .truth, h => (truth_stopped h).refused (.nil s) .truth_nil

/-- **Refused tokens**: when a whole entry is refused, the tokens before the offending one are viable for it. -/
theorem parse_refused {e : Entry} (hs : s.Valued) (hf : s.final.isEnd = true)
    (h : e.parse false s = (.error (.fault g), s')) : Refused lx e s s' g := by
  obtain h | ⟨n, s₁, hn, h⟩ := bind_eq_fault h
  · exact parser_refused hs hf h
  · obtain ⟨ts, ht, hd⟩ := parser_derives hs hn
    rw [bind_of_ok (peek_eq_ok.2 ⟨rfl, rfl⟩), Parse.ite_apply] at h
    split at h
    · exact absurd h pure_ne_fault
    · exact (fail_stopped SyntaxFault.found_mismatch SyntaxFault.lag_mismatch h).refused ht (.of_derives hd)

end Entry

end FrontEnd
