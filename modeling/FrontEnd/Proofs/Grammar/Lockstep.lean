import FrontEnd.Proofs.Grammar.Completeness
import FrontEnd.Proofs.Grammar.Tracking

/-!
# Parsers in lockstep

Every production, started on two streams that agree, does the same on both: it takes as many tokens and builds trees
that are alike, or refuses tokens that are alike in the same words. One lemma for each production;
**`Entry.tracks`** and **`Entry.parse_tracks`** collect them.
-/

namespace FrontEnd

namespace Parse

variable {L : Likeness} {s t : Stream}

/-! ## Literals -/

theorem tracks_symbol : Tracks L (Node.Like L.offset) s t (symbol s) (symbol t) := by
  refine Tracks.spanned_advances advances_symbol ?_
  refine .bind (moves_expect _) (fun _ => moves_pure _) (tracks_expect (by decide)) ?_
  rintro _ _ n - - - ⟨rfl, rfl, -, hA⟩
  refine tracks_pure fun {a b} hsp => ?_
  rw [L.text_eq (peek_alike hA)]
  exact .symbol hsp

theorem tracks_numeral : Tracks L (Node.Like L.offset) s t (numeral s) (numeral t) := by
  refine Tracks.spanned_advances advances_numeral ?_
  refine .bind (moves_expect _) (fun u => (moves_valueOf u).bind fun _ => moves_pure _) (tracks_expect (by decide)) ?_
  rintro _ _ n - - - ⟨rfl, rfl, hk, hA⟩
  have hv : reading (s.skip n).maxDigits s.peek = reading (t.skip n).maxDigits t.peek := by
    rw [Stream.maxDigits_skip, Stream.maxDigits_skip]
    exact hA.value 0 Nat.one_pos hk
  refine .bind (moves_valueOf _) (fun _ => moves_pure _) (tracks_valueOf hv) ?_
  rintro v _ m - - - rfl
  exact tracks_pure fun {a b} hsp => .numeral hsp

theorem isWord_eq (h : L.Agree 1 s t) : t.peek.isWord = s.peek.isWord := by
  rw [Token.isWord, Token.isWord, L.kind_eq (peek_alike h)]

theorem isTruthWord_eq (h : L.Agree 1 s t) : t.peek.isTruthWord = s.peek.isTruthWord := by
  rw [Token.isTruthWord, Token.isTruthWord, isWord_eq h, L.text_eq (peek_alike h)]

theorem isLiteral_eq (h : L.Agree 1 s t) : t.peek.isLiteral = s.peek.isLiteral := by
  rw [Token.isLiteral, Token.isLiteral, isTruthWord_eq h, L.kind_eq (peek_alike h)]

theorem isEnd_of_isWord {u : Token} (h : u.isWord = true) : u.isEnd = false := by
  simp only [Token.isWord, Bool.or_eq_true, beq_iff_eq] at h
  rcases h with hk | hk <;> simp [Token.isEnd, hk]

theorem tracks_truth : Tracks L (Node.Like L.offset) s t (truth s) (truth t) := by
  refine .of_agree advances_truth fun hA => ?_
  have htok := peek_alike hA
  refine Tracks.spanned_advances advances_truth ?_
  simp only [bind_apply, peek_apply, ite_apply, isWord_eq hA, ← L.text_eq htok]
  split
  case isFalse => exact tracks_fail fun _ => ⟨_, rfl, .mismatch htok⟩
  case isTrue hw =>
    cases truthValue? s.peek.text with
    | none => exact tracks_fail fun _ => ⟨_, rfl, .noProduction htok⟩
    | some b =>
      refine .bind moves_consume (fun _ => moves_pure _) (tracks_consume (isEnd_of_isWord hw)) ?_
      intros
      exact tracks_pure fun {a b} hsp => .truth hsp

theorem isEnd_of_isLiteral {u : Token} (h : u.isLiteral = true) : u.isEnd = false := by
  simp only [Token.isLiteral, Token.isTruthWord, Bool.or_eq_true, Bool.and_eq_true, beq_iff_eq] at h
  rcases h with (hk | hk) | ⟨hw, _⟩
  · simp [Token.isEnd, hk]
  · simp [Token.isEnd, hk]
  · exact isEnd_of_isWord hw

theorem tracks_literal : Tracks L (Node.Like L.offset) s t (literal s) (literal t) := by
  refine .of_agree advances_literal fun hA => ?_
  have htok := peek_alike hA
  simp only [literal, bind_apply, peek_apply, ite_apply, ← L.kind_eq htok, isTruthWord_eq hA]
  split
  case isTrue => exact tracks_numeral
  case isFalse =>
    split
    case isTrue => exact tracks_truth
    case isFalse =>
      split
      case isTrue => exact tracks_symbol
      case isFalse => exact tracks_fail fun _ => ⟨_, rfl, .noProduction htok⟩

/-! ## Literals that are there -/

theorem symbol_apply (hf : s.final.isEnd = true) (hk : s.peek.kind = .symbol) :
    symbol s = (.ok (.symbol s.peek.text (some (s.spanTo (s.skip 1)))), s.skip 1) := by
  refine spanned_eq_ok.2 ⟨.symbol s.peek.text, ?_, rfl⟩
  rw [bind_of_ok (expect_apply hf hk (by decide))]
  rfl

/-- A numeral that is there is taken, even if its value cannot be read. -/
theorem numeral_onward (hf : s.final.isEnd = true) (hk : s.peek.kind = .numeric) :
    (∃ x, numeral s = (.ok x, s.skip 1)) ∨ ∃ e s', numeral s = (.error (.misuse e), s') := by
  rw [numeral, spanned, bind_of_ok (expect_apply hf hk (by decide)), bind_apply, valueOf_apply]
  cases hr : reading (s.skip 1).maxDigits s.peek with
  | ok v => exact .inl ⟨_, rfl⟩
  | error e =>
    cases e with
    | fault f => exact absurd hr reading_ne_fault
    | misuse e => exact .inr ⟨e, _, rfl⟩

theorem truth_onward (hf : s.final.isEnd = true) (hk : s.peek.isTruthWord = true) :
    ∃ x, truth s = (.ok x, s.skip 1) := by
  simp only [Token.isTruthWord, Bool.and_eq_true, Option.isSome_iff_exists] at hk
  obtain ⟨hw, b, hb⟩ := hk
  refine ⟨_, spanned_eq_ok.2 ⟨.truth b, ?_, rfl⟩⟩
  rw [bind_of_ok (peek_eq_ok.2 ⟨rfl, rfl⟩), if_pos hw, hb]
  dsimp only
  rw [bind_of_ok (consume_apply hf (isEnd_of_isWord hw))]
  rfl

/-- What counts as a literal is never refused as one. -/
theorem literal_onward (hf : s.final.isEnd = true) (h : s.peek.isLiteral = true) :
    (∃ x, literal s = (.ok x, s.skip 1)) ∨ ∃ e s', literal s = (.error (.misuse e), s') := by
  rw [literal, bind_of_ok (peek_eq_ok.2 ⟨rfl, rfl⟩)]
  by_cases hn : s.peek.kind = .numeric
  · rw [if_pos hn]
    exact numeral_onward hf hn
  · rw [if_neg hn]
    by_cases hw : s.peek.isTruthWord = true
    · rw [if_pos hw]
      exact .inl (truth_onward hf hw)
    · rw [if_neg hw]
      have hk : s.peek.kind = .symbol := by simpa [Token.isLiteral, hn, hw] using h
      rw [if_pos hk]
      exact .inl ⟨_, symbol_apply hf hk⟩

/-! ## Expressions -/

/-- What follows a minus sign that ends at `stop`. -/
def secondMinus (stop : Int) : Parse String := do
  let second ← peek
  if second.kind = .minus ∧ second.start = stop then
    let _ ← consume
    return "--"
  else return "-"

/-- What has to follow a plus sign that ends at `stop`. -/
def secondPlus (stop : Int) : Parse String := do
  let second ← peek
  if second.kind ≠ .plus then fail (.mismatch .plus second)
  else if second.start ≠ stop then fail (.noProduction "unary operator" second ["'++'"])
  else
    let _ ← consume
    return "++"

theorem unarySign_eq :
    unarySign = (do
      let first ← peek
      if first.kind = .minus then
        let _ ← consume
        secondMinus first.stop
      else if first.kind = .plus then
        let _ ← consume
        secondPlus first.stop
      else fail (.noProduction "unary expression" first ["'-'", "'--'", "'++'"])) := rfl

theorem moves_secondMinus (stop : Int) : Moves (secondMinus stop) :=
  moves_peek.bind fun _ => .ite (moves_consume.bind fun _ => moves_pure _) (moves_pure _)

theorem moves_secondPlus (stop : Int) : Moves (secondPlus stop) :=
  moves_peek.bind fun _ => .ite (moves_fail _) (.ite (moves_fail _) (moves_consume.bind fun _ => moves_pure _))

theorem advances_secondPlus (stop : Int) : Advances (secondPlus stop) :=
  shrinks_peek.bind_advances fun _ => .ite (advances_fail _)
    (.ite (advances_fail _) (advances_consume.bind fun _ => shrinks_pure _))

/-- The second sign touches the first one on both sides or on none. -/
theorem touch_iff (hu : L.Upto 1 s t) (hA : L.Agree 1 (s.skip 1) (t.skip 1)) (hend : (s.skip 1).peek.isEnd = false) :
    (s.skip 1).peek.start = s.peek.stop ↔ (t.skip 1).peek.start = t.peek.stop := by
  have hend' : (t.look 1).isEnd = false := by
    rw [← Stream.peek_skip, Token.isEnd, ← L.kind_eq (peek_alike hA)]
    exact hend
  rw [Stream.peek_skip] at hend
  rw [Stream.peek_skip, Stream.peek_skip]
  exact (hu.2.resolve_left (by simp [hend'])).touch 0 (by omega) hend

theorem tracks_secondMinus (hu : L.Upto 1 s t) :
    Tracks L (· = ·) (s.skip 1) (t.skip 1) (secondMinus s.peek.stop (s.skip 1))
      (secondMinus t.peek.stop (t.skip 1)) := by
  rw [secondMinus, secondMinus, bind_of_ok (peek_eq_ok.2 ⟨rfl, rfl⟩), bind_of_ok (peek_eq_ok.2 ⟨rfl, rfl⟩)]
  by_cases hs : (s.skip 1).peek.kind = .minus ∧ (s.skip 1).peek.start = s.peek.stop
  · have hend : (s.skip 1).peek.isEnd = false := by simp [Token.isEnd, hs.1]
    rw [if_pos hs]
    refine .of_agree (advances_consume.bind fun _ => shrinks_pure _) fun hA => ?_
    rw [if_pos ⟨by rw [← L.kind_eq (peek_alike hA)]; exact hs.1, (touch_iff hu hA hend).1 hs.2⟩]
    exact .bind moves_consume (fun _ => moves_pure _) (tracks_consume hend) fun _ _ _ _ => tracks_pure rfl
  · rw [if_neg hs]
    refine tracks_return fun hu₁ => ⟨"-", ?_, rfl⟩
    rw [if_neg ?_]
    · rfl
    · rintro ⟨hk, hadj⟩
      have hend : ((t.skip 1).look 0).isEnd ≠ true := by
        rw [show (t.skip 1).look 0 = (t.skip 1).peek from rfl]
        simp [Token.isEnd, hk]
      have hA := hu₁.2.resolve_left hend
      have hk₁ : (s.skip 1).peek.kind = .minus := by rw [L.kind_eq (peek_alike hA), hk]
      exact hs ⟨hk₁, (touch_iff hu hA (by simp [Token.isEnd, hk₁])).2 hadj⟩

theorem tracks_secondPlus (hu : L.Upto 1 s t) :
    Tracks L (· = ·) (s.skip 1) (t.skip 1) (secondPlus s.peek.stop (s.skip 1)) (secondPlus t.peek.stop (t.skip 1)) := by
  refine .of_agree (advances_secondPlus _) fun hA => ?_
  have htok := peek_alike hA
  rw [secondPlus, secondPlus, bind_of_ok (peek_eq_ok.2 ⟨rfl, rfl⟩), bind_of_ok (peek_eq_ok.2 ⟨rfl, rfl⟩),
    ← L.kind_eq htok]
  by_cases hk : (s.skip 1).peek.kind = .plus
  · have hend : (s.skip 1).peek.isEnd = false := by simp [Token.isEnd, hk]
    rw [if_neg (not_not_intro hk), if_neg (not_not_intro hk)]
    by_cases hadj : (s.skip 1).peek.start = s.peek.stop
    · rw [if_neg (not_not_intro hadj), if_neg (not_not_intro ((touch_iff hu hA hend).1 hadj))]
      exact .bind moves_consume (fun _ => moves_pure _) (tracks_consume hend) fun _ _ _ _ => tracks_pure rfl
    · rw [if_pos hadj, if_pos fun h => hadj ((touch_iff hu hA hend).2 h)]
      exact tracks_fail fun _ => ⟨_, rfl, .noProduction htok⟩
  · rw [if_pos hk, if_pos hk]
    exact tracks_fail fun _ => ⟨_, rfl, .mismatch htok⟩

theorem tracks_unarySign : Tracks L (· = ·) s t (unarySign s) (unarySign t) := by
  refine .of_agree advances_unarySign fun hA => ?_
  have htok := peek_alike hA
  -- the sign is taken on both sides before the second token is looked at
  have behind : ∀ {p q : Parse String}, s.peek.isEnd = false → Moves p →
      (L.Upto 1 s t → Tracks L (· = ·) (s.skip 1) (t.skip 1) (p (s.skip 1)) (q (t.skip 1))) →
      Tracks L (· = ·) s t ((consume >>= fun _ => p) s) ((consume >>= fun _ => q) t) := by
    intro p q hs hp h
    have ht : t.peek.isEnd = false := by rw [Token.isEnd, ← L.kind_eq htok]; exact hs
    rw [bind_of_ok (consume_apply hA.closed.1 hs), bind_of_ok (consume_apply hA.closed.2 ht)]
    exact .after (Stream.lt_of_look hA.closed.1 hs) (hp _) fun _ hu => h hu
  rw [unarySign_eq, bind_of_ok (s := s) (peek_eq_ok.2 ⟨rfl, rfl⟩), bind_of_ok (s := t) (peek_eq_ok.2 ⟨rfl, rfl⟩),
    ← L.kind_eq htok]
  by_cases hm : s.peek.kind = .minus
  · rw [if_pos hm, if_pos hm]
    exact behind (by simp [Token.isEnd, hm]) (moves_secondMinus _) tracks_secondMinus
  · rw [if_neg hm, if_neg hm]
    by_cases hp : s.peek.kind = .plus
    · rw [if_pos hp, if_pos hp]
      exact behind (by simp [Token.isEnd, hp]) (moves_secondPlus _) tracks_secondPlus
    · rw [if_neg hp, if_neg hp]
      exact tracks_fail fun _ => ⟨_, rfl, .noProduction htok⟩

theorem tracks_unary : Tracks L (Node.Like L.offset) s t (unary s) (unary t) := by
  refine Tracks.spanned_advances advances_unary ?_
  refine .bind moves_unarySign (fun _ => moves_literal.bind fun _ => moves_pure _) tracks_unarySign ?_
  rintro op _ m - - - rfl
  refine .bind moves_literal (fun _ => moves_pure _) tracks_literal ?_
  intro x x' n _ _ _ hx
  exact tracks_pure fun {a b} hsp => .unary hx hsp

theorem isEnd_of_comparison {u : Token} {op : String} (h : u.kind.comparison? = some op) : u.isEnd = false := by
  cases hk : u.kind <;> simp_all [Token.isEnd, Kind.comparison?]

theorem isEnd_of_arithmetic {u : Token} {op : String} (h : u.kind.arithmetic? = some op) : u.isEnd = false := by
  cases hk : u.kind <;> simp_all [Token.isEnd, Kind.arithmetic?]

theorem tracks_comparison : Tracks L (Node.Like L.offset) s t (comparison s) (comparison t) := by
  rw [comparison, bind_of_ok (s := s) (here_eq_ok.2 ⟨rfl, rfl⟩), bind_of_ok (s := t) (here_eq_ok.2 ⟨rfl, rfl⟩)]
  refine .bind moves_numeral ?_ tracks_numeral ?_
  · intro x
    refine moves_peek.bind fun _ => ?_
    split
    · exact moves_pure _
    · exact moves_consume.bind fun _ => moves_numeral.bind fun _ => moves_here.bind fun _ => moves_pure _
  intro x x' m hm hcm hum hx
  refine tracks_optional rfl ?_ hx ?_
  · intro op
    exact advances_consume.bind fun _ => advances_numeral.shrinks.bind fun _ => shrinks_here.bind fun _ =>
      shrinks_pure _
  intro op hop _
  refine .bind moves_consume (fun _ => moves_numeral.bind fun _ => moves_here.bind fun _ => moves_pure _)
    (tracks_consume (isEnd_of_comparison hop)) ?_
  intro _ _ k _ hck _ _
  refine .bind moves_numeral (fun _ => moves_here.bind fun _ => moves_pure _) tracks_numeral ?_
  intro y y' n hn hcn hun hy
  have hmpos := pos_of_advances advances_numeral hm
  have hnpos := pos_of_advances advances_numeral hn
  refine tracks_pure (.comparison hx hy ?_)
  have hlast := hun.1.token (n - 1) (by omega)
  simp only [Stream.look_skip, Stream.skip_skip] at hlast ⊢
  rw [show m + k + (n - 1) = m + k + n - 1 by omega] at hlast
  refine Likeness.span_like ?_ (by omega) hum.1.closed.2 (hum.1.token 0 hmpos) hlast
  rw [Stream.skip_skip] at hcn
  exact (hcm.append hck).append hcn

/-- A numeral and a comparison sign are taken before anything can be refused. -/
theorem comparison_beyond (hf : s.final.isEnd = true) (hk : s.peek.kind = .numeric)
    (hop : (s.look 1).kind.comparison?.isSome = true) : Beyond (s.skip 2) (comparison s) := by
  rw [comparison, bind_of_ok (here_eq_ok.2 ⟨rfl, rfl⟩)]
  rcases numeral_onward hf hk with ⟨x, hx⟩ | ⟨e, s', he⟩
  · obtain ⟨op, hop⟩ := Option.isSome_iff_exists.1 hop
    have hend : (s.skip 1).peek.isEnd = false := by
      rw [Stream.peek_skip]
      exact isEnd_of_comparison hop
    rw [bind_of_ok hx, bind_of_ok (peek_eq_ok.2 ⟨rfl, rfl⟩), Stream.peek_skip, hop]
    dsimp only
    rw [bind_of_ok (consume_apply (by simpa using hf) hend), Stream.skip_skip]
    exact .inr ((moves_numeral.bind fun _ => moves_here.bind fun _ => moves_pure _) _)
  · exact .inl ⟨e, s', by rw [bind_apply, he]⟩

/-- A literal is taken before anything behind it can be refused. -/
theorem binary_beyond (hf : s.final.isEnd = true) (h : s.peek.isLiteral = true) : Beyond (s.skip 1) (binary s) := by
  have hlit : Beyond (s.skip 1) (literal s) := by
    rcases literal_onward hf h with ⟨x, hx⟩ | he
    · exact .inr (by rw [hx]; exact .refl _)
    · exact .inl he
  have hop : Beyond (s.skip 1) (operand s) := by
    refine hlit.bind fun left => moves_peek.bind fun u => ?_
    split
    · exact moves_pure _
    · exact moves_consume.bind fun _ => moves_pure _
  rw [binary, bind_of_ok (here_eq_ok.2 ⟨rfl, rfl⟩)]
  refine hop.bind ?_
  rintro ⟨left, _ | op⟩
  · exact moves_pure _
  · exact moves_expression.bind fun _ => moves_here.bind fun _ => moves_pure _

theorem tracks_operand :
    Tracks L (fun x y => Node.Like L.offset x.1 y.1 ∧ x.2 = y.2) s t (operand s) (operand t) := by
  refine .bind moves_literal ?_ tracks_literal ?_
  · intro x
    refine moves_peek.bind fun _ => ?_
    split
    · exact moves_pure _
    · exact moves_consume.bind fun _ => moves_pure _
  intro x x' m _ _ _ hx
  refine tracks_optional rfl ?_ ⟨hx, rfl⟩ ?_
  · exact fun op => advances_consume.bind fun _ => shrinks_pure _
  intro op hop _
  refine .bind moves_consume (fun _ => moves_pure _) (tracks_consume (isEnd_of_arithmetic hop)) ?_
  intros
  exact tracks_pure ⟨hx, rfl⟩

/-- The expression behind the sign stands further on. -/
theorem tracks_binary_of (ih : ∀ {s' t' : Stream}, s'.ahead.length < s.ahead.length →
      Tracks L (Node.Like L.offset) s' t' (expression s') (expression t')) :
    Tracks L (Node.Like L.offset) s t (binary s) (binary t) := by
  rw [binary, bind_of_ok (s := s) (here_eq_ok.2 ⟨rfl, rfl⟩), bind_of_ok (s := t) (here_eq_ok.2 ⟨rfl, rfl⟩)]
  refine .bind moves_operand ?_ tracks_operand ?_
  · rintro ⟨left, _ | op⟩
    · exact moves_pure _
    · exact moves_expression.bind fun _ => moves_here.bind fun _ => moves_pure _
  rintro ⟨x, op?⟩ ⟨x', _⟩ m hm hcm hum ⟨hx, rfl⟩
  cases op? with
  | none => exact tracks_pure hx
  | some op =>
    refine .bind moves_expression (fun _ => moves_here.bind fun _ => moves_pure _) (ih (advances_operand.lt hm)) ?_
    intro y y' n hn hcn hun hy
    have hmpos := pos_of_advances advances_operand hm
    have hnpos := pos_of_advances advances_expression hn
    refine tracks_pure (.binary hx hy ?_)
    have hlast := hun.1.token (n - 1) (by omega)
    simp only [Stream.look_skip, Stream.skip_skip] at hlast ⊢
    rw [show m + (n - 1) = m + n - 1 by omega] at hlast
    exact Likeness.span_like (hcm.append hcn) (by omega) hum.1.closed.2 (hum.1.token 0 hmpos) hlast

/-- Any other literal begins a binary expression. -/
theorem expression_eq_binary_of (hu : ¬ (s.peek.kind = .minus ∨ s.peek.kind = .plus))
    (hc : ¬ (s.peek.kind = .numeric ∧ (s.look 1).kind.comparison?.isSome)) (hl : s.peek.isLiteral = true) :
    expression s = binary s := by
  rw [expression_eq, bind_of_ok (peek_eq_ok.2 ⟨rfl, rfl⟩), bind_of_ok (peekNext_eq_ok.2 ⟨rfl, rfl⟩), if_neg hu,
    if_neg hc, if_pos hl]

theorem expression_eq_fail (hu : ¬ (s.peek.kind = .minus ∨ s.peek.kind = .plus)) (hl : s.peek.isLiteral = false) :
    expression s = fail (.noProduction "expression" s.peek expressionForms) s := by
  have hn : s.peek.kind ≠ .numeric := by
    intro hk
    simp [Token.isLiteral, hk] at hl
  rw [expression_eq, bind_of_ok (peek_eq_ok.2 ⟨rfl, rfl⟩), bind_of_ok (peekNext_eq_ok.2 ⟨rfl, rfl⟩), if_neg hu,
    if_neg fun h => hn h.1, if_neg (by simp [hl])]

/-- The induction is on the tokens ahead. The two tokens that choose the form are among those that it takes, or else
the second of them is the one it ends at. -/
theorem tracks_expression : Tracks L (Node.Like L.offset) s t (expression s) (expression t) := by
  induction h : s.ahead.length using Nat.strongRecOn generalizing s t with
  | ind N ih =>
    subst h
    refine .of_agree advances_expression fun hA => ?_
    have hkind := L.kind_eq (peek_alike hA)
    by_cases hu : s.peek.kind = .minus ∨ s.peek.kind = .plus
    · rw [expression_eq_unary hu, expression_eq_unary (hkind ▸ hu)]
      exact tracks_unary
    by_cases hl : s.peek.isLiteral = true
    case neg =>
      rw [Bool.not_eq_true] at hl
      rw [expression_eq_fail hu hl, expression_eq_fail (hkind ▸ hu) (by rw [isLiteral_eq hA, hl])]
      exact tracks_fail fun _ => ⟨_, rfl, .noProduction (peek_alike hA)⟩
    by_cases hc : s.peek.kind = .numeric ∧ (s.look 1).kind.comparison?.isSome
    · obtain ⟨op, hop⟩ := Option.isSome_iff_exists.1 hc.2
      rw [expression_eq_comparison hc.1 hc.2]
      refine .of_beyond (Stream.lt_of_look hA.closed.1 (isEnd_of_comparison hop))
        (comparison_beyond hA.closed.1 hc.1 hc.2) fun hupto => ?_
      rw [expression_eq_comparison (by rw [← hkind]; exact hc.1)
        (by rw [← L.kind_eq (hupto.1.token 1 (by omega))]; exact hc.2)]
      exact tracks_comparison
    · rw [expression_eq_binary_of hu hc hl]
      refine .of_beyond (Stream.lt_of_look hA.closed.1 (isEnd_of_isLiteral hl)) (binary_beyond hA.closed.1 hl)
        fun hupto => ?_
      have hc' : ¬ (t.peek.kind = .numeric ∧ (t.look 1).kind.comparison?.isSome) := by
        rintro ⟨hn, hcmp⟩
        obtain ⟨op, hop⟩ := Option.isSome_iff_exists.1 hcmp
        have hA₂ := hupto.2.resolve_left (by simp [isEnd_of_comparison hop])
        exact hc ⟨by rw [hkind]; exact hn, by rw [L.kind_eq (hA₂.token 1 (by omega)), hop]; rfl⟩
      rw [expression_eq_binary_of (hkind ▸ hu) hc' (by rw [isLiteral_eq hA, hl])]
      exact tracks_binary_of fun hlt => ih _ hlt rfl

theorem tracks_binary : Tracks L (Node.Like L.offset) s t (binary s) (binary t) :=
  tracks_binary_of fun _ => tracks_expression

/-! ## Statements and programs -/

theorem tracks_declaration : Tracks L (Node.Like L.offset) s t (declaration s) (declaration t) := by
  refine Tracks.spanned_advances advances_declaration ?_
  refine .bind moves_symbol (fun _ => (moves_expect _).bind fun _ => (moves_expect _).bind fun _ =>
    moves_expression.bind fun _ => (moves_expect _).bind fun _ => moves_pure _) tracks_symbol ?_
  intro i i' _ _ _ _ hi
  refine .bind (moves_expect _) (fun _ => (moves_expect _).bind fun _ => moves_expression.bind fun _ =>
    (moves_expect _).bind fun _ => moves_pure _) (tracks_expect (by decide)) ?_
  intros
  refine .bind (moves_expect _) (fun _ => moves_expression.bind fun _ => (moves_expect _).bind fun _ => moves_pure _)
    (tracks_expect (by decide)) ?_
  intros
  refine .bind moves_expression (fun _ => (moves_expect _).bind fun _ => moves_pure _) tracks_expression ?_
  intro x x' _ _ _ _ hx
  refine .bind (moves_expect _) (fun _ => moves_pure _) (tracks_expect (by decide)) ?_
  intros
  exact tracks_pure fun {a b} hsp => .declaration hi hx hsp

theorem tracks_assignment : Tracks L (Node.Like L.offset) s t (assignment s) (assignment t) := by
  refine Tracks.spanned_advances advances_assignment ?_
  refine .bind moves_symbol (fun _ => (moves_expect _).bind fun _ => moves_expression.bind fun _ =>
    (moves_expect _).bind fun _ => moves_pure _) tracks_symbol ?_
  intro i i' _ _ _ _ hi
  refine .bind (moves_expect _) (fun _ => moves_expression.bind fun _ => (moves_expect _).bind fun _ => moves_pure _)
    (tracks_expect (by decide)) ?_
  intros
  refine .bind moves_expression (fun _ => (moves_expect _).bind fun _ => moves_pure _) tracks_expression ?_
  intro x x' _ _ _ _ hx
  refine .bind (moves_expect _) (fun _ => moves_pure _) (tracks_expect (by decide)) ?_
  intros
  exact tracks_pure fun {a b} hsp => .assignment hi hx hsp

theorem advances_pragma : Advances pragma :=
  ((advances_expect _).bind fun _ => (advances_expect _).shrinks.bind fun _ => (advances_expect _).shrinks.bind fun _ =>
    advances_numeral.shrinks.bind fun _ => (advances_expect _).shrinks.bind fun _ =>
    (advances_expect _).shrinks.bind fun _ => shrinks_pure _).spanned

theorem tracks_pragma : Tracks L (Node.Like L.offset) s t (pragma s) (pragma t) := by
  refine Tracks.spanned_advances advances_pragma ?_
  refine .bind (moves_expect _) (fun _ => (moves_expect _).bind fun _ => (moves_expect _).bind fun _ =>
    moves_numeral.bind fun _ => (moves_expect _).bind fun _ => (moves_expect _).bind fun _ => moves_pure _)
    (tracks_expect (by decide)) ?_
  intros
  refine .bind (moves_expect _) (fun _ => (moves_expect _).bind fun _ => moves_numeral.bind fun _ =>
    (moves_expect _).bind fun _ => (moves_expect _).bind fun _ => moves_pure _) (tracks_expect (by decide)) ?_
  rintro _ _ _ - - - ⟨rfl, rfl, -, hA⟩
  rw [L.text_eq (peek_alike hA)]
  refine .bind (moves_expect _) (fun _ => moves_numeral.bind fun _ => (moves_expect _).bind fun _ =>
    (moves_expect _).bind fun _ => moves_pure _) (tracks_expect (by decide)) ?_
  intros
  refine .bind moves_numeral (fun _ => (moves_expect _).bind fun _ => (moves_expect _).bind fun _ => moves_pure _)
    tracks_numeral ?_
  intro x x' _ _ _ _ hx
  refine .bind (moves_expect _) (fun _ => (moves_expect _).bind fun _ => moves_pure _) (tracks_expect (by decide)) ?_
  intros
  refine .bind (moves_expect _) (fun _ => moves_pure _) (tracks_expect (by decide)) ?_
  intros
  exact tracks_pure fun {a b} hsp => .pragma hx hsp

/-- A name and the sign behind it are taken before anything can be refused. -/
theorem name_beyond {k : Kind} {p : Node → Parse (Option Span → Node)} (hf : s.final.isEnd = true)
    (hs : s.peek.kind = .symbol) (hk : (s.look 1).kind = k) (hne : k ≠ .endOfFile) (hp : ∀ i, Moves (p i)) :
    Beyond (s.skip 2) (spanned (symbol >>= fun i => expect k >>= fun _ => p i) s) := by
  have hsign : expect k (s.skip 1) = (.ok (s.look 1), s.skip 2) := by
    rw [expect_apply (by simpa using hf) (by rw [Stream.peek_skip, hk]) hne, Stream.peek_skip, Stream.skip_skip]
  have h : (s.skip 2).Onward ((symbol >>= fun i => expect k >>= fun _ => p i) s).2 := by
    rw [bind_of_ok (symbol_apply hf hs), bind_of_ok hsign]
    exact hp _ _
  refine .inr ?_
  unfold spanned
  split <;> next hr => rwa [hr] at h

theorem tracks_statement : Tracks L (Node.Like L.offset) s t (statement s) (statement t) := by
  refine .of_agree advances_statement fun hA => ?_
  have hkind := L.kind_eq (peek_alike hA)
  by_cases hs : s.peek.kind = .symbol
  case neg =>
    rw [statement, bind_of_ok (s := s) (peek_eq_ok.2 ⟨rfl, rfl⟩), bind_of_ok (s := t) (peek_eq_ok.2 ⟨rfl, rfl⟩),
      bind_of_ok (s := s) (peekNext_eq_ok.2 ⟨rfl, rfl⟩), bind_of_ok (s := t) (peekNext_eq_ok.2 ⟨rfl, rfl⟩), if_neg hs,
      if_neg (hkind ▸ hs)]
    exact tracks_fail fun _ => ⟨_, rfl, .noProduction (peek_alike hA)⟩
  have ht : t.peek.kind = .symbol := by rw [← hkind, hs]
  by_cases hc : (s.look 1).kind = .colon
  · rw [(statement_eq hs).1 hc]
    refine .of_beyond (Stream.lt_of_look hA.closed.1 (by simp [Token.isEnd, hc])) (name_beyond hA.closed.1 hs hc
      (by decide) fun _ => (moves_expect _).bind fun _ => moves_expression.bind fun _ => (moves_expect _).bind fun _ =>
        moves_pure _) fun hu => ?_
    rw [(statement_eq ht).1 (by rw [← L.kind_eq (hu.1.token 1 (by omega)), hc])]
    exact tracks_declaration
  by_cases hq : (s.look 1).kind = .equals
  · rw [(statement_eq hs).2 hq]
    refine .of_beyond (Stream.lt_of_look hA.closed.1 (by simp [Token.isEnd, hq])) (name_beyond hA.closed.1 hs hq
      (by decide) fun _ => moves_expression.bind fun _ => (moves_expect _).bind fun _ => moves_pure _) fun hu => ?_
    rw [(statement_eq ht).2 (by rw [← L.kind_eq (hu.1.token 1 (by omega)), hq])]
    exact tracks_assignment
  · rw [statement, bind_of_ok (s := s) (peek_eq_ok.2 ⟨rfl, rfl⟩), bind_of_ok (s := s) (peekNext_eq_ok.2 ⟨rfl, rfl⟩),
      if_pos hs, if_neg hc, if_neg hq]
    refine tracks_fail fun hA₂ => ?_
    have htok : L.token (s.look 1) (t.look 1) := hA₂.token 1 (by simp [SyntaxFault.lag, hs])
    rw [bind_of_ok (s := t) (peek_eq_ok.2 ⟨rfl, rfl⟩), bind_of_ok (s := t) (peekNext_eq_ok.2 ⟨rfl, rfl⟩), if_pos ht,
      if_neg (by rwa [← L.kind_eq htok]), if_neg (by rwa [← L.kind_eq htok])]
    exact ⟨_, rfl, .noProduction htok⟩

/-- The induction is on the tokens ahead: statements end at an end of input, and a stream that agrees so far goes on
alike or ends as well. -/
theorem tracks_statements : Tracks L (Node.LikeAll L.offset) s t (statements s) (statements t) := by
  induction h : s.ahead.length using Nat.strongRecOn generalizing s t with
  | ind N ih =>
    subst h
    rw [statements_eq, bind_of_ok (s := s) (peek_eq_ok.2 ⟨rfl, rfl⟩), bind_of_ok (s := t) (peek_eq_ok.2 ⟨rfl, rfl⟩)]
    by_cases hs : s.peek.isEnd = true
    · rw [if_pos hs]
      refine tracks_return fun hu => ⟨[], ?_, .nil⟩
      have ht : t.peek.isEnd = true := by
        rcases hu.2 with hend | hA
        · exact hend
        · rw [Token.isEnd, ← L.kind_eq (peek_alike hA)]
          exact hs
      rw [if_pos ht]
      rfl
    · rw [if_neg hs]
      refine .of_agree (advances_statement.bind fun _ => moves_statements.shrinks.bind fun _ => shrinks_pure _)
        fun hA => ?_
      rw [if_neg (by rw [Token.isEnd, ← L.kind_eq (peek_alike hA)]; exact hs)]
      refine .bind moves_statement (fun _ => moves_statements.bind fun _ => moves_pure _) tracks_statement ?_
      intro x x' m hm _ _ hx
      refine .bind moves_statements (fun _ => moves_pure _) (ih _ (advances_statement.lt hm) rfl) ?_
      intro xs xs' n _ _ _ hxs
      exact tracks_pure (.cons hx hxs)

/-- A block without statements stands at the end of input. -/
theorem isEnd_of_block {xs : List Node} (h : statements s = (.ok xs, s)) : s.peek.isEnd = true := by
  rw [statements_eq, bind_of_ok (peek_eq_ok.2 ⟨rfl, rfl⟩), ite_apply] at h
  split at h
  · assumption
  · have := (advances_statement.bind fun _ => moves_statements.shrinks.bind fun _ => shrinks_pure _).lt h
    omega

theorem tracks_block (hend : s.peek.isEnd = true → L.offset s.peek.start t.peek.start) :
    Tracks L (Node.Like L.offset) s t (block s) (block t) := by
  refine Tracks.spanned ?_ ?_
  · refine .bind moves_statements (fun _ => moves_pure _) tracks_statements ?_
    intro xs xs' n _ _ _ hxs
    exact tracks_pure fun {a b} hsp => .block hxs hsp
  · intro F hF
    obtain ⟨xs, s', hxs, hF⟩ := bind_eq_ok.1 hF
    obtain ⟨-, rfl⟩ := pure_eq_ok.1 hF
    exact hend (isEnd_of_block hxs)

theorem tracks_program (hend : s.peek.isEnd = true → L.offset s.peek.start t.peek.start) :
    Tracks L (Node.Like L.offset) s t (program s) (program t) := by
  refine Tracks.spanned ?_ ?_
  · refine .bind moves_block (fun _ => moves_pure _) (tracks_block hend) ?_
    intro x x' n _ _ _ hx
    exact tracks_pure fun {a b} hsp => .program hx hsp
  · intro F hF
    obtain ⟨x, s', hx, hF⟩ := bind_eq_ok.1 hF
    obtain ⟨-, rfl⟩ := pure_eq_ok.1 hF
    obtain ⟨G, hG, -⟩ := spanned_eq_ok.1 hx
    obtain ⟨xs, s'', hxs, hG⟩ := bind_eq_ok.1 hG
    obtain ⟨-, rfl⟩ := pure_eq_ok.1 hG
    exact hend (isEnd_of_block hxs)

end Parse

namespace Entry

open Parse

variable {L : Likeness} {s t : Stream}

/-- **Lockstep**: on streams that agree, the parser of an entry does the same. -/
theorem tracks (e : Entry) (hend : s.peek.isEnd = true → L.offset s.peek.start t.peek.start) :
    Tracks L (Node.Like L.offset) s t (e.parser s) (e.parser t) :=
  match e with
  | program => tracks_program hend
  | block => tracks_block hend
  | statement => tracks_statement
  | declaration => tracks_declaration
  | assignment => tracks_assignment
  | pragma => tracks_pragma
  | expression => tracks_expression
  | binary => tracks_binary
  | comparison => tracks_comparison
  | unary => tracks_unary
  | literal => tracks_literal
  | symbol => tracks_symbol
  | numeral => tracks_numeral
  | truth => tracks_truth

/-- A whole reading does the same, with or without anything behind the entry. -/
theorem parse_tracks (e : Entry) (allowTrailing : Bool)
    (hend : s.peek.isEnd = true → L.offset s.peek.start t.peek.start) :
    Tracks L (Node.Like L.offset) s t (e.parse allowTrailing s) (e.parse allowTrailing t) := by
  refine .bind e.moves (fun _ => moves_peek.bind fun _ => .ite (moves_pure _) (moves_fail _)) (e.tracks hend) ?_
  intro x x' n _ _ hu hx
  rw [bind_of_ok (s := s.skip n) (peek_eq_ok.2 ⟨rfl, rfl⟩), bind_of_ok (s := t.skip n) (peek_eq_ok.2 ⟨rfl, rfl⟩)]
  by_cases hs : (allowTrailing || (s.skip n).peek.isEnd) = true
  · rw [if_pos hs]
    refine tracks_return fun hu₀ => ⟨x', ?_, hx⟩
    have ht : (allowTrailing || (t.skip n).peek.isEnd) = true := by
      rcases hu₀.2 with hend | hA
      · rw [show (t.skip n).peek.isEnd = true from hend, Bool.or_true]
      · rwa [Token.isEnd, ← L.kind_eq (peek_alike hA)]
    rw [if_pos ht]
    rfl
  · rw [if_neg hs]
    refine tracks_fail fun hA => ?_
    have htok : L.token (s.skip n).peek (t.skip n).peek := hA.token 0 (by omega)
    rw [if_neg (by rwa [Token.isEnd, ← L.kind_eq htok])]
    exact ⟨_, rfl, .mismatch htok⟩

/-- Streams that agree all the way are read alike, up to the same place. -/
theorem parse_agrees (e : Entry) (allowTrailing : Bool) (hagree : ∀ n, L.Agree n s t)
    (hends : ∀ u ∈ s.ahead, u.isEnd = false) (hvalued : s.Valued) :
    ∃ k, (∃ x y, e.parse allowTrailing s = (.ok x, s.skip k) ∧ e.parse allowTrailing t = (.ok y, t.skip k) ∧
        Node.Like L.offset x y) ∨
      ∃ f g, e.parse allowTrailing s = (.error (.fault f), s.skip k) ∧
        e.parse allowTrailing t = (.error (.fault g), t.skip k) ∧ L.Fault f g := by
  have htracks := e.parse_tracks allowTrailing fun _ => L.start (peek_alike (hagree 1))
  obtain ⟨k, hk, hs⟩ := e.parse_moves allowTrailing s
  have hclear := Stream.clear_of_ahead hends hk
  refine ⟨k, ?_⟩
  cases hr : e.parse allowTrailing s with
  | mk r s' =>
    obtain rfl : s' = s.skip k := by rw [← hs, hr]
    match r with
    | .ok x =>
      obtain ⟨y, hy, hlike⟩ := htracks.ok hr hclear (hagree _).upto
      exact .inl ⟨x, y, rfl, hy, hlike⟩
    | .error (.fault f) =>
      obtain ⟨g, hg, hfault⟩ := htracks.fault hr hclear (hagree _)
      exact .inr ⟨f, g, rfl, hg, hfault⟩
    | .error (.misuse m) => exact absurd hr (e.parse_fair allowTrailing s hvalued m _)

end Entry

end FrontEnd
