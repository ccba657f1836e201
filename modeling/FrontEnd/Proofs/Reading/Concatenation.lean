import FrontEnd.Proofs.Grammar.Sequence
import FrontEnd.Proofs.Reading.Relayout
import FrontEnd.Proofs.Token.Seam

/-!
# Programs one after the other

A program ends in a dot, or it is empty, so another text may be put right behind it: what is read of both is what is
read of each (**`Lexicon.parse_append`**). The statements of the first text come first, as they were, and then those of
the second text, moved by the length of the first one; and where the second text alone is refused, both together are
refused in the same way at the corresponding place.
-/

namespace FrontEnd

/-! ## Moving failures -/

/-- The fault, with the token it is about moved to its place. -/
def SyntaxFault.placed (source : List Char) (p : Nat) : SyntaxFault → SyntaxFault
  | endOfInput expected t => endOfInput expected (t.placed source p)
  | unexpectedKind expected t => unexpectedKind expected (t.placed source p)
  | noProduction production t forms => noProduction production (t.placed source p) forms

/-- The failure of what follows the first `p` characters of a text, moved to its place. -/
def Failure.placed (source : List Char) (p : Nat) : Failure → Failure
  | lexical f => lexical (f.placed source p)
  | syntactic f => syntactic (f.placed source p)
  | misuse m => misuse m

/-- Tokens of what follows the first `p` characters of a text, and the same tokens in their places. -/
def Likeness.placed (source : List Char) (p : Nat) : Likeness where
  token t u := u = t.placed source p
  offset i j := j = i + p
  kind_eq h := by rw [h, Token.placed]
  text_eq h := by rw [h, Token.placed]
  start h := by rw [h, Token.placed]
  stop h := by rw [h, Token.placed]

variable {source : List Char} {p : Nat}

theorem Likeness.Fault.eq_placed {f g : SyntaxFault} (h : (Likeness.placed source p).Fault f g) :
    g = f.placed source p := by
  cases h with
  | endOfInput h | unexpectedKind h | noProduction h =>
    obtain rfl := h
    rfl

theorem Token.alike_placed (t : Token) (source : List Char) (p : Nat) : t.Alike (t.placed source p) :=
  ⟨rfl, rfl, rfl⟩

theorem Failure.placed_ofLexical (r : LexicalRefusal) (source : List Char) (p : Nat) :
    (Failure.ofLexical r).placed source p = .ofLexical (r.placed source p) := by
  cases r <;> rfl

/-- Nothing that a failure says depends on where it is. -/
theorem Failure.sameReport_placed (f : Failure) (source : List Char) (p : Nat) : f.SameReport (f.placed source p) := by
  cases f with
  | lexical f =>
    have hmoved : f.placed source p = f.moved (f.location.placed source p) := by cases f <;> rfl
    rw [Failure.placed, hmoved]
    exact .lexical
  | syntactic f =>
    refine .syntactic (Likeness.Fault.sameReport ?_)
    cases f with
    | endOfInput _ t => exact .endOfInput (t.alike_placed source p)
    | unexpectedKind _ t => exact .unexpectedKind (t.alike_placed source p)
    | noProduction _ t _ => exact .noProduction (t.alike_placed source p)
  | misuse => exact .misuse

/-- The second stream has the tokens of the first one in their places. -/
structure Stream.Placed (s : Stream) (source : List Char) (p : Nat) (t : Stream) : Prop where
  ahead : t.ahead = s.ahead.map (Token.placed source p)
  final : t.final = s.final.placed source p
  maxDigits : s.maxDigits = t.maxDigits

theorem Stream.Placed.agree {s t : Stream} (h : s.Placed source p t) (hs : s.Regular) (n : Nat) :
    (Likeness.placed source p).Agree n s t := by
  have hlook : ∀ i, t.look i = (s.look i).placed source p := by
    intro i
    simp only [Stream.look, List.getD_eq_getElem?_getD, h.ahead, h.final, List.getElem?_map, Option.getD_map]
  refine ⟨⟨hs.closed, ?_⟩, fun i _ => hlook i, fun i _ _ => ?_, fun i _ _ => ?_⟩
  · rw [h.final]
    exact hs.closed
  · rw [hlook, h.maxDigits]
    rfl
  · rw [hlook, hlook]
    simp only [Token.placed]
    omega

/-- The stream of the tokens of two texts, one behind the other. -/
theorem Stream.begins_placed {lx : Lexicon} {init us : List Token} (hinit : ∀ t ∈ init, lx.Accepts t) (file : String)
    (m m' : Mark) (source : List Char) (p : Nat) :
    let s := ofTokens (init ++ [.ending file m])
    let t := ofTokens (init ++ (us ++ [Token.ending file m']).map (Token.placed source p))
    s.Begins t ∧ (ofTokens (us ++ [.ending file m'])).Placed source p (t.skip s.ahead.length) := by
  intro s t
  have hregular : s.Regular := regular_ofTokens hinit file m
  have hs : s = { ahead := init, final := .ending file m, index := 0, reach := 0 } := ofTokens_ending init file m
  have ht : t = { ahead := init ++ us.map (Token.placed source p), final := (Token.ending file m').placed source p,
                  index := 0, reach := 0 } := by
    simp only [t, List.map_append, List.map_singleton, ← List.append_assoc]
    simp [ofTokens, Token.placed, Token.isEnd, Token.ending]
  rw [ofTokens_ending, ht, hs]
  rw [hs] at hregular
  exact ⟨⟨hregular, List.prefix_append _ _, rfl, rfl⟩, by simp, by simp, by simp⟩

/-! ## Reading both texts -/

namespace Parse

variable {s s' t u : Stream} {xs : List Node}

/-- Tokens in their places are read as the tokens are. -/
theorem statements_placed (hs : s.Regular) (h : s.Placed source p t) :
    (∃ ys s' t', statements s = (.ok ys, s') ∧ statements t = (.ok (Node.shiftAll p ys), t')) ∨
      ∃ f s' t', statements s = (.error (.fault f), s') ∧ statements t = (.error (.fault (f.placed source p)), t') := by
  obtain ⟨k, hk, hmoved⟩ := moves_statements s
  have hclear := Stream.clear_of_ahead hs.proper hk
  cases hr : statements s with
  | mk r s' =>
    obtain rfl : s' = s.skip k := by rw [← hmoved, hr]
    cases r with
    | ok ys =>
      obtain ⟨zs, hzs, hlike⟩ := tracks_statements.ok hr hclear (h.agree hs _).upto
      obtain rfl := Node.LikeAll.eq_shiftAll hlike
      exact .inl ⟨ys, _, _, rfl, hzs⟩
    | error e =>
      cases e with
      | fault f =>
        obtain ⟨g, hg, hfault⟩ := tracks_statements.fault hr hclear (h.agree hs _)
        obtain rfl := hfault.eq_placed
        exact .inr ⟨f, _, _, rfl, hg⟩
      | misuse m => exact absurd hr (fair_statements s hs.valued m _)

/-- The statements of one stream, and behind them what is read of another. -/
theorem statements_append (h : s.Begins t) (hxs : statements s = (.ok xs, s')) (hu : u.Regular)
    (hut : u.Placed source p (t.skip s.ahead.length)) :
    (∃ ys u' t', statements u = (.ok ys, u') ∧ statements t = (.ok (xs ++ Node.shiftAll p ys), t')) ∨
      ∃ f u' t', statements u = (.error (.fault f), u') ∧ statements t = (.error (.fault (f.placed source p)), t') := by
  rw [statements_of_begins h hxs, bind_apply]
  obtain ⟨ys, u', t', hys, ht⟩ | ⟨f, u', t', hf, ht⟩ := statements_placed hu hut <;> rw [ht]
  · exact .inl ⟨ys, u', t', hys, rfl⟩
  · exact .inr ⟨f, u', t', hf, rfl⟩

end Parse

namespace Lexicon

open Parse

variable {lx : Lexicon} {file text : String} {ts : List Token} {xs : List Node} {s : Stream}

theorem parse_program_eq (h : lx.tokenize file text = .ok ts) : lx.parse file "program" false text =
    (Entry.program.parse false (.ofTokens ts)).1.mapError .ofRefusal := by
  rw [parse, h]
  rfl

theorem parse_of_statements (h : lx.tokenize file text = .ok ts) (hs : statements (.ofTokens ts) = (.ok xs, s)) :
    ∃ sp, lx.parse file "program" false text = .ok (.program (.block xs (some sp)) (some sp)) := by
  rw [parse_program_eq h, program_of_statements hs]
  exact ⟨_, rfl⟩

theorem parse_of_refusal {e : Refusal} (h : lx.tokenize file text = .ok ts)
    (hs : statements (.ofTokens ts) = (.error e, s)) :
    lx.parse file "program" false text = .error (.ofRefusal e) := by
  rw [parse_program_eq h, program_of_refusal hs]
  rfl

/-- The statements of a program that was read. -/
theorem exists_statements {sp sp' : Option Span}
    (h : lx.parse file "program" false text = .ok (.program (.block xs sp) sp')) :
    ∃ ts s, lx.tokenize file text = .ok ts ∧ statements (.ofTokens ts) = (.ok xs, s) := by
  cases hts : lx.tokenize file text with
  | error f => simp [parse, hts] at h
  | ok ts =>
    cases hs : statements (.ofTokens ts) with
    | mk r s =>
      cases r with
      | ok ys =>
        obtain ⟨sp'', hparse⟩ := parse_of_statements hts hs
        simp only [hparse, Except.ok.injEq, Node.program.injEq, Node.block.injEq] at h
        obtain ⟨⟨rfl, -⟩, -⟩ := h
        exact ⟨ts, s, rfl, hs⟩
      | error e =>
        rw [parse_of_refusal hts hs] at h
        cases h

/-- **Programs may be put one behind the other**: where a text is a program, any text behind it is read as it would be
alone. If that one is a program too, the statements of both make one program, the first ones with their spans and the
others moved by the length of the first text; and if it is refused, so are both, for the same reason and with everything
at its place. -/
theorem parse_append {sp sp' : Option Span}
    (h : lx.parse file "program" false text = .ok (.program (.block xs sp) sp')) (text' : String) :
    SameOutcome (fun f g => f.SameReport g ∧ g = f.placed (text ++ text').toList text.length)
      (fun n n' => ∃ ys sp sp', n = .program (.block ys (some sp)) (some sp) ∧
        n' = .program (.block (xs ++ Node.shiftAll text.length ys) (some sp')) (some sp'))
      (lx.parse file "program" false text') (lx.parse file "program" false (text ++ text')) := by
  obtain ⟨ts, s, hts, hs⟩ := exists_statements h
  obtain ⟨init, m, rfl, hinit⟩ := accepts_of_tokenize hts
  have hregular := Stream.regular_ofTokens hinit file m
  have hdot : ∀ t, init.getLast? = some t → t.kind = .dot := fun t ht => by
    have hd := derives_of_statements hregular hs
    rw [Stream.ofTokens_ending] at hd
    exact hd.block_dot ht
  have hboth := tokenize_append hts (by rwa [List.dropLast_concat]) text'
  rw [List.dropLast_concat] at hboth
  cases hts' : lx.tokenize file text' with
  | error f =>
    rw [hts'] at hboth
    rw [parse, parse, hts', hboth]
    have hplaced := Failure.placed_ofLexical f (text ++ text').toList text.length
    exact .error ⟨hplaced ▸ Failure.sameReport_placed _ _ _, hplaced.symm⟩
  | ok ts' =>
    obtain ⟨init', m', rfl, hinit'⟩ := accepts_of_tokenize hts'
    rw [hts'] at hboth
    obtain ⟨hbegins, hplaced⟩ := Stream.begins_placed hinit file m m' (text ++ text').toList text.length
    obtain ⟨ys, s₁, s₂, hys, hxs⟩ | ⟨f, s₁, s₂, hf, hg⟩ :=
      statements_append hbegins hs (Stream.regular_ofTokens hinit' file m') hplaced
    · obtain ⟨sp₁, h₁⟩ := parse_of_statements hts' hys
      obtain ⟨sp₂, h₂⟩ := parse_of_statements hboth hxs
      rw [h₁, h₂]
      exact .ok ⟨ys, sp₁, sp₂, rfl, rfl⟩
    · rw [parse_of_refusal hts' hf, parse_of_refusal hboth hg]
      exact .error ⟨Failure.sameReport_placed (.syntactic f) _ _, rfl⟩

/-- A program written twice, with nothing in between, has its statement twice. -/
theorem parse_append_twice :
    ∃ x sp sp', ({} : Lexicon).parse "" "program" false "x=y." = .ok (.program (.block [x] sp) sp) ∧
      ({} : Lexicon).parse "" "program" false ("x=y." ++ "x=y.") =
        .ok (.program (.block [x, x.shift 4] sp') sp') := by
  have hts : ({} : Lexicon).tokenize "" "x=y." = .ok [⟨.symbol, "x", 0, 1, ⟨"", 1, 1, 0⟩, none⟩,
      ⟨.equals, "=", 1, 2, ⟨"", 1, 2, 1⟩, none⟩, ⟨.symbol, "y", 2, 3, ⟨"", 1, 3, 2⟩, none⟩,
      ⟨.dot, ".", 3, 4, ⟨"", 1, 4, 3⟩, none⟩, ⟨.endOfFile, "", 4, 4, ⟨"", 1, 5, 4⟩, none⟩] := by cbv
  have hx : statement (.ofTokens [⟨.symbol, "x", 0, 1, ⟨"", 1, 1, 0⟩, none⟩,
      ⟨.equals, "=", 1, 2, ⟨"", 1, 2, 1⟩, none⟩, ⟨.symbol, "y", 2, 3, ⟨"", 1, 3, 2⟩, none⟩,
      ⟨.dot, ".", 3, 4, ⟨"", 1, 4, 3⟩, none⟩, ⟨.endOfFile, "", 4, 4, ⟨"", 1, 5, 4⟩, none⟩]) =
        (.ok (.assignment (.symbol "x" (some ⟨0, 1⟩)) (.symbol "y" (some ⟨2, 3⟩)) (some ⟨0, 4⟩)),
          { ahead := [], final := ⟨.endOfFile, "", 4, 4, ⟨"", 1, 5, 4⟩, none⟩, index := 4, reach := 4 }) := by cbv
  have hxs := statements_of_statement rfl hx
  rw [bind_of_ok (statements_of_end rfl)] at hxs
  obtain ⟨sp, h⟩ := parse_of_statements hts hxs
  have houtcome := parse_append h "x=y."
  rw [h] at houtcome
  generalize ({} : Lexicon).parse "" "program" false ("x=y." ++ "x=y.") = r at houtcome ⊢
  cases houtcome with
  | ok hok =>
    obtain ⟨ys, _, sp', hys, rfl⟩ := hok
    simp only [Node.program.injEq, Node.block.injEq] at hys
    obtain ⟨⟨rfl, -⟩, -⟩ := hys
    exact ⟨_, some sp, some sp', h, rfl⟩

end Lexicon

end FrontEnd
