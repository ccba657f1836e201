import FrontEnd.Proofs.Token.Lexeme

/-!
# Layouts

A text that can be tokenized is a list of pieces, each a gap of blanks and a lexeme, and more blanks at its end.
`Piece.render` writes pieces down, `Piece.tokens` gives their tokens from a place in a text on, and `Lexicon.Joins`
says that the pieces and the text behind them keep apart, so that each lexeme is still one where it stands.

**`Lexicon.tokenize_eq_ok_iff`**: the tokens of a text are those of the pieces it is made of.
-/

namespace FrontEnd

/-- Nothing but blanks. -/
def AllBlank (cs : List Char) : Prop :=
  ∀ c ∈ cs, isBlank c = true

@[simp]
theorem Mark.offset_past (m : Mark) (cs : List Char) : (m.past cs).offset = m.offset + cs.length := by
  induction cs generalizing m with
  | nil => rfl
  | cons c cs ih =>
    have hstep : (m.step c).offset = m.offset + 1 := by unfold Mark.step; split <;> rfl
    rw [Mark.past_cons, ih, hstep, List.length_cons]
    omega

/-- The end of input at a place. -/
def Token.ending (file : String) (m : Mark) : Token :=
  ⟨.endOfFile, "", m.offset, m.offset, m.locate file, none⟩

/-- Blanks and the lexeme behind them. -/
structure Piece where
  gap : List Char
  kind : Kind
  chars : List Char
  value : Option Int

namespace Piece

/-- The place behind the piece, if it begins at `m`. -/
def mark (p : Piece) (m : Mark) : Mark :=
  (m.past p.gap).past p.chars

def token (file : String) (m : Mark) (p : Piece) : Token where
  kind := p.kind
  text := String.ofList p.chars
  start := (m.past p.gap).offset
  stop := (p.mark m).offset
  location := (m.past p.gap).locate file
  value := p.value

/-- The pieces in order, with `after` behind them. -/
def render : List Piece → List Char → List Char
  | [], after => after
  | p :: ps, after => p.gap ++ (p.chars ++ render ps after)

/-- The tokens of the pieces, the first of which begins at `m`. -/
def tokens (file : String) : Mark → List Piece → List Token
  | _, [] => []
  | m, p :: ps => p.token file m :: tokens file (p.mark m) ps

theorem render_append (ps qs : List Piece) (after : List Char) :
    render (ps ++ qs) after = render ps (render qs after) := by
  induction ps with
  | nil => rfl
  | cons p ps ih => simp [render, ih]

theorem tokens_append (file : String) (m : Mark) (ps qs : List Piece) :
    tokens file m (ps ++ qs) = tokens file m ps ++ tokens file (m.past (render ps [])) qs := by
  induction ps generalizing m with
  | nil => rfl
  | cons p ps ih => simp [tokens, ih, render, mark, Mark.past_append]

end Piece

namespace Lexicon

open Piece

variable {lx : Lexicon} {file : String} {c c' : Cursor} {t : Token} {ts : List Token} {gap w after tail : List Char}
  {k : Kind} {v : Option Int} {ps qs : List Piece}

/-- Each piece has blanks in its gap and a lexeme, seen together with all that stands behind it. -/
def Joins (lx : Lexicon) : List Piece → List Char → Prop
  | [], _ => True
  | p :: ps, after => AllBlank p.gap ∧ lx.Lexeme (render ps after) p.kind p.chars p.value ∧ lx.Joins ps after

theorem joins_append : lx.Joins (ps ++ qs) after ↔ lx.Joins ps (render qs after) ∧ lx.Joins qs after := by
  induction ps with
  | nil => simp [Joins]
  | cons p ps ih => simp [Joins, ih, render_append, and_assoc]

/-! ## One token -/

theorem next_of_piece (hc : c.rest = gap ++ (w ++ after)) (hg : AllBlank gap) (h : lx.Lexeme after k w v) :
    lx.next file c = (.ok (token file c.mark ⟨gap, k, w, v⟩), ⟨mark ⟨gap, k, w, v⟩ c.mark, after⟩) := by
  have hskip : c.skipBlanks = ⟨c.mark.past gap, w ++ after⟩ := by
    rw [Cursor.skipBlanks, Cursor.run_eq hc hg (h.begins_not_blank after), Cursor.pass, hc]
    simp
  rw [next, hskip, here_of_lexeme rfl h]
  simp [Cursor.token, Cursor.pass, token, mark]

theorem next_of_blank (hc : AllBlank c.rest) :
    lx.next file c = (.ok (.ending file (c.mark.past c.rest)), ⟨c.mark.past c.rest, []⟩) := by
  have hskip : c.skipBlanks = ⟨c.mark.past c.rest, []⟩ := by
    rw [Cursor.skipBlanks, Cursor.run_eq (List.append_nil _).symm hc rfl, Cursor.pass]
    simp
  rw [next, hskip, here]
  rfl

/-- The next token is the end of input behind blanks, or the lexeme of a piece. -/
theorem next_cases (h : lx.next file c = (.ok t, c')) :
    (AllBlank c.rest ∧ t = .ending file (c.mark.past c.rest)) ∨
      ∃ gap w after k v, c.rest = gap ++ (w ++ after) ∧ AllBlank gap ∧ lx.Lexeme after k w v ∧
        t = token file c.mark ⟨gap, k, w, v⟩ ∧ c' = ⟨mark ⟨gap, k, w, v⟩ c.mark, after⟩ := by
  obtain ⟨gap, rest, hc, hg, _, hrun⟩ := c.exists_run isBlank
  have hskip : c.skipBlanks = ⟨c.mark.past gap, rest⟩ := by
    rw [Cursor.skipBlanks, hrun, Cursor.pass, hc]
    simp
  have h' := h
  rw [next, hskip] at h'
  rcases lexeme_of_here h' with ⟨hr, _⟩ | ⟨w, after, k, v, hr, hl, _⟩
  · left
    have hb : AllBlank c.rest := by
      rw [hc, show rest = [] from hr, List.append_nil]
      exact hg
    rw [next_of_blank hb] at h
    exact ⟨hb, by simpa using (congrArg Prod.fst h).symm⟩
  · right
    have hc' : c.rest = gap ++ (w ++ after) := by rw [hc, show rest = w ++ after from hr]
    rw [next_of_piece hc' hg hl] at h
    obtain ⟨rfl, rfl⟩ := by simpa using h
    exact ⟨gap, w, after, k, v, hc', hg, hl, rfl, rfl⟩

/-! ## All tokens -/

theorem drain_of_joins (hj : lx.Joins ps tail) (ht : AllBlank tail) (hc : c.rest = render ps tail) :
    (lx.drain file c).1 = .ok (tokens file c.mark ps ++ [.ending file (c.mark.past c.rest)]) := by
  induction ps generalizing c with
  | nil =>
    have hb : AllBlank c.rest := by rw [hc]; exact ht
    rw [drain_of_end (next_of_blank hb) rfl]
    rfl
  | cons p ps ih =>
    obtain ⟨hg, hl, hj⟩ := hj
    have hend : (p.token file c.mark).isEnd = false := by simpa [Token.isEnd, token] using hl.kind_ne_end
    rw [drain_of_ok (next_of_piece hc hg hl) hend]
    have hrest := ih (c := ⟨p.mark c.mark, render ps tail⟩) hj rfl
    rw [hrest]
    simp [Except.map, tokens, hc, render, mark, Mark.past_append]

/-- The induction is on what is left of the text, as in the reading itself. -/
theorem joins_of_drain (h : (lx.drain file c).1 = .ok ts) :
    ∃ ps tail, lx.Joins ps tail ∧ AllBlank tail ∧ c.rest = render ps tail := by
  fun_induction drain lx file c generalizing ts with
  | case1 | case4 => simp at h
  | case2 c t c' hn ht =>
    rcases next_cases hn with ⟨hb, _⟩ | ⟨gap, w, after, k, v, _, _, hl, rfl, _⟩
    · exact ⟨[], c.rest, trivial, hb, rfl⟩
    · exact absurd ht (by simpa [Token.isEnd, token] using hl.kind_ne_end)
  | case3 c t c' hn ht _ ts' c'' hd ih =>
    obtain ⟨ps, tail, hj, hb, hr⟩ := ih (by rw [hd])
    rcases next_cases hn with ⟨_, rfl⟩ | ⟨gap, w, after, k, v, hc, hg, hl, rfl, rfl⟩
    · exact absurd rfl ht
    · obtain rfl : after = render ps tail := hr
      exact ⟨⟨gap, k, w, v⟩ :: ps, tail, ⟨hg, hl, hj⟩, hb, hc⟩

/-- **The tokens of a text** are those of the pieces it is made of, and the end of input behind them. -/
theorem tokenize_eq_ok_iff {text : String} :
    lx.tokenize file text = .ok ts ↔ ∃ ps tail, lx.Joins ps tail ∧ AllBlank tail ∧ text.toList = render ps tail ∧
      ts = tokens file .start ps ++ [.ending file (Mark.start.past text.toList)] := by
  constructor
  · intro h
    obtain ⟨ps, tail, hj, ht, hc⟩ := joins_of_drain h
    refine ⟨ps, tail, hj, ht, hc, ?_⟩
    rw [tokenize, drain_of_joins hj ht hc] at h
    simpa [Cursor.ofText] using h.symm
  · rintro ⟨ps, tail, hj, ht, hc, rfl⟩
    exact drain_of_joins (c := .ofText text.toList) hj ht hc

/-- The token is a lexeme in front of some text. -/
def Accepts (lx : Lexicon) (t : Token) : Prop :=
  ∃ after, lx.Lexeme after t.kind t.text.toList t.value

theorem accepts_of_joins {m : Mark} (hj : lx.Joins ps after) : ∀ t ∈ tokens file m ps, lx.Accepts t := by
  induction ps generalizing m with
  | nil => simp [tokens]
  | cons p ps ih =>
    obtain ⟨_, hl, hj⟩ := hj
    exact List.forall_mem_cons.2 ⟨⟨_, by simpa [token] using hl⟩, ih hj⟩

/-- The tokens of a text are lexemes, with one end of input behind them. -/
theorem accepts_of_tokenize {text : String} (h : lx.tokenize file text = .ok ts) :
    ∃ init m, ts = init ++ [.ending file m] ∧ ∀ t ∈ init, lx.Accepts t := by
  obtain ⟨ps, tail, hj, _, _, rfl⟩ := tokenize_eq_ok_iff.1 h
  exact ⟨_, _, rfl, accepts_of_joins hj⟩

end Lexicon

end FrontEnd
