import FrontEnd.Proofs.Token.Continuation
import FrontEnd.Proofs.Token.MaximalMunch
import Mathlib.Data.List.Forall2

/-!
# Excerpts of a text

What is cut out of a text from the first character of a token to the last character of the same or a later one has the
tokens between them, moved to the left (**`Lexicon.tokenize_excerpt`**): each lexeme still has behind it what it had, or
the end.
-/

namespace FrontEnd

/-- The same token, moved by `d`. -/
structure Token.Moved (d : Int) (t u : Token) : Prop where
  kind : t.kind = u.kind
  text : t.text = u.text
  value : t.value = u.value
  start : u.start = t.start + d
  stop : u.stop = t.stop + d

namespace Piece

variable {file : String} {m m' : Mark} {d : Int} {p : Piece} {ps : List Piece} {after : List Char}

theorem render_eq_append (ps : List Piece) (after : List Char) : render ps after = render ps [] ++ after := by
  induction ps with
  | nil => rfl
  | cons p ps ih => rw [render, render, ih, List.append_assoc, List.append_assoc]

/-- The tokens of the same pieces at two places. -/
theorem tokens_moved (h : (m'.offset : Int) = m.offset + d) :
    (tokens file m ps).Forall₂ (Token.Moved d) (tokens file m' ps) := by
  induction ps generalizing m m' with
  | nil => exact .nil
  | cons p ps ih =>
    refine .cons ⟨rfl, rfl, rfl, ?_, ?_⟩ (ih ?_) <;> simp only [token, mark, Mark.offset_past] <;> omega

/-- The piece without its gap. -/
def bare (p : Piece) : Piece :=
  { p with gap := [] }

/-- Without its gap, a piece has the same token from the end of the gap on. -/
theorem tokens_bare : tokens file (m.past p.gap) (p.bare :: ps) = tokens file m (p :: ps) := rfl

theorem length_tokens : (tokens file m ps).length = ps.length := by
  induction ps generalizing m with
  | nil => rfl
  | cons p ps ih => rw [tokens, List.length_cons, List.length_cons, ih]

end Piece

namespace Lexicon

open Piece

variable {lx : Lexicon} {pre mid post : List Piece} {p : Piece} {tail : List Char} {source : List Char}

/-- **Excerpts**: from the first character of one token to the last one of another, the text has the tokens between. -/
theorem tokenize_excerpt (file : String) (hj : lx.Joins (pre ++ (p :: mid ++ post)) tail)
    (hsource : source = render (pre ++ (p :: mid ++ post)) tail) {a b : Nat}
    (ha : a = (render pre []).length + p.gap.length) (hb : b = a + (render (p.bare :: mid) []).length) :
    b ≤ source.length ∧
      lx.tokenize file (String.ofList (slice source a b)) = .ok (tokens file .start (p.bare :: mid) ++
        [.ending file (Mark.start.past (render (p.bare :: mid) []))]) := by
  have hjoins : lx.Joins (p.bare :: mid) [] := by
    have hmid := (joins_append.1 (joins_append.1 hj).2).1
    exact Joins.follow ⟨List.forall_mem_nil _, hmid.2⟩ ⟨rfl, rfl⟩
  have hdrop : source.drop a = render (p.bare :: mid) [] ++ render post tail := by
    have hpre : source = render pre [] ++ (p.gap ++ (render (p.bare :: mid) (render post tail))) := by
      rw [hsource, render_append, render_eq_append pre, render_append]
      rfl
    rw [hpre, ha, ← List.drop_drop, List.drop_left, List.drop_left, render_eq_append]
  have hlen := congrArg List.length hdrop
  have hpos : 0 < (render (p.bare :: mid) []).length := by
    have := List.length_pos_iff.2 hjoins.2.1.ne_nil
    simp only [render, List.length_append]
    omega
  simp only [List.length_drop, List.length_append] at hlen
  refine ⟨by omega, tokenize_eq_ok_iff.2 ⟨p.bare :: mid, [], hjoins, List.forall_mem_nil _, ?_, ?_⟩⟩
  · rw [hb, slice_of_append hdrop, String.toList_ofList]
  · rw [hb, slice_of_append hdrop, String.toList_ofList]

end Lexicon

end FrontEnd
