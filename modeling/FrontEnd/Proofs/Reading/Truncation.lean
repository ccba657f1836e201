import FrontEnd.Proofs.Reading.FirstFault
import FrontEnd.Proofs.Token.Excerpt

/-!
# Truncated tokens and truncated texts

The first tokens of a text, made into a stream, get an end of input that is computed from the last one of them alone. It
is the end of input of the text cut off behind that token, and the tokens before it are those of the cut text
(**`Lexicon.tokenize_truncated`**). Two facts carry this: a lexeme in front of nothing is still one, and no lexeme
contains a line end, so that the place behind it can be counted along one line (`Piece.endAfter_token`).
-/

namespace FrontEnd

/-- Within a line, columns are counted like offsets. -/
theorem Mark.past_of_same_line {cs : List Char} (h : '\n' ∉ cs) (m : Mark) :
    m.past cs = ⟨m.offset + cs.length, m.line, m.column + cs.length⟩ := by
  induction cs generalizing m with
  | nil => rfl
  | cons c cs ih =>
    obtain ⟨hc, hcs⟩ : c ≠ '\n' ∧ '\n' ∉ cs := by
      constructor
      · rintro rfl
        exact h List.mem_cons_self
      · exact fun hmem => h (List.mem_cons_of_mem c hmem)
    have hstep : m.step c = ⟨m.offset + 1, m.line, m.column + 1⟩ := by rw [step, if_neg hc]
    rw [past_cons, ih hcs, hstep, List.length_cons]
    simp only [Mark.mk.injEq, true_and]
    constructor <;> omega

theorem Lexicon.Lexeme.same_line {lx : Lexicon} {after w : List Char} {k : Kind} {v : Option Int}
    (h : lx.Lexeme after k w v) : '\n' ∉ w := by
  intro hmem
  have hblank : isBlank '\n' = true := by decide
  rw [h.not_blank '\n' hmem] at hblank
  cases hblank

namespace Piece

variable {lx : Lexicon} {file : String} {m : Mark} {p : Piece} {ps : List Piece} {after : List Char}

/-- What the last token tells of the end of input is where the text behind it goes on. -/
theorem endAfter_token (h : '\n' ∉ p.chars) : (p.token file m).endAfter = .ending file (p.mark m) := by
  have hmark := Mark.past_of_same_line h (m.past p.gap)
  simp only [Token.endAfter, Token.ending, token, mark, Mark.locate, hmark]
  simp only [Token.mk.injEq, Location.mk.injEq, true_and, and_true]
  omega

/-- The stream of the tokens of some pieces ends where the pieces end. -/
theorem pending_tokens (hj : lx.Joins ps after) (hne : ps ≠ []) :
    (Stream.ofTokens (tokens file m ps)).pending =
      tokens file m ps ++ [.ending file (m.past (render ps []))] := by
  rcases List.eq_nil_or_concat ps with rfl | ⟨qs, p, rfl⟩
  · exact absurd rfl hne
  rw [List.concat_eq_append] at hj ⊢
  obtain ⟨-, hl, -⟩ := (Lexicon.joins_append.1 hj).2
  have hend : (p.token file (m.past (render qs []))).isEnd = false := by
    simpa [Token.isEnd, token] using hl.kind_ne_end
  have hmark : p.mark (m.past (render qs [])) = m.past (render (qs ++ [p]) []) := by
    rw [render_append, render_eq_append qs (render [p] []), Mark.past_append]
    simp [mark, render, Mark.past_append]
  rw [tokens_append, tokens, tokens, Stream.ofTokens_concat, hend]
  rw [if_neg Bool.false_ne_true, Stream.pending, endAfter_token hl.same_line, hmark]

/-- A text up to the end of the last token of some pieces is these pieces. -/
theorem take_of_getLast? {t : Token} (h : (tokens file .start ps).getLast? = some t) (after : List Char) :
    (render ps after).take t.stop.toNat = render ps [] := by
  have hstop : t.stop.toNat = (render ps []).length := by
    rw [stop_of_getLast? h, Mark.offset_past, Int.toNat_natCast, Mark.start, Nat.zero_add]
  rw [hstop, render_eq_append ps after, List.take_left]

end Piece

namespace Lexicon

open Piece

variable {lx : Lexicon} {file text : String} {ts : List Token} {k : Nat}

/-- **Truncation**: the first tokens of a text, made into a stream, are the tokens of the text cut off behind the last
one of them, with the same end of input. -/
theorem tokenize_truncated (h : lx.tokenize file text = .ok ts) (hk : 1 ≤ k) (hlen : k ≤ ts.length - 1) :
    ∃ t, ts[k - 1]? = some t ∧
      lx.tokenize file (String.ofList (text.toList.take t.stop.toNat)) = .ok (Stream.ofTokens (ts.take k)).pending := by
  obtain ⟨ps, tail, hj, -, htext, rfl⟩ := tokenize_eq_ok_iff.1 h
  have hle : k ≤ (tokens file .start ps).length := by simpa using hlen
  have hps : k ≤ ps.length := by rwa [length_tokens] at hle
  have hne : ps.take k ≠ [] := by
    intro hnil
    have hzero := congrArg List.length hnil
    rw [List.length_take, List.length_nil] at hzero
    omega
  -- In front of nothing, the pieces that are kept are what they were.
  have hsplit : text.toList = render (ps.take k) (render (ps.drop k) tail) := by
    rw [htext, ← render_append, List.take_append_drop]
  have hjoins : lx.Joins (ps.take k) [] := by
    rw [← List.take_append_drop k ps] at hj
    exact (joins_append.1 hj).1.follow ⟨rfl, rfl⟩
  obtain ⟨t, ht⟩ : ∃ t, (tokens file .start ps)[k - 1]? = some t :=
    ⟨_, List.getElem?_eq_getElem (by omega)⟩
  have hlast : (tokens file .start (ps.take k)).getLast? = some t := by
    rw [← take_tokens, List.getLast?_take, if_neg (by omega), ht, Option.some_or]
  have hcut : text.toList.take t.stop.toNat = render (ps.take k) [] := by
    rw [hsplit]
    exact take_of_getLast? hlast _
  rw [List.take_append_of_le_length hle, List.getElem?_append_left (by omega), take_tokens]
  refine ⟨t, ht, tokenize_eq_ok_iff.2 ⟨ps.take k, [], hjoins, nofun, ?_, ?_⟩⟩
  · rw [String.toList_ofList, hcut]
  · rw [pending_tokens hjoins hne, String.toList_ofList, hcut]

/-- Cut off behind the `>=` on its second line, a text ends there, two columns on. -/
theorem tokenize_truncated_sign :
    ∃ ts t, ({} : Lexicon).tokenize "f" "\n>=y" = .ok ts ∧ ts[0]? = some t ∧
      ({} : Lexicon).tokenize "f" (String.ofList ("\n>=y".toList.take t.stop.toNat)) =
        .ok (Stream.ofTokens (ts.take 1)).pending ∧
      (Stream.ofTokens (ts.take 1)).pending.getLast? = some ⟨.endOfFile, "", 3, 3, ⟨"f", 2, 3, 3⟩, none⟩ := by
  have h : ({} : Lexicon).tokenize "f" "\n>=y" = .ok [⟨.greaterEqual, ">=", 1, 3, ⟨"f", 2, 1, 1⟩, none⟩,
      ⟨.symbol, "y", 3, 4, ⟨"f", 2, 3, 3⟩, none⟩, ⟨.endOfFile, "", 4, 4, ⟨"f", 2, 4, 4⟩, none⟩] := by cbv
  obtain ⟨t, ht, hcut⟩ := tokenize_truncated (k := 1) h (by decide) (by decide)
  exact ⟨_, t, h, ht, hcut, rfl⟩

end Lexicon

end FrontEnd
