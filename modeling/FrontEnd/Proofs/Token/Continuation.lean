import FrontEnd.Proofs.Token.Opening

/-!
# Continuing a text

Pieces stay what they are when another text is put behind them that continues no lexeme (**`Lexicon.Joins.follow`**).
`Lexicon.Filler` is a stock of pieces that continue none: any text can be continued by them, and its tokens with their
tokens (**`Lexicon.tokenize_fillers`**). Among them is a name that is not reserved (`Lexicon.fresh`).
-/

namespace FrontEnd

/-- No lexeme goes on into the text. -/
def Safe (after : List Char) : Prop :=
  begins isWordPart after = false ∧ begins (· == '=') after = false

theorem Safe.begins_digit {after : List Char} (h : Safe after) : begins isDigit after = false := by
  cases after with
  | nil => rfl
  | cons x after =>
    have hx : isWordPart x = false := h.1
    simp only [isWordPart, Bool.or_eq_false_iff] at hx
    exact hx.2

open Piece

theorem Piece.stop_of_getLast? {file : String} {m : Mark} {ps : List Piece} {t : Token}
    (h : (tokens file m ps).getLast? = some t) : t.stop = (m.past (render ps [])).offset := by
  induction ps generalizing m with
  | nil => simp [tokens] at h
  | cons p ps ih =>
    cases ps with
    | nil =>
      obtain rfl : p.token file m = t := by simpa [tokens] using h
      simp [token, mark, render, Mark.past_append]
    | cons q ps =>
      rw [ih (m := p.mark m) (by simpa [tokens] using h)]
      simp [mark, render, Mark.past_append]

theorem Piece.take_tokens (file : String) (m : Mark) (ps : List Piece) (i : Nat) :
    (tokens file m ps).take i = tokens file m (ps.take i) := by
  induction ps generalizing m i with
  | nil => simp [tokens]
  | cons p ps ih =>
    cases i with
    | zero => rfl
    | succ i => rw [tokens, List.take_succ_cons, ih, List.take_succ_cons, tokens]

namespace Lexicon

variable {lx : Lexicon} {ps qs : List Piece} {after after' : List Char}

/-- What stands behind a lexeme does not show what a text begins with. -/
theorem begins_render_eq {p : Piece} {q : Char → Bool} (hne : p.chars ≠ []) :
    begins q (render (p :: ps) after) = begins q (render (p :: ps) after') := by
  obtain ⟨x, w, hw⟩ := List.exists_cons_of_ne_nil hne
  rw [render, render, hw]
  cases p.gap <;> rfl

/-- Pieces may be followed by any text that continues no lexeme. -/
theorem Joins.follow (hj : lx.Joins ps after) (h : Safe after') : lx.Joins ps after' := by
  induction ps with
  | nil => trivial
  | cons p ps ih =>
    obtain ⟨hg, hl, hj⟩ := hj
    refine ⟨hg, ?_, ih hj⟩
    cases ps with
    | nil => exact hl.move (fun _ => h.1) (fun _ => h.begins_digit) fun _ => h.2
    | cons q ps => exact hl.transfer fun r _ hr => by rwa [begins_render_eq hj.2.1.ne_nil]

/-! ## A name that is not reserved -/

/-- A name longer than all that are reserved. -/
def fresh (lx : Lexicon) : List Char :=
  List.replicate ((lx.reserved.map String.toList).flatten.length + 1) 'x'

theorem isName_fresh (lx : Lexicon) : isName lx.fresh = true := by
  have hx : isWordStart 'x' = true ∧ isWordPart 'x' = true := by decide
  simp [fresh, List.replicate_succ, isName, hx]

theorem length_fresh (lx : Lexicon) :
    lx.fresh.length = (lx.reserved.map String.toList).flatten.length + 1 :=
  List.length_replicate

theorem fresh_not_reserved (lx : Lexicon) : String.ofList lx.fresh ∉ lx.reserved := by
  intro h
  have hmem : lx.fresh ∈ lx.reserved.map String.toList :=
    List.mem_map.2 ⟨String.ofList lx.fresh, h, String.toList_ofList⟩
  have hle := (List.sublist_flatten_of_mem hmem).length_le
  rw [length_fresh] at hle
  omega

/-! ## Fillers -/

/-- Pieces to continue a text with: behind a space, or a plus sign that may touch what is before it. -/
inductive Filler (lx : Lexicon) : Piece → Prop
  | name : Filler lx ⟨[' '], .symbol, lx.fresh, none⟩
  | truth : Filler lx ⟨[' '], lx.wordKind "true", "true".toList, none⟩
  | zero : Filler lx ⟨[' '], .numeric, ['0'], some 0⟩
  | sign {x : Char} {k : Kind} : punctuation? x = some k → k ≠ .underscore → Filler lx ⟨[' '], k, [x], none⟩
  | plus : Filler lx ⟨[], .plus, ['+'], none⟩

theorem Filler.safe {q : Piece} (h : lx.Filler q) (after : List Char) : Safe (q.gap ++ (q.chars ++ after)) := by
  cases h <;> exact ⟨rfl, rfl⟩

theorem Filler.allBlank {q : Piece} (h : lx.Filler q) : AllBlank q.gap := by
  cases h <;> simp [AllBlank, isBlank, blanks]

/-- Unless no numeral at all is within the limit, or the limit cannot be written, fillers are lexemes. -/
theorem Filler.lexeme {q : Piece} (h : lx.Filler q) (hw : lx.Writable) (hl : 0 ≤ lx.limit) (hs : Safe after) :
    lx.Lexeme after q.kind q.chars q.value := by
  cases h with
  | name => exact .symbol lx.isName_fresh lx.fresh_not_reserved hs.1
  | truth =>
    unfold wordKind
    split
    · next hr => exact .keyword rfl (by simpa using hr) hs.1
    · next hr => exact .symbol rfl (by simpa using hr) hs.1
  | zero => exact .numeral nofun (List.forall_mem_singleton.2 rfl) hs.begins_digit hw hl
  | sign hx hk => exact .sign hx hk fun _ => hs.2
  | plus => exact .sign rfl nofun fun _ => hs.2

/-- A filler is no end of input, and if it is a numeral it has a value. -/
theorem Filler.token_class {q : Piece} (h : lx.Filler q) :
    (q.kind = .numeric → ∃ v, q.value = some v) ∧ q.kind ≠ .endOfFile := by
  cases h with
  | truth =>
    unfold wordKind
    split <;> simp
  | sign hx _ =>
    have := kind_of_punctuation hx
    simp_all
  | name | zero | plus => simp

theorem token_class_fillers (file : String) (m : Mark) (h : ∀ q ∈ qs, lx.Filler q) :
    ∀ t ∈ tokens file m qs, (t.kind = .numeric → ∃ v, t.value = some v) ∧ t.isEnd = false := by
  induction qs generalizing m with
  | nil => simp [tokens]
  | cons q qs ih =>
    obtain ⟨hq, hqs⟩ := List.forall_mem_cons.1 h
    refine List.forall_mem_cons.2 ⟨⟨hq.token_class.1, ?_⟩, ih _ hqs⟩
    simpa [Token.isEnd, token] using hq.token_class.2

theorem safe_render_fillers (h : ∀ q ∈ qs, lx.Filler q) : Safe (render qs []) := by
  cases qs with
  | nil => exact ⟨rfl, rfl⟩
  | cons q qs => exact (h q List.mem_cons_self).safe _

theorem joins_fillers (hw : lx.Writable) (hl : 0 ≤ lx.limit) (h : ∀ q ∈ qs, lx.Filler q) : lx.Joins qs [] := by
  induction qs with
  | nil => trivial
  | cons q qs ih =>
    obtain ⟨hq, hqs⟩ := List.forall_mem_cons.1 h
    exact ⟨hq.allBlank, hq.lexeme hw hl (safe_render_fillers hqs), ih hqs⟩

/-- **Continued texts**: the tokens of pieces and of fillers behind them are the tokens of a text. -/
theorem tokenize_fillers (file : String) (hj : lx.Joins ps after) (hw : lx.Writable) (hl : 0 ≤ lx.limit)
    (h : ∀ q ∈ qs, lx.Filler q) :
    ∃ text m, lx.tokenize file text = .ok (tokens file .start (ps ++ qs) ++ [.ending file m]) := by
  have hjoins : lx.Joins (ps ++ qs) [] := joins_append.2 ⟨hj.follow (safe_render_fillers h), joins_fillers hw hl h⟩
  exact ⟨_, _, tokenize_eq_ok_iff.2 ⟨ps ++ qs, [], hjoins, nofun, String.toList_ofList, rfl⟩⟩

end Lexicon

end FrontEnd
