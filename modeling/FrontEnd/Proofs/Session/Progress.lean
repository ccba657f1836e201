import FrontEnd.Proofs.Grammar.Spending
import FrontEnd.Proofs.Session.Place

/-!
# Progress

Reading a token moves on in the text, and so does a numeral that is refused. So reading token after token, which
`Session.Collects` does with a count of the calls, ends after at most one call for each character that is left and one
for the end of input. Draining a session is this (`Session.Collects.drain_eq`), and tokenizing is this from the start of
the text.

**`progresses_everywhere`** has this for every state of a session, beside the progress of parsing on every stream.
-/

namespace FrontEnd

namespace Lexicon

variable {lx : Lexicon} {file : String} {c c' : Cursor}

/-- What reading moves over is what is no longer ahead of it. -/
theorem next_keeps (lx : Lexicon) (file : String) (c : Cursor) :
    (lx.next file c).2.mark.offset + (lx.next file c).2.rest.length = c.mark.offset + c.rest.length := by
  generalize hc : c.rest = cs
  cases lx.opening cs with
  | blank hb =>
    subst hc
    rw [next_of_blank hb]
    simp [Mark.offset_past]
  | lexeme hg hl =>
    rw [next_of_piece hc hg hl]
    simp only [Piece.mark, Mark.offset_past, List.length_append]
    omega
  | rejected hg hr =>
    rw [next_of_rejected hc hg hr]
    simp only [Mark.offset_past, List.length_append]
    omega
  | stray hg hx =>
    rw [next_of_stray hc hg hx]
    simp only [Mark.offset_past, List.length_append]
    omega

/-- Only a stray character stays ahead when it is refused; the digits of a numeral are taken. -/
theorem length_next_of_refusal {e : LexicalRefusal} (h : lx.next file c = (.error e, c'))
    (he : ∀ x l, e ≠ .fault (.unknownCharacter x l)) : c'.rest.length < c.rest.length := by
  generalize hc : c.rest = cs
  cases lx.opening cs with
  | blank hb =>
    rw [next_of_blank (hc ▸ hb)] at h
    cases h
  | lexeme hg hl =>
    rw [next_of_piece hc hg hl] at h
    cases h
  | rejected hg hr =>
    rw [next_of_rejected hc hg hr] at h
    obtain ⟨-, rfl⟩ := Prod.mk.inj h
    have := List.length_pos_iff.2 hr.ne_nil
    simp only [List.length_append]
    omega
  | stray hg hx =>
    rw [next_of_stray hc hg hx] at h
    exact absurd (Except.error.inj (Prod.mk.inj h).1).symm (he _ _)

end Lexicon

namespace Session

open Lexicon

variable {s s' : Session} {t : Token} {rs : Except LexicalRefusal (List Token)} {k : Nat}

theorem Answer.ofToken_inj {r r' : Except LexicalRefusal Token} (h : ofToken r = ofToken r') : r = r' := by
  cases r <;> cases r' <;> simp_all [ofToken, Answer.ofRefusal_ne_token.symm]

theorem Answer.ofTokens_inj {rs' : Except LexicalRefusal (List Token)} (h : ofTokens rs = ofTokens rs') : rs = rs' := by
  cases rs <;> cases rs' <;> simp_all [ofTokens, Answer.ofRefusal_ne_tokens, Answer.ofRefusal_ne_tokens.symm]

/-- An answer says what was read, and the session says where. -/
theorem answer_eq_iff {α : Type} {answer : Except LexicalRefusal α → Answer}
    (hinj : ∀ {r r'}, answer r = answer r' → r = r') {x : Except LexicalRefusal α × Cursor}
    {r : Except LexicalRefusal α} :
    (answer x.1, { s with cursor := x.2 }) = (answer r, s') ↔ ∃ c, x = (r, c) ∧ s' = { s with cursor := c } := by
  constructor
  · intro h
    obtain ⟨hr, rfl⟩ := Prod.mk.inj h
    exact ⟨x.2, by rw [← hinj hr], rfl⟩
  · rintro ⟨c, rfl, rfl⟩
    rfl

theorem next_eq_iff {r : Except LexicalRefusal Token} : s.next = (.ofToken r, s') ↔
    ∃ c, s.lexicon.next s.file s.cursor = (r, c) ∧ s' = { s with cursor := c } := by
  rw [← answer_eq_iff Answer.ofToken_inj]
  unfold next
  split <;> next h => rw [h]; rfl

theorem drain_eq_iff : s.drain = (.ofTokens rs, s') ↔
    ∃ c, s.lexicon.drain s.file s.cursor = (rs, c) ∧ s' = { s with cursor := c } := by
  rw [← answer_eq_iff Answer.ofTokens_inj]
  unfold drain
  split <;> next h => rw [h]; rfl

/-- A call that leaves less of the text ahead has moved on in it. -/
theorem offset_lt {r : Except LexicalRefusal Token} (h : s.next = (.ofToken r, s'))
    (hlt : s'.cursor.rest.length < s.cursor.rest.length) : s.cursor.mark.offset < s'.cursor.mark.offset := by
  obtain ⟨c, hc, rfl⟩ := next_eq_iff.1 h
  have hkeeps := s.lexicon.next_keeps s.file s.cursor
  rw [hc] at hkeeps
  simp only at hkeeps hlt ⊢
  omega

theorem length_lt_of_token (h : s.next = (.token t, s')) (ht : t.isEnd = false) :
    s'.cursor.rest.length < s.cursor.rest.length := by
  obtain ⟨c, hc, rfl⟩ := next_eq_iff (r := .ok t).1 h
  exact length_next_lt hc ht

theorem length_lt_of_refusal {e : LexicalRefusal} (h : s.next = (.ofRefusal e, s'))
    (he : ∀ x l, e ≠ .fault (.unknownCharacter x l)) : s'.cursor.rest.length < s.cursor.rest.length := by
  obtain ⟨c, hc, rfl⟩ := next_eq_iff (r := .error e).1 h
  exact length_next_of_refusal hc he

/-! ## Token after token -/

/-- Calls for the next token, so many of them, up to the end of input or the first refusal. -/
inductive Collects : Session → Nat → Except LexicalRefusal (List Token) → Session → Prop
  | ending {s s' : Session} {t : Token} : s.next = (.token t, s') → t.isEnd = true → Collects s 1 (.ok [t]) s'
  | refusal {s s' : Session} {e : LexicalRefusal} : s.next = (.ofRefusal e, s') → Collects s 1 (.error e) s'
  | token {s s₁ s' : Session} {t : Token} {k : Nat} {rs : Except LexicalRefusal (List Token)} :
      s.next = (.token t, s₁) → t.isEnd = false → Collects s₁ k rs s' → Collects s (k + 1) (rs.map (t :: ·)) s'

/-- The induction is on what is left of the text. -/
theorem exists_collects (s : Session) : ∃ k rs s', Collects s k rs s' := by
  induction h : s.cursor.rest.length using Nat.strongRecOn generalizing s with
  | ind N ih =>
    subst h
    cases hc : s.lexicon.next s.file s.cursor with
    | mk r c =>
      have hnext := next_eq_iff.2 ⟨c, hc, rfl⟩
      cases r with
      | error e => exact ⟨_, _, _, .refusal hnext⟩
      | ok t =>
        cases ht : t.isEnd with
        | true => exact ⟨_, _, _, .ending hnext ht⟩
        | false =>
          obtain ⟨k, rs, s', hrest⟩ := ih _ (length_lt_of_token hnext ht) _ rfl
          exact ⟨_, _, _, .token hnext ht hrest⟩

theorem Collects.le (h : Collects s k rs s') : k ≤ s.cursor.rest.length + 1 := by
  induction h with
  | ending | refusal => omega
  | token hnext ht _ ih =>
    have := length_lt_of_token hnext ht
    omega

/-- Draining a session is collecting its tokens. -/
theorem Collects.drain_eq (h : Collects s k rs s') : s.drain = (.ofTokens rs, s') := by
  induction h with
  | ending hnext ht =>
    obtain ⟨c, hc, rfl⟩ := next_eq_iff (r := .ok _).1 hnext
    exact drain_eq_iff.2 ⟨c, drain_of_end hc ht, rfl⟩
  | refusal hnext =>
    obtain ⟨c, hc, rfl⟩ := next_eq_iff (r := .error _).1 hnext
    exact drain_eq_iff.2 ⟨c, drain_of_error hc, rfl⟩
  | token hnext ht _ ih =>
    obtain ⟨c, hc, rfl⟩ := next_eq_iff (r := .ok _).1 hnext
    obtain ⟨c', hc', rfl⟩ := drain_eq_iff.1 ih
    refine drain_eq_iff.2 ⟨c', ?_, rfl⟩
    rw [drain_of_ok hc ht, hc']

/-! ## States of a session -/

/-- What the session has still to read is the part of its text from its offset on. -/
def InText (s : Session) : Prop :=
  s.cursor.rest = s.text.drop s.cursor.mark.offset

theorem Stands.inText {lx : Lexicon} {file : String} {source : List Char} {n : Nat}
    (h : Stands lx file source n s) : s.InText := by
  rw [InText, h.cursor, h.text, Cursor.seek, Mark.offset_after_take h.within]

/-- Reading makes progress from here on. -/
structure Progresses (s : Session) : Prop where
  /-- A token other than the end of input is behind the cursor when it is given. -/
  token : ∀ t s', s.next = (.token t, s') → t.isEnd = false → s.cursor.mark.offset < s'.cursor.mark.offset
  /-- So is a numeral above the limit. -/
  overflow : ∀ w limit l s', s.next = (.fault (.numericOverflow w limit l), s') →
    s.cursor.mark.offset < s'.cursor.mark.offset
  /-- So is a numeral that cannot be compared with the limit. -/
  misuse : ∀ m s', s.next = (.misuse m, s') → s.cursor.mark.offset < s'.cursor.mark.offset
  /-- Draining is a number of calls for the next token, at most one for each character that is left and one more. -/
  drain : ∃ k rs s', Collects s k rs s' ∧ k ≤ s.text.length - s.cursor.mark.offset + 1 ∧
    s.step .drain = (.ofTokens rs, s')
  /-- Tokenizing is such a number of calls from the start of the text on. -/
  tokenize : ∃ k rs s', Collects (s.reset 0).2 k rs s' ∧ k ≤ s.text.length + 1 ∧
    s.step .tokenize = (.ofTokens rs, s')

/-- A session that stands in its text drains it in time. -/
theorem InText.exists_collects (h : s.InText) : ∃ k rs s', Collects s k rs s' ∧
    k ≤ s.text.length - s.cursor.mark.offset + 1 ∧ s.drain = (.ofTokens rs, s') := by
  obtain ⟨k, rs, s', hcollects⟩ := Session.exists_collects s
  -- the bound is by what is left to read, which only a session in its text knows from its offset
  have hle := hcollects.le
  rw [h, List.length_drop] at hle
  exact ⟨k, rs, s', hcollects, hle, hcollects.drain_eq⟩

theorem InText.progresses (h : s.InText) : s.Progresses where
  token t s' hnext ht := offset_lt (r := .ok t) hnext (length_lt_of_token hnext ht)
  overflow w limit l s' hnext :=
    offset_lt (r := .error (.fault _)) hnext (length_lt_of_refusal (e := .fault _) hnext (by simp))
  misuse m s' hnext := offset_lt (r := .error (.misuse m)) hnext (length_lt_of_refusal (e := .misuse m) hnext nofun)
  drain := h.exists_collects
  tokenize := by
    have hreset : (s.reset 0).2 = { s with cursor := .seek s.text 0 } := by simp [reset]
    have hin : (s.reset 0).2.InText := by
      rw [hreset]
      rfl
    obtain ⟨k, rs, s', hcollects, hk, hdrain⟩ := hin.exists_collects
    refine ⟨k, rs, s', hcollects, ?_, hdrain⟩
    rw [hreset] at hk
    exact Nat.le_trans hk (Nat.succ_le_succ (Nat.sub_le _ _))

end Session

/-- **Reading and parsing always make progress**: reading in every state of a session, that is wherever in its text it
stands and so after any steps, and parsing on every stream. -/
theorem progresses_everywhere :
    (∀ s : Session, s.InText → s.Progresses) ∧
      (∀ lx file source steps, ((Session.start source file lx).run steps).2.InText) ∧
      ∀ s : Stream, s.Progresses := by
  refine ⟨fun s h => h.progresses, ?_, Stream.progresses⟩
  intro lx file source steps
  obtain ⟨⟨n, h⟩, -⟩ := (Session.stands_start lx file source).run steps
  exact h.inText

end FrontEnd
