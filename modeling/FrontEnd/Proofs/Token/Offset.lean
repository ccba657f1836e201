import FrontEnd.Proofs.Token.MaximalMunch
import FrontEnd.Proofs.Token.Opening
import Mathlib

/-!
# Reading at an offset

The mark that is moved over a text character by character is the one that is recomputed from the text before it
(**`Mark.past_after`**), so a cursor that stands at an offset of a text still does after every reading.
`Lexicon.Reads lx file source n r n'` says by offsets alone what reading one token from `n` on gives and where it stops,
and `Lexicon.ReadsAll` the same of reading on through the end of input. Both determine what is read.

**`Lexicon.Reads.placed`**: what is read of the rest of a text is what is read of the whole text from there on, moved to
its place.
-/

namespace FrontEnd

/-! ## Marks and cursors -/

namespace Mark

theorem step_after (before : List Char) (c : Char) : (after before).step c = after (before ++ [c]) := by
  by_cases hc : c = '\n' <;> simp [step, after, hc]

/-- **Tracking a place is recomputing it.** -/
theorem past_after (before cs : List Char) : (after before).past cs = after (before ++ cs) := by
  induction cs generalizing before with
  | nil => simp
  | cons c cs ih => rw [past_cons, step_after, ih, List.append_assoc, List.singleton_append]

theorem offset_after_take {source : List Char} {n : Nat} (h : n ≤ source.length) :
    (after (source.take n)).offset = n := by
  rw [after, List.length_take, Nat.min_eq_left h]

end Mark

namespace Cursor

variable {source u rest : List Char} {n : Nat}

theorem ofText_eq_seek (source : List Char) : ofText source = seek source 0 := by
  simp [ofText, seek, Mark.start, Mark.after]

theorem seek_of_append (h : source.drop n = u ++ rest) :
    seek source (n + u.length) = ⟨(Mark.after (source.take n)).past u, rest⟩ := by
  have htake : source.take (n + u.length) = source.take n ++ u := by rw [List.take_add, h, List.take_left]
  rw [seek, htake, drop_of_append h, Mark.past_after]

theorem seek_length (source : List Char) : seek source source.length = ⟨Mark.after source, []⟩ := by
  simp [seek]

end Cursor

/-- The location of an offset. -/
def locationAt (file : String) (source : List Char) (n : Nat) : Location :=
  (Mark.after (source.take n)).locate file

/-- A token with the given characters at an offset. -/
def tokenAt (file : String) (source : List Char) (n : Nat) (k : Kind) (w : List Char) (v : Option Int) : Token :=
  ⟨k, String.ofList w, n, (n + w.length : Nat), locationAt file source n, v⟩

/-- The end of input behind a text. -/
def endAt (file : String) (source : List Char) : Token :=
  tokenAt file source source.length .endOfFile [] none

/-- A location in what follows the first `p` characters of a text, as one in the whole text: its offset is moved, and
line and column are those of the new offset. -/
def Location.placed (source : List Char) (p : Nat) (l : Location) : Location :=
  let m := Mark.after (source.take (l.offset + p).toNat)
  ⟨l.file, m.line, m.column, l.offset + p⟩

def Token.placed (source : List Char) (p : Nat) (t : Token) : Token :=
  { t with start := t.start + p, stop := t.stop + p, location := t.location.placed source p }

def LexicalFault.placed (source : List Char) (p : Nat) : LexicalFault → LexicalFault
  | unknownCharacter c l => unknownCharacter c (l.placed source p)
  | numericOverflow text limit l => numericOverflow text limit (l.placed source p)

def LexicalRefusal.placed (source : List Char) (p : Nat) : LexicalRefusal → LexicalRefusal
  | fault f => fault (f.placed source p)
  | misuse m => misuse m

/-- All tokens of what follows the first `p` characters of a text, or its refusal, moved to their places. -/
def placedAll (source : List Char) (p : Nat) (rs : Except LexicalRefusal (List Token)) :
    Except LexicalRefusal (List Token) :=
  (rs.map (List.map (Token.placed source p))).mapError (LexicalRefusal.placed source p)

namespace Lexicon

open Piece

/-- Reading one token from offset `n` on gives a token or a refusal, and stops at another offset: behind a token and
behind a rejected numeral, but on a stray character. -/
inductive Reads (lx : Lexicon) (file : String) (source : List Char) (n : Nat) :
    Except LexicalRefusal Token → Nat → Prop
  | ending : AllBlank (source.drop n) →
      Reads lx file source n (.ok (endAt file source)) source.length
  | token {gap w after : List Char} {k : Kind} {v : Option Int} : source.drop n = gap ++ (w ++ after) → AllBlank gap →
      lx.Lexeme after k w v →
      Reads lx file source n (.ok (tokenAt file source (n + gap.length) k w v)) (n + gap.length + w.length)
  | rejected {gap w after : List Char} : source.drop n = gap ++ (w ++ after) → AllBlank gap → lx.Rejected after w →
      Reads lx file source n (.error (lx.refusal w (locationAt file source (n + gap.length))))
        (n + gap.length + w.length)
  | stray {gap after : List Char} {x : Char} : source.drop n = gap ++ x :: after → AllBlank gap → isStray x = true →
      Reads lx file source n
        (.error (.fault (.unknownCharacter (String.singleton x) (locationAt file source (n + gap.length)))))
        (n + gap.length)

variable {lx : Lexicon} {file : String} {source : List Char} {m n n' p : Nat} {t : Token} {us : List Token}
  {r r' : Except LexicalRefusal Token} {rs rs' : Except LexicalRefusal (List Token)}

/-! ## One token -/

theorem locationAt_of_append {gap rest : List Char} (file : String) (h : source.drop n = gap ++ rest) :
    locationAt file source (n + gap.length) = ((Mark.after (source.take n)).past gap).locate file :=
  congrArg (fun c : Cursor => c.mark.locate file) (Cursor.seek_of_append h)

theorem le_of_append {u rest : List Char} (h : source.drop n = u ++ rest) (hne : rest ≠ []) :
    n + u.length < source.length := by
  have hlen := congrArg List.length h
  have hpos := List.length_pos_iff.2 hne
  simp only [List.length_drop, List.length_append] at hlen
  omega

theorem next_of_reads (h : lx.Reads file source n r n') : lx.next file (.seek source n) = (r, .seek source n') := by
  cases h with
  | ending hb =>
    have hmark : (Mark.after (source.take n)).past (source.drop n) = Mark.after source := by
      rw [Mark.past_after, List.take_append_drop]
    have hlast : Token.ending file (Mark.after source) = endAt file source := by
      rw [endAt, tokenAt, locationAt, List.take_length]
      rfl
    rw [next_of_blank (c := .seek source n) hb, Cursor.seek_length, ← hlast, ← hmark]
    rfl
  | @token gap w after k v hsrc hg hl =>
    have hlt := le_of_append hsrc (List.append_ne_nil_of_left_ne_nil hl.ne_nil after)
    have htoken : Piece.token file (Mark.after (source.take n)) ⟨gap, k, w, v⟩ =
        tokenAt file source (n + gap.length) k w v := by
      rw [tokenAt, locationAt_of_append file hsrc]
      simp [Piece.token, Piece.mark, Mark.offset_after_take (show n ≤ source.length by omega)]
    rw [next_of_piece (c := .seek source n) hsrc hg hl, ← htoken, Nat.add_assoc, ← List.length_append,
      Cursor.seek_of_append (by rw [hsrc, List.append_assoc]), Mark.past_append]
    rfl
  | @rejected gap w after hsrc hg he =>
    rw [next_of_rejected (c := .seek source n) hsrc hg he, locationAt_of_append file hsrc, Nat.add_assoc,
      ← List.length_append, Cursor.seek_of_append (by rw [hsrc, List.append_assoc]), Mark.past_append]
    rfl
  | stray hsrc hg hx =>
    rw [next_of_stray (c := .seek source n) hsrc hg hx, locationAt_of_append file hsrc, Cursor.seek_of_append hsrc]
    rfl

theorem exists_reads (lx : Lexicon) (file : String) (source : List Char) (n : Nat) :
    ∃ r n', lx.Reads file source n r n' := by
  generalize hsrc : source.drop n = cs
  cases lx.opening cs with
  | blank hg => exact ⟨_, _, .ending (hsrc ▸ hg)⟩
  | lexeme hg hl => exact ⟨_, _, .token hsrc hg hl⟩
  | rejected hg he => exact ⟨_, _, .rejected hsrc hg he⟩
  | stray hg hx => exact ⟨_, _, .stray hsrc hg hx⟩

/-- Reading goes on within the text. -/
theorem Reads.within (h : lx.Reads file source n r n') (hn : n ≤ source.length) : n ≤ n' ∧ n' ≤ source.length := by
  cases h with
  | ending => exact ⟨hn, Nat.le_refl _⟩
  | token hsrc | rejected hsrc =>
    have hlen := congrArg List.length hsrc
    simp only [List.length_drop, List.length_append] at hlen
    omega
  | stray hsrc =>
    have := le_of_append hsrc (List.cons_ne_nil _ _)
    omega

/-- A token other than the end of input takes characters. -/
theorem Reads.lt (h : lx.Reads file source n (.ok t) n') (ht : t.isEnd = false) : n < n' := by
  cases h with
  | ending => cases ht
  | token _ _ hl =>
    have := List.length_pos_iff.2 hl.ne_nil
    omega

/-- What is read is determined by where it is read. -/
theorem Reads.unique (h : lx.Reads file source n r n') (h' : lx.Reads file source n r' m) (hn : n ≤ source.length) :
    r = r' ∧ n' = m := by
  obtain ⟨hr, hcursor⟩ := Prod.mk.inj ((next_of_reads h).symm.trans (next_of_reads h'))
  have hoffset := congrArg (·.mark.offset) hcursor
  simp only [Cursor.seek, Mark.offset_after_take (h.within hn).2, Mark.offset_after_take (h'.within hn).2] at hoffset
  exact ⟨hr, hoffset⟩

/-- The end of input is read behind blanks at the end of the text. -/
theorem Reads.eq_end (h : lx.Reads file source n (.ok t) n') (ht : t.isEnd = true) :
    t = endAt file source ∧ n' = source.length ∧ AllBlank (source.drop n) := by
  cases h with
  | ending hb => exact ⟨rfl, rfl, hb⟩
  | token _ _ hl =>
    have hkind := hl.kind_ne_end
    simp [tokenAt, Token.isEnd, hkind] at ht

/-! ## All tokens -/

/-- Reading from offset `n` on through the end of input, or up to the first refusal, and where it stops. -/
inductive ReadsAll (lx : Lexicon) (file : String) (source : List Char) :
    Nat → Except LexicalRefusal (List Token) → Nat → Prop
  | ending {n n' : Nat} {t : Token} : lx.Reads file source n (.ok t) n' → t.isEnd = true →
      ReadsAll lx file source n (.ok [t]) n'
  | refusal {n n' : Nat} {e : LexicalRefusal} : lx.Reads file source n (.error e) n' →
      ReadsAll lx file source n (.error e) n'
  | token {n n' n'' : Nat} {t : Token} {rs : Except LexicalRefusal (List Token)} : lx.Reads file source n (.ok t) n' →
      t.isEnd = false → ReadsAll lx file source n' rs n'' → ReadsAll lx file source n (rs.map (t :: ·)) n''

/-- Induction on a reading that meets no refusal. -/
theorem ReadsAll.ok_induction {motive : ∀ {n n' us}, lx.ReadsAll file source n (.ok us) n' → Prop}
    (ending : ∀ {n n' t} (h : lx.Reads file source n (.ok t) n') (ht : t.isEnd = true), motive (.ending h ht))
    (token : ∀ {n n' n'' t us} (h : lx.Reads file source n (.ok t) n') (ht : t.isEnd = false)
      (hs : lx.ReadsAll file source n' (.ok us) n''), motive hs → motive (.token h ht hs))
    (h : lx.ReadsAll file source n (.ok us) n') : motive h := by
  have all : ∀ {rs n n'} (h : lx.ReadsAll file source n rs n') us (e : rs = .ok us), @motive n n' us (e ▸ h) := by
    intro rs n n' h
    induction h with
    | refusal => exact fun us e => nomatch e
    | ending h ht =>
      rintro us ⟨⟩
      exact ending h ht
    | @token _ _ _ t rs h ht hs ih =>
      cases rs with
      | error f => exact fun us e => nomatch e
      | ok vs =>
        rintro us ⟨⟩
        exact token h ht hs (ih vs rfl)
  exact all h us rfl

theorem drain_of_readsAll (h : lx.ReadsAll file source n rs n') :
    lx.drain file (.seek source n) = (rs, .seek source n') := by
  induction h with
  | ending h ht => exact drain_of_end (next_of_reads h) ht
  | refusal h => exact drain_of_error (next_of_reads h)
  | token h ht _ ih => rw [drain_of_ok (next_of_reads h) ht, ih]

/-- The induction is on what is left of the text. -/
theorem exists_readsAll (lx : Lexicon) (file : String) (source : List Char) (hn : n ≤ source.length) :
    ∃ rs n', lx.ReadsAll file source n rs n' := by
  induction h : source.length - n using Nat.strongRecOn generalizing n with
  | ind N ih =>
    subst h
    obtain ⟨r, n', hr⟩ := lx.exists_reads file source n
    cases r with
    | error f => exact ⟨_, _, .refusal hr⟩
    | ok t =>
      cases ht : t.isEnd with
      | true => exact ⟨_, _, .ending hr ht⟩
      | false =>
        have hlt := hr.lt ht
        have hle := (hr.within hn).2
        obtain ⟨rs, n'', hrs⟩ := ih _ (by omega) hle rfl
        exact ⟨_, _, .token hr ht hrs⟩

theorem ReadsAll.within (h : lx.ReadsAll file source n rs n') (hn : n ≤ source.length) :
    n ≤ n' ∧ n' ≤ source.length := by
  induction h with
  | ending h _ | refusal h => exact h.within hn
  | token h _ _ ih =>
    have hle := h.within hn
    have := ih hle.2
    omega

theorem ReadsAll.unique (h : lx.ReadsAll file source n rs n') (h' : lx.ReadsAll file source n rs' m) : rs = rs' :=
  (Prod.mk.inj ((drain_of_readsAll h).symm.trans (drain_of_readsAll h'))).1

/-- Tokenizing is reading from the start of the text on. -/
theorem readsAll_tokenize (lx : Lexicon) (file text : String) :
    ∃ n', lx.ReadsAll file text.toList 0 (lx.tokenize file text) n' := by
  obtain ⟨rs, n', h⟩ := lx.exists_readsAll file text.toList (Nat.zero_le _)
  rw [tokenize, Cursor.ofText_eq_seek, drain_of_readsAll h]
  exact ⟨n', h⟩

theorem Reads.exists_fault {e : LexicalRefusal} (h : lx.Reads file source n (.error e) n') (hroom : lx.Roomy) :
    ∃ f, e = .fault f := by
  cases h with
  | rejected _ _ hr => exact hr.exists_fault hroom _
  | stray => exact ⟨_, rfl⟩

theorem ReadsAll.exists_fault {e : LexicalRefusal} (h : lx.ReadsAll file source n rs n') (hrs : rs = .error e)
    (hroom : lx.Roomy) : ∃ f, e = .fault f := by
  induction h with
  | ending => cases hrs
  | refusal h =>
    obtain rfl := Except.error.inj hrs
    exact h.exists_fault hroom
  | @token _ _ _ _ rs _ _ _ ih =>
    cases rs with
    | error _ => exact ih hrs
    | ok us => cases hrs

/-- Where there is room for the sign of the limit, a text that is not tokenized has a lexical fault. -/
theorem exists_fault_of_tokenize {text : String} {e : LexicalRefusal} (h : lx.tokenize file text = .error e)
    (hroom : lx.Roomy) : ∃ f, e = .fault f := by
  obtain ⟨n', hrs⟩ := lx.readsAll_tokenize file text
  exact hrs.exists_fault h hroom

/-- At the end of the text the end of input is all there is. -/
theorem readsAll_end (lx : Lexicon) (file : String) (source : List Char) :
    lx.ReadsAll file source source.length (.ok [endAt file source]) source.length := by
  refine .ending (.ending ?_) rfl
  rw [List.drop_length]
  exact fun c hc => absurd hc List.not_mem_nil

theorem ReadsAll.eq_end (h : lx.ReadsAll file source n (.ok us) n') :
    us.getLast? = some (endAt file source) ∧ n' = source.length := by
  induction h using ReadsAll.ok_induction with
  | ending h ht =>
    obtain ⟨rfl, rfl, -⟩ := h.eq_end ht
    exact ⟨rfl, rfl⟩
  | token _ _ _ ih =>
    obtain ⟨hlast, hn⟩ := ih
    exact ⟨by rw [List.getLast?_cons, hlast, Option.getD_some], hn⟩

/-! ## The rest of a text -/

theorem locationAt_placed (h : p + n ≤ source.length) :
    (locationAt file (source.drop p) n).placed source p = locationAt file source (p + n) := by
  have hleft : n ≤ (source.drop p).length := by
    rw [List.length_drop]
    omega
  simp only [locationAt, Location.placed, Mark.locate, Mark.offset_after_take hleft, Mark.offset_after_take h]
  rw [show ((n : Int) + p).toNat = p + n by omega]
  simp [Int.add_comm]

theorem tokenAt_placed {k : Kind} {w : List Char} {v : Option Int} (h : p + n ≤ source.length) :
    (tokenAt file (source.drop p) n k w v).placed source p = tokenAt file source (p + n) k w v := by
  simp only [tokenAt, Token.placed, locationAt_placed h, Token.mk.injEq, true_and, and_true]
  omega

theorem refusal_placed (lx : Lexicon) (w : List Char) (l : Location) :
    (lx.refusal w l).placed source p = lx.refusal w (l.placed source p) := by
  unfold refusal
  split <;> rfl

/-- **The rest of a text is read like the text from there on**, with everything moved to its place. -/
theorem Reads.placed (h : lx.Reads file (source.drop p) n r n') (hn : p + n ≤ source.length) :
    lx.Reads file source (p + n) ((r.map (Token.placed source p)).mapError (LexicalRefusal.placed source p))
      (p + n') := by
  cases h with
  | ending hb =>
    have hlen : p + (source.drop p).length = source.length := by
      rw [List.length_drop]
      omega
    rw [Except.map, Except.mapError, endAt, tokenAt_placed (Nat.le_of_eq hlen), hlen]
    exact .ending (by rwa [← List.drop_drop])
  | @token gap w after k v hsrc hg hl =>
    rw [List.drop_drop] at hsrc
    have hlt := le_of_append hsrc (List.append_ne_nil_of_left_ne_nil hl.ne_nil after)
    rw [Except.map, Except.mapError, tokenAt_placed (by omega), ← Nat.add_assoc, ← Nat.add_assoc, ← Nat.add_assoc]
    exact .token hsrc hg hl
  | @rejected gap w after hsrc hg he =>
    rw [List.drop_drop] at hsrc
    have hlt := le_of_append hsrc (List.append_ne_nil_of_left_ne_nil he.ne_nil after)
    rw [Except.map, Except.mapError, refusal_placed, locationAt_placed (by omega), ← Nat.add_assoc,
      ← Nat.add_assoc, ← Nat.add_assoc]
    exact .rejected hsrc hg he
  | @stray gap after x hsrc hg hx =>
    rw [List.drop_drop] at hsrc
    have hlt := le_of_append hsrc (List.cons_ne_nil x after)
    rw [Except.map, Except.mapError, LexicalRefusal.placed, LexicalFault.placed, locationAt_placed (by omega),
      ← Nat.add_assoc]
    exact .stray hsrc hg hx

theorem ReadsAll.placed (h : lx.ReadsAll file (source.drop p) n rs n') (hn : p + n ≤ source.length) :
    lx.ReadsAll file source (p + n) (placedAll source p rs) (p + n') := by
  induction h with
  | ending h ht => exact .ending (h.placed hn) ht
  | refusal h => exact .refusal (h.placed hn)
  | @token n n' n'' t rs h ht _ ih =>
    have hle : n' ≤ (source.drop p).length := (h.within (by rw [List.length_drop]; omega)).2
    rw [List.length_drop] at hle
    have hrest := ReadsAll.token (h.placed hn) ht (ih (by omega))
    cases rs <;> exact hrest

/-- Reading from an offset on. -/
theorem readsAll_placed (lx : Lexicon) (file : String) (hp : p ≤ source.length) :
    ∃ n', lx.ReadsAll file source p (placedAll source p (lx.tokenize file (String.ofList (source.drop p)))) n' := by
  obtain ⟨n', h⟩ := lx.readsAll_tokenize file (String.ofList (source.drop p))
  rw [String.toList_ofList] at h
  exact ⟨p + n', h.placed hp⟩

end Lexicon

end FrontEnd
