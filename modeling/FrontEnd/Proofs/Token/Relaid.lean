import FrontEnd.Proofs.Token.Opening
import Mathlib.Data.List.Forall2

/-!
# Texts that differ in their blanks

`Relaid` relates two texts with the same characters between blanks: where the first one has a run of blanks, the second
one has some run of blanks, too. `Relayout` moreover lets blanks in front come and go. A lexeme never sees which blanks
follow it, so both texts are cut into the same lexemes, with gaps at the same places (**`Lexicon.Joins.relayout`**), and
where one text cannot be read on, neither can the other (**`Lexicon.tokenize_relayout`**).
-/

namespace FrontEnd

/-- The second text is the first one with other blanks. Only at the end may blanks be missing on one side. -/
inductive Relaid : List Char → List Char → Prop
  | tail {g g' : List Char} : AllBlank g → AllBlank g' → Relaid g g'
  | char {x : Char} {cs cs' : List Char} : isBlank x = false → Relaid cs cs' → Relaid (x :: cs) (x :: cs')
  | gap {g g' cs cs' : List Char} : AllBlank g → g ≠ [] → AllBlank g' → g' ≠ [] → Relaid cs cs' →
      Relaid (g ++ cs) (g' ++ cs')

/-- The second text is the first one with other blanks, and with any blanks in front. -/
inductive Relayout : List Char → List Char → Prop
  | lead {g g' cs cs' : List Char} : AllBlank g → AllBlank g' → Relaid cs cs' → Relayout (g ++ cs) (g' ++ cs')

variable {cs cs' gap rest w : List Char}

instance (cs : List Char) : Decidable (AllBlank cs) :=
  inferInstanceAs (Decidable (∀ c ∈ cs, isBlank c = true))

theorem AllBlank.begins {p : Char → Bool} (hg : AllBlank gap) (hp : ∀ y, isBlank y = true → p y = false) :
    begins p gap = false := by
  cases gap with
  | nil => rfl
  | cons y gap => exact hp y (hg y List.mem_cons_self)

theorem AllBlank.append {g g' : List Char} (h : AllBlank g) (h' : AllBlank g') : AllBlank (g ++ g') :=
  fun c hc => (List.mem_append.1 hc).elim (h c) (h' c)

/-- Blanks in front of something that is no blank are all there are. -/
theorem eq_append_of_allBlank {g : List Char} (h : g ++ cs = gap ++ rest) (hg : AllBlank g) (hne : rest ≠ [])
    (hrest : begins isBlank rest = false) : ∃ gap', gap = g ++ gap' ∧ cs = gap' ++ rest := by
  rcases List.append_eq_append_iff.1 h with ⟨gap', rfl, rfl⟩ | ⟨u, rfl, rfl⟩
  · exact ⟨gap', rfl, rfl⟩
  · cases u with
    | nil => exact ⟨[], by simp, by simp⟩
    | cons y u =>
      have hy : isBlank y = true := hg y (by simp)
      have : isBlank y = false := hrest
      simp [hy] at this

namespace Relaid

theorem allBlank (h : Relaid cs cs') (hcs : AllBlank cs) : AllBlank cs' := by
  induction h with
  | tail _ h => exact h
  | char hx _ _ =>
    have := hcs _ List.mem_cons_self
    simp [hx] at this
  | gap _ _ hg' _ _ ih => exact hg'.append (ih fun c hc => hcs c (List.mem_append_right _ hc))

/-- What follows begins alike, as far as blanks are not looked at. -/
theorem begins_eq {p : Char → Bool} (h : Relaid cs cs') (hp : ∀ y, isBlank y = true → p y = false) :
    begins p cs = begins p cs' := by
  cases h with
  | tail hg hg' => rw [hg.begins hp, hg'.begins hp]
  | char => rfl
  | @gap g g' cs cs' hg hne hg' hne' _ =>
    obtain ⟨y, g, rfl⟩ := List.exists_cons_of_ne_nil hne
    obtain ⟨z, g', rfl⟩ := List.exists_cons_of_ne_nil hne'
    show p y = p z
    rw [hp y (hg y List.mem_cons_self), hp z (hg' z List.mem_cons_self)]

/-- Characters that are no blanks stay where they are. -/
theorem across (h : Relaid (w ++ rest) cs') (hw : ∀ y ∈ w, isBlank y = false) :
    ∃ rest', cs' = w ++ rest' ∧ Relaid rest rest' := by
  induction w generalizing cs' with
  | nil => exact ⟨cs', rfl, h⟩
  | cons x w ih =>
    obtain ⟨hx, hw⟩ := List.forall_mem_cons.1 hw
    generalize hcs : x :: w ++ rest = cs at h
    cases h with
    | tail hg _ =>
      have := hg x (by rw [← hcs]; simp)
      simp [hx] at this
    | char _ h =>
      obtain ⟨rfl, rfl⟩ := List.cons.inj hcs
      obtain ⟨rest', rfl, h'⟩ := ih h hw
      exact ⟨rest', rfl, h'⟩
    | gap hg hne _ _ _ =>
      obtain ⟨y, g, rfl⟩ := List.exists_cons_of_ne_nil hne
      obtain ⟨rfl, _⟩ := List.cons.inj hcs
      have := hg x List.mem_cons_self
      simp [hx] at this

/-- Behind the blanks in front, the texts still correspond, and there are blanks on both sides or on neither. -/
theorem behind_gap (h : Relaid cs cs') (hcs : cs = gap ++ rest) (hg : AllBlank gap) (hne : rest ≠ [])
    (hrest : begins isBlank rest = false) :
    ∃ gap' rest', cs' = gap' ++ rest' ∧ AllBlank gap' ∧ (gap = [] ↔ gap' = []) ∧ Relaid rest rest' := by
  induction h generalizing gap with
  | @tail g g' hb _ =>
    obtain ⟨y, rest, rfl⟩ := List.exists_cons_of_ne_nil hne
    have hy : isBlank y = true := hb y (by rw [hcs]; simp)
    have : isBlank y = false := hrest
    simp [hy] at this
  | @char x cs cs' hx h _ =>
    cases gap with
    | nil =>
      obtain rfl : x :: cs = rest := hcs
      exact ⟨[], x :: cs', rfl, nofun, Iff.rfl, .char hx h⟩
    | cons y gap =>
      obtain ⟨rfl, _⟩ := List.cons.inj hcs
      have := hg x List.mem_cons_self
      simp [hx] at this
  | @gap g g' cs cs' hb hgne hb' hgne' h ih =>
    obtain ⟨gap', rfl, rfl⟩ := eq_append_of_allBlank hcs hb hne hrest
    obtain ⟨gap'', rest', rfl, hg'', -, h'⟩ := ih rfl (fun c hc => hg c (List.mem_append_right _ hc))
    refine ⟨g' ++ gap'', rest', by rw [List.append_assoc], hb'.append hg'', ?_, h'⟩
    simp [hgne, hgne']

end Relaid

namespace Relayout

theorem behind_gap (h : Relayout cs cs') (hcs : cs = gap ++ rest) (hg : AllBlank gap) (hne : rest ≠ [])
    (hrest : begins isBlank rest = false) :
    ∃ gap' rest', cs' = gap' ++ rest' ∧ AllBlank gap' ∧ Relaid rest rest' := by
  cases h with
  | @lead g g' cs cs' hb hb' h =>
    obtain ⟨gap', rfl, rfl⟩ := eq_append_of_allBlank hcs hb hne hrest
    obtain ⟨gap'', rest', rfl, hg'', -, h'⟩ :=
      h.behind_gap rfl (fun c hc => hg c (List.mem_append_right _ hc)) hne hrest
    exact ⟨g' ++ gap'', rest', by rw [List.append_assoc], hb'.append hg'', h'⟩

theorem allBlank (h : Relayout cs cs') (hcs : AllBlank cs) : AllBlank cs' := by
  cases h with
  | @lead g g' cs cs' hb hb' h =>
    exact hb'.append (h.allBlank fun c hc => hcs c (List.mem_append_right _ hc))

end Relayout

theorem Relaid.relayout (h : Relaid cs cs') : Relayout cs cs' :=
  show Relayout ([] ++ cs) ([] ++ cs') from .lead nofun nofun h

/-- The same fault at another place. -/
def LexicalFault.moved (l : Location) : LexicalFault → LexicalFault
  | unknownCharacter c _ => unknownCharacter c l
  | numericOverflow text limit _ => numericOverflow text limit l

/-- The same refusal, of a fault at another place. -/
def LexicalRefusal.moved (l : Location) : LexicalRefusal → LexicalRefusal
  | fault f => fault (f.moved l)
  | misuse m => misuse m

theorem LexicalRefusal.moved_moved (e : LexicalRefusal) (l l' : Location) : (e.moved l).moved l' = e.moved l' := by
  cases e with
  | fault f => cases f <;> rfl
  | misuse m => rfl

namespace Piece

/-- The same lexeme. -/
def Alike (p q : Piece) : Prop :=
  p.kind = q.kind ∧ p.chars = q.chars ∧ p.value = q.value

/-- The same lexeme, behind a gap on both sides or on neither. -/
def Abreast (p q : Piece) : Prop :=
  p.Alike q ∧ (p.gap = [] ↔ q.gap = [])

/-- The same lexemes with gaps at the same places, the place before the first one apart. -/
inductive InStep : List Piece → List Piece → Prop
  | nil : InStep [] []
  | cons {p q : Piece} {ps qs : List Piece} : p.Alike q → ps.Forall₂ Abreast qs → InStep (p :: ps) (q :: qs)

end Piece

namespace Lexicon

open Piece

variable {lx : Lexicon} {file : String} {ps : List Piece} {e : LexicalRefusal}

/-! ## The same lexemes -/

theorem Joins.relaid (hj : lx.Joins ps rest) (h : Relaid (render ps rest) cs') :
    ∃ qs rest', cs' = render qs rest' ∧ lx.Joins qs rest' ∧ ps.Forall₂ Abreast qs ∧ Relaid rest rest' := by
  induction ps generalizing cs' with
  | nil => exact ⟨[], cs', rfl, trivial, .nil, h⟩
  | cons p ps ih =>
    obtain ⟨hg, hl, hj⟩ := hj
    obtain ⟨gap', _, rfl, hg', hgap, hw⟩ := h.behind_gap rfl hg (by simp [hl.ne_nil]) (hl.begins_not_blank _)
    obtain ⟨_, rfl, hafter⟩ := hw.across hl.not_blank
    obtain ⟨qs, rest', rfl, hj', hqs, hrest⟩ := ih hj hafter
    refine ⟨⟨gap', p.kind, p.chars, p.value⟩ :: qs, rest', rfl, ⟨hg', ?_, hj'⟩,
      .cons ⟨⟨rfl, rfl, rfl⟩, hgap⟩ hqs, hrest⟩
    exact hl.transfer fun p hp hb => by rw [← hafter.begins_eq hp, hb]

/-- **The same lexemes**: with other blanks, a text is still cut at the same places. -/
theorem Joins.relayout (hj : lx.Joins ps rest) (h : Relayout (render ps rest) cs') :
    ∃ qs rest', cs' = render qs rest' ∧ lx.Joins qs rest' ∧ InStep ps qs ∧ Relayout rest rest' := by
  cases ps with
  | nil => exact ⟨[], cs', rfl, trivial, .nil, h⟩
  | cons p ps =>
    obtain ⟨hg, hl, hj⟩ := hj
    obtain ⟨gap', _, rfl, hg', hw⟩ := h.behind_gap rfl hg (by simp [hl.ne_nil]) (hl.begins_not_blank _)
    obtain ⟨_, rfl, hafter⟩ := hw.across hl.not_blank
    obtain ⟨qs, rest', rfl, hj', hqs, hrest⟩ := hj.relaid hafter
    refine ⟨⟨gap', p.kind, p.chars, p.value⟩ :: qs, rest', rfl, ⟨hg', ?_, hj'⟩, .cons ⟨rfl, rfl, rfl⟩ hqs,
      hrest.relayout⟩
    exact hl.transfer fun p hp hb => by rw [← hafter.begins_eq hp, hb]

/-! ## The same refusal -/

theorem refusal_moved (lx : Lexicon) (w : List Char) (l l' : Location) :
    (lx.refusal w l).moved l' = lx.refusal w l' := by
  unfold refusal
  split <;> rfl

/-- The text cannot be read on, for the given refusal at some place. -/
inductive Stuck (lx : Lexicon) : List Char → LexicalRefusal → Prop
  | rejected {gap w after : List Char} {l : Location} : AllBlank gap → lx.Rejected after w →
      Stuck lx (gap ++ (w ++ after)) (lx.refusal w l)
  | stray {gap after : List Char} {x : Char} {l : Location} : AllBlank gap → isStray x = true →
      Stuck lx (gap ++ x :: after) (.fault (.unknownCharacter (String.singleton x) l))

/-- A text is made of pieces, behind which it ends or cannot be read on. -/
theorem exists_joins (lx : Lexicon) (cs : List Char) :
    ∃ ps rest, cs = render ps rest ∧ lx.Joins ps rest ∧ (AllBlank rest ∨ ∃ e, lx.Stuck rest e) := by
  induction h : cs.length using Nat.strongRecOn generalizing cs with
  | ind N ih =>
    subst h
    cases lx.opening cs with
    | blank hg => exact ⟨[], cs, rfl, trivial, .inl hg⟩
    | rejected hg he => exact ⟨[], _, rfl, trivial, .inr ⟨_, .rejected (l := ⟨"", 0, 0, 0⟩) hg he⟩⟩
    | stray hg hx => exact ⟨[], _, rfl, trivial, .inr ⟨_, .stray (l := ⟨"", 0, 0, 0⟩) hg hx⟩⟩
    | @lexeme gap w after k v hg hl =>
      have hpos : 0 < w.length := List.length_pos_iff.2 hl.ne_nil
      obtain ⟨ps, rest, rfl, hj, hrest⟩ := ih _ (by simp only [List.length_append]; omega) after rfl
      exact ⟨⟨gap, k, w, v⟩ :: ps, rest, rfl, ⟨hg, hl, hj⟩, hrest⟩

theorem Stuck.next (h : lx.Stuck rest e) {c : Cursor} (hc : c.rest = rest) :
    ∃ l c', lx.next file c = (.error (e.moved l), c') := by
  cases h with
  | @rejected gap w after l hg he =>
    have hnext : lx.next file c = _ := next_of_rejected hc hg he
    rw [← refusal_moved lx w l] at hnext
    exact ⟨_, _, hnext⟩
  | stray hg hx => exact ⟨_, _, next_of_stray hc hg hx⟩

theorem drain_of_stuck (hj : lx.Joins ps rest) (h : lx.Stuck rest e) {c : Cursor} (hc : c.rest = render ps rest) :
    ∃ l, (lx.drain file c).1 = .error (e.moved l) := by
  induction ps generalizing c with
  | nil =>
    obtain ⟨l, c', hn⟩ := h.next hc
    exact ⟨l, by rw [drain_of_error hn]⟩
  | cons p ps ih =>
    obtain ⟨hg, hl, hj⟩ := hj
    obtain ⟨l, hd⟩ := ih (c := ⟨p.mark c.mark, render ps rest⟩) hj rfl
    refine ⟨l, ?_⟩
    rw [drain_of_ok (next_of_piece hc hg hl) (by simpa [Token.isEnd, token] using hl.kind_ne_end), hd]
    rfl

theorem Stuck.relayout (h : lx.Stuck rest e) (hr : Relayout rest cs') : lx.Stuck cs' e := by
  cases h with
  | @rejected gap w after l hg he =>
    have hnb : ∀ y ∈ w, isBlank y = false := fun y hy => isBlank_of_isWordPart (isWordPart_of_isDigit (he.digits y hy))
    obtain ⟨x, w, rfl⟩ := List.exists_cons_of_ne_nil he.ne_nil
    obtain ⟨gap', _, rfl, hg', hw⟩ := hr.behind_gap rfl hg nofun (hnb x List.mem_cons_self)
    obtain ⟨_, rfl, hafter⟩ := hw.across hnb
    refine .rejected hg' ⟨he.ne_nil, he.digits, ?_, he.valueless⟩
    rw [← hafter.begins_eq fun y hy => (blank_class hy).2]
    exact he.maximal
  | @stray gap after x l hg hx =>
    obtain ⟨gap', _, rfl, hg', hw⟩ := hr.behind_gap rfl hg nofun (stray_class hx).1
    obtain ⟨_, rfl, -⟩ := hw.across (w := [x]) (by simpa using (stray_class hx).1)
    exact .stray hg' hx

/-- Reading with other blanks, from sources of any names: both texts are made of pieces in step, or both have the same
refusal. -/
theorem tokenize_across {text text' : String} (file file' : String) (h : Relayout text.toList text'.toList) :
    (∃ ps qs, InStep ps qs ∧ (∃ rest, lx.Joins ps rest ∧ AllBlank rest ∧ text.toList = render ps rest) ∧
        ∃ rest, lx.Joins qs rest ∧ AllBlank rest ∧ text'.toList = render qs rest) ∨
      ∃ e l l', lx.tokenize file text = .error (LexicalRefusal.moved l e) ∧
        lx.tokenize file' text' = .error (LexicalRefusal.moved l' e) := by
  obtain ⟨ps, rest, hps, hj, hrest⟩ := lx.exists_joins text.toList
  rw [hps] at h
  obtain ⟨qs, rest', hqs, hj', hstep, hr⟩ := hj.relayout h
  rcases hrest with hb | ⟨e, he⟩
  · exact .inl ⟨ps, qs, hstep, ⟨rest, hj, hb, hps⟩, rest', hj', hr.allBlank hb, hqs⟩
  · obtain ⟨l, hl⟩ := drain_of_stuck hj he (c := .ofText text.toList) hps
    obtain ⟨l', hl'⟩ := drain_of_stuck hj' (he.relayout hr) (c := .ofText text'.toList) hqs
    exact .inr ⟨e, l, l', hl, hl'⟩

/-- **Reading with other blanks**: both texts are made of pieces in step, or both have the same refusal. -/
theorem tokenize_relayout {text text' : String} (file : String) (h : Relayout text.toList text'.toList) :
    (∃ ps qs, InStep ps qs ∧ (∃ rest, lx.Joins ps rest ∧ AllBlank rest ∧ text.toList = render ps rest) ∧
        ∃ rest, lx.Joins qs rest ∧ AllBlank rest ∧ text'.toList = render qs rest) ∨
      ∃ e l l', lx.tokenize file text = .error (LexicalRefusal.moved l e) ∧
        lx.tokenize file text' = .error (LexicalRefusal.moved l' e) :=
  tokenize_across file file h

end Lexicon

end FrontEnd
