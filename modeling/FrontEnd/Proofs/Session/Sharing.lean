import FrontEnd.Proofs.Session.Place
import Mathlib.Data.List.Forall2

/-!
# Sharing a session

Whoever takes tokens from a session, by single readings, by draining it or through any of its iterators, takes them from
one sequence: all tokens of the text, the end of input again and again behind them. Nothing of it is lost or given
twice, and an iterator stops once it gave the end of input (**`Session.run_delivers`**). A step keeps what is still to
come (`Session.Answers.delivers`), and finishes an iterator only by advancing it (`Session.finished_step`).
-/

namespace FrontEnd

variable {lx : Lexicon} {file : String} {source : List Char} {n n' m : Nat}

namespace Lexicon

variable {us : List Token} {r : Except LexicalRefusal Token}

/-- Reading one token takes the first one of those ahead, the end of input without using it up. -/
theorem ReadsAll.split (h : lx.ReadsAll file source n (.ok us) m) (hr : lx.Reads file source n r n')
    (hn : n ≤ source.length) :
    ∃ t us' k, r = .ok t ∧ lx.ReadsAll file source n' (.ok us') source.length ∧
      t :: us' = us ++ List.replicate k (endAt file source) := by
  cases h using ReadsAll.ok_induction with
  | ending h ht =>
    obtain ⟨rfl, rfl⟩ := hr.unique h hn
    obtain ⟨rfl, rfl, -⟩ := h.eq_end ht
    exact ⟨_, _, 1, rfl, readsAll_end lx file source, rfl⟩
  | @token _ _ _ t us' h ht hrest =>
    obtain ⟨rfl, rfl⟩ := hr.unique h hn
    obtain ⟨-, rfl⟩ := hrest.eq_end
    exact ⟨t, us', 0, rfl, hrest, (List.append_nil _).symm⟩

end Lexicon

namespace Session

open Lexicon

/-- The step goes on from where the session stands. -/
def Step.readsOn : Step → Bool
  | .reset _ | .tokenize => false
  | _ => true

/-- The tokens that an answer gives. -/
def Answer.delivered : Answer → List Token
  | .token t => [t]
  | .tokens ts => ts
  | _ => []

/-- The answers to steps that read on in a text without faults: a reading gives a token, and draining gives all tokens
through the end of input. -/
inductive Step.Fits (final : Token) : Step → Answer → Prop
  | next (t : Token) : Fits final .next (.token t)
  | drain {ts : List Token} : ts.getLast? = some final → Fits final .drain (.tokens ts)
  | iterate : Fits final .iterate .done
  | advance (i : Nat) (t : Token) : Fits final (.advance i) (.token t)
  | stopped (i : Nat) : Fits final (.advance i) .stopped

variable {s : Session} {st : Step} {a : Answer} {us : List Token} {i : Nat}

/-! ## What is taken -/

/-- **A step takes what it gives from the tokens ahead.** -/
theorem Answers.delivers (h : Answers lx file source n st a n') (hn : n ≤ source.length) (hst : st.readsOn = true)
    (hus : lx.ReadsAll file source n (.ok us) source.length) :
    st.Fits (endAt file source) a ∧ ∃ us' k, lx.ReadsAll file source n' (.ok us') source.length ∧
      a.delivered ++ us' = us ++ List.replicate k (endAt file source) := by
  cases h with
  | reset | outside | tokenize => cases hst
  | next hr =>
    obtain ⟨t, us', k, rfl, hus', heq⟩ := hus.split hr hn
    exact ⟨.next t, us', k, hus', heq⟩
  | advance hr =>
    obtain ⟨t, us', k, rfl, hus', heq⟩ := hus.split hr hn
    exact ⟨.advance _ t, us', k, hus', heq⟩
  | drain hrs =>
    obtain rfl := hrs.unique hus
    obtain ⟨hlast, rfl⟩ := hrs.eq_end
    exact ⟨.drain hlast, _, 1, readsAll_end lx file source, rfl⟩
  | iterate => exact ⟨.iterate, us, 0, hus, (List.append_nil us).symm⟩
  | stopped => exact ⟨.stopped _, us, 0, hus, (List.append_nil us).symm⟩

theorem Stands.delivers {steps : List Step} (h : Stands lx file source n s) (hsteps : ∀ st ∈ steps, st.readsOn = true)
    (hus : lx.ReadsAll file source n (.ok us) source.length) :
    List.Forall₂ (Step.Fits (endAt file source)) steps (s.run steps).1 ∧ ∃ us' k,
      (s.run steps).1.flatMap Answer.delivered ++ us' = us ++ List.replicate k (endAt file source) := by
  induction steps generalizing n s us with
  | nil => exact ⟨.nil, us, 0, (List.append_nil us).symm⟩
  | cons st steps ih =>
    obtain ⟨hst, hsteps⟩ := List.forall_mem_cons.1 hsteps
    obtain ⟨n', ha, hs⟩ := h.step st
    obtain ⟨hfits, us', k, hus', heq⟩ := ha.delivers h.within hst hus
    obtain ⟨hrest, us'', k', heq'⟩ := ih hs hsteps hus'
    refine ⟨.cons hfits hrest, us'', k + k', ?_⟩
    calc (s.run (st :: steps)).1.flatMap Answer.delivered ++ us''
      _ = (s.step st).1.delivered ++ (((s.step st).2.run steps).1.flatMap Answer.delivered ++ us'') :=
        List.append_assoc _ _ _
      _ = us ++ List.replicate (k + k') (endAt file source) := by
        rw [heq', ← List.append_assoc, heq, List.append_assoc, List.replicate_add]

/-! ## Finished iterators -/

@[simp]
theorem finished_next (s : Session) : s.next.2.finished = s.finished := by
  unfold next
  split <;> rfl

@[simp]
theorem finished_reset (s : Session) (p : Int) : (s.reset p).2.finished = s.finished := by
  unfold reset
  split <;> rfl

@[simp]
theorem finished_drain (s : Session) : s.drain.2.finished = s.finished := by
  unfold drain
  split <;> rfl

theorem finished_advance (s : Session) (i : Nat) :
    s.finished.getD i true = true ∧ s.advance i = (.stopped, s) ∨
      s.finished[i]? = some false ∧ (s.advance i).1 ≠ .stopped ∧
        (s.advance i).2.finished = s.finished.set i (s.advance i).1.finishes := by
  cases hi : s.finished.getD i true with
  | true => exact .inl ⟨rfl, by rw [advance, if_pos hi]⟩
  | false =>
    refine .inr ⟨?_, ?_⟩
    · rw [List.getD_eq_getElem?_getD] at hi
      cases h : s.finished[i]? <;> simp_all
    · rw [advance, hi, if_neg Bool.false_ne_true]
      split
      · exact ⟨by simp, rfl⟩
      · exact ⟨by simp, by rw [Answer.finishes_ofRefusal]⟩

theorem advance_eq_stopped_iff : (s.advance i).1 = .stopped ↔ s.finished.length ≤ i ∨ s.finished[i]? = some true := by
  rw [← List.getElem?_eq_none_iff]
  obtain ⟨hi, hadvance⟩ | ⟨hi, hne, -⟩ := s.finished_advance i
  · rw [List.getD_eq_getElem?_getD] at hi
    rw [hadvance]
    cases h : s.finished[i]? <;> simp_all
  · simp [hi, hne]

theorem length_finished_step (s : Session) (st : Step) :
    (s.step st).2.finished.length = s.finished.length + [st].count .iterate := by
  cases st with
  | iterate => simp [step]
  | advance i =>
    obtain ⟨-, h⟩ | ⟨-, -, h⟩ := s.finished_advance i <;> simp [step, h]
  | next | reset | tokenize | drain => simp [step]

/-- A step finishes an iterator only by advancing it. -/
theorem finished_step (s : Session) (st : Step) (i : Nat) : (s.step st).2.finished[i]? = some true ↔
    s.finished[i]? = some true ∨ st = .advance i ∧ (s.step st).1.finishes = true := by
  cases st with
  | iterate =>
    have hnew : (s.finished ++ [false])[i]? = some true ↔ s.finished[i]? = some true := by
      rw [List.getElem?_append]
      split
      · rfl
      · next hi => simp [List.getElem?_eq_none (Nat.not_lt.1 hi), List.getElem?_singleton]
    simp [step, hnew]
  | advance j =>
    obtain ⟨-, h⟩ | ⟨hj, -, h⟩ := s.finished_advance j
    · simp [step, h, Answer.finishes]
    · obtain ⟨hlt, hfalse⟩ := List.getElem?_eq_some_iff.1 hj
      rw [step, h]
      by_cases hij : j = i
      · subst hij
        simp [hlt, hfalse]
      · simp [hij]
  | next | reset | tokenize | drain => simp [step]

theorem length_finished_run (s : Session) (steps : List Step) :
    (s.run steps).2.finished.length = s.finished.length + steps.count .iterate := by
  induction steps generalizing s with
  | nil => rfl
  | cons st steps ih =>
    have hstep := s.length_finished_step st
    have hrun : (s.run (st :: steps)).2.finished.length = _ := ih (s.step st).2
    rw [hrun, hstep, Nat.add_assoc, ← List.count_append, List.singleton_append]

theorem finished_run (s : Session) (steps : List Step) (i : Nat) : (s.run steps).2.finished[i]? = some true ↔
    s.finished[i]? = some true ∨
      ∃ a, (Step.advance i, a) ∈ steps.zip (s.run steps).1 ∧ a.finishes = true := by
  induction steps generalizing s with
  | nil => simp [run]
  | cons st steps ih =>
    have hrun : (s.run (st :: steps)).2.finished[i]? = some true ↔ _ := ih (s.step st).2
    have hzip : (st :: steps).zip (s.run (st :: steps)).1 =
        (st, (s.step st).1) :: steps.zip ((s.step st).2.run steps).1 := rfl
    rw [hrun, finished_step, hzip]
    simp only [List.mem_cons, Prod.mk.injEq]
    constructor
    · rintro ((h | ⟨rfl, h⟩) | ⟨a, ha, h⟩)
      · exact .inl h
      · exact .inr ⟨_, .inl ⟨rfl, rfl⟩, h⟩
      · exact .inr ⟨a, .inr ha, h⟩
    · rintro (h | ⟨a, ⟨rfl, rfl⟩ | ha, h⟩)
      · exact .inl (.inl h)
      · exact .inl (.inr ⟨rfl, h⟩)
      · exact .inr ⟨a, ha, h⟩

/-- An iterator gives nothing as long as it is not made yet, and again when it finished. -/
theorem start_advance_stopped_iff (lx : Lexicon) (file : String) (source : List Char) (steps : List Step) (i : Nat) :
    (((start source file lx).run steps).2.step (.advance i)).1 = .stopped ↔
      steps.count .iterate ≤ i ∨
        ∃ a, (Step.advance i, a) ∈ steps.zip ((start source file lx).run steps).1 ∧ a.finishes = true := by
  have hlen : ((start source file lx).run steps).2.finished.length = steps.count .iterate := by
    rw [length_finished_run, start, List.length_nil, Nat.zero_add]
  have hnone : ¬ (start source file lx).finished[i]? = some true := nofun
  rw [step, advance_eq_stopped_iff, hlen, finished_run]
  simp only [hnone, false_or]

/-- **Nothing is lost and nothing is given twice**: when the tokens of a text are taken in any order of single readings,
iterators made and advanced, and drains, what is given, in the order in which it is given, begins the sequence of all
tokens with the end of input repeated behind them, so that tokens other than the end of input come once each and in the
order of the text. Every reading gives a token and every drain reaches the end of input, and an iterator gives nothing
exactly before it is made and after it gave the end of input. -/
theorem run_delivers {ts : List Token} {steps : List Step} (h : lx.tokenize file (String.ofList source) = .ok ts)
    (hsteps : ∀ st ∈ steps, st.readsOn = true) :
    let r := (Session.start source file lx).run steps
    ∃ final, ts.getLast? = some final ∧ final.isEnd = true ∧ List.Forall₂ (Step.Fits final) steps r.1 ∧
      (∃ k, r.1.flatMap Answer.delivered <+: ts ++ List.replicate k final) ∧
      ((r.1.flatMap Answer.delivered).filter (! ·.isEnd)).Pairwise (fun t u => t.location.Precedes u.location) ∧
      ∀ i, (r.2.step (.advance i)).1 = .stopped ↔ steps.count .iterate ≤ i ∨
        ∃ t, (Step.advance i, Answer.token t) ∈ steps.zip r.1 ∧ t.isEnd = true := by
  obtain ⟨n', hrs⟩ := lx.readsAll_tokenize file (String.ofList source)
  rw [h, String.toList_ofList] at hrs
  obtain ⟨hlast, rfl⟩ := hrs.eq_end
  obtain ⟨hfits, us, k, heq⟩ := (stands_start lx file source).delivers hsteps hrs
  have hbegins : ((start source file lx).run steps).1.flatMap Answer.delivered <+:
      ts ++ List.replicate k (endAt file source) := ⟨us, heq⟩
  refine ⟨endAt file source, hlast, rfl, hfits, ⟨k, hbegins⟩, ?_, fun i => ?_⟩
  · have hproper := hbegins.filter (! ·.isEnd)
    rw [List.filter_append, List.filter_replicate_of_neg (by simp [endAt, tokenAt, Token.isEnd]), List.append_nil]
      at hproper
    exact (hrs.ordered (Nat.zero_le _)).2.sublist (hproper.sublist.trans List.filter_sublist)
  · rw [start_advance_stopped_iff]
    refine or_congr_right ⟨?_, ?_⟩
    · rintro ⟨a, ha, hfin⟩
      -- no reading of a text without faults finishes an iterator but the one that gives the end of input
      cases (List.forall₂_iff_zip.1 hfits).2 ha with
      | advance _ t => exact ⟨t, ha, hfin⟩
      | stopped => cases hfin
    · rintro ⟨t, ht, hend⟩
      exact ⟨.token t, ht, hend⟩

/-- Two iterators, a reading and a drain share two tokens; the second iterator is the first to get the end of input. -/
theorem run_delivers_interleaved :
    let steps : List Step := [.iterate, .advance 0, .iterate, .next, .advance 1, .drain, .advance 1, .advance 0]
    let r := (Session.start ['a', '.'] "" {}).run steps
    ∃ ts final, ({} : Lexicon).tokenize "" (String.ofList ['a', '.']) = .ok ts ∧ (∀ st ∈ steps, st.readsOn = true) ∧
      ts.getLast? = some final ∧ List.Forall₂ (Step.Fits final) steps r.1 ∧
      (∃ k, r.1.flatMap Answer.delivered <+: ts ++ List.replicate k final) ∧
      (r.2.step (.advance 0)).1 = .stopped ∧ (r.2.step (.advance 2)).1 = .stopped := by
  intro steps r
  have h : ({} : Lexicon).tokenize "" (String.ofList ['a', '.']) = .ok [⟨.symbol, "a", 0, 1, ⟨"", 1, 1, 0⟩, none⟩,
      ⟨.dot, ".", 1, 2, ⟨"", 1, 2, 1⟩, none⟩, ⟨.endOfFile, "", 2, 2, ⟨"", 1, 3, 2⟩, none⟩] := by cbv
  have hsteps : ∀ st ∈ steps, st.readsOn = true := by decide
  have hr : r.1 = [.done, .token ⟨.symbol, "a", 0, 1, ⟨"", 1, 1, 0⟩, none⟩, .done,
      .token ⟨.dot, ".", 1, 2, ⟨"", 1, 2, 1⟩, none⟩, .token ⟨.endOfFile, "", 2, 2, ⟨"", 1, 3, 2⟩, none⟩,
      .tokens [⟨.endOfFile, "", 2, 2, ⟨"", 1, 3, 2⟩, none⟩], .stopped,
      .token ⟨.endOfFile, "", 2, 2, ⟨"", 1, 3, 2⟩, none⟩] := by
    simp only [r, steps]
    cbv
  obtain ⟨final, hlast, -, hfits, hbegins, -, hstop⟩ := run_delivers h hsteps
  refine ⟨_, final, h, hsteps, hlast, hfits, hbegins, ?_, (hstop 2).2 (.inl (by decide))⟩
  refine (hstop 0).2 (.inr ⟨⟨.endOfFile, "", 2, 2, ⟨"", 1, 3, 2⟩, none⟩, ?_, rfl⟩)
  change (_ : Step × Answer) ∈ steps.zip r.1
  simp [hr, steps]

end Session

end FrontEnd
