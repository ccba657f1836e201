import FrontEnd.Proofs.Session.Place

/-!
# Starting again anywhere

A session remembers nothing of what it was asked but its place and which iterators are finished
(**`Session.run_restarts`**): all tokens are the same whenever they are asked for, from an offset on they are those of
the rest of the text, and reading token by token, each time with a new session, comes to the same.
-/

namespace FrontEnd

/-- What comes of single readings of a text, the first one from position `p` on and each later one from the position
that the one before it gave: the tokens through the end of input, or the first refusal. -/
inductive Threaded (text file : String) : Nat → Except LexicalRefusal (List Token) → Prop
  | ending {p p' : Nat} {t : Token} : nextToken text p file = (.token t, p') → t.isEnd = true →
      Threaded text file p (.ok [t])
  | refusal {p p' : Nat} {e : LexicalRefusal} : nextToken text p file = (.ofRefusal e, p') →
      Threaded text file p (.error e)
  | token {p p' : Nat} {t : Token} {rs : Except LexicalRefusal (List Token)} : nextToken text p file = (.token t, p') →
      t.isEnd = false → Threaded text file p' rs → Threaded text file p (rs.map (t :: ·))

variable {lx : Lexicon} {file text : String} {source : List Char} {n n' p : Nat} {s : Session}
  {rs rs' : Except LexicalRefusal (List Token)}

theorem Threaded.unique (h : Threaded text file p rs) (h' : Threaded text file p rs') : rs = rs' := by
  induction h generalizing rs' with
  | ending hnext ht => cases h' <;> simp_all
  | refusal hnext =>
    cases h' with
    | refusal hnext' => simp_all
    | ending hnext' | token hnext' =>
      exact absurd (congrArg Prod.fst (hnext.symm.trans hnext')) Session.Answer.ofRefusal_ne_token
  | token hnext ht _ ih =>
    cases h' with
    | ending | refusal => simp_all
    | token hnext' _ hrest =>
      obtain ⟨ht, rfl⟩ := Prod.mk.inj (hnext.symm.trans hnext')
      obtain rfl := Session.Answer.token.inj ht
      rw [ih hrest]

namespace Session

open Lexicon

theorem Stands.tokenize (h : Stands lx file source n s) :
    (s.step .tokenize).1 = .ofTokens (lx.tokenize file (String.ofList source)) := by
  obtain ⟨n', hrs⟩ := lx.readsAll_tokenize file (String.ofList source)
  rw [String.toList_ofList] at hrs
  have hreset : s.reset 0 = (.done, { s with cursor := .seek source 0 }) := h.reset (Nat.zero_le _)
  rw [Session.step, hreset, (h.moved (Nat.zero_le _)).drain hrs]

theorem Stands.reset_drain (h : Stands lx file source n s) (hp : p ≤ source.length) :
    (s.run [.reset p, .drain]).1 =
      [.done, .ofTokens (placedAll source p (lx.tokenize file (String.ofList (source.drop p))))] := by
  obtain ⟨n', hrs⟩ := lx.readsAll_placed file hp
  simp only [Session.run, Session.step, h.reset hp, (h.moved hp).drain hrs]

/-- A new session reads as the old one did. -/
theorem nextToken_of_reads {r : Except LexicalRefusal Token} (h : ({} : Lexicon).Reads file source n r n')
    (hn : n ≤ source.length) : nextToken (String.ofList source) n file = (.ofToken r, n') := by
  have hstart := stands_start {} file source
  obtain ⟨s, hreset, hs⟩ : ∃ s, (Session.start source file {}).reset n = (.done, s) ∧ Stands {} file source n s :=
    ⟨_, hstart.reset hn, hstart.moved hn⟩
  rw [nextToken, String.toList_ofList, hreset]
  dsimp only
  rw [hs.next h]
  simp only [Cursor.seek, Mark.offset_after_take (h.within hn).2]

theorem threaded_of_readsAll (h : ({} : Lexicon).ReadsAll file source n rs n') (hn : n ≤ source.length) :
    Threaded (String.ofList source) file n rs := by
  induction h with
  | ending h ht => exact .ending (nextToken_of_reads h hn) ht
  | refusal h => exact .refusal (nextToken_of_reads h hn)
  | token h ht _ ih => exact .token (nextToken_of_reads h hn) ht (ih (h.within hn).2)

theorem threaded_tokenize (file : String) (source : List Char) :
    Threaded (String.ofList source) file 0 (({} : Lexicon).tokenize file (String.ofList source)) := by
  obtain ⟨n', hrs⟩ := ({} : Lexicon).readsAll_tokenize file (String.ofList source)
  rw [String.toList_ofList] at hrs
  exact threaded_of_readsAll hrs (Nat.zero_le _)

/-- **A session can be restarted anywhere**: after any steps, also failed ones, it gives all tokens as a new session
does, and from an offset on those of the rest of the text, moved to their places; and single readings with the default
lexicon, threaded through the text, come to all its tokens or to its refusal, and to nothing else. -/
theorem run_restarts (lx : Lexicon) (file : String) (source : List Char) (steps : List Step) :
    let s := ((Session.start source file lx).run steps).2
    (s.step .tokenize).1 = ((Session.start source file lx).step .tokenize).1 ∧
      (∀ p : Nat, p ≤ source.length → (s.run [.reset p, .drain]).1 =
        [.done, .ofTokens (placedAll source p (lx.tokenize file (String.ofList (source.drop p))))]) ∧
      ∀ r, Threaded (String.ofList source) file 0 r ↔
        r = ({} : Lexicon).tokenize file (String.ofList source) := by
  have hstart := stands_start lx file source
  obtain ⟨⟨n, h⟩, -⟩ := hstart.run steps
  refine ⟨h.tokenize.trans hstart.tokenize.symm, fun p hp => h.reset_drain hp, fun r => ⟨fun hr => ?_, ?_⟩⟩
  · exact hr.unique (threaded_tokenize file source)
  · rintro rfl
    exact threaded_tokenize file source

end Session

end FrontEnd
