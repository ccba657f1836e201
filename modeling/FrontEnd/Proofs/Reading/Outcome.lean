import FrontEnd.Reading
import FrontEnd.Proofs.Grammar.Language
import FrontEnd.Proofs.Node.Writing
import FrontEnd.Proofs.Session.Buffer
import FrontEnd.Proofs.Session.Place

/-!
# What reading a text can come to

Reading the tokens of a text as an entry gives a tree that has a source form, or a fault that is true of one of these
tokens, and nothing else (**`Lexicon.parse_outcome`**): numerals of a text carry their values, so none has to be read
again. Hence reading a text from an entry fails for its first lexical fault, or else in one of the three ways of
`SyntaxFault`, at a place of the text (**`Lexicon.parse_fails_at_token`**).
-/

namespace FrontEnd

/-- Only the check behind it can refuse what the parser of an entry accepts. -/
theorem Entry.parser_of_parse {e : Entry} {allowTrailing : Bool} {s s' : Stream} {n : Node}
    (h : e.parse allowTrailing s = (.ok n, s')) : e.parser s = (.ok n, s') := by
  obtain ⟨x, s₁, hx, h⟩ := Parse.bind_eq_ok.1 h
  rw [Parse.bind_of_ok (Parse.peek_eq_ok.2 ⟨rfl, rfl⟩), Parse.ite_apply] at h
  split at h
  · obtain ⟨rfl, rfl⟩ := Parse.pure_eq_ok.1 h
    exact hx
  · exact absurd h Parse.fail_ne_ok

theorem Stream.look_mem_pending (s : Stream) (i : Nat) : s.look i ∈ s.pending := by
  rcases Nat.lt_or_ge i s.ahead.length with hi | hi
  · exact List.mem_of_getElem? (getElem?_pending (Nat.le_of_lt hi))
  · rw [look_of_le hi]
    exact List.mem_append_right _ (List.mem_singleton_self _)

namespace Lexicon

variable {lx : Lexicon} {file text : String} {ts : List Token} {t : Token}

/-! ## Tokens of a text -/

/-- The stream of the tokens of a text: its buffer is these tokens, and those ahead are lexemes. -/
theorem stream_of_tokenize (h : lx.tokenize file text = .ok ts) :
    (Stream.ofTokens ts).pending = ts ∧ ∀ t ∈ (Stream.ofTokens ts).ahead, lx.Accepts t := by
  obtain ⟨init, m, rfl, ha⟩ := accepts_of_tokenize h
  rw [Stream.ofTokens_ending]
  exact ⟨rfl, ha⟩

theorem valued_of_tokenize (h : lx.tokenize file text = .ok ts) : (Stream.ofTokens ts).Valued :=
  fun t ht => ((stream_of_tokenize h).2 t ht).token_class.1

/-- Tokens of a text stand at places of it, and the end of input, which is the last one, behind it. -/
theorem location_of_tokenize (h : lx.tokenize file text = .ok ts) (ht : t ∈ ts) :
    0 ≤ t.location.offset ∧ t.location.offset ≤ text.length ∧
      (t.isEnd = true → ts.getLast? = some t ∧ t.location.offset = text.length) := by
  obtain ⟨n', hreads⟩ := lx.readsAll_tokenize file text
  rw [h] at hreads
  obtain ⟨-, a, -, ha, hlocation⟩ := (hreads.ordered (Nat.zero_le _)).1 t ht
  have hoffset : t.location.offset = a := by rw [hlocation, offset_locationAt ha]
  have hlength : text.toList.length = text.length := String.length_toList
  refine ⟨by omega, by omega, fun hend => ?_⟩
  have hlast : ts.getLast? = some t := by
    obtain ⟨init, m, rfl, hinit⟩ := accepts_of_tokenize h
    rcases List.mem_append.1 ht with ht | ht
    · simp [(hinit t ht).token_class.2] at hend
    · rw [List.getLast?_concat, List.mem_singleton.1 ht]
  obtain rfl : endAt file text.toList = t := Option.some.inj (hreads.eq_end.1.symm.trans hlast)
  exact ⟨hlast, by rw [endAt, tokenAt, offset_locationAt (Nat.le_refl _), hlength]⟩

/-! ## Reading them -/

theorem parse_eq (h : lx.tokenize file text = .ok ts) (e : Entry) (allowTrailing : Bool) :
    lx.parse file e.name allowTrailing text = (e.parse allowTrailing (.ofTokens ts)).1.mapError .ofRefusal := by
  rw [parse, h, Parse.named]
  simp only [Entry.ofName?_name]

/-- **A tree or an apt fault**: nothing else comes of reading the tokens of a text, and every tree that does has a
source form. -/
theorem parse_outcome (h : lx.tokenize file text = .ok ts) (e : Entry) (allowTrailing : Bool) :
    (∃ n, (e.parse allowTrailing (.ofTokens ts)).1 = .ok n ∧ ∃ source, n.source lx.maxDigits = .ok source) ∨
      ∃ f, (e.parse allowTrailing (.ofTokens ts)).1 = .error (.fault f) ∧ f.Apt ∧ f.found ∈ ts := by
  have hvalued := valued_of_tokenize h
  obtain ⟨hpending, haccepts⟩ := stream_of_tokenize h
  obtain ⟨⟨n, -, hskip⟩, hfault⟩ := e.parse_orderly allowTrailing (Stream.final_ofTokens_isEnd ts)
  cases hr : e.parse allowTrailing (.ofTokens ts) with
  | mk r s' =>
    rw [hr] at hskip hfault
    match r with
    | .ok n =>
      obtain ⟨us, htakes, hd⟩ := Entry.parser_derives hvalued (Entry.parser_of_parse hr)
      have haccepts : ∀ t ∈ us, lx.Accepts t := fun t ht => haccepts t (by
        rw [htakes.ahead_eq]
        exact List.mem_append_left _ ht)
      obtain ⟨source, -, hsource, -⟩ := hd.written haccepts
      exact .inl ⟨n, rfl, source, hsource⟩
    | .error (.misuse m) => exact absurd hr (e.parse_fair allowTrailing _ hvalued m s')
    | .error (.fault f) =>
      obtain ⟨hapt, hfound⟩ := hfault f rfl
      obtain rfl : s' = (Stream.ofTokens ts).skip n := hskip
      rw [Stream.look_skip] at hfound
      have hmem := hfound ▸ Stream.look_mem_pending (Stream.ofTokens ts) _
      rw [hpending] at hmem
      exact .inr ⟨f, rfl, hapt, hmem⟩

end Lexicon

/-! ## Failures -/

/-- What is promised of a syntax fault in a text of the given tokens and length: it is about one of the tokens, is
reported at the place of that token, within the text, and is true of it; and where the input is said to end, the token
is the last one and the text has ended. -/
structure SyntaxFault.Documented (ts : List Token) (length : Nat) (f : SyntaxFault) : Prop where
  found : f.found ∈ ts
  location : f.diagnostic.location = f.found.location
  position : 0 ≤ f.diagnostic.location.offset ∧ f.diagnostic.location.offset ≤ length
  apt : f.Apt
  ending : ∀ expected t, f = .endOfInput expected t → ts.getLast? = some t ∧ f.diagnostic.location.offset = length

namespace Lexicon

theorem documented_of_apt {lx : Lexicon} {file text : String} {ts : List Token} {f : SyntaxFault}
    (h : lx.tokenize file text = .ok ts) (hapt : f.Apt) (hfound : f.found ∈ ts) : f.Documented ts text.length := by
  obtain ⟨hlow, hhigh, hend⟩ := location_of_tokenize h hfound
  refine ⟨hfound, rfl, ⟨hlow, hhigh⟩, hapt, ?_⟩
  rintro expected t rfl
  exact hend hapt.1

/-- **Reading fails only as documented.** A text that cannot be tokenized is refused for that alone, and where there is
room for the sign of the limit, as there is for the usual one, what it is refused for is a lexical fault. Any other text
gives a tree or a syntax fault that is as promised, never a misuse; and either way the reading ends at a place of the
tokens, with the tokens from there on still ahead. -/
theorem parse_fails_at_token (lx : Lexicon) (file text : String) (e : Entry) (allowTrailing : Bool) :
    (∀ reserved, ({ reserved } : Lexicon).Roomy) ∧
      (∀ r, lx.tokenize file text = .error r → lx.parse file e.name allowTrailing text = .error (.ofLexical r) ∧
        (lx.Roomy → ∃ f, r = .fault f)) ∧
      ∀ ts, lx.tokenize file text = .ok ts →
        ((∃ n, lx.parse file e.name allowTrailing text = .ok n) ∨
          ∃ f, lx.parse file e.name allowTrailing text = .error (.syntactic f) ∧ f.Documented ts text.length) ∧
        (Parse.named e.name allowTrailing (.ofTokens ts)).2.StandsIn ts := by
  refine ⟨roomy_default, fun r hr => ⟨by rw [parse, hr], exists_fault_of_tokenize hr⟩, fun ts h => ⟨?_, ?_⟩⟩
  · rw [parse_eq h]
    rcases parse_outcome h e allowTrailing with ⟨n, hn, -⟩ | ⟨f, hf, hapt, hfound⟩
    · exact .inl ⟨n, by rw [hn]; rfl⟩
    · exact .inr ⟨f, by rw [hf]; rfl, documented_of_apt h hapt hfound⟩
  · rw [Parse.named]
    simp only [Entry.ofName?_name]
    have hstands := (e.parse_moves allowTrailing (.ofTokens ts)).standsIn (Stream.index_ofTokens ts)
    rwa [(stream_of_tokenize h).1] at hstands

end Lexicon

end FrontEnd
