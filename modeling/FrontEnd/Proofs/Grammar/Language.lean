import FrontEnd.Proofs.Grammar.Completeness
import FrontEnd.Proofs.Grammar.Soundness
import FrontEnd.Proofs.Token.Layout

/-!
# The language of an entry

Parsing and deriving agree: the parser of an entry accepts the tokens of a text exactly when they are derivable, and
builds the derived tree (**`Parse.accepts_iff_derives`**). Soundness and completeness hold of any stream whose numerals
carry their values; a stream made from a text is one of these, and its only end of input is the last token.
-/

namespace FrontEnd

namespace Entry

variable {e : Entry} {s s' : Stream} {n : Node}

theorem ofName?_name (e : Entry) : ofName? e.name = some e := by
  cases e <;> decide

/-- Every entry ends at the end of input. -/
theorem endsAt_end (e : Entry) : e.EndsAt .endOfFile := by
  cases e <;> simp [EndsAt, Kind.comparison?, Kind.arithmetic?]

theorem parse_eq_ok : e.parse false s = (.ok n, s') ↔ e.parser s = (.ok n, s') ∧ s'.peek.isEnd = true := by
  constructor
  · intro h
    obtain ⟨x, s₁, hx, h⟩ := Parse.bind_eq_ok.1 h
    obtain ⟨t, s₂, ht, h⟩ := Parse.bind_eq_ok.1 h
    obtain ⟨rfl, rfl⟩ := Parse.peek_eq_ok.1 ht
    rw [Bool.false_or, Parse.ite_apply] at h
    split at h
    · next hend =>
      obtain ⟨rfl, rfl⟩ := Parse.pure_eq_ok.1 h
      exact ⟨hx, hend⟩
    · exact absurd h Parse.fail_ne_ok
  · rintro ⟨hx, hend⟩
    rw [parse, Parse.bind_of_ok hx, Parse.bind_of_ok (Parse.peek_eq_ok.2 ⟨rfl, rfl⟩), hend]
    rfl

/-- Parsing a whole stream whose only end of input is the last token. -/
theorem parse_iff_derives (hv : s.Valued) (hs : ∀ t ∈ s.ahead, t.isEnd = false) (hf : s.final.isEnd = true) :
    (∃ n', (e.parse false s).1 = .ok n' ∧ n'.same n = true) ↔ Derives e s.ahead n := by
  constructor
  · rintro ⟨n', hn, hsame⟩
    obtain ⟨hp, hend⟩ := parse_eq_ok.1 (show e.parse false s = (.ok n', (e.parse false s).2) by rw [← hn])
    obtain ⟨ts, ht, hd⟩ := parser_derives hv hp
    have hnil : (e.parse false s).2.ahead = [] := by
      cases ha : (e.parse false s).2.ahead with
      | nil => rfl
      | cons t rest =>
        have := hs t (by rw [ht.ahead_eq, ha]; simp)
        rw [Stream.peek_eq ha, this] at hend
        cases hend
    rw [ht.ahead_eq, hnil, List.append_nil]
    exact hd.of_same hsame
  · intro hd
    obtain ⟨s', ht, hr⟩ := Stream.exists_takes (List.append_nil s.ahead).symm
    have hpeek : s'.peek = s.final := by rw [← ht.final_eq]; simp [Stream.peek, Stream.look, hr]
    have hkind : s'.peek.kind = .endOfFile := by rw [hpeek]; simpa [Token.isEnd] using hf
    obtain ⟨n', hn, hsame⟩ := hd.parses ht (by rw [hkind]; exact e.endsAt_end)
    exact ⟨n', by rw [parse_eq_ok.2 ⟨hn, by rw [hpeek, hf]⟩], hsame⟩

end Entry

/-- A numeral carries its value, and no lexeme is the end of input. -/
theorem Lexicon.Accepts.token_class {lx : Lexicon} {t : Token} (h : lx.Accepts t) :
    (t.kind = .numeric → ∃ v, t.value = some v) ∧ t.isEnd = false := by
  obtain ⟨after, hl⟩ := h
  refine ⟨fun hk => ?_, by simpa [Token.isEnd] using hl.kind_ne_end⟩
  rw [hk] at hl
  exact ⟨_, hl.of_numeric.1⟩

/-- The stream of the tokens of a text. -/
theorem Stream.ofTokens_ending (init : List Token) (file : String) (m : Mark) :
    ofTokens (init ++ [.ending file m]) = { ahead := init, final := .ending file m, index := 0, reach := 0 } := by
  simp [ofTokens, Token.isEnd, Token.ending]

/-- Parsing lexemes up to the end of input. -/
theorem Parse.named_iff_derives {lx : Lexicon} {init : List Token} (h : ∀ t ∈ init, lx.Accepts t) (file : String)
    (m : Mark) (e : Entry) (n : Node) :
    (∃ n', (Parse.named e.name false (.ofTokens (init ++ [.ending file m]))).1 = .ok n' ∧ n'.same n = true) ↔
      Derives e init n := by
  rw [Parse.named, Entry.ofName?_name, Stream.ofTokens_ending]
  exact Entry.parse_iff_derives (fun t ht => (h t ht).token_class.1) (fun t ht => (h t ht).token_class.2) rfl

/-- **Parsing is derivability**: on the tokens of a text, the parser of an entry returns a tree of the structure of `n`
exactly when the tokens before the end of input derive `n`. -/
theorem Parse.accepts_iff_derives {lx : Lexicon} {file text : String} {ts : List Token}
    (h : lx.tokenize file text = .ok ts) (e : Entry) (n : Node) :
    (∃ n', (Parse.named e.name false (.ofTokens ts)).1 = .ok n' ∧ n'.same n = true) ↔ Derives e ts.dropLast n := by
  obtain ⟨init, m, rfl, hinit⟩ := Lexicon.accepts_of_tokenize h
  rw [List.dropLast_concat]
  exact Parse.named_iff_derives hinit file m e n

/-- Two signs that touch are one operator. -/
theorem Parse.accepts_minusMinus :
    ∃ ts, ({} : Lexicon).tokenize "" "--b" = .ok ts ∧ ∃ n', (Parse.named "unary_expr" false (.ofTokens ts)).1 = .ok n' ∧
      n'.same (.unary "--" (.symbol "b" none) none) = true := by
  have h : ({} : Lexicon).tokenize "" "--b" = .ok [⟨.minus, "-", 0, 1, ⟨"", 1, 1, 0⟩, none⟩,
      ⟨.minus, "-", 1, 2, ⟨"", 1, 2, 1⟩, none⟩, ⟨.symbol, "b", 2, 3, ⟨"", 1, 3, 2⟩, none⟩,
      ⟨.endOfFile, "", 3, 3, ⟨"", 1, 4, 3⟩, none⟩] := by cbv
  exact ⟨_, h, (Parse.accepts_iff_derives h .unary _).2
    (.minusMinus rfl rfl rfl (.literalSymbol (.symbol rfl) rfl))⟩

end FrontEnd
