import FrontEnd.Proofs.Reading.Outcome
import FrontEnd.Proofs.Text.Integer
import FrontEnd.Proofs.Token.Opening

/-!
# Values of numerals

A numeral is read twice over: its value is computed when the text is cut into tokens, and from its text when a token
carries no value. Both give the number that the digits denote (`Lexicon.weighs_of_judges`,
`Text.readInteger_of_digits`), so tokens that have lost their values are parsed to the same trees and refused for the
same faults (**`Lexicon.numerals_exact`**). The first time, a run of digits may be refused because a conversion is; what
can be said of each run is said there as well.
-/

namespace FrontEnd

/-! ## Tokens without values -/

/-- The token, without its value if it is a numeral. -/
def Token.unvalued (t : Token) : Token :=
  if t.kind = .numeric then { t with value := none } else t

/-- The same fault of the token without its value. -/
def SyntaxFault.unvalued : SyntaxFault → SyntaxFault
  | endOfInput expected t => endOfInput expected t.unvalued
  | unexpectedKind expected t => unexpectedKind expected t.unvalued
  | noProduction production t forms => noProduction production t.unvalued forms

def Refusal.unvalued : Refusal → Refusal
  | fault f => fault f.unvalued
  | misuse m => misuse m

/-- The numeral has nothing but its value to lose. -/
theorem Token.unvalued_fields (t : Token) :
    t.unvalued.kind = t.kind ∧ t.unvalued.text = t.text ∧ t.unvalued.start = t.start ∧ t.unvalued.stop = t.stop := by
  unfold unvalued
  split <;> exact ⟨rfl, rfl, rfl, rfl⟩

/-- The second token is the first one without its value. -/
def Likeness.unvalued : Likeness where
  token t u := u = t.unvalued
  offset := Eq
  kind_eq := by rintro t _ rfl; exact t.unvalued_fields.1.symm
  text_eq := by rintro t _ rfl; exact t.unvalued_fields.2.1.symm
  start := by rintro t _ rfl; exact t.unvalued_fields.2.2.1.symm
  stop := by rintro t _ rfl; exact t.unvalued_fields.2.2.2.symm

theorem Likeness.Fault.eq_unvalued {f g : SyntaxFault} (h : Likeness.unvalued.Fault f g) : g = f.unvalued := by
  cases h with
  | endOfInput h | unexpectedKind h | noProduction h =>
    obtain rfl : _ = _ := h
    rfl

namespace Lexicon

variable {lx : Lexicon} {file text : String} {ts : List Token}

/-- The value of a numeral can be had from its text. -/
theorem Accepts.reading_unvalued {t : Token} {limit limit' : Option Nat} (h : lx.Accepts t) (hk : t.kind = .numeric)
    (hlimit : ∀ n, limit' = some n → t.text.length ≤ n) :
    Parse.reading limit t = Parse.reading limit' t.unvalued := by
  obtain ⟨after, hl⟩ := h
  rw [hk] at hl
  obtain ⟨hvalue, -⟩ := hl.of_numeric
  obtain ⟨hne, hdigits⟩ := hl.digits_of_numeric
  have hread := Text.readInteger_of_digits hne hdigits (by rw [String.length_toList]; exact hlimit)
  rw [String.ofList_toList] at hread
  rw [Token.unvalued, if_pos hk, Parse.reading, Parse.reading, hvalue]
  simp only [hread]

/-- The tokens of a text agree with the tokens without values all the way, if so many digits may be read. -/
theorem agree_unvalued (h : lx.tokenize file text = .ok ts) {limit : Option Nat}
    (hlimit : ∀ t ∈ ts, t.kind = .numeric → ∀ n, limit = some n → t.text.length ≤ n) (n : Nat) :
    Likeness.unvalued.Agree n (.ofTokens ts) { Stream.ofTokens (ts.map Token.unvalued) with maxDigits := limit } := by
  obtain ⟨init, m, rfl, haccepts⟩ := accepts_of_tokenize h
  have hending : (Token.ending file m).unvalued = .ending file m := rfl
  rw [List.map_append, List.map_singleton, hending, Stream.ofTokens_ending, Stream.ofTokens_ending]
  have hlook : ∀ i, (init.map Token.unvalued).getD i (.ending file m) = (init.getD i (.ending file m)).unvalued := by
    intro i
    have hmap := List.getD_map (l := init) (n := i) (d := .ending file m) Token.unvalued
    rwa [hending] at hmap
  refine ⟨⟨rfl, rfl⟩, fun i _ => hlook i, fun i _ hk => ?_, fun i _ _ => ?_⟩
  · have hmem := Stream.look_mem_pending { ahead := init, final := .ending file m, index := 0, reach := 0 } i
    have hinit := (List.mem_append.1 hmem).resolve_right fun hend => by
      rw [List.mem_singleton.1 hend] at hk
      cases hk
    refine (haccepts _ hinit).reading_unvalued hk ?_ |>.trans (congrArg _ (hlook i).symm)
    exact hlimit _ hmem hk
  · simp only [Stream.look, hlook, (Token.unvalued_fields _).2.2]

/-- Tokens that have lost their values are parsed as before, if so many digits may be read. -/
theorem named_unvalued (h : lx.tokenize file text = .ok ts) {limit : Option Nat}
    (hlimit : ∀ t ∈ ts, t.kind = .numeric → ∀ n, limit = some n → t.text.length ≤ n) (entry : String)
    (allowTrailing : Bool) :
    (Parse.named entry allowTrailing { Stream.ofTokens (ts.map Token.unvalued) with maxDigits := limit }).1 =
      (Parse.named entry allowTrailing (.ofTokens ts)).1.mapError Refusal.unvalued := by
  have hagree := agree_unvalued h hlimit
  have hends : ∀ t ∈ (Stream.ofTokens ts).ahead, t.isEnd = false :=
    fun t ht => ((stream_of_tokenize h).2 t ht).token_class.2
  unfold Parse.named
  cases Entry.ofName? entry with
  | none => rfl
  | some e =>
    dsimp only
    obtain ⟨k, ⟨x, y, hx, hy, hlike⟩ | ⟨f, g, hf, hg, hfault⟩⟩ :=
      e.parse_agrees allowTrailing hagree hends (valued_of_tokenize h)
    · obtain rfl : x = y := Node.Like.eq hlike
      rw [hx, hy]
      rfl
    · obtain rfl := hfault.eq_unvalued
      rw [hf, hg]
      rfl

end Lexicon

/-! ## The limit -/

/-- At the cursor there is a run of digits behind blanks, which does not go on in what is behind it. -/
structure Cursor.Faces (c : Cursor) (gap w after : List Char) : Prop where
  rest : c.rest = gap ++ (w ++ after)
  blank : AllBlank gap
  ne_nil : w ≠ []
  digits : ∀ d ∈ w, isDigit d = true
  maximal : begins isDigit after = false

namespace Lexicon

variable {lx : Lexicon} {file : String} {c : Cursor} {gap w after : List Char}

/-- The run of digits at the cursor is refused as too large just if the number it denotes is above the limit, and else
it is a token of this value. -/
structure Weighs (lx : Lexicon) (file : String) (c : Cursor) (w : List Char) : Prop where
  overflow : (∃ digits limit place, (lx.next file c).1 = .error (.fault (.numericOverflow digits limit place))) ↔
    lx.limit < Text.decimalValue w
  token : Text.decimalValue w ≤ lx.limit → ∃ t, (lx.next file c).1 = .ok t ∧ t.kind = .numeric ∧
    t.text = String.ofList w ∧ t.value = some (Text.decimalValue w : Int)

theorem weighs_of_judges (h : c.Faces gap w after) (hj : lx.Judges w) : lx.Weighs file c w := by
  obtain ⟨hrest, hblank, hne, hdigits, hmax⟩ := h
  by_cases habove : lx.limit < Text.decimalValue w
  · have hrejected := Excessive.rejected ⟨hne, hdigits, hmax, habove⟩
    obtain ⟨-, -, hfault⟩ | ⟨hno, -⟩ := hrejected.reason
    · have hnext : (lx.next file c).1 = _ := congrArg Prod.fst (next_of_rejected hrest hblank hrejected)
      rw [hfault] at hnext
      exact ⟨⟨fun _ => habove, fun _ => ⟨_, _, _, hnext⟩⟩, fun hle => absurd habove (Int.not_lt.2 hle)⟩
    · exact absurd hj hno
  · have hnext : lx.next file c = _ :=
      next_of_piece hrest hblank (.numeral hne hdigits hmax hj.1 (Int.not_lt.1 habove))
    refine ⟨⟨fun h => ?_, fun h => absurd h habove⟩, fun _ => ⟨_, by rw [hnext], rfl, rfl, rfl⟩⟩
    simp [hnext] at h

theorem Weighs.no_misuse (h : lx.Weighs file c w) (m : Misuse) : (lx.next file c).1 ≠ .error (.misuse m) := by
  intro hm
  by_cases habove : lx.limit < Text.decimalValue w
  · obtain ⟨_, _, _, hover⟩ := h.overflow.2 habove
    rw [hm] at hover
    cases hover
  · obtain ⟨t, ht, -⟩ := h.token (Int.not_lt.1 habove)
    rw [hm] at ht
    cases ht

theorem misuse_of_not_judges (h : c.Faces gap w after) (hj : ¬ lx.Judges w) :
    ∃ m, (lx.next file c).1 = .error (.misuse m) := by
  have hv := value?_of_not_judges h.digits hj
  have hrejected : lx.Rejected after w := rejected_of_error h.ne_nil h.digits h.maximal hv
  rw [next_of_rejected h.rest h.blank hrejected, refusal, hv]
  exact ⟨_, rfl⟩

/-- **Numerals are exact where both conversions go through.** Whatever the limit is, a maximal run of digits that is
judged is refused as too large just when the number it denotes is above the limit, and else it is a token of this value;
any other run is refused for a conversion. So all runs are told apart as they should be just if there is room for the
sign of the limit. There is where integers of any length are converted, and for every limit that can be written out and
is not below zero. And the value is never missed: without the values of their numerals, and with no bound on how many
digits are read, the tokens of a text give the same tree or the same refusal from every entry. -/
theorem numerals_exact (lx : Lexicon) (file : String) :
    (∀ (c : Cursor) (gap w after : List Char), c.Faces gap w after →
      (lx.Judges w → lx.Weighs file c w) ∧ (¬ lx.Judges w → ∃ m, (lx.next file c).1 = .error (.misuse m))) ∧
    (lx.Roomy ↔ ∀ (c : Cursor) (gap w after : List Char), c.Faces gap w after → lx.Weighs file c w) ∧
    ((lx.maxDigits = none → lx.Roomy) ∧ (0 ≤ lx.limit → lx.Writable → lx.Roomy)) ∧
    ∀ (text : String) (ts : List Token), lx.tokenize file text = .ok ts →
      ∀ (entry : String) (allowTrailing : Bool),
        (Parse.named entry allowTrailing { Stream.ofTokens (ts.map Token.unvalued) with maxDigits := none }).1 =
          (Parse.named entry allowTrailing (.ofTokens ts)).1.mapError Refusal.unvalued := by
  refine ⟨fun c gap w after h => ⟨weighs_of_judges h, misuse_of_not_judges h⟩, ⟨?_, ?_⟩,
    ⟨roomy_of_none, fun hpos hwrite => hwrite.roomy hpos⟩, ?_⟩
  · exact fun hroom c gap w after h => weighs_of_judges h (hroom.judges w)
  · intro hall
    rw [roomy_iff]
    refine fun w hne hdigits => Classical.byContradiction fun hj => ?_
    have h : (Cursor.ofText w).Faces [] w [] := ⟨(List.append_nil w).symm, nofun, hne, hdigits, rfl⟩
    obtain ⟨m, hm⟩ : ∃ m, (lx.next file _).1 = .error (.misuse m) := misuse_of_not_judges h hj
    exact (hall _ _ _ _ h).no_misuse m hm
  · intro text ts h entry allowTrailing
    apply named_unvalued h
    intro t _ _ n hn
    cases hn

/-- Leading zeros count neither against a limit of one digit nor when the text of the numeral is read again. -/
theorem numerals_exact_padded :
    (∃ t, (Lexicon.next { limit := 7 } "" (.ofText " 007.".toList)).1 = .ok t ∧ t.kind = .numeric ∧ t.text = "007" ∧
        t.value = some 7) ∧
      (∃ digits limit place, (Lexicon.next { limit := -1 } "" (.ofText " 0.".toList)).1 =
        .error (.fault (.numericOverflow digits limit place))) ∧
      ∃ ts, Lexicon.tokenize { limit := 7 } "" "x = 007." = .ok ts ∧
        (Parse.named "program" false { Stream.ofTokens (ts.map Token.unvalued) with maxDigits := none }).1 =
          (Parse.named "program" false (.ofTokens ts)).1.mapError Refusal.unvalued := by
  have hpadded : (Cursor.ofText " 007.".toList).Faces [' '] ['0', '0', '7'] ['.'] :=
    ⟨rfl, List.forall_mem_singleton.2 rfl, List.cons_ne_nil _ _, List.all_eq_true.1 rfl, rfl⟩
  have hzero : (Cursor.ofText " 0.".toList).Faces [' '] ['0'] ['.'] :=
    ⟨rfl, List.forall_mem_singleton.2 rfl, List.cons_ne_nil _ _, List.forall_mem_singleton.2 rfl, rfl⟩
  obtain ⟨ts, hts⟩ : ∃ ts, Lexicon.tokenize { limit := 7 } "" "x = 007." = .ok ts := ⟨[
    ⟨.symbol, "x", 0, 1, ⟨"", 1, 1, 0⟩, none⟩, ⟨.equals, "=", 2, 3, ⟨"", 1, 3, 2⟩, none⟩,
    ⟨.numeric, "007", 4, 7, ⟨"", 1, 5, 4⟩, some 7⟩, ⟨.dot, ".", 7, 8, ⟨"", 1, 8, 7⟩, none⟩,
    ⟨.endOfFile, "", 8, 8, ⟨"", 1, 9, 8⟩, none⟩], by cbv⟩
  refine ⟨?_, ?_, ts, hts, (numerals_exact { limit := 7 } "").2.2.2 _ ts hts "program" false⟩
  · exact (((numerals_exact { limit := 7 } "").1 _ _ _ _ hpadded).1 (by decide)).token (by decide)
  · exact (((numerals_exact { limit := -1 } "").1 _ _ _ _ hzero).1 (by decide)).overflow.2 (by decide)

/-- A run above the limit is not told to be. It is read, being as long as the limit with its minus sign, and has a digit
too many for that. -/
theorem next_unweighed :
    (Cursor.ofText (List.replicate 4301 '9')).Faces [] (List.replicate 4301 '9') [] ∧
      (-10 ^ 4299 : Int) < Text.decimalValue (List.replicate 4301 '9') ∧
      (Lexicon.next { limit := -10 ^ 4299 } "<unknown>" (.ofText (List.replicate 4301 '9'))).1 =
        .error (.misuse (.tooManyDigits 4300 4301)) := by
  have hne : List.replicate 4301 '9' ≠ [] := mt (List.replicate_eq_nil_iff _).1 (by decide)
  have hneg : (-10 ^ 4299 : Int) < 0 := Int.neg_neg_of_pos (Int.pow_pos (by decide))
  have hfaces : (Cursor.ofText (List.replicate 4301 '9')).Faces [] (List.replicate 4301 '9') [] :=
    ⟨(List.append_nil _).symm, nofun, hne, isDigit_of_mem_replicate, rfl⟩
  have hvalue : ({ limit := -10 ^ 4299 } : Lexicon).value? (List.replicate 4301 '9') =
      .error (.tooManyDigits 4300 4301) := value?_replicate_of_neg_pow rfl rfl
  refine ⟨hfaces, Int.lt_of_lt_of_le hneg (Int.natCast_nonneg _), ?_⟩
  have hrejected : Rejected _ [] _ := rejected_of_error hne isDigit_of_mem_replicate rfl hvalue
  rw [next_of_rejected hfaces.rest hfaces.blank hrejected, refusal, hvalue]

end Lexicon

end FrontEnd
