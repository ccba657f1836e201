import FrontEnd.Proofs.Grammar.Derivation
import FrontEnd.Proofs.Token.Continuation

/-!
# Viable prefixes

Tokens are viable for an entry if fillers put right behind them complete them to a derivation of the entry (`Viable`).
A viable prefix stays one in a larger entry (**`Viable.sub`**), and in front of a token that fillers can supply
(**`Viable.filler`**), so every place inside a production is viable: it is enough to go through the production from its
end.
-/

namespace FrontEnd

open Piece

/-- The place is right behind the tokens, if there are any. -/
def Mark.Behind (m : Mark) (ts : List Token) : Prop :=
  ∀ t, ts.getLast? = some t → t.stop = m.offset

/-- Fillers from the end of the tokens on complete them to the entry. -/
def Viable (lx : Lexicon) (e : Entry) (ts : List Token) : Prop :=
  ∀ (file : String) (m : Mark), m.Behind ts →
    ∃ qs, (∀ q ∈ qs, lx.Filler q) ∧ ∃ n, Derives e (ts ++ tokens file m qs) n

namespace Viable

variable {lx : Lexicon} {e e' : Entry} {ts us : List Token}

/-! ## Completing step by step -/

theorem of_derives {n : Node} (h : Derives e ts n) : Viable lx e ts := fun _ _ _ =>
  ⟨[], nofun, n, by simpa [tokens] using h⟩

/-- One filler, if what it makes of the tokens is viable. -/
theorem filler {q : Piece} (hq : lx.Filler q)
    (h : ∀ (file : String) (m : Mark), m.Behind ts → Viable lx e (ts ++ [q.token file m])) : Viable lx e ts := by
  intro file m hm
  have hbehind : (q.mark m).Behind (ts ++ [q.token file m]) := by
    intro t ht
    obtain rfl : q.token file m = t := by simpa using ht
    rfl
  obtain ⟨qs, hqs, n, hd⟩ := h file m hm file (q.mark m) hbehind
  exact ⟨q :: qs, List.forall_mem_cons.2 ⟨hq, hqs⟩, n, by simpa [tokens] using hd⟩

theorem sign {x : Char} {k : Kind} (hx : punctuation? x = some k) (hk : k ≠ .underscore)
    (h : ∀ u, u.kind = k → Viable lx e (ts ++ [u])) : Viable lx e ts :=
  filler (.sign hx hk) fun _ _ _ => h _ rfl

/-- What is viable for a part is viable for the whole, if the part leaves it viable. -/
theorem sub (h : Viable lx e' us) (hd : ∀ {vs n}, Derives e' vs n → Viable lx e (ts ++ vs)) :
    Viable lx e (ts ++ us) := by
  intro file m hm
  have hbehind : m.Behind us := by
    intro t ht
    exact hm t (by simp [List.getLast?_append, ht])
  obtain ⟨qs, hqs, n, hn⟩ := h file m hbehind
  have hbehind' : (m.past (render qs [])).Behind (ts ++ (us ++ tokens file m qs)) := by
    intro t ht
    rw [← List.append_assoc, List.getLast?_append] at ht
    cases hlast : (tokens file m qs).getLast? with
    | some u =>
      obtain rfl : u = t := by simpa [hlast] using ht
      exact stop_of_getLast? hlast
    | none =>
      obtain rfl : qs = [] := by
        cases qs with
        | nil => rfl
        | cons => simp [tokens] at hlast
      exact hm t (by simpa [tokens] using ht)
  obtain ⟨rs, hrs, n', hn'⟩ := hd hn file _ hbehind'
  refine ⟨qs ++ rs, List.forall_mem_append.2 ⟨hqs, hrs⟩, n', ?_⟩
  simpa [tokens_append] using hn'

/-- A part that can be made of fillers alone. -/
theorem next (h : Viable lx e' []) (hd : ∀ {vs n}, Derives e' vs n → Viable lx e (ts ++ vs)) : Viable lx e ts := by
  simpa using h.sub hd

/-- A part that is all there is. -/
theorem wrap (h : Viable lx e' ts) (hd : ∀ {vs n}, Derives e' vs n → ∃ n', Derives e vs n') : Viable lx e ts :=
  show Viable lx e ([] ++ ts) from h.sub fun hn =>
    let ⟨_, hn'⟩ := hd hn
    of_derives hn'

/-! ## Literals and expressions -/

theorem symbol_nil : Viable lx .symbol [] :=
  filler .name fun _ _ _ => of_derives (n := .symbol _ none) (.symbol rfl)

theorem numeral_nil : Viable lx .numeral [] :=
  filler .zero fun _ _ _ => of_derives (n := .numeral 0 none) (.numeral rfl rfl)

theorem truth_nil : Viable lx .truth [] :=
  filler .truth fun file m _ => by
    refine of_derives (n := .truth true none) (.truth ?_ rfl)
    simp only [Token.isWord, token, Lexicon.wordKind]
    split <;> rfl

theorem literal_nil : Viable lx .literal [] :=
  numeral_nil.wrap fun hd => ⟨_, .literalNumeral hd⟩

theorem minus {t : Token} (ht : t.kind = .minus) : Viable lx .unary [t] :=
  literal_nil.next fun hd => of_derives (n := .unary "-" _ none) (.minus ht hd)

theorem plusPlus {t u : Token} (ht : t.kind = .plus) (hu : u.kind = .plus) (h : u.start = t.stop) :
    Viable lx .unary [t, u] :=
  literal_nil.next fun hd => of_derives (n := .unary "++" _ none) (.plusPlus ht hu h hd)

/-- The second plus sign has to touch the first one, so it is put right behind it. -/
theorem plus {t : Token} (ht : t.kind = .plus) : Viable lx .unary [t] :=
  filler .plus fun _ _ hm => plusPlus ht rfl (hm t rfl).symm

theorem unary_nil : Viable lx .unary [] :=
  sign (x := '-') rfl nofun fun _ hu => minus hu

theorem comparison_nil : Viable lx .comparison [] :=
  numeral_nil.wrap fun hd => ⟨_, .comparisonNumeral hd⟩

theorem binary_nil : Viable lx .binary [] :=
  literal_nil.wrap fun hd => ⟨_, .binaryLiteral hd⟩

theorem expression_nil : Viable lx .expression [] :=
  binary_nil.wrap fun hd => ⟨_, .expressionBinary hd⟩

/-! ## Statements and programs -/

section

variable {n x : Node} {t b l r c q : Token}

theorem declaration_dot (hi : Derives .symbol ts n) (hc : c.kind = .colon) (hq : q.kind = .equals)
    (hx : Derives .expression us x) : Viable lx .declaration (ts ++ c :: q :: us) :=
  sign (x := '.') rfl nofun fun d hd =>
    of_derives (n := .declaration n x none) (by simpa using .declaration hi hc hq hx hd)

theorem declaration_value (hi : Derives .symbol ts n) (hc : c.kind = .colon) (hq : q.kind = .equals) :
    Viable lx .declaration (ts ++ [c, q]) :=
  expression_nil.next fun hx => by simpa using declaration_dot hi hc hq hx

theorem declaration_equals (hi : Derives .symbol ts n) (hc : c.kind = .colon) : Viable lx .declaration (ts ++ [c]) :=
  sign (x := '=') rfl nofun fun q hq => by simpa using declaration_value hi hc hq

theorem declaration_colon (hi : Derives .symbol ts n) : Viable lx .declaration ts :=
  sign (x := ':') rfl nofun fun _ hc => declaration_equals hi hc

theorem declaration_nil : Viable lx .declaration [] :=
  symbol_nil.next fun hi => declaration_colon hi

theorem assignment_dot (hi : Derives .symbol ts n) (hq : q.kind = .equals) (hx : Derives .expression us x) :
    Viable lx .assignment (ts ++ q :: us) :=
  sign (x := '.') rfl nofun fun d hd =>
    of_derives (n := .assignment n x none) (by simpa using .assignment hi hq hx hd)

theorem assignment_value (hi : Derives .symbol ts n) (hq : q.kind = .equals) : Viable lx .assignment (ts ++ [q]) :=
  expression_nil.next fun hx => by simpa using assignment_dot hi hq hx

theorem assignment_equals (hi : Derives .symbol ts n) : Viable lx .assignment ts :=
  sign (x := '=') rfl nofun fun _ hq => assignment_value hi hq

theorem assignment_nil : Viable lx .assignment [] :=
  symbol_nil.next fun hi => assignment_equals hi

theorem pragma_close (hb : b.kind = .backtick) (ht : t.kind = .symbol) (hl : l.kind = .bracketLeft)
    (hx : Derives .numeral ts x) (hr : r.kind = .bracketRight) : Viable lx .pragma (b :: t :: l :: (ts ++ [r])) :=
  sign (x := '\x60') rfl nofun fun b' hb' =>
    of_derives (n := .pragma t.text x none) (by simpa using .pragma hb ht hl hx hr hb')

theorem pragma_right (hb : b.kind = .backtick) (ht : t.kind = .symbol) (hl : l.kind = .bracketLeft)
    (hx : Derives .numeral ts x) : Viable lx .pragma (b :: t :: l :: ts) :=
  sign (x := ']') rfl nofun fun r hr => by simpa using pragma_close hb ht hl hx hr

theorem pragma_argument (hb : b.kind = .backtick) (ht : t.kind = .symbol) (hl : l.kind = .bracketLeft) :
    Viable lx .pragma [b, t, l] :=
  numeral_nil.next fun hx => pragma_right hb ht hl hx

theorem pragma_left (hb : b.kind = .backtick) (ht : t.kind = .symbol) : Viable lx .pragma [b, t] :=
  sign (x := '[') rfl nofun fun _ hl => pragma_argument hb ht hl

theorem pragma_name (hb : b.kind = .backtick) : Viable lx .pragma [b] :=
  filler .name fun _ _ _ => pragma_left hb rfl

theorem pragma_nil : Viable lx .pragma [] :=
  sign (x := '\x60') rfl nofun fun _ hb => pragma_name hb

theorem statement_sign (hi : Derives .symbol ts n) : Viable lx .statement ts :=
  (assignment_equals hi).wrap fun hd => ⟨_, .statementAssignment hd⟩

theorem statement_nil : Viable lx .statement [] :=
  assignment_nil.wrap fun hd => ⟨_, .statementAssignment hd⟩

end

end Viable

end FrontEnd
