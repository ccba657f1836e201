import FrontEnd.Proofs.Grammar.Moving

/-!
# Where the nodes of a tree come from

Every node is built by the parser of the entry named after its type, started where the node begins, and its span is what
this parser took; its children are built in the same way, one behind the other, while it runs (`Parse.Built`). One lemma
for each production; **`Parse.Made.of_mem_walk`** follows the tree downwards.
-/

namespace FrontEnd

/-- The entry named after the type of a node. -/
def Node.entry? : Node → Option Entry
  | symbol .. => some .symbol
  | numeral .. => some .numeral
  | truth .. => some .truth
  | binary .. => some .binary
  | comparison .. => some .comparison
  | unary .. => some .unary
  | declaration .. => some .declaration
  | assignment .. => some .assignment
  | pragma .. => some .pragma
  | block .. => some .block
  | program .. => some .program
  | other .. => none

namespace Parse

/-- The node is what the parser of some entry gives, started further on. -/
def Made (s : Stream) (n : Node) : Prop :=
  ∃ (e : Entry) (s₁ s₂ : Stream), s.Onward s₁ ∧ e.parser s₁ = (.ok n, s₂)

/-- The nodes are read one behind the other between two states of the stream, each of them from some tokens. -/
inductive Row : Stream → Stream → List Node → Prop
  | nil {s s' : Stream} : s.Onward s' → Row s s' []
  | cons {s s₁ s₂ s' : Stream} {e : Entry} {c : Node} {cs : List Node} : s.Onward s₁ → e.parser s₁ = (.ok c, s₂) →
      s₂.ahead.length < s₁.ahead.length → Row s₂ s' cs → Row s s' (c :: cs)

/-- The nodes are all that is read between two states of the stream, apart from single tokens. A node may be read from
no tokens only where it is the only one and has none beside it. -/
inductive Spread (s s' : Stream) : List Node → Prop
  | row {cs : List Node} : Row s s' cs → Spread s s' cs
  | whole {e : Entry} {c : Node} : e.parser s = (.ok c, s') → Spread s s' [c]

/-- The node comes from the parser of its own entry, between two states of the stream, and its children are read on the
way. -/
structure Built (s s' : Stream) (n : Node) : Prop where
  own : ∃ e, n.entry? = some e ∧ e.parser s = (.ok n, s')
  span : n.span = some (s.spanTo s')
  children : Spread s s' n.children

variable {α : Type} {p : Parse α} {a : α} {s s' : Stream} {n : Node}

theorem Moves.of_ok (hp : Moves p) (h : p s = (.ok a, s')) : s.Onward s' := by
  simpa [h] using hp s

/-- What is made here is made further on as well. -/
theorem made_here {e : Entry} (h : e.parser s = (.ok n, s')) : Made s n :=
  ⟨e, s, s', .refl s, h⟩

theorem Made.of_onward (h : s.Onward s') (hn : Made s' n) : Made s n := by
  obtain ⟨e, s₁, s₂, h₁, hn⟩ := hn
  exact ⟨e, s₁, s₂, h.trans h₁, hn⟩

theorem Row.made {cs : List Node} (h : Row s s' cs) : ∀ c ∈ cs, Made s c := by
  induction h with
  | nil => exact List.forall_mem_nil _
  | cons hs hc _ _ ih =>
    have hend := hs.trans ((Entry.moves _).of_ok hc)
    exact List.forall_mem_cons.2 ⟨.of_onward hs (made_here hc), fun x hx => .of_onward hend (ih x hx)⟩

theorem Spread.made {cs : List Node} (h : Spread s s' cs) : ∀ c ∈ cs, Made s c := by
  cases h with
  | row h => exact h.made
  | whole hc => exact List.forall_mem_singleton.2 (made_here hc)

/-- A node that takes a token, with single tokens before it and other nodes behind it. -/
theorem Advances.row {e : Entry} {s₁ s₂ : Stream} {cs : List Node} (hp : Advances e.parser) (hs : s.Onward s₁)
    (h : e.parser s₁ = (.ok n, s₂)) (hcs : Row s₂ s' cs) : Row s s' (n :: cs) :=
  .cons hs h (hp.lt h) hcs

/-! ## Literals -/

theorem symbol_built (h : symbol s = (.ok n, s')) : Built s s' n := by
  obtain ⟨f, hp, rfl⟩ := spanned_eq_ok.1 h
  obtain ⟨t, s₁, -, hr⟩ := bind_eq_ok.1 hp
  obtain ⟨rfl, rfl⟩ := pure_eq_ok.1 hr
  exact ⟨⟨.symbol, rfl, h⟩, rfl, .row (.nil (moves_symbol.of_ok h))⟩

theorem numeral_built (h : numeral s = (.ok n, s')) : Built s s' n := by
  obtain ⟨f, hp, rfl⟩ := spanned_eq_ok.1 h
  obtain ⟨t, s₁, -, hp⟩ := bind_eq_ok.1 hp
  obtain ⟨v, s₂, -, hr⟩ := bind_eq_ok.1 hp
  obtain ⟨rfl, rfl⟩ := pure_eq_ok.1 hr
  exact ⟨⟨.numeral, rfl, h⟩, rfl, .row (.nil (moves_numeral.of_ok h))⟩

theorem truth_built (h : truth s = (.ok n, s')) : Built s s' n := by
  obtain ⟨f, hp, rfl⟩ := spanned_eq_ok.1 h
  simp only [bind_apply, peek_apply, ite_apply] at hp
  split at hp
  case isFalse => exact absurd hp fail_ne_ok
  case isTrue =>
    cases hb : truthValue? s.peek.text with
    | none =>
      rw [hb] at hp
      exact absurd hp fail_ne_ok
    | some b =>
      rw [hb] at hp
      obtain ⟨t, s₁, -, hr⟩ := bind_eq_ok.1 hp
      obtain ⟨rfl, rfl⟩ := pure_eq_ok.1 hr
      exact ⟨⟨.truth, rfl, h⟩, rfl, .row (.nil (moves_truth.of_ok h))⟩

theorem literal_built (h : literal s = (.ok n, s')) : Built s s' n := by
  simp only [literal, bind_apply, peek_apply, ite_apply] at h
  split at h
  case isTrue => exact numeral_built h
  case isFalse =>
    split at h
    case isTrue => exact truth_built h
    case isFalse =>
      split at h
      case isTrue => exact symbol_built h
      case isFalse => exact absurd h fail_ne_ok

/-! ## Expressions -/

theorem unary_built (h : unary s = (.ok n, s')) : Built s s' n := by
  obtain ⟨f, hp, rfl⟩ := spanned_eq_ok.1 h
  obtain ⟨op, s₁, hop, hp⟩ := bind_eq_ok.1 hp
  obtain ⟨x, s₂, hx, hr⟩ := bind_eq_ok.1 hp
  obtain ⟨rfl, rfl⟩ := pure_eq_ok.1 hr
  refine ⟨⟨.unary, rfl, h⟩, rfl, .row ?_⟩
  exact advances_literal.row (e := .literal) (moves_unarySign.of_ok hop) hx (.nil (.refl s₂))

theorem comparison_built (h : comparison s = (.ok n, s')) : Built s s' n := by
  have hown := h
  obtain ⟨start, s₀, hst, h⟩ := bind_eq_ok.1 h
  obtain ⟨rfl, rfl⟩ := here_eq_ok.1 hst
  obtain ⟨x, s₁, hx, h⟩ := bind_eq_ok.1 h
  obtain ⟨t, s₂, hp, h⟩ := bind_eq_ok.1 h
  obtain ⟨rfl, rfl⟩ := peek_eq_ok.1 hp
  cases hop : s₁.peek.kind.comparison? with
  | none =>
    rw [hop] at h
    obtain ⟨rfl, rfl⟩ := pure_eq_ok.1 h
    exact numeral_built hx
  | some op =>
    rw [hop] at h
    obtain ⟨t, s₂, hc, h⟩ := bind_eq_ok.1 h
    obtain ⟨y, s₃, hy, h⟩ := bind_eq_ok.1 h
    obtain ⟨s₄, s₅, hh, hr⟩ := bind_eq_ok.1 h
    obtain ⟨rfl, rfl⟩ := here_eq_ok.1 hh
    obtain ⟨rfl, rfl⟩ := pure_eq_ok.1 hr
    refine ⟨⟨.comparison, rfl, hown⟩, rfl, .row (advances_numeral.row (e := .numeral) (.refl s) hx ?_)⟩
    exact advances_numeral.row (e := .numeral) (moves_consume.of_ok hc) hy (.nil (.refl s₃))

/-- The literal of an operand stands where the operand does. -/
theorem literal_of_operand {op? : Option String} (h : operand s = (.ok (n, op?), s')) :
    ∃ s₁, literal s = (.ok n, s₁) ∧ s₁.Onward s' ∧ (op? = none → s' = s₁) := by
  obtain ⟨x, s₁, hx, h⟩ := bind_eq_ok.1 h
  obtain ⟨t, s₂, hp, h⟩ := bind_eq_ok.1 h
  obtain ⟨rfl, rfl⟩ := peek_eq_ok.1 hp
  cases hop : s₁.peek.kind.arithmetic? with
  | none =>
    rw [hop] at h
    obtain ⟨hn, rfl⟩ := pure_eq_ok.1 h
    obtain ⟨rfl, rfl⟩ := Prod.mk.inj hn
    exact ⟨_, hx, .refl _, fun _ => rfl⟩
  | some op =>
    rw [hop] at h
    obtain ⟨t, s₂, hc, h⟩ := bind_eq_ok.1 h
    obtain ⟨hn, rfl⟩ := pure_eq_ok.1 h
    obtain ⟨rfl, rfl⟩ := Prod.mk.inj hn
    exact ⟨s₁, hx, moves_consume.of_ok hc, nofun⟩

theorem binary_built (h : binary s = (.ok n, s')) : Built s s' n := by
  have hown := h
  obtain ⟨start, s₀, hst, h⟩ := bind_eq_ok.1 h
  obtain ⟨rfl, rfl⟩ := here_eq_ok.1 hst
  obtain ⟨⟨x, op?⟩, s₁, ho, h⟩ := bind_eq_ok.1 h
  obtain ⟨s₂, hx, hsign, hs⟩ := literal_of_operand ho
  cases op? with
  | none =>
    obtain ⟨rfl, rfl⟩ := pure_eq_ok.1 h
    obtain rfl := hs rfl
    exact literal_built hx
  | some op =>
    obtain ⟨y, s₃, hy, h⟩ := bind_eq_ok.1 h
    obtain ⟨s₄, s₅, hh, hr⟩ := bind_eq_ok.1 h
    obtain ⟨rfl, rfl⟩ := here_eq_ok.1 hh
    obtain ⟨rfl, rfl⟩ := pure_eq_ok.1 hr
    refine ⟨⟨.binary, rfl, hown⟩, rfl, .row (advances_literal.row (e := .literal) (.refl s) hx ?_)⟩
    exact advances_expression.row (e := .expression) hsign hy (.nil (.refl s₃))

theorem expression_built (h : expression s = (.ok n, s')) : Built s s' n := by
  rw [expression_eq] at h
  simp only [bind_apply, peek_apply, peekNext_apply, ite_apply] at h
  split at h
  case isTrue => exact unary_built h
  case isFalse =>
    split at h
    case isTrue => exact comparison_built h
    case isFalse =>
      split at h
      case isTrue => exact binary_built h
      case isFalse => exact absurd h fail_ne_ok

/-! ## Statements and programs -/

theorem declaration_built (h : declaration s = (.ok n, s')) : Built s s' n := by
  obtain ⟨f, hp, rfl⟩ := spanned_eq_ok.1 h
  obtain ⟨i, s₁, hi, hp⟩ := bind_eq_ok.1 hp
  obtain ⟨c, s₂, hc, hp⟩ := bind_eq_ok.1 hp
  obtain ⟨q, s₃, hq, hp⟩ := bind_eq_ok.1 hp
  obtain ⟨x, s₄, hx, hp⟩ := bind_eq_ok.1 hp
  obtain ⟨d, s₅, hd, hp⟩ := bind_eq_ok.1 hp
  obtain ⟨rfl, rfl⟩ := pure_eq_ok.1 hp
  have hsigns := ((moves_expect _).of_ok hc).trans ((moves_expect _).of_ok hq)
  refine ⟨⟨.declaration, rfl, h⟩, rfl, .row (advances_symbol.row (e := .symbol) (.refl s) hi ?_)⟩
  exact advances_expression.row (e := .expression) hsigns hx (.nil ((moves_expect _).of_ok hd))

theorem assignment_built (h : assignment s = (.ok n, s')) : Built s s' n := by
  obtain ⟨f, hp, rfl⟩ := spanned_eq_ok.1 h
  obtain ⟨i, s₁, hi, hp⟩ := bind_eq_ok.1 hp
  obtain ⟨q, s₂, hq, hp⟩ := bind_eq_ok.1 hp
  obtain ⟨x, s₃, hx, hp⟩ := bind_eq_ok.1 hp
  obtain ⟨d, s₄, hd, hp⟩ := bind_eq_ok.1 hp
  obtain ⟨rfl, rfl⟩ := pure_eq_ok.1 hp
  refine ⟨⟨.assignment, rfl, h⟩, rfl, .row (advances_symbol.row (e := .symbol) (.refl s) hi ?_)⟩
  exact advances_expression.row (e := .expression) ((moves_expect _).of_ok hq) hx (.nil ((moves_expect _).of_ok hd))

theorem pragma_built (h : pragma s = (.ok n, s')) : Built s s' n := by
  obtain ⟨f, hp, rfl⟩ := spanned_eq_ok.1 h
  obtain ⟨b, s₁, hb, hp⟩ := bind_eq_ok.1 hp
  obtain ⟨t, s₂, ht, hp⟩ := bind_eq_ok.1 hp
  obtain ⟨l, s₃, hl, hp⟩ := bind_eq_ok.1 hp
  obtain ⟨x, s₄, hx, hp⟩ := bind_eq_ok.1 hp
  obtain ⟨r, s₅, hr, hp⟩ := bind_eq_ok.1 hp
  obtain ⟨b', s₆, hb', hp⟩ := bind_eq_ok.1 hp
  obtain ⟨rfl, rfl⟩ := pure_eq_ok.1 hp
  have hopen := (((moves_expect _).of_ok hb).trans ((moves_expect _).of_ok ht)).trans ((moves_expect _).of_ok hl)
  have hclose := ((moves_expect _).of_ok hr).trans ((moves_expect _).of_ok hb')
  exact ⟨⟨.pragma, rfl, h⟩, rfl, .row (advances_numeral.row (e := .numeral) hopen hx (.nil hclose))⟩

theorem statement_built (h : statement s = (.ok n, s')) : Built s s' n := by
  simp only [statement, bind_apply, peek_apply, peekNext_apply, ite_apply] at h
  split at h
  case isFalse => exact absurd h fail_ne_ok
  case isTrue =>
    split at h
    case isTrue => exact declaration_built h
    case isFalse =>
      split at h
      case isTrue => exact assignment_built h
      case isFalse => exact absurd h fail_ne_ok

theorem statements_row {xs : List Node} (h : statements s = (.ok xs, s')) : Row s s' xs := by
  fun_induction statements s generalizing xs s' with
  | case1 s _ =>
    obtain ⟨rfl, rfl⟩ := by simpa using h
    exact .nil (.refl s)
  | case2 | case3 => simp at h
  | case4 s _ x s₁ hx _ xs s₂ hxs ih =>
    obtain ⟨rfl, rfl⟩ := by simpa using h
    exact advances_statement.row (e := .statement) (.refl s) hx (ih hxs)

theorem block_built (h : block s = (.ok n, s')) : Built s s' n := by
  obtain ⟨f, hp, rfl⟩ := spanned_eq_ok.1 h
  obtain ⟨xs, s₁, hxs, hp⟩ := bind_eq_ok.1 hp
  obtain ⟨rfl, rfl⟩ := pure_eq_ok.1 hp
  exact ⟨⟨.block, rfl, h⟩, rfl, .row (statements_row hxs)⟩

theorem program_built (h : program s = (.ok n, s')) : Built s s' n := by
  obtain ⟨f, hp, rfl⟩ := spanned_eq_ok.1 h
  obtain ⟨x, s₁, hx, hp⟩ := bind_eq_ok.1 hp
  obtain ⟨rfl, rfl⟩ := pure_eq_ok.1 hp
  exact ⟨⟨.program, rfl, h⟩, rfl, .whole (e := .block) hx⟩

end Parse

open Parse in
/-- **Every tree is built by the entry named after its type**, whichever entry was asked for. -/
theorem Entry.built {s s' : Stream} {n : Node} : ∀ {e : Entry}, e.parser s = (.ok n, s') → Built s s' n
  | .program, h => program_built h
  | .block, h => block_built h
  | .statement, h => statement_built h
  | .declaration, h => declaration_built h
  | .assignment, h => assignment_built h
  | .pragma, h => pragma_built h
  | .expression, h => expression_built h
  | .binary, h => binary_built h
  | .comparison, h => comparison_built h
  | .unary, h => unary_built h
  | .literal, h => literal_built h
  | .symbol, h => symbol_built h
  | .numeral, h => numeral_built h
  | .truth, h => truth_built h

/-- All nodes of a tree are made where the tree is, or further on. -/
theorem Parse.Made.of_mem_walk {s : Stream} {n : Node} (h : Made s n) : ∀ x ∈ n.walk, Made s x := by
  refine Node.forall_mem_walk (fun hc hn => ?_) h
  obtain ⟨e, s₁, s₂, hs, hn⟩ := hn
  exact .of_onward hs ((Entry.built hn).children.made _ hc)

/-- A tree that is made has no nodes of unknown types. -/
theorem Parse.Made.known {s : Stream} {n : Node} (h : Made s n) : ∀ x ∈ n.walk, x.entry?.isSome = true := by
  intro x hx
  obtain ⟨e, s₁, s₂, -, hmade⟩ := h.of_mem_walk x hx
  obtain ⟨e', he, -⟩ := (Entry.built hmade).own
  rw [he]
  rfl

end FrontEnd
