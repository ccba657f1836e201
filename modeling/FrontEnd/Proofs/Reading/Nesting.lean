import FrontEnd.Proofs.Grammar.Subrun
import FrontEnd.Proofs.Reading.Reserving
import FrontEnd.Proofs.Reading.Spans

/-!
# Spans are nested

Since tokens stand one behind the other (`Stream.Ordered`), so do the spans of what is read one behind the other, and
what is read on the way has its span inside. Both hold of the children of a node, which are read in a row while the node
is (`Parse.Spread`); from them the order of all literals of a tree follows by induction on the tree
(`Entry.atoms_ordered`). **`Lexicon.parse_nests`** puts the facts about a tree together.
-/

namespace FrontEnd

/-! ## Streams whose tokens are in order -/

namespace Stream

/-- No token ahead is empty, and each ends before the next one begins. -/
def Ordered (s : Stream) : Prop :=
  ∀ i < s.ahead.length, (s.look i).start < (s.look i).stop ∧ (s.look i).stop ≤ (s.look (i + 1)).start

variable {s s₁ s₂ s' : Stream} {i j : Nat}

theorem Ordered.onward (h : s.Ordered) (hs : s.Onward s') : s'.Ordered := by
  obtain ⟨n, hn, rfl⟩ := hs
  intro i hi
  rw [ahead_skip, List.length_drop] at hi
  have hi := h (n + i) (by omega)
  rwa [look_skip, look_skip, ← Nat.add_assoc]

theorem Ordered.start_le (h : s.Ordered) (hij : i ≤ j) (hj : j ≤ s.ahead.length) :
    (s.look i).start ≤ (s.look j).start := by
  induction j, hij using Nat.le_induction with
  | base => exact Int.le_refl _
  | succ j hij ih =>
    have hstep := h j hj
    have hle := ih (by omega)
    omega

theorem Ordered.stop_le (h : s.Ordered) (hij : i < j) (hj : j ≤ s.ahead.length) :
    (s.look i).stop ≤ (s.look j).start :=
  Int.le_trans (h i (by omega)).2 (h.start_le hij hj)

/-- What comes later begins later. -/
theorem Ordered.peek_le (h : s.Ordered) (hs : s.Onward s') : s.peek.start ≤ s'.peek.start := by
  obtain ⟨n, hn, rfl⟩ := hs
  rw [peek_skip]
  exact h.start_le (Nat.zero_le n) hn

/-- What is read between two states ends before the next token begins. -/
theorem Ordered.spanTo_stop_le (h : s.Ordered) (hs : s.Onward s') : (s.spanTo s').stop ≤ s'.peek.start := by
  obtain ⟨n, hn, rfl⟩ := hs
  cases n with
  | zero =>
    rw [skip_zero, spanTo_self]
  | succ n =>
    rw [spanTo_skip hn, peek_skip]
    exact h.stop_le (Nat.lt_succ_self n) hn

theorem Ordered.spanTo_start_le (h : s.Ordered) (hs : s.Onward s') : (s.spanTo s').start ≤ (s.spanTo s').stop := by
  obtain ⟨n, hn, rfl⟩ := hs
  cases n with
  | zero =>
    rw [skip_zero, spanTo_self]
  | succ n =>
    rw [spanTo_skip hn]
    exact Int.le_trans (h.start_le (Nat.zero_le n) (Nat.le_of_lt hn)) (Int.le_of_lt (h n hn).1)

/-- What is read on the way, from some tokens, has its span inside. -/
theorem Ordered.spanTo_inside (h : s.Ordered) (h₁ : s.Onward s₁) (h₂ : s₁.Onward s₂)
    (hlt : s₂.ahead.length < s₁.ahead.length) (h' : s₂.Onward s') :
    (s.spanTo s').start ≤ (s₁.spanTo s₂).start ∧ (s₁.spanTo s₂).stop ≤ (s.spanTo s').stop := by
  refine ⟨h.peek_le h₁, ?_⟩
  obtain ⟨a, ha, rfl⟩ := h₁
  obtain ⟨b, hb, rfl⟩ := h₂
  obtain ⟨c, hc, rfl⟩ := h'
  simp only [skip_skip, ahead_skip, List.length_drop] at hb hc hlt
  obtain ⟨b, rfl⟩ : ∃ k, b = k + 1 := ⟨b - 1, by omega⟩
  have hb' : b < (s.skip a).ahead.length := by
    rw [ahead_skip, List.length_drop]
    omega
  rw [spanTo_skip hb', look_skip, skip_skip, skip_skip, show a + (b + 1 + c) = a + b + c + 1 by omega,
    spanTo_skip (by omega)]
  show (s.look (a + b)).stop ≤ (s.look (a + b + c)).stop
  cases c with
  | zero => exact Int.le_refl _
  | succ c =>
    have hbefore := h.stop_le (show a + b < a + b + (c + 1) by omega) (by omega)
    have hproper := (h (a + b + (c + 1)) (by omega)).1
    omega

end Stream

/-! ## The children of a node -/

namespace Parse

variable {s s' : Stream} {cs : List Node}

theorem Row.onward (h : Row s s' cs) : s.Onward s' := by
  induction h with
  | nil hs => exact hs
  | cons hs hc _ _ ih => exact (hs.trans ((Entry.moves _).of_ok hc)).trans ih

/-- In a row, each node is read from some tokens. -/
theorem Row.of_mem (h : Row s s' cs) : ∀ c ∈ cs, ∃ s₁ s₂, s.Onward s₁ ∧ s₁.Onward s₂ ∧
    s₂.ahead.length < s₁.ahead.length ∧ s₂.Onward s' ∧ c.span = some (s₁.spanTo s₂) := by
  induction h with
  | nil => exact List.forall_mem_nil _
  | cons hs hc hlt hcs ih =>
    have hmove := (Entry.moves _).of_ok hc
    refine List.forall_mem_cons.2 ⟨⟨_, _, hs, hmove, hlt, hcs.onward, (Entry.built hc).span⟩, fun c hmem => ?_⟩
    obtain ⟨s₁, s₂, h₁, h₂⟩ := ih c hmem
    exact ⟨s₁, s₂, (hs.trans hmove).trans h₁, h₂⟩

theorem Spread.inside (h : Spread s s' cs) (hs : s.Ordered) : ∀ c ∈ cs, ∃ sp, c.span = some sp ∧
    (s.spanTo s').start ≤ sp.start ∧ sp.stop ≤ (s.spanTo s').stop := by
  cases h with
  | row h =>
    intro c hc
    obtain ⟨s₁, s₂, h₁, h₂, hlt, h', hspan⟩ := h.of_mem c hc
    exact ⟨_, hspan, hs.spanTo_inside h₁ h₂ hlt h'⟩
  | whole hc =>
    exact List.forall_mem_singleton.2 ⟨_, (Entry.built hc).span, Int.le_refl _, Int.le_refl _⟩

theorem Row.ordered (h : Row s s' cs) (hs : s.Ordered) :
    (cs.filterMap Node.span).Pairwise fun a b => a.stop ≤ b.start := by
  induction h with
  | nil => exact .nil
  | cons h₁ hc _ hcs ih =>
    have hs₁ := hs.onward h₁
    have hmove := (Entry.moves _).of_ok hc
    rw [List.filterMap_cons_some (Entry.built hc).span]
    refine .cons (fun sp hsp => ?_) (ih (hs₁.onward hmove))
    obtain ⟨c, hmem, hspan⟩ := List.mem_filterMap.1 hsp
    obtain ⟨s₃, s₄, h₃, -, -, -, hspan'⟩ := hcs.of_mem c hmem
    obtain rfl := Option.some.inj (hspan.symm.trans hspan')
    exact Int.le_trans (hs₁.spanTo_stop_le hmove) ((hs₁.onward hmove).peek_le h₃)

theorem Spread.ordered (h : Spread s s' cs) (hs : s.Ordered) :
    (cs.filterMap Node.span).Pairwise fun a b => a.stop ≤ b.start := by
  cases h with
  | row h => exact h.ordered hs
  | whole hc =>
    rw [List.filterMap_cons_some (Entry.built hc).span]
    exact List.pairwise_singleton _ _

end Parse

/-! ## The literals of a tree -/

namespace Node

/-- A literal: a symbol, a numeral or a truth value. -/
def isAtom : Node → Bool
  | symbol .. | numeral .. | truth .. => true
  | _ => false

/-- A block without statements, or the program of such a block. -/
def isVacant : Node → Bool
  | block [] _ | program (block [] _) _ => true
  | _ => false

/-- The spans of the literals of a tree, in the order in which `walk` comes to them. -/
def atomSpans (n : Node) : List Span :=
  (n.walk.filter isAtom).filterMap span

variable {n : Node}

theorem atomSpans_of_isAtom (h : n.isAtom = true) : n.atomSpans = n.span.toList := by
  have hchildren : n.children = [] := by
    cases n with
    | symbol | numeral | truth => rfl
    | _ => cases h
  rw [atomSpans, walk_eq, hchildren, List.flatMap_nil, List.filter_cons_of_pos h, List.filter_nil, List.filterMap_cons]
  cases n.span <;> rfl

theorem atomSpans_of_children (h : n.isAtom = false) : n.atomSpans = n.children.flatMap atomSpans := by
  rw [atomSpans, walk_eq, List.filter_cons_of_neg (by simp [h]), List.filter_flatMap, List.filterMap_flatMap]
  rfl

end Node

/-- Only empty nodes have no tokens, and literals have just one. -/
theorem Derives.tokens_class {e : Entry} {ts : List Token} {n : Node} (h : Derives e ts n) :
    (n.isAtom = true → ts.length = 1) ∧ (ts = [] ↔ n.isVacant = true) := by
  induction h with
  | symbol | numeral | truth => exact ⟨fun _ => rfl, by simp [Node.isVacant]⟩
  | literalNumeral _ ih | literalTruth _ ih | literalSymbol _ _ ih | comparisonNumeral _ ih | binaryLiteral _ ih
  | expressionUnary _ ih | expressionComparison _ ih | expressionBinary _ ih | statementDeclaration _ ih
  | statementAssignment _ ih => exact ih
  | blockNil => exact ⟨nofun, by simp [Node.isVacant]⟩
  | blockCons hx => exact ⟨nofun, by simp [Node.isVacant, hx.ne_nil nofun nofun]⟩
  | program hx ih =>
    refine ⟨nofun, ih.2.trans ?_⟩
    cases hx <;> simp [Node.isVacant]
  | _ => exact ⟨nofun, by simp [Node.isVacant]⟩

namespace Stream

/-- The spans are in order and not empty, and lie between the next tokens of the two states. -/
def Between (s s' : Stream) (spans : List Span) : Prop :=
  (spans.Pairwise fun a b => a.stop ≤ b.start) ∧
    ∀ sp ∈ spans, s.peek.start ≤ sp.start ∧ sp.start < sp.stop ∧ sp.stop ≤ s'.peek.start

variable {s s₁ s' : Stream} {spans spans' : List Span}

theorem between_nil (s s' : Stream) : s.Between s' [] :=
  ⟨.nil, List.forall_mem_nil _⟩

theorem Between.append (h : s.Between s₁ spans) (h' : s₁.Between s' spans') (hs : s.peek.start ≤ s₁.peek.start)
    (hs' : s₁.peek.start ≤ s'.peek.start) : s.Between s' (spans ++ spans') := by
  refine ⟨List.pairwise_append.2 ⟨h.1, h'.1, fun a ha b hb => ?_⟩,
    List.forall_mem_append.2 ⟨fun a ha => ?_, fun b hb => ?_⟩⟩
  · exact Int.le_trans (h.2 a ha).2.2 (h'.2 b hb).1
  · obtain ⟨hlow, hlt, hhigh⟩ := h.2 a ha
    exact ⟨hlow, hlt, Int.le_trans hhigh hs'⟩
  · obtain ⟨hlow, hlt, hhigh⟩ := h'.2 b hb
    exact ⟨Int.le_trans hs hlow, hlt, hhigh⟩

end Stream

open Parse

/-- The literals of nodes in a row are in order if those of each node are. -/
theorem Parse.Row.atoms_ordered {s s' : Stream} {cs : List Node} (h : Row s s' cs) (hs : s.Ordered) (hv : s.Valued)
    (ih : ∀ c ∈ cs, ∀ {e : Entry} {s s' : Stream}, s.Ordered → s.Valued → e.parser s = (.ok c, s') →
      s.Between s' c.atomSpans) : s.Between s' (cs.flatMap Node.atomSpans) := by
  induction h with
  | nil => exact Stream.between_nil _ _
  | @cons s s₁ s₂ s' e c cs h₁ hc _ hcs ihcs =>
    obtain ⟨ihc, ih⟩ := List.forall_mem_cons.1 ih
    have hmove := e.moves.of_ok hc
    have hs₁ := hs.onward h₁
    have hs₂ := hs₁.onward hmove
    have hhead := (Stream.between_nil s s₁).append (ihc hs₁ (hv.onward h₁) hc) (hs.peek_le h₁) (hs₁.peek_le hmove)
    have htail := ihcs hs₂ ((hv.onward h₁).onward hmove) ih
    rw [List.flatMap_cons]
    exact hhead.append htail (hs.peek_le (h₁.trans hmove)) (hs₂.peek_le hcs.onward)

/-- The literals of a tree are in order and lie where the tree was read. -/
theorem Entry.atoms_ordered {n : Node} {e : Entry} {s s' : Stream} (hs : s.Ordered) (hv : s.Valued)
    (h : e.parser s = (.ok n, s')) : s.Between s' n.atomSpans := by
  induction n using Node.childInduction generalizing e s s' with
  | step n ih =>
    obtain ⟨-, hspan, hchildren⟩ := Entry.built h
    cases ha : n.isAtom with
    | true =>
      obtain ⟨ts, htakes, hd⟩ := Entry.parser_derives hv h
      obtain ⟨rfl, hle⟩ := htakes.eq_skip
      rw [hd.tokens_class.1 ha] at hle hspan ⊢
      rw [n.atomSpans_of_isAtom ha, hspan, Stream.spanTo_skip hle]
      refine ⟨List.pairwise_singleton _ _, List.forall_mem_singleton.2 ⟨Int.le_refl _, hs 0 hle |>.1, ?_⟩⟩
      rw [Stream.peek_skip]
      exact (hs 0 hle).2
    | false =>
      rw [n.atomSpans_of_children ha]
      generalize n.children = cs at hchildren ih
      cases hchildren with
      | row hrow => exact hrow.atoms_ordered hs hv fun c hc _ _ _ hs hv h => ih c hc hs hv h
      | whole hc =>
        rw [List.flatMap_singleton]
        exact ih _ List.mem_cons_self hs hv hc

/-! ## Trees of a text -/

/-- The span goes from the first to the last of the tokens from place `i` on and before place `j`. Where there are none,
it is empty and stands at the token at that place. -/
def Span.Covers (ts : List Token) (i j : Nat) (sp : Span) : Prop :=
  ∃ first, ts[i]? = some first ∧ sp.start = first.start ∧
    ((i = j ∧ sp.stop = first.start) ∨ i < j ∧ ∃ last, ts[j - 1]? = some last ∧ sp.stop = last.stop)

/-- What the span `sp` of a node has to do with the tokens and with the spans of its children. -/
structure Node.Nests (ts : List Token) (n : Node) (sp : Span) : Prop where
  /-- The span covers what the entry named after the node's type took to read it: one token for a literal, and none just
  for what is empty. -/
  covers : ∃ e i j, n.entry? = some e ∧ j < ts.length ∧
    e.parser ((Stream.ofTokens ts).skip i) = (.ok n, (Stream.ofTokens ts).skip j) ∧ sp.Covers ts i j ∧
    (n.isAtom = true → j = i + 1) ∧ (i = j ↔ n.isVacant = true)
  inside : ∀ c ∈ n.children, ∃ sc, c.span = some sc ∧ sp.start ≤ sc.start ∧ sc.stop ≤ sp.stop
  ordered : (n.children.filterMap Node.span).Pairwise fun a b => a.stop ≤ b.start
  program : ∀ body sp', n = .program body sp' → body.span = some sp

theorem Stream.covers_spanTo {s : Stream} {i k : Nat} (h : i + k ≤ s.ahead.length) :
    ((s.skip i).spanTo (s.skip (i + k))).Covers s.pending i (i + k) := by
  refine ⟨s.look i, getElem?_pending (by omega), by rw [← peek_skip]; rfl, ?_⟩
  rw [← skip_skip]
  cases k with
  | zero => exact .inl ⟨rfl, by rw [skip_zero, spanTo_self, peek_skip]⟩
  | succ k =>
    have hk : k < (s.skip i).ahead.length := by
      rw [ahead_skip, List.length_drop]
      omega
    refine .inr ⟨by omega, s.look (i + k), getElem?_pending (by omega), ?_⟩
    rw [spanTo_skip hk, look_skip]

/-- Only the parser of programs builds a program, and it reads nothing but its body. -/
theorem Parse.span_of_program {s s' : Stream} {body : Node} {sp : Option Span}
    (h : Entry.program.parser s = (.ok (.program body sp), s')) : body.span = some (s.spanTo s') := by
  obtain ⟨f, hp, hf⟩ := spanned_eq_ok.1 h
  obtain ⟨x, s₁, hx, hp⟩ := bind_eq_ok.1 hp
  obtain ⟨rfl, rfl⟩ := pure_eq_ok.1 hp
  obtain ⟨rfl, -⟩ := Node.program.inj hf
  exact (block_built hx).span

namespace Lexicon

variable {lx : Lexicon} {file text entry : String} {allowTrailing : Bool} {ts : List Token} {tree : Node}

theorem ordered_of_tokenize (h : lx.tokenize file text = .ok ts) : (Stream.ofTokens ts).Ordered := by
  have hpending := (stream_of_tokenize h).1
  intro i hi
  have hfirst := Stream.getElem?_pending (Nat.le_of_lt hi)
  have hsecond := Stream.getElem?_pending (Nat.succ_le_of_lt hi)
  rw [hpending] at hfirst hsecond
  obtain ⟨hi₁, hfirst⟩ := List.getElem?_eq_some_iff.1 hfirst
  obtain ⟨hi₂, hsecond⟩ := List.getElem?_eq_some_iff.1 hsecond
  rw [← hfirst, ← hsecond]
  exact List.pairwise_iff_getElem.1 (tokens_ordered h) i (i + 1) hi₁ hi₂ (Nat.lt_succ_self i)

/-- Every span of a tree that was read lies within the text. -/
theorem span_within (h : lx.parse file entry allowTrailing text = .ok tree) {n : Node} (hn : n ∈ tree.walk) {sp : Span}
    (hsp : n.span = some sp) : 0 ≤ sp.start ∧ sp.start ≤ sp.stop ∧ sp.stop ≤ text.length := by
  obtain ⟨ts, hts, hnamed⟩ := parse_eq_ok.1 h
  obtain ⟨e, s', hroot⟩ := exists_parser_of_named (Prod.ext hnamed rfl)
  obtain ⟨e₁, s₁, s₂, hs, hn⟩ := (made_here hroot).of_mem_walk n hn
  obtain ⟨⟨e, -, hown⟩, hspan, -⟩ := Entry.built hn
  obtain rfl : s₁.spanTo s₂ = sp := Option.some.inj (hspan.symm.trans hsp)
  have hs₂ := e.moves.of_ok hown
  have hordered := (ordered_of_tokenize hts).onward hs
  have hplace : ∀ s, (Stream.ofTokens ts).Onward s → 0 ≤ s.peek.start ∧ s.peek.start ≤ text.length := by
    rintro _ ⟨i, -, rfl⟩
    obtain ⟨ps, tail, -, -, htext, rfl⟩ := tokenize_eq_ok_iff.1 hts
    obtain ⟨a, ha, hstart⟩ := look_start_within htext file i
    rw [Stream.peek_skip, hstart]
    exact ⟨Int.natCast_nonneg a, Int.ofNat_le.2 ha⟩
  exact ⟨(hplace s₁ hs).1, hordered.spanTo_start_le hs₂,
    Int.le_trans (hordered.spanTo_stop_le hs₂) (hplace s₂ (hs.trans hs₂)).2⟩

/-- **Spans are nested** in a tree that was read. The span of a node covers the tokens that the node was read from; the
children have their spans inside, one behind the other; and the literals, in the order of `walk`, have spans that
increase and do not overlap. -/
theorem parse_nests (h : lx.parse file entry allowTrailing text = .ok tree) :
    ∃ ts, lx.tokenize file text = .ok ts ∧ (∀ n ∈ tree.walk, ∃ sp, n.span = some sp ∧ n.Nests ts sp) ∧
      tree.atomSpans.Pairwise fun a b => a.start < b.start ∧ a.stop ≤ b.start := by
  obtain ⟨ts, hts, hnamed⟩ := parse_eq_ok.1 h
  obtain ⟨hpending, -⟩ := stream_of_tokenize hts
  have hordered := ordered_of_tokenize hts
  have hvalued := valued_of_tokenize hts
  have hlength := Stream.length_pending (.ofTokens ts)
  rw [hpending] at hlength
  obtain ⟨e, s', hroot⟩ := exists_parser_of_named (Prod.ext hnamed rfl)
  refine ⟨ts, hts, fun n hn => ?_, ?_⟩
  · obtain ⟨e₁, s₁, s₂, hs, hn⟩ := (made_here hroot).of_mem_walk n hn
    obtain ⟨⟨e, he, hown⟩, hspan, hchildren⟩ := Entry.built hn
    have hs₁ := hordered.onward hs
    obtain ⟨us, htakes, hd⟩ := Entry.parser_derives (hvalued.onward hs) hown
    obtain ⟨hone, hnone⟩ := hd.tokens_class
    obtain ⟨rfl, hle⟩ := htakes.eq_skip
    obtain ⟨i, hi, rfl⟩ := hs
    rw [Stream.ahead_skip, List.length_drop] at hle
    refine ⟨_, hspan, ⟨e, i, i + us.length, he, by omega, ?_, ?_, fun ha => by rw [hone ha], ?_⟩,
      hchildren.inside hs₁, hchildren.ordered hs₁, ?_⟩
    · rw [← Stream.skip_skip]
      exact hown
    · have hcovers := Stream.covers_spanTo (s := .ofTokens ts) (show i + us.length ≤ _ by omega)
      rwa [hpending, ← Stream.skip_skip] at hcovers
    · rw [← hnone, ← List.length_eq_zero_iff]
      omega
    · rintro body sp' rfl
      obtain rfl : Entry.program = e := Option.some.inj he
      exact span_of_program hown
  · obtain ⟨hpairwise, hbetween⟩ := Entry.atoms_ordered hordered hvalued hroot
    refine hpairwise.imp_of_mem fun ha _ hab => ⟨?_, hab⟩
    exact Int.lt_of_lt_of_le (hbetween _ ha).2.1 hab

/-- A sum whose second operand is an expression, and something left over behind it. -/
theorem parse_nests_sum :
    ∃ tree ts, ({} : Lexicon).parse "" "expression" true "a+ -y." = .ok tree ∧
      ({} : Lexicon).tokenize "" "a+ -y." = .ok ts ∧
      (∀ n ∈ tree.walk, ∃ sp, n.span = some sp ∧ n.Nests ts sp) ∧
      tree.atomSpans.Pairwise fun a b => a.start < b.start ∧ a.stop ≤ b.start := by
  have h : ({} : Lexicon).parse "" "expression" true "a+ -y." =
      .ok (.binary (.symbol "a" (some ⟨0, 1⟩)) "+" (.unary "-" (.symbol "y" (some ⟨4, 5⟩)) (some ⟨3, 5⟩))
        (some ⟨0, 5⟩)) := by
    cbv
  obtain ⟨ts, hts, hnests⟩ := parse_nests h
  exact ⟨_, ts, h, hts, hnests⟩

end Lexicon

end FrontEnd
