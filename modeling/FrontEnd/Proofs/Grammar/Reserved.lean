import FrontEnd.Proofs.Grammar.Tracking

/-!
# Reserving words

To reserve words in a stream is to turn the symbols with these texts into keywords (`Stream.reserve`). A parser of the
grammar then succeeds exactly where it succeeded before with a tree that has none of the words as a name
(`Node.Avoids`), and builds the same tree and stops at the same place (`Parse.Heeds`). Names come from
`Parse.expect .symbol` alone; every other test that a parser makes does not tell a symbol from a keyword, or is made
again by the parser that is chosen by it (`Parse.Heeds.guard`). One lemma for each production, and **`Entry.heeds`** for
all of them.
-/

namespace FrontEnd

/-! ## Names in trees -/

namespace Node

/-- The name that the node itself carries, if it is a symbol or a pragma. -/
def ownName? : Node → Option String
  | symbol name _ | pragma name _ _ => some name
  | _ => none

/-- The names in the tree, each as often as it is there. -/
def names (n : Node) : List String :=
  n.walk.filterMap ownName?

/-- None of the words is a name in the tree. -/
def Avoids (words : List String) (n : Node) : Prop :=
  ∀ name ∈ n.names, name ∉ words

variable {words words' : List String} {n : Node}

theorem names_eq (n : Node) : n.names = n.ownName?.toList ++ n.children.flatMap names := by
  rw [names, walk_eq, List.filterMap_cons, List.filterMap_flatMap]
  cases n.ownName? <;> rfl

theorem avoids_iff :
    n.Avoids words ↔ (∀ name, n.ownName? = some name → name ∉ words) ∧ ∀ c ∈ n.children, c.Avoids words := by
  unfold Avoids
  rw [names_eq]
  constructor
  · intro h
    refine ⟨fun name hname => h name ?_, fun c hc name hname => h name ?_⟩
    · rw [hname]
      exact List.mem_append_left _ List.mem_cons_self
    · exact List.mem_append_right _ (List.mem_flatMap.2 ⟨c, hc, hname⟩)
  · rintro ⟨hown, hchildren⟩ name hname
    rcases List.mem_append.1 hname with h | h
    · exact hown name (Option.mem_toList.1 h)
    · obtain ⟨c, hc, hname⟩ := List.mem_flatMap.1 h
      exact hchildren c hc name hname

theorem Avoids.mono (h : n.Avoids words') (hsub : words ⊆ words') : n.Avoids words :=
  fun name hname hmem => h name hname (hsub hmem)

theorem Avoids.own (h : n.Avoids words) {name : String} (hname : n.ownName? = some name) : name ∉ words :=
  (avoids_iff.1 h).1 name hname

theorem Avoids.child (h : n.Avoids words) {c : Node} (hc : c ∈ n.children) : c.Avoids words :=
  (avoids_iff.1 h).2 c hc

/-- A node that carries no name itself. -/
theorem avoids_of_children (hown : n.ownName? = none) (h : ∀ c ∈ n.children, c.Avoids words) : n.Avoids words := by
  refine avoids_iff.2 ⟨fun name hname => ?_, h⟩
  rw [hown] at hname
  cases hname

theorem avoids_pair {l r : Node} (hown : n.ownName? = none) (hc : n.children = [l, r]) :
    n.Avoids words ↔ l.Avoids words ∧ r.Avoids words := by
  constructor
  · intro h
    exact ⟨h.child (by simp [hc]), h.child (by simp [hc])⟩
  · rintro ⟨hl, hr⟩
    apply avoids_of_children hown
    rw [hc]
    exact List.forall_mem_cons.2 ⟨hl, List.forall_mem_singleton.2 hr⟩

/-- A node that carries a name. -/
theorem avoids_of_name {name : String} (hown : n.ownName? = some name) (hname : name ∉ words)
    (h : ∀ c ∈ n.children, c.Avoids words) : n.Avoids words := by
  refine avoids_iff.2 ⟨fun name' hname' => ?_, h⟩
  rw [hown] at hname'
  obtain rfl := Option.some.inj hname'
  exact hname

end Node

/-! ## Reserving in tokens and streams -/

/-- A symbol among the words becomes a keyword. -/
def Token.reserve (words : List String) (t : Token) : Token :=
  if t.kind = .symbol ∧ t.text ∈ words then { t with kind := .keyword } else t

namespace Token

variable {words : List String} {t : Token} {k : Kind}

theorem reserve_of_kind (h : t.kind ≠ .symbol) : t.reserve words = t := by
  rw [reserve, if_neg fun hk => h hk.1]

theorem reserve_of_text (h : t.text ∉ words) : t.reserve words = t := by
  rw [reserve, if_neg fun hk => h hk.2]

/-- All but the kind stays. -/
theorem reserve_fields (words : List String) (t : Token) :
    (t.reserve words).text = t.text ∧ (t.reserve words).start = t.start ∧ (t.reserve words).stop = t.stop ∧
      (t.reserve words).location = t.location ∧ (t.reserve words).value = t.value := by
  unfold reserve
  split <;> exact ⟨rfl, rfl, rfl, rfl, rfl⟩

@[simp]
theorem text_reserve : (t.reserve words).text = t.text := (reserve_fields words t).1

@[simp]
theorem start_reserve : (t.reserve words).start = t.start := (reserve_fields words t).2.1

@[simp]
theorem stop_reserve : (t.reserve words).stop = t.stop := (reserve_fields words t).2.2.1

/-- What does not tell a keyword from a symbol does not see that words are reserved. -/
theorem apply_kind_reserve {γ : Type} (f : Kind → γ) (hf : f .keyword = f .symbol) :
    f (t.reserve words).kind = f t.kind := by
  unfold reserve
  split
  case isTrue h =>
    rw [h.1]
    exact hf
  case isFalse => rfl

/-- Kinds that are not of words are told from all others as before. -/
theorem kind_reserve (hk : k ∉ [.symbol, .keyword]) : (t.reserve words).kind = k ↔ t.kind = k := by
  apply Iff.of_eq
  apply apply_kind_reserve (· = k)
  apply propext
  constructor
  · rintro rfl
    exact absurd (by simp) hk
  · rintro rfl
    exact absurd (by simp) hk

/-- Only a symbol that is none of the words is still a symbol. -/
theorem symbol_reserve : (t.reserve words).kind = .symbol ↔ t.kind = .symbol ∧ t.text ∉ words := by
  unfold reserve
  split
  case isTrue h => simp [h.2]
  case isFalse h => exact ⟨fun hk => ⟨hk, fun hmem => h ⟨hk, hmem⟩⟩, fun hk => hk.1⟩

@[simp]
theorem isEnd_reserve : (t.reserve words).isEnd = t.isEnd :=
  apply_kind_reserve (· == .endOfFile) rfl

@[simp]
theorem isWord_reserve : (t.reserve words).isWord = t.isWord :=
  apply_kind_reserve (fun k => k == .symbol || k == .keyword) rfl

@[simp]
theorem isTruthWord_reserve : (t.reserve words).isTruthWord = t.isTruthWord := by
  simp [isTruthWord]

@[simp]
theorem comparison?_reserve : (t.reserve words).kind.comparison? = t.kind.comparison? :=
  apply_kind_reserve Kind.comparison? rfl

@[simp]
theorem arithmetic?_reserve : (t.reserve words).kind.arithmetic? = t.kind.arithmetic? :=
  apply_kind_reserve Kind.arithmetic? rfl

end Token

namespace Stream

/-- The stream with its symbols among the words made keywords. -/
def reserve (words : List String) (s : Stream) : Stream :=
  { s with ahead := s.ahead.map (Token.reserve words), final := s.final.reserve words }

variable {words : List String} {s s' : Stream} {t : Token} {rest : List Token}

@[simp]
theorem look_reserve (n : Nat) : (s.reserve words).look n = (s.look n).reserve words := by
  simp only [look, reserve, List.getD_eq_getElem?_getD, List.getElem?_map]
  cases s.ahead[n]? <;> rfl

@[simp]
theorem peek_reserve : (s.reserve words).peek = s.peek.reserve words :=
  look_reserve 0

theorem taking_reserve :
    (s.reserve words).taking (t.reserve words) (rest.map (Token.reserve words)) =
      (s.taking t rest).reserve words := by
  simp [taking, reserve]

@[simp]
theorem spanTo_reserve : (s.reserve words).spanTo (s'.reserve words) = s.spanTo s' := by
  rw [spanTo, spanTo, peek_reserve, Token.start_reserve]
  rfl

/-- What can be taken after reserving could be taken before. -/
theorem ahead_reserve {u : Token} {us : List Token} (h : (s.reserve words).ahead = u :: us) :
    ∃ t rest, s.ahead = t :: rest ∧ u = t.reserve words ∧ us = rest.map (Token.reserve words) := by
  obtain ⟨t, rest, ha, hu, hus⟩ := List.map_eq_cons_iff.1 h
  exact ⟨t, rest, ha, hu.symm, hus.symm⟩

end Stream

namespace Parse

variable {α β : Type} {words : List String} {s : Stream} {k : Kind}

/-- Whenever `p` succeeds, its result is as given. -/
def Ensures (p : Parse α) (Q : α → Prop) : Prop :=
  ∀ s a s', p s = (.ok a, s') → Q a

theorem ensures_pure {a : α} {Q : α → Prop} (h : Q a) : Ensures (pure a) Q := by
  intro s b s' hb
  obtain ⟨rfl, -⟩ := pure_eq_ok.1 hb
  exact h

/-- What the last parser of a sequence ensures. -/
theorem Ensures.bind {p : Parse α} {f : α → Parse β} {Q : β → Prop} (h : ∀ a, Ensures (f a) Q) :
    Ensures (p >>= f) Q := by
  intro s b s' hb
  obtain ⟨a, s₁, -, hf⟩ := bind_eq_ok.1 hb
  exact h a s₁ b s' hf

/-- With the words reserved, `q` succeeds exactly where `p` succeeds with a result that satisfies `D`, with the same
result and at the same place. -/
def Heeds (words : List String) (D : α → Prop) (p q : Parse α) (s : Stream) : Prop :=
  ∀ a s', q (s.reserve words) = (.ok a, s') ↔ ∃ s₁, p s = (.ok a, s₁) ∧ s' = s₁.reserve words ∧ D a

/-! ## Sequencing -/

section

variable {p q : Parse α} {f g : α → Parse β} {C : α → Prop} {D : β → Prop}

theorem heeds_pure {b : β} (h : D b) : Heeds words D (pure b) (pure b) s := by
  intro a s'
  simp only [pure_eq_ok]
  constructor
  · rintro ⟨rfl, rfl⟩
    exact ⟨s, ⟨rfl, rfl⟩, rfl, h⟩
  · rintro ⟨_, ⟨rfl, rfl⟩, rfl, -⟩
    exact ⟨rfl, rfl⟩

theorem heeds_fail (e e' : SyntaxFault) : Heeds words D (fail e) (fail e') s := by
  intro a s'
  simp [fail]

/-- What follows may rely on the condition of the first result. In turn its own condition has to give that one back. -/
theorem Heeds.bind (hp : Heeds words C p q s)
    (hf : ∀ {a s'}, p s = (.ok a, s') → C a → Heeds words D (f a) (g a) s')
    (hback : ∀ a, Ensures (f a) fun b => D b → C a) : Heeds words D (p >>= f) (q >>= g) s := by
  intro b s''
  simp only [bind_eq_ok]
  constructor
  · rintro ⟨a, _, hq, hg⟩
    obtain ⟨s₁, hp, rfl, ha⟩ := (hp a _).1 hq
    obtain ⟨s₂, hb, rfl, hD⟩ := (hf hp ha b s'').1 hg
    exact ⟨s₂, ⟨a, s₁, hp, hb⟩, rfl, hD⟩
  · rintro ⟨s₂, ⟨a, s₁, hpa, hfb⟩, rfl, hD⟩
    have ha : C a := hback a s₁ b s₂ hfb hD
    exact ⟨a, s₁.reserve words, (hp a _).2 ⟨s₁, hpa, rfl, ha⟩, (hf hpa ha b _).2 ⟨s₂, hfb, rfl, hD⟩⟩

/-- What follows a parser that no reserved word disturbs. -/
theorem Heeds.andThen (hp : Heeds words (fun _ => True) p q s)
    (hf : ∀ {a s'}, p s = (.ok a, s') → Heeds words D (f a) (g a) s') : Heeds words D (p >>= f) (q >>= g) s :=
  hp.bind (fun h _ => hf h) fun _ _ _ _ _ _ => trivial

theorem heeds_peek {f g : Token → Parse β} (h : Heeds words D (f s.peek) (g (s.peek.reserve words)) s) :
    Heeds words D (peek >>= f) (peek >>= g) s := by
  intro b s'
  rw [bind_of_ok (peek_eq_ok.2 ⟨Stream.peek_reserve, rfl⟩), bind_of_ok (peek_apply s)]
  exact h b s'

theorem heeds_peekNext {f g : Token → Parse β} (h : Heeds words D (f (s.look 1)) (g ((s.look 1).reserve words)) s) :
    Heeds words D (peekNext >>= f) (peekNext >>= g) s := by
  intro b s'
  rw [bind_of_ok (peekNext_eq_ok.2 ⟨Stream.look_reserve 1, rfl⟩), bind_of_ok (peekNext_apply s)]
  exact h b s'

theorem heeds_here {f g : Stream → Parse β} (h : Heeds words D (f s) (g (s.reserve words)) s) :
    Heeds words D (here >>= f) (here >>= g) s := h

/-- Taking a token that is not looked at. -/
theorem heeds_consume {p q : Parse β} (h : ∀ s', Heeds words D p q s') :
    Heeds words D (consume >>= fun _ => p) (consume >>= fun _ => q) s := by
  intro b s'
  simp only [bind_eq_ok, consume_eq_ok]
  constructor
  · rintro ⟨_, _, ⟨_, hu, rfl⟩, hq⟩
    obtain ⟨t, rest, ha, rfl, rfl⟩ := Stream.ahead_reserve hu
    rw [Stream.taking_reserve] at hq
    obtain ⟨s₁, hp, rfl, hD⟩ := (h _ b s').1 hq
    exact ⟨s₁, ⟨t, _, ⟨rest, ha, rfl⟩, hp⟩, rfl, hD⟩
  · rintro ⟨s₁, ⟨t, _, ⟨rest, ha, rfl⟩, hp⟩, rfl, hD⟩
    refine ⟨_, _, ⟨_, ?_, Stream.taking_reserve.symm⟩, (h _ b _).2 ⟨s₁, hp, rfl, hD⟩⟩
    rw [Stream.reserve, ha]
    rfl

/-- A test that comes out the same. -/
theorem Heeds.ite {c c' : Prop} [Decidable c] [Decidable c'] {p q p' q' : Parse β} (hc : c' ↔ c)
    (hp : c → Heeds words D p q s) (hp' : ¬ c → Heeds words D p' q' s) :
    Heeds words D (if c then p else p') (if c' then q else q') s := by
  by_cases h : c
  · rw [if_pos h, if_pos (hc.2 h)]
    exact hp h
  · rw [if_neg h, if_neg fun h' => h (hc.1 h')]
    exact hp' h

/-- Where success implies the test, the test changes nothing about it. -/
theorem ite_fail_eq_ok {c : Prop} [Decidable c] {p : Parse β} {e : SyntaxFault} {b : β} {s' : Stream}
    (hc : p s = (.ok b, s') → c) : (if c then p else fail e) s = (.ok b, s') ↔ p s = (.ok b, s') := by
  by_cases h : c
  · rw [if_pos h]
  · rw [if_neg h]
    exact ⟨fun hfail => absurd hfail fail_ne_ok, fun hp => absurd (hc hp) h⟩

/-- A test that nothing succeeds without may tell symbols from keywords. -/
theorem Heeds.guard {c c' : Prop} [Decidable c] [Decidable c'] {p q : Parse β} {e e' : SyntaxFault}
    (h : Heeds words D p q s) (hc : ∀ {b s'}, p s = (.ok b, s') → c)
    (hc' : ∀ {b s'}, q (s.reserve words) = (.ok b, s') → c') :
    Heeds words D (if c then p else fail e) (if c' then q else fail e') s := by
  intro b s'
  rw [ite_fail_eq_ok hc', h b s']
  simp only [ite_fail_eq_ok hc]

theorem Heeds.spanned {p q : Parse (Option Span → Node)} {D : Node → Prop}
    (h : ∀ sp, Heeds words (fun F => D (F sp)) p q s) : Heeds words D (spanned p) (spanned q) s := by
  intro n s'
  simp only [spanned_eq_ok]
  constructor
  · rintro ⟨F, hq, rfl⟩
    obtain ⟨s₁, hp, rfl, hD⟩ := (h (some ((s.reserve words).spanTo s')) F s').1 hq
    rw [Stream.spanTo_reserve] at hD ⊢
    exact ⟨s₁, ⟨F, hp, rfl⟩, rfl, hD⟩
  · rintro ⟨s₁, ⟨F, hp, rfl⟩, rfl, hD⟩
    exact ⟨F, (h _ F _).2 ⟨s₁, hp, rfl, hD⟩, by rw [Stream.spanTo_reserve]⟩

end

/-! ## Single tokens -/

/-- A token that is to be of a kind other than a word's. -/
theorem heeds_expect (hk : k ∉ [.symbol, .keyword]) : Heeds words (fun _ => True) (expect k) (expect k) s := by
  have hsame : ∀ {t : Token}, t.kind = k → t.reserve words = t := by
    rintro t rfl
    exact Token.reserve_of_kind fun h => hk (by simp [h])
  intro t s'
  simp only [expect_eq_ok]
  constructor
  · rintro ⟨_, hu, ht, rfl⟩
    obtain ⟨t, rest, ha, rfl, rfl⟩ := Stream.ahead_reserve hu
    have hkind := (Token.kind_reserve hk).1 ht
    rw [Stream.taking_reserve, hsame hkind]
    exact ⟨s.taking t rest, ⟨rest, ha, hkind, rfl⟩, rfl, trivial⟩
  · rintro ⟨_, ⟨rest, ha, ht, rfl⟩, rfl, -⟩
    refine ⟨rest.map (Token.reserve words), ?_, ht, ?_⟩
    · rw [Stream.reserve, ha, List.map_cons, hsame ht]
    · rw [← Stream.taking_reserve, hsame ht]

/-- A name, which must be none of the words. -/
theorem heeds_name : Heeds words (fun t => t.text ∉ words) (expect .symbol) (expect .symbol) s := by
  intro t s'
  simp only [expect_eq_ok]
  constructor
  · rintro ⟨_, hu, ht, rfl⟩
    obtain ⟨t, rest, ha, rfl, rfl⟩ := Stream.ahead_reserve hu
    obtain ⟨hkind, htext⟩ := Token.symbol_reserve.1 ht
    have hsame := Token.reserve_of_text htext
    rw [Stream.taking_reserve, hsame]
    exact ⟨s.taking t rest, ⟨rest, ha, hkind, rfl⟩, rfl, htext⟩
  · rintro ⟨_, ⟨rest, ha, ht, rfl⟩, rfl, htext⟩
    have hsame := Token.reserve_of_text htext
    refine ⟨rest.map (Token.reserve words), ?_, ht, ?_⟩
    · rw [Stream.reserve, ha, List.map_cons, hsame]
    · rw [← Stream.taking_reserve, hsame]

theorem heeds_valueOf (t : Token) : Heeds words (fun _ => True) (valueOf t) (valueOf t) s := by
  intro v s'
  rw [valueOf_apply, valueOf_apply]
  constructor
  · intro h
    obtain ⟨hv, rfl⟩ := Prod.mk.inj h
    exact ⟨s, Prod.ext hv rfl, rfl, trivial⟩
  · rintro ⟨_, h, rfl, -⟩
    obtain ⟨hv, rfl⟩ := Prod.mk.inj h
    exact Prod.ext hv rfl

/-! ## Literals -/

theorem heeds_symbol : Heeds words (Node.Avoids words) symbol symbol s := by
  refine .spanned fun sp => heeds_name.bind (fun _ ht => heeds_pure ?_) fun t => ensures_pure fun h => h.own rfl
  exact Node.avoids_of_name rfl ht (List.forall_mem_nil _)

theorem heeds_numeral : Heeds words (Node.Avoids words) numeral numeral s := by
  refine .spanned fun sp => (heeds_expect (by decide)).andThen fun {t _} _ =>
    (heeds_valueOf t).andThen fun _ => heeds_pure ?_
  exact Node.avoids_of_children rfl (List.forall_mem_nil _)

/-- A reserved word still denotes its truth value. -/
theorem heeds_truth : Heeds words (Node.Avoids words) truth truth s := by
  refine .spanned fun sp => heeds_peek (.ite (by rw [Token.isWord_reserve]) (fun _ => ?_) fun _ => heeds_fail _ _)
  rw [Token.text_reserve]
  cases truthValue? s.peek.text with
  | none => exact heeds_fail _ _
  | some b => exact heeds_consume fun _ => heeds_pure (Node.avoids_of_children rfl (List.forall_mem_nil _))

theorem symbol_of_ok {n : Node} {s' : Stream} (h : symbol s = (.ok n, s')) : s.peek.kind = .symbol := by
  obtain ⟨F, hp, -⟩ := spanned_eq_ok.1 h
  obtain ⟨t, s₁, ht, -⟩ := bind_eq_ok.1 hp
  obtain ⟨rest, ha, hk, -⟩ := expect_eq_ok.1 ht
  rw [Stream.peek_eq ha, hk]

theorem heeds_literal : Heeds words (Node.Avoids words) literal literal s := by
  refine heeds_peek (.ite (Token.kind_reserve (by decide)) (fun _ => heeds_numeral) fun _ => ?_)
  refine .ite (by rw [Token.isTruthWord_reserve]) (fun _ => heeds_truth) fun _ => ?_
  -- A word that is reserved fails the test here, and would fail in `symbol`.
  exact heeds_symbol.guard symbol_of_ok fun h => by rw [← Stream.peek_reserve, symbol_of_ok h]

/-! ## Expressions -/

theorem heeds_unarySign : Heeds words (fun _ => True) unarySign unarySign s := by
  refine heeds_peek (.ite (Token.kind_reserve (by decide)) (fun _ => ?_) fun _ => ?_)
  · refine heeds_consume fun s' => heeds_peek (.ite ?_ (fun _ => ?_) fun _ => heeds_pure trivial)
    · rw [Token.kind_reserve (by decide), Token.start_reserve, Token.stop_reserve]
    · exact heeds_consume fun _ => heeds_pure trivial
  · refine .ite (Token.kind_reserve (by decide)) (fun _ => ?_) fun _ => heeds_fail _ _
    refine heeds_consume fun s' => heeds_peek (.ite ?_ (fun _ => heeds_fail _ _) fun _ => .ite ?_
      (fun _ => heeds_fail _ _) fun _ => heeds_consume fun _ => heeds_pure trivial)
    · rw [Ne, Token.kind_reserve (by decide)]
    · rw [Token.start_reserve, Token.stop_reserve]

theorem heeds_unary : Heeds words (Node.Avoids words) unary unary s := by
  refine .spanned fun sp => heeds_unarySign.andThen fun _ => heeds_literal.bind (fun _ hx => heeds_pure ?_) fun x =>
    ensures_pure fun h => h.child List.mem_cons_self
  exact Node.avoids_of_children rfl (List.forall_mem_singleton.2 hx)

theorem heeds_comparison : Heeds words (Node.Avoids words) comparison comparison s := by
  refine heeds_here (heeds_numeral.bind (fun {_ s'} _ hl => heeds_peek ?_) fun left => .bind fun t => ?_)
  · rw [Token.comparison?_reserve]
    cases s'.peek.kind.comparison? with
    | none => exact heeds_pure hl
    | some op =>
      refine heeds_consume fun _ => heeds_numeral.bind (fun _ hr => heeds_here ?_) fun right => ?_
      · rw [Stream.spanTo_reserve]
        exact heeds_pure ((Node.avoids_pair rfl rfl).2 ⟨hl, hr⟩)
      · exact .bind fun _ => ensures_pure fun h => ((Node.avoids_pair rfl rfl).1 h).2
  · cases t.kind.comparison? with
    | none => exact ensures_pure id
    | some op => exact .bind fun _ => .bind fun _ => .bind fun _ => ensures_pure fun h => h.child List.mem_cons_self

theorem heeds_operand : Heeds words (fun x => x.1.Avoids words) operand operand s := by
  refine heeds_literal.bind (fun {_ s'} _ hl => heeds_peek ?_) fun left => .bind fun t => ?_
  · rw [Token.arithmetic?_reserve]
    cases s'.peek.kind.arithmetic? with
    | none => exact heeds_pure hl
    | some op => exact heeds_consume fun _ => heeds_pure hl
  · cases t.kind.arithmetic? with
    | none => exact ensures_pure id
    | some op => exact .bind fun _ => ensures_pure id

/-- The expression behind an operand and its sign. -/
theorem heeds_binary_of
    (ih : ∀ {s' : Stream}, s'.ahead.length < s.ahead.length →
      Heeds words (Node.Avoids words) expression expression s') :
    Heeds words (Node.Avoids words) binary binary s := by
  refine heeds_here (heeds_operand.bind (fun {x s'} hs hl => ?_) fun x => ?_)
  · obtain ⟨left, op?⟩ := x
    cases op? with
    | none => exact heeds_pure hl
    | some op =>
      refine (ih (advances_operand.lt hs)).bind (fun _ hr => heeds_here ?_) fun right => ?_
      · rw [Stream.spanTo_reserve]
        exact heeds_pure ((Node.avoids_pair rfl rfl).2 ⟨hl, hr⟩)
      · exact .bind fun _ => ensures_pure fun h => ((Node.avoids_pair rfl rfl).1 h).2
  · obtain ⟨left, op?⟩ := x
    cases op? with
    | none => exact ensures_pure id
    | some op => exact .bind fun _ => .bind fun _ => ensures_pure fun h => h.child List.mem_cons_self

theorem literal_of_ok {n : Node} {s' : Stream} (h : literal s = (.ok n, s')) : s.peek.isLiteral = true := by
  obtain ⟨t, s₁, ht, h⟩ := bind_eq_ok.1 h
  obtain ⟨rfl, rfl⟩ := peek_eq_ok.1 ht
  by_cases hk : s.peek.kind = .numeric
  · simp [Token.isLiteral, hk]
  · by_cases hw : s.peek.isTruthWord = true
    · simp [Token.isLiteral, hw]
    · rw [if_neg hk, if_neg hw, ite_apply] at h
      split at h
      case isTrue hs => simp [Token.isLiteral, hs]
      case isFalse => exact absurd h fail_ne_ok

theorem binary_of_ok {n : Node} {s' : Stream} (h : binary s = (.ok n, s')) : s.peek.isLiteral = true := by
  obtain ⟨start, s₀, hs, h⟩ := bind_eq_ok.1 h
  obtain ⟨rfl, rfl⟩ := here_eq_ok.1 hs
  obtain ⟨x, s₁, hx, -⟩ := bind_eq_ok.1 h
  obtain ⟨left, s₂, hl, -⟩ := bind_eq_ok.1 hx
  exact literal_of_ok hl

/-- The induction is on the tokens ahead, of which the expression behind a sign has fewer. -/
theorem heeds_expression : Heeds words (Node.Avoids words) expression expression s := by
  induction h : s.ahead.length using Nat.strongRecOn generalizing s with
  | ind N ih =>
    subst h
    have hbinary : Heeds words (Node.Avoids words) binary binary s := heeds_binary_of fun hlt => ih _ hlt rfl
    rw [expression_eq]
    refine heeds_peek (heeds_peekNext (.ite ?_ (fun _ => heeds_unary) fun _ => .ite ?_ (fun _ => heeds_comparison)
      fun _ => hbinary.guard binary_of_ok fun hq => ?_))
    · rw [Token.kind_reserve (by decide), Token.kind_reserve (by decide)]
    · rw [Token.kind_reserve (by decide), Token.comparison?_reserve]
    · rw [← Stream.peek_reserve, binary_of_ok hq]

theorem heeds_binary : Heeds words (Node.Avoids words) binary binary s :=
  heeds_binary_of fun _ => heeds_expression

/-! ## Statements and programs -/

theorem heeds_dot : Heeds words (fun _ => True) dot dot s :=
  heeds_expect (by decide)

theorem heeds_declaration : Heeds words (Node.Avoids words) declaration declaration s := by
  refine .spanned fun sp => heeds_symbol.bind (fun _ hi => (heeds_expect (by decide)).andThen fun _ =>
    (heeds_expect (by decide)).andThen fun _ => heeds_expression.bind (fun _ hx =>
      heeds_dot.andThen fun _ => heeds_pure ?_) fun x => ?_) fun i => ?_
  · exact (Node.avoids_pair rfl rfl).2 ⟨hi, hx⟩
  · exact .bind fun _ => ensures_pure fun h => ((Node.avoids_pair rfl rfl).1 h).2
  · exact .bind fun _ => .bind fun _ => .bind fun _ => .bind fun _ => ensures_pure fun h => h.child List.mem_cons_self

theorem heeds_assignment : Heeds words (Node.Avoids words) assignment assignment s := by
  refine .spanned fun sp => heeds_symbol.bind (fun _ hi => (heeds_expect (by decide)).andThen fun _ =>
    heeds_expression.bind (fun _ hx => heeds_dot.andThen fun _ => heeds_pure ?_) fun x => ?_) fun i => ?_
  · exact (Node.avoids_pair rfl rfl).2 ⟨hi, hx⟩
  · exact .bind fun _ => ensures_pure fun h => ((Node.avoids_pair rfl rfl).1 h).2
  · exact .bind fun _ => .bind fun _ => .bind fun _ => ensures_pure fun h => h.child List.mem_cons_self

theorem heeds_pragma : Heeds words (Node.Avoids words) pragma pragma s := by
  refine .spanned fun sp => (heeds_expect (by decide)).andThen fun _ => heeds_name.bind (fun _ ht =>
    (heeds_expect (by decide)).andThen fun _ => heeds_numeral.bind (fun _ hx =>
      (heeds_expect (by decide)).andThen fun _ => (heeds_expect (by decide)).andThen fun _ =>
        heeds_pure ?_) fun x => ?_) fun t => ?_
  · exact Node.avoids_of_name rfl ht (List.forall_mem_singleton.2 hx)
  · exact .bind fun _ => .bind fun _ => ensures_pure fun h => h.child List.mem_cons_self
  · exact .bind fun _ => .bind fun _ => .bind fun _ => .bind fun _ => ensures_pure fun h => h.own rfl

theorem named_of_ok {f : Node → Parse (Option Span → Node)} {n : Node} {s' : Stream}
    (h : spanned (symbol >>= f) s = (.ok n, s')) : s.peek.kind = .symbol := by
  obtain ⟨F, hp, -⟩ := spanned_eq_ok.1 h
  obtain ⟨i, s₁, hi, -⟩ := bind_eq_ok.1 hp
  exact symbol_of_ok hi

/-- Whichever form its second token chooses, a statement begins with a name. -/
theorem statement_of_ok {u : Token} {e : SyntaxFault} {n : Node} {s' : Stream}
    (h : (if u.kind = .colon then declaration else if u.kind = .equals then assignment else fail e) s = (.ok n, s')) :
    s.peek.kind = .symbol := by
  split at h
  case isTrue => exact named_of_ok h
  case isFalse =>
    split at h
    case isTrue => exact named_of_ok h
    case isFalse => exact absurd h fail_ne_ok

theorem heeds_statement : Heeds words (Node.Avoids words) statement statement s := by
  refine heeds_peek (heeds_peekNext (.guard ?_ statement_of_ok fun h => ?_))
  · refine .ite (Token.kind_reserve (by decide)) (fun _ => heeds_declaration) fun _ => ?_
    exact .ite (Token.kind_reserve (by decide)) (fun _ => heeds_assignment) fun _ => heeds_fail _ _
  · rw [← Stream.peek_reserve, statement_of_ok h]

theorem heeds_statements :
    Heeds words (fun xs => ∀ x ∈ xs, x.Avoids words) statements statements s := by
  induction h : s.ahead.length using Nat.strongRecOn generalizing s with
  | ind N ih =>
    subst h
    rw [statements_eq]
    refine heeds_peek (.ite (by rw [Token.isEnd_reserve]) (fun _ => heeds_pure (List.forall_mem_nil _)) fun _ => ?_)
    refine heeds_statement.bind (fun hs hx => (ih _ (advances_statement.lt hs) rfl).bind (fun _ hxs => heeds_pure ?_)
      fun xs => ?_) fun x => ?_
    · exact List.forall_mem_cons.2 ⟨hx, hxs⟩
    · exact ensures_pure fun h => (List.forall_mem_cons.1 h).2
    · exact .bind fun _ => ensures_pure fun h => (List.forall_mem_cons.1 h).1

theorem heeds_block : Heeds words (Node.Avoids words) block block s := by
  refine .spanned fun sp => heeds_statements.bind (fun _ hxs => heeds_pure ?_) fun xs => ?_
  · exact Node.avoids_of_children rfl hxs
  · exact ensures_pure fun h x hx => h.child hx

theorem heeds_program : Heeds words (Node.Avoids words) program program s := by
  refine .spanned fun sp => heeds_block.bind (fun _ hx => heeds_pure ?_) fun x => ?_
  · exact Node.avoids_of_children rfl (List.forall_mem_singleton.2 hx)
  · exact ensures_pure fun h => h.child List.mem_cons_self

end Parse

namespace Entry

open Parse

variable {words : List String} {s : Stream}

/-- **Reserving words only rejects**: the parser of an entry succeeds on the stream with the words reserved exactly when
it builds a tree without them on the stream itself, and it builds the same tree. -/
theorem heeds : ∀ e : Entry, Heeds words (Node.Avoids words) e.parser e.parser s
  | program => heeds_program
  | block => heeds_block
  | statement => heeds_statement
  | declaration => heeds_declaration
  | assignment => heeds_assignment
  | pragma => heeds_pragma
  | expression => heeds_expression
  | binary => heeds_binary
  | comparison => heeds_comparison
  | unary => heeds_unary
  | literal => heeds_literal
  | symbol => heeds_symbol
  | numeral => heeds_numeral
  | truth => heeds_truth

/-- What is left over is an end of input in the one stream if it is in the other. -/
theorem parse_heeds (e : Entry) (allowTrailing : Bool) :
    Heeds words (Node.Avoids words) (e.parse allowTrailing) (e.parse allowTrailing) s := by
  refine e.heeds.bind (fun _ hn => heeds_peek (.ite ?_ (fun _ => heeds_pure hn) fun _ => heeds_fail _ _)) fun n => ?_
  · rw [Token.isEnd_reserve]
  · refine .bind fun t => ?_
    split
    · exact ensures_pure id
    · exact fun s b s' h => absurd h fail_ne_ok

end Entry

end FrontEnd
