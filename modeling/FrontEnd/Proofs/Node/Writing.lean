import FrontEnd.Node.Source
import FrontEnd.Proofs.Grammar.Derivation
import FrontEnd.Proofs.Token.Layout
import Mathlib.Data.List.Forall2

/-!
# The source form of a derived tree

A tree forgets the signs it was read with, and its source form puts them back. `Spelled` says of a list of tokens that
pieces with these tokens, up to leading zeros, spell a text; it is built up by appending. `Written` says that the source
form of a tree is spelled by the tokens that derive it, and that the tokens of the source form derive the tree again,
wherever the form stands. One lemma for each rule of the grammar; **`Derives.written`** collects them.
-/

namespace FrontEnd

/-- The same kind and the same text, or for numerals the same value. -/
def Token.Echoes (t u : Token) : Prop :=
  t.kind = u.kind ∧ (t.kind ≠ .numeric → t.text = u.text) ∧ (t.kind = .numeric → t.value = u.value)

/-- What can stand behind a word or a numeral without continuing it. -/
def Apart (after : List Char) : Prop :=
  begins isWordPart after = false

theorem allBlank_nil : AllBlank [] := by simp [AllBlank]

theorem allBlank_space : AllBlank [' '] := by simp [AllBlank, isBlank, blanks]

theorem Apart.begins_digit {after : List Char} (h : Apart after) : begins isDigit after = false := by
  cases after with
  | nil => rfl
  | cons c cs =>
    have hc : isWordPart c = false := h
    have hd : isDigit c = false := by simp [isWordPart] at hc; exact hc.2
    exact hd

namespace Piece

variable {gap after : List Char} {ps : List Piece} {file : String} {m : Mark}

/-- The lexeme of a token behind a gap. -/
def behind (gap : List Char) (t : Token) : Piece :=
  ⟨gap, t.kind, t.text.toList, t.value⟩

/-- Pieces with a gap before the first of them. -/
def lead (gap : List Char) : List Piece → List Piece
  | [] => []
  | p :: ps => { p with gap := gap ++ p.gap } :: ps

theorem render_lead (h : ps ≠ []) : render (lead gap ps) after = gap ++ render ps after := by
  cases ps with
  | nil => exact absurd rfl h
  | cons p ps => simp [lead, render]

theorem tokens_lead (h : ps ≠ []) : tokens file m (lead gap ps) = tokens file (m.past gap) ps := by
  cases ps with
  | nil => exact absurd rfl h
  | cons p ps => simp [lead, tokens, token, mark, Mark.past_append]

theorem joins_lead {lx : Lexicon} (hg : AllBlank gap) (h : lx.Joins ps after) : lx.Joins (lead gap ps) after := by
  cases ps with
  | nil => trivial
  | cons p ps => exact ⟨fun c hc => (List.mem_append.1 hc).elim (hg c) (h.1 c), h.2⟩

theorem text_behind (t : Token) : ((behind gap t).token file m).text = t.text := by
  simp [behind, token]

end Piece

open Piece

/-! ## Spelling a text -/

/-- In front of what may follow, the pieces are lexemes that spell the text, and their tokens echo `ts`. -/
structure Spelled (lx : Lexicon) (follow : List Char → Prop) (ts : List Token) (text : List Char) (ps : List Piece) :
    Prop where
  render_eq : ∀ after, render ps after = text ++ after
  joins : ∀ {after}, follow after → lx.Joins ps after
  echoes : ∀ file m, ts.Forall₂ Token.Echoes (tokens file m ps)

namespace Spelled

variable {lx : Lexicon} {F G : List Char → Prop} {t : Token} {ts us : List Token} {a b gap : List Char}
  {ps qs : List Piece}

theorem append (h : Spelled lx F ts a ps) (h' : Spelled lx G us b qs) (hF : ∀ after, G after → F (b ++ after)) :
    Spelled lx G (ts ++ us) (a ++ b) (ps ++ qs) where
  render_eq after := by rw [render_append, h'.render_eq, h.render_eq, List.append_assoc]
  joins hafter := by
    rw [Lexicon.joins_append, h'.render_eq]
    exact ⟨h.joins (hF _ hafter), h'.joins hafter⟩
  echoes file m := by
    rw [tokens_append]
    exact List.rel_append (h.echoes _ _) (h'.echoes _ _)

theorem ne_nil (h : Spelled lx F ts a ps) (ht : ts ≠ []) : ps ≠ [] := by
  rintro rfl
  exact ht (List.forall₂_nil_right_iff.1 (h.echoes "" .start))

theorem lead (h : Spelled lx F ts a ps) (ht : ts ≠ []) (hg : AllBlank gap) :
    Spelled lx F ts (gap ++ a) (lead gap ps) where
  render_eq after := by rw [render_lead (h.ne_nil ht), h.render_eq, List.append_assoc]
  joins hafter := joins_lead hg (h.joins hafter)
  echoes file m := by
    rw [tokens_lead (h.ne_nil ht)]
    exact h.echoes _ _

theorem nil : Spelled lx F [] [] [] :=
  ⟨fun _ => rfl, fun _ => trivial, fun _ _ => .nil⟩

/-- A token as it is, behind a gap. -/
theorem behind (hg : AllBlank gap) (hl : ∀ {after}, F after → lx.Lexeme after t.kind t.text.toList t.value) :
    Spelled lx F [t] (gap ++ t.text.toList) [behind gap t] where
  render_eq after := by simp [render, Piece.behind]
  joins hafter := ⟨hg, hl hafter, trivial⟩
  echoes file m := .cons ⟨rfl, fun _ => (text_behind t).symm, fun _ => rfl⟩ .nil

theorem word (ha : lx.Accepts t) (hw : t.isWord = true) : Spelled lx Apart [t] t.text.toList [.behind [] t] := by
  obtain ⟨_, hl⟩ := ha
  have hk : t.kind = .symbol ∨ t.kind = .keyword := by simpa [Token.isWord] using hw
  show Spelled lx Apart [t] ([] ++ t.text.toList) [.behind [] t]
  refine behind allBlank_nil fun hafter => hl.move (fun _ => hafter) ?_ ?_ <;> rcases hk with hk | hk <;> simp [hk]

/-- A sign that takes no equals sign may stand before anything. -/
theorem sign {x : Char} (ha : lx.Accepts t) (hx : punctuation? x = some t.kind)
    (hk : t.kind ≠ .greater ∧ t.kind ≠ .less) (hg : AllBlank gap) : Spelled lx F [t] (gap ++ [x]) [.behind gap t] := by
  obtain ⟨_, hl⟩ := ha
  have hkind := kind_of_punctuation hx
  rw [← hl.of_sign hx]
  exact behind hg fun _ => hl.move (by simp_all) (by simp_all) (by simp [hk])

theorem arithmetic {op : String} (ha : lx.Accepts t) (hop : t.kind.arithmetic? = some op) (hg : AllBlank gap) :
    Spelled lx F [t] (gap ++ op.toList) [.behind gap t] := by
  obtain ⟨x, hx, hs, hk⟩ :
      ∃ x, punctuation? x = some t.kind ∧ op.toList = [x] ∧ t.kind ≠ .greater ∧ t.kind ≠ .less := by
    cases hk : t.kind <;> simp only [hk, Kind.arithmetic?, reduceCtorEq, Option.some.injEq] at hop <;> subst hop <;>
      exact ⟨_, rfl, rfl, by decide⟩
  rw [hs]
  exact sign ha hx hk hg

/-- A comparison sign must not meet an equals sign. -/
theorem comparison {op : String} (ha : lx.Accepts t) (hop : t.kind.comparison? = some op) (hg : AllBlank gap) :
    Spelled lx (begins (· == '=') · = false) [t] (gap ++ op.toList) [.behind gap t] := by
  obtain ⟨_, hl⟩ := ha
  have hkind : t.kind ∉ [.symbol, .keyword, .numeric] := by
    cases hk : t.kind <;> simp [hk, Kind.comparison?] at hop ⊢
  rw [← hl.of_comparison hop]
  exact behind hg fun hafter => hl.move (by simp_all) (by simp_all) fun _ => hafter

/-- A numeral loses its leading zeros. -/
theorem numeral {v : Int} (ha : lx.Accepts t) (hk : t.kind = .numeric) (hv : t.value = some v) :
    Spelled lx Apart [t] (Text.decimal v).toList [⟨[], .numeric, (Text.decimal v).toList, some v⟩] := by
  obtain ⟨_, hl⟩ := ha
  rw [hk] at hl
  obtain ⟨hval, hlimit⟩ := hl.of_numeric
  obtain rfl : v = (Text.decimalValue t.text.toList : Int) := by simpa [hv] using hval
  have hwr := hl.writable_of_numeric
  refine ⟨fun after => rfl, fun {after} hafter => ⟨allBlank_nil, .decimal hwr hlimit hafter.begins_digit, trivial⟩, ?_⟩
  exact fun file m => .cons ⟨hk, fun h => absurd hk h, fun _ => hv⟩ .nil

/-- A sign between spaces. -/
theorem between {op : List Char} (hx : Spelled lx Apart ts a ps) (ht : Spelled lx F [t] ([' '] ++ op) [.behind [' '] t])
    (hF : ∀ after, F ([' '] ++ after)) (hy : Spelled lx Apart us b qs) (hus : us ≠ []) :
    Spelled lx Apart (ts ++ t :: us) (a ++ ([' '] ++ op ++ ([' '] ++ b)))
      (ps ++ .behind [' '] t :: Piece.lead [' '] qs) :=
  hx.append (ht.append (hy.lead hus allBlank_space) fun _ _ => by rw [List.append_assoc]; exact hF _) fun _ _ => rfl

end Spelled

/-! ## Writing a tree -/

/-- The source form of `n` is spelled by the tokens `ts`, and its own tokens have the tree `n` as entry `e`. -/
def Written (lx : Lexicon) (e : Entry) (ts : List Token) (n : Node) : Prop :=
  ∃ s ps, n.source lx.maxDigits = .ok s ∧ Spelled lx Apart ts s.toList ps ∧ ∀ file m, Derives e (tokens file m ps) n

namespace Written

variable {lx : Lexicon} {e e' : Entry} {t u : Token} {ts us : List Token} {n x y : Node} {op : String}
  {sp : Option Span}

theorem imp (h : Written lx e ts n) (hd : ∀ {vs}, Derives e vs n → Derives e' vs n) : Written lx e' ts n := by
  obtain ⟨s, ps, hs, hp, hd'⟩ := h
  exact ⟨s, ps, hs, hp, fun file m => hd (hd' file m)⟩

theorem symbol (ha : lx.Accepts t) (hk : t.kind = .symbol) : Written lx .symbol [t] (.symbol t.text sp) := by
  refine ⟨t.text, _, rfl, .word ha (by simp [Token.isWord, hk]), fun file m => ?_⟩
  rw [← text_behind t]
  exact .symbol hk

theorem literal_symbol (ha : lx.Accepts t) (hk : t.kind = .symbol) (ht : truthValue? t.text = none) :
    Written lx .literal [t] (.symbol t.text sp) := by
  refine ⟨t.text, _, rfl, .word ha (by simp [Token.isWord, hk]), fun file m => ?_⟩
  rw [← text_behind t] at ht ⊢
  exact .literalSymbol (.symbol hk) ht

theorem numeral {v : Int} (ha : lx.Accepts t) (hk : t.kind = .numeric) (hv : t.value = some v) :
    Written lx .numeral [t] (.numeral v sp) := by
  refine ⟨_, _, ?_, .numeral ha hk hv, fun _ _ => .numeral rfl rfl⟩
  obtain ⟨_, hl⟩ := ha
  rw [hk] at hl
  exact shownInteger_of_fits (hl.fits_of_numeric v hv)

/-- The word for a truth value. -/
theorem truthValue?_eq_some {w : String} {b : Bool} (h : truthValue? w = some b) :
    w = if b then "true" else "false" := by
  unfold truthValue? at h
  grind

theorem truth {b : Bool} (ha : lx.Accepts t) (hw : t.isWord = true) (hb : truthValue? t.text = some b) :
    Written lx .truth [t] (.truth b sp) := by
  refine ⟨t.text, _, ?_, .word ha hw, fun file m => .truth hw (by rw [text_behind]; exact hb)⟩
  rw [Node.source, truthValue?_eq_some hb]

/-- A sign between two trees. -/
theorem between {F : List Char → Prop} (hx : Written lx e ts x) (hy : Written lx e' us y) (hus : us ≠ [])
    (ht : Spelled lx F [t] ([' '] ++ op.toList) [.behind [' '] t]) (hF : ∀ after, F ([' '] ++ after))
    (hs : ∀ {a b}, x.source lx.maxDigits = .ok a → y.source lx.maxDigits = .ok b →
      n.source lx.maxDigits = .ok (a ++ " " ++ op ++ " " ++ b)) {e'' : Entry}
    (hd : ∀ {vs ws t'}, Derives e vs x → t'.kind = t.kind → Derives e' ws y → Derives e'' (vs ++ t' :: ws) n) :
    Written lx e'' (ts ++ t :: us) n := by
  obtain ⟨a, ps, hxs, hxp, hxd⟩ := hx
  obtain ⟨b, qs, hys, hyp, hyd⟩ := hy
  refine ⟨_, ps ++ behind [' '] t :: lead [' '] qs, hs hxs hys, ?_, fun file m => ?_⟩
  · simpa using hxp.between ht hF hyp hus
  · rw [tokens_append, tokens, tokens_lead (hyp.ne_nil hus)]
    exact hd (hxd _ _) rfl (hyd _ _)

theorem comparison (hx : Written lx .numeral ts x) (ha : lx.Accepts t) (hop : t.kind.comparison? = some op)
    (hy : Written lx .numeral us y) (hus : us ≠ []) :
    Written lx .comparison (ts ++ t :: us) (.comparison x op y sp) := by
  refine hx.between hy hus (.comparison ha hop allBlank_space) (fun _ => rfl) ?_ ?_
  · intro a b hxs hys
    rw [Node.source, hxs, hys]
    rfl
  · intro vs ws t' hx hk hy
    exact .comparison hx (by rw [hk, hop]) hy

theorem binary (hx : Written lx .literal ts x) (ha : lx.Accepts t) (hop : t.kind.arithmetic? = some op)
    (hy : Written lx .expression us y) (hus : us ≠ []) : Written lx .binary (ts ++ t :: us) (.binary x op y sp) := by
  refine hx.between (F := fun _ => True) hy hus (.arithmetic ha hop allBlank_space) (fun _ => trivial) ?_ ?_
  · intro a b hxs hys
    rw [Node.source, hxs, hys]
    rfl
  · intro vs ws t' hx hk hy
    exact .binary hx (by rw [hk, hop]) hy

theorem minus (ha : lx.Accepts t) (hk : t.kind = .minus) (hx : Written lx .literal ts x) :
    Written lx .unary (t :: ts) (.unary "-" x sp) := by
  obtain ⟨a, ps, hxs, hxp, hxd⟩ := hx
  have ht : Spelled lx (fun _ => True) [t] ([] ++ ['-']) [.behind [] t] :=
    .sign ha (by rw [hk]; rfl) (by simp [hk]) allBlank_nil
  refine ⟨"-" ++ a, behind [] t :: ps, ?_, ?_, fun file m => ?_⟩
  · rw [Node.source, hxs]
    rfl
  · simpa using ht.append hxp fun _ _ => trivial
  · exact .minus hk (hxd _ _)

/-- The two signs are written without a gap, so they touch. -/
theorem doubled {c : Char} (ha : lx.Accepts t) (hb : lx.Accepts u) (hk : punctuation? c = some t.kind)
    (hk' : u.kind = t.kind) (hcmp : t.kind ≠ .greater ∧ t.kind ≠ .less) (hx : Written lx .literal ts x)
    (hop : op = String.ofList [c, c])
    (hd : ∀ {vs t' u'}, t'.kind = t.kind → u'.kind = t.kind → u'.start = t'.stop → Derives .literal vs x →
      Derives .unary (t' :: u' :: vs) (.unary op x sp)) : Written lx .unary (t :: u :: ts) (.unary op x sp) := by
  obtain ⟨a, ps, hxs, hxp, hxd⟩ := hx
  have ht : Spelled lx (fun _ => True) [t] ([] ++ [c]) [.behind [] t] := .sign ha hk hcmp allBlank_nil
  have hu : Spelled lx (fun _ => True) [u] ([] ++ [c]) [.behind [] u] :=
    .sign hb (by rw [hk', hk]) (by rw [hk']; exact hcmp) allBlank_nil
  refine ⟨op ++ a, behind [] t :: behind [] u :: ps, ?_, ?_, fun file m => ?_⟩
  · rw [Node.source, hxs]
    rfl
  · simpa [hop] using ht.append (hu.append hxp fun _ _ => trivial) fun _ _ => trivial
  · exact hd rfl hk' rfl (hxd _ _)

theorem minusMinus (ha : lx.Accepts t) (hb : lx.Accepts u) (hk : t.kind = .minus) (hk' : u.kind = .minus)
    (hx : Written lx .literal ts x) : Written lx .unary (t :: u :: ts) (.unary "--" x sp) := by
  refine doubled ha hb (c := '-') (by rw [hk]; rfl) (by rw [hk, hk']) (by simp [hk]) hx rfl ?_
  intro vs t' u' ht hu
  exact .minusMinus (ht.trans hk) (hu.trans hk)

theorem plusPlus (ha : lx.Accepts t) (hb : lx.Accepts u) (hk : t.kind = .plus) (hk' : u.kind = .plus)
    (hx : Written lx .literal ts x) : Written lx .unary (t :: u :: ts) (.unary "++" x sp) := by
  refine doubled ha hb (c := '+') (by rw [hk]; rfl) (by rw [hk, hk']) (by simp [hk]) hx rfl ?_
  intro vs t' u' ht hu
  exact .plusPlus (ht.trans hk) (hu.trans hk)

/-! ## Statements and programs -/

variable {c q d : Token} {i : Node}

theorem declaration (hi : Written lx .symbol ts i) (hca : lx.Accepts c) (hqa : lx.Accepts q) (hc : c.kind = .colon)
    (hq : q.kind = .equals) (hx : Written lx .expression us x) (hus : us ≠ []) (hda : lx.Accepts d)
    (hd : d.kind = .dot) : Written lx .declaration (ts ++ c :: q :: (us ++ [d])) (.declaration i x sp) := by
  obtain ⟨a, ps, his, hip, hid⟩ := hi
  obtain ⟨b, qs, hxs, hxp, hxd⟩ := hx
  have sc : Spelled lx (fun _ => True) [c] ([' '] ++ [':']) [.behind [' '] c] :=
    .sign hca (by rw [hc]; rfl) (by simp [hc]) allBlank_space
  have sq : Spelled lx (fun _ => True) [q] ([] ++ ['=']) [.behind [] q] :=
    .sign hqa (by rw [hq]; rfl) (by simp [hq]) allBlank_nil
  have sd : Spelled lx Apart [d] ([] ++ ['.']) [.behind [] d] :=
    .sign hda (by rw [hd]; rfl) (by simp [hd]) allBlank_nil
  refine ⟨a ++ " := " ++ b ++ ".", ps ++ behind [' '] c :: behind [] q :: (lead [' '] qs ++ [behind [] d]), ?_, ?_,
    fun file m => ?_⟩
  · rw [Node.source, his, hxs]
    rfl
  · have hend := (hxp.lead hus allBlank_space).append sd fun _ _ => rfl
    simpa using hip.append (sc.append (sq.append hend fun _ _ => trivial) fun _ _ => trivial) fun _ _ => rfl
  · rw [tokens_append, tokens, tokens, tokens_append, tokens_lead (hxp.ne_nil hus)]
    exact .declaration (hid _ _) hc hq (hxd _ _) hd

theorem assignment (hi : Written lx .symbol ts i) (hqa : lx.Accepts q) (hq : q.kind = .equals)
    (hx : Written lx .expression us x) (hus : us ≠ []) (hda : lx.Accepts d) (hd : d.kind = .dot) :
    Written lx .assignment (ts ++ q :: (us ++ [d])) (.assignment i x sp) := by
  obtain ⟨a, ps, his, hip, hid⟩ := hi
  obtain ⟨b, qs, hxs, hxp, hxd⟩ := hx
  have sq : Spelled lx (fun _ => True) [q] ([' '] ++ ['=']) [.behind [' '] q] :=
    .sign hqa (by rw [hq]; rfl) (by simp [hq]) allBlank_space
  have sd : Spelled lx Apart [d] ([] ++ ['.']) [.behind [] d] :=
    .sign hda (by rw [hd]; rfl) (by simp [hd]) allBlank_nil
  refine ⟨a ++ " = " ++ b ++ ".", ps ++ behind [' '] q :: (lead [' '] qs ++ [behind [] d]), ?_, ?_, fun file m => ?_⟩
  · rw [Node.source, his, hxs]
    rfl
  · have hend := (hxp.lead hus allBlank_space).append sd fun _ _ => rfl
    simpa using hip.append (sq.append hend fun _ _ => trivial) fun _ _ => rfl
  · rw [tokens_append, tokens, tokens_append, tokens_lead (hxp.ne_nil hus)]
    exact .assignment (hid _ _) hq (hxd _ _) hd

theorem pragma {b name l r b' : Token} (ha : ∀ t ∈ [b, name, l, r, b'], lx.Accepts t) (hb : b.kind = .backtick)
    (hn : name.kind = .symbol) (hl : l.kind = .bracketLeft) (hx : Written lx .numeral ts x)
    (hr : r.kind = .bracketRight) (hb' : b'.kind = .backtick) :
    Written lx .pragma (b :: name :: l :: (ts ++ [r, b'])) (.pragma name.text x sp) := by
  obtain ⟨a, ps, hxs, hxp, hxd⟩ := hx
  have sb : Spelled lx (fun _ => True) [b] ([] ++ ['`']) [.behind [] b] :=
    .sign (ha b (by simp)) (by rw [hb]; rfl) (by simp [hb]) allBlank_nil
  have sn : Spelled lx Apart [name] name.text.toList [.behind [] name] :=
    .word (ha name (by simp)) (by simp [Token.isWord, hn])
  have sl : Spelled lx (fun _ => True) [l] ([] ++ ['[']) [.behind [] l] :=
    .sign (ha l (by simp)) (by rw [hl]; rfl) (by simp [hl]) allBlank_nil
  have sr : Spelled lx (fun _ => True) [r] ([] ++ [']']) [.behind [] r] :=
    .sign (ha r (by simp)) (by rw [hr]; rfl) (by simp [hr]) allBlank_nil
  have sb' : Spelled lx Apart [b'] ([] ++ ['`']) [.behind [] b'] :=
    .sign (ha b' (by simp)) (by rw [hb']; rfl) (by simp [hb']) allBlank_nil
  refine ⟨"`" ++ name.text ++ "[" ++ a ++ "]`",
    behind [] b :: behind [] name :: behind [] l :: (ps ++ [behind [] r, behind [] b']), ?_, ?_, fun file m => ?_⟩
  · rw [Node.source, hxs]
    rfl
  · have hend := hxp.append (sr.append sb' fun _ _ => trivial) fun _ _ => rfl
    simpa using sb.append (sn.append (sl.append hend fun _ _ => trivial) fun _ _ => rfl) fun _ _ => trivial
  · rw [tokens, tokens, tokens, tokens_append, ← text_behind name]
    exact .pragma hb hn hl (hxd _ _) hr hb'

theorem block_nil : Written lx .block [] (.block [] sp) :=
  ⟨"", [], rfl, .nil, fun _ _ => .blockNil⟩

theorem block_one (hx : Written lx .statement ts x) : Written lx .block ts (.block [x] sp) := by
  obtain ⟨a, ps, has, hap, had⟩ := hx
  refine ⟨a, ps, ?_, hap, fun file m => ?_⟩
  · have hlines : Node.sources [x] lx.maxDigits = .ok [a] := Node.sources_cons_eq_ok.2 ⟨a, [], has, rfl, rfl⟩
    exact Node.source_block_eq_ok.2 ⟨[a], hlines, String.intercalate_singleton⟩
  · simpa using (had file m).blockCons (Derives.blockNil : Derives .block [] (.block [] none))

/-- One statement a line. -/
theorem block_cons {xs : List Node} {sp' : Option Span} (hx : Written lx .statement ts x)
    (hxs : Written lx .block us (.block (y :: xs) sp)) (hus : us ≠ []) :
    Written lx .block (ts ++ us) (.block (x :: y :: xs) sp') := by
  obtain ⟨a, ps, has, hap, had⟩ := hx
  obtain ⟨b, qs, hbs, hbp, hbd⟩ := hxs
  refine ⟨a ++ "\n" ++ b, ps ++ lead ['\n'] qs, ?_, ?_, fun file m => ?_⟩
  · obtain ⟨lines, hlines, rfl⟩ := Node.source_block_eq_ok.1 hbs
    refine Node.source_block_eq_ok.2 ⟨a :: lines, Node.sources_cons_eq_ok.2 ⟨a, lines, has, hlines, rfl⟩, ?_⟩
    obtain ⟨l, rest, _, _, rfl⟩ := Node.sources_cons_eq_ok.1 hlines
    exact String.intercalate_cons_cons
  · have hline : AllBlank ['\n'] := by simp [AllBlank, isBlank, blanks]
    simpa using hap.append (hbp.lead hus hline) fun _ _ => rfl
  · rw [tokens_append, tokens_lead (hbp.ne_nil hus)]
    exact .blockCons (had _ _) (hbd _ _)

theorem program (hx : Written lx .block ts x) : Written lx .program ts (.program x sp) := by
  obtain ⟨a, ps, has, hap, had⟩ := hx
  exact ⟨a, ps, by simpa [Node.source] using has, hap, fun file m => .program (had file m)⟩

end Written

/-- **A derived tree is written as it was read**: its source form has the tokens that derive it, up to leading zeros,
and these derive the tree again. -/
theorem Derives.written {lx : Lexicon} {e : Entry} {ts : List Token} {n : Node} (h : Derives e ts n)
    (ha : ∀ t ∈ ts, lx.Accepts t) : Written lx e ts n := by
  induction h with
  | symbol hk => exact .symbol (ha _ (by simp)) hk
  | numeral hk hv => exact .numeral (ha _ (by simp)) hk hv
  | truth hw hb => exact .truth (ha _ (by simp)) hw hb
  | literalNumeral _ ih => exact (ih ha).imp .literalNumeral
  | literalTruth _ ih => exact (ih ha).imp .literalTruth
  | literalSymbol hd ht =>
    cases hd with
    | symbol hk => exact .literal_symbol (ha _ (by simp)) hk ht
  | minus hk _ ih => exact .minus (ha _ (by simp)) hk (ih fun t ht => ha t (by simp [ht]))
  | minusMinus hk hk' _ _ ih =>
    exact .minusMinus (ha _ (by simp)) (ha _ (by simp)) hk hk' (ih fun t ht => ha t (by simp [ht]))
  | plusPlus hk hk' _ _ ih =>
    exact .plusPlus (ha _ (by simp)) (ha _ (by simp)) hk hk' (ih fun t ht => ha t (by simp [ht]))
  | comparisonNumeral _ ih => exact (ih ha).imp .comparisonNumeral
  | comparison _ hop hy ihx ihy =>
    exact .comparison (ihx fun t ht => ha t (by simp [ht])) (ha _ (by simp)) hop (ihy fun t ht => ha t (by simp [ht]))
      (hy.ne_nil nofun nofun)
  | binaryLiteral _ ih => exact (ih ha).imp .binaryLiteral
  | binary _ hop hy ihx ihy =>
    exact .binary (ihx fun t ht => ha t (by simp [ht])) (ha _ (by simp)) hop (ihy fun t ht => ha t (by simp [ht]))
      (hy.ne_nil nofun nofun)
  | expressionUnary _ ih => exact (ih ha).imp .expressionUnary
  | expressionComparison _ ih => exact (ih ha).imp .expressionComparison
  | expressionBinary _ ih => exact (ih ha).imp .expressionBinary
  | declaration _ hc hq hx hd ihi ihx =>
    exact .declaration (ihi fun t ht => ha t (by simp [ht])) (ha _ (by simp)) (ha _ (by simp)) hc hq
      (ihx fun t ht => ha t (by simp [ht])) (hx.ne_nil nofun nofun) (ha _ (by simp)) hd
  | assignment _ hq hx hd ihi ihx =>
    exact .assignment (ihi fun t ht => ha t (by simp [ht])) (ha _ (by simp)) hq
      (ihx fun t ht => ha t (by simp [ht])) (hx.ne_nil nofun nofun) (ha _ (by simp)) hd
  | pragma hb hn hl _ hr hb' ih =>
    exact .pragma (fun t ht => ha t (by simp at ht ⊢; grind)) hb hn hl (ih fun t ht => ha t (by simp [ht])) hr hb'
  | statementDeclaration _ ih => exact (ih ha).imp .statementDeclaration
  | statementAssignment _ ih => exact (ih ha).imp .statementAssignment
  | blockNil => exact .block_nil
  | blockCons _ hxs ihx ihxs =>
    have wx := ihx fun t ht => ha t (by simp [ht])
    cases hxs with
    | blockNil => simpa using wx.block_one
    | blockCons hy hys =>
      refine wx.block_cons (ihxs fun t ht => ha t (List.mem_append_right _ ht)) ?_
      simp [hy.ne_nil nofun nofun]
  | program _ ih => exact (ih ha).program

end FrontEnd
