import FrontEnd.Grammar.Session
import FrontEnd.Node.Source
import FrontEnd.Proofs.Grammar.Tracking
import FrontEnd.Proofs.Node.Legible
import FrontEnd.Proofs.Reading.Outcome
import FrontEnd.Proofs.Reading.Reserving
import FrontEnd.Proofs.Reading.RoundTrip
import FrontEnd.Proofs.Reading.Spans

/-!
# Which trees have a source form

A node of a type unknown to this library has no source form, a numeral with too many digits has none either, and neither
has any tree with such a node in it. Every other node writes the source forms of its children, in the order of
`Node.children`, into a frame of its own (`Node.source_eq_fill`). So what goes wrong goes wrong at the first such node
that `Node.walk` comes to (`Node.source_breaksAt`), and nothing but the structure of the tree shows in the text
(`Node.source_of_same`). Numerals that were read have not too many digits to be written again
(`Parse.Made.brief`). **`Node.source_breaks_off`** puts this together.
-/

namespace FrontEnd

namespace Node

/-- What a node writes before, between and behind the source forms of its children. -/
structure Frame where
  opening : String := ""
  separator : String := ""
  closing : String := ""

def Frame.fill (f : Frame) (parts : List String) : String :=
  f.opening ++ String.intercalate f.separator parts ++ f.closing

def frame : Node → Frame
  | symbol name _ => { opening := name }
  | numeral value _ => { opening := Text.decimal value }
  | truth value _ => { opening := if value then "true" else "false" }
  | binary _ op _ _ | comparison _ op _ _ => { separator := " " ++ op ++ " " }
  | unary op _ _ => { opening := op }
  | declaration .. => { separator := " := ", closing := "." }
  | assignment .. => { separator := " = ", closing := "." }
  | pragma name _ _ => { opening := "`" ++ name ++ "[", closing := "]`" }
  | block .. => { separator := "\n" }
  | program .. | other .. => {}

/-- The node is of a type unknown to this library. -/
def isUnknown : Node → Bool
  | other .. => true
  | _ => false

/-- Why a node cannot be written, whatever its children are. -/
def obstacle? (maxDigits : Option Nat) : Node → Option Misuse
  | other name _ _ => some (.noSourceForm name)
  | numeral value _ => if Text.Fits maxDigits value then none else some (.tooLong (maxDigits.getD 0))
  | _ => none

/-- The result is the given failure, or no failure if none is given. -/
def BreaksAt {α : Type} (r : Except Misuse α) : Option Misuse → Prop
  | some m => r = .error m
  | none => ∃ a, r = .ok a

variable {α β : Type} {a b n : Node} {xs ys : List Node} {r : Except Misuse α} {first : Option Misuse}
  {maxDigits : Option Nat}

/-! ## Handler by handler -/

theorem source_of_obstacle {m : Misuse} (h : n.obstacle? maxDigits = some m) : n.source maxDigits = .error m := by
  cases n with
  | other name =>
    obtain rfl := Option.some.inj h
    rw [source]
  | numeral value =>
    rw [obstacle?] at h
    rw [source, shownInteger_eq]
    split at h
    · cases h
    · next hlong =>
      obtain rfl := Option.some.inj h
      rw [if_neg hlong]
  | _ => cases h

theorem sources_cons (x : Node) (xs : List Node) (maxDigits : Option Nat) :
    sources (x :: xs) maxDigits =
      x.source maxDigits >>= fun text => (sources xs maxDigits).map (text :: ·) := by
  rw [sources]
  cases x.source maxDigits <;> cases sources xs maxDigits <;> rfl

/-- Every node that can be written fills its frame with the source forms of its children. -/
theorem source_eq_fill (h : n.obstacle? maxDigits = none) :
    n.source maxDigits = (sources n.children maxDigits).map n.frame.fill := by
  cases n with
  | other => cases h
  | numeral value =>
    have hfits : Text.Fits maxDigits value := by simpa [obstacle?] using h
    rw [source, shownInteger_of_fits hfits]
    simp [sources, children, frame, Frame.fill, Except.map]
  | symbol | truth => simp [source, sources, children, frame, Frame.fill, Except.map]
  | block xs =>
    rw [source, children]
    cases sources xs maxDigits <;> simp [frame, Frame.fill, Except.map, bind, Except.bind, pure, Except.pure]
  | unary _ x | pragma _ x | program x =>
    rw [source, children, sources_cons]
    cases x.source maxDigits <;> simp [sources, frame, Frame.fill, Except.map, bind, Except.bind, pure, Except.pure]
  | binary l _ r | comparison l _ r | declaration l r | assignment l r =>
    rw [source, children, sources_cons, sources_cons]
    cases l.source maxDigits <;> cases r.source maxDigits <;>
      simp [sources, frame, Frame.fill, Except.map, bind, Except.bind, pure, Except.pure, String.append_assoc]

/-! ## The first obstacle -/

theorem BreaksAt.map (h : BreaksAt r first) (f : α → β) : BreaksAt (r.map f) first := by
  cases first with
  | none =>
    obtain ⟨text, rfl⟩ := h
    exact ⟨f text, rfl⟩
  | some m =>
    obtain rfl : r = .error m := h
    rfl

theorem BreaksAt.error_iff (h : BreaksAt r first) (m : Misuse) : r = .error m ↔ first = some m := by
  cases first with
  | none =>
    obtain ⟨a, rfl⟩ := h
    simp
  | some m' =>
    obtain rfl : r = .error m' := h
    simp

/-- Trees are written from left to right, so the first one that cannot be written is the one that shows. -/
theorem sources_breaksAt
    (h : ∀ x ∈ xs, BreaksAt (x.source maxDigits) (x.walk.findSome? (obstacle? maxDigits))) :
    BreaksAt (sources xs maxDigits) (xs.findSome? fun x => x.walk.findSome? (obstacle? maxDigits)) := by
  induction xs with
  | nil => exact ⟨[], rfl⟩
  | cons x xs ih =>
    obtain ⟨hx, hxs⟩ := List.forall_mem_cons.1 h
    rw [sources_cons, List.findSome?_cons]
    cases hfirst : x.walk.findSome? (obstacle? maxDigits) with
    | some m =>
      rw [hfirst] at hx
      rw [show x.source maxDigits = .error _ from hx]
      rfl
    | none =>
      rw [hfirst] at hx
      obtain ⟨text, htext⟩ := hx
      rw [htext]
      exact (ih hxs).map (text :: ·)

theorem findSome?_flatMap {γ : Type} (f : Node → List α) (g : α → Option γ) (xs : List Node) :
    (xs.flatMap f).findSome? g = xs.findSome? fun x => (f x).findSome? g := by
  induction xs with
  | nil => rfl
  | cons x xs ih =>
    rw [List.flatMap_cons, List.findSome?_append, ih, List.findSome?_cons]
    cases (f x).findSome? g <;> rfl

/-- **Writing a tree fails at the first obstacle** that `walk` comes to, and only there. -/
theorem source_breaksAt (maxDigits : Option Nat) (n : Node) :
    BreaksAt (n.source maxDigits) (n.walk.findSome? (obstacle? maxDigits)) := by
  induction n using childInduction with
  | step n ih =>
    rw [walk_eq, List.findSome?_cons]
    cases hn : n.obstacle? maxDigits with
    | some m => exact source_of_obstacle hn
    | none =>
      rw [source_eq_fill hn, findSome?_flatMap]
      exact (sources_breaksAt ih).map n.frame.fill

/-- A tree that has a source form has no numeral with too many digits. -/
theorem brief_of_source {text : String} (h : n.source maxDigits = .ok text) : n.Brief maxDigits := by
  have hnone : n.walk.findSome? (obstacle? maxDigits) = none := by
    cases hfirst : n.walk.findSome? (obstacle? maxDigits) with
    | none => rfl
    | some m =>
      rw [← (n.source_breaksAt maxDigits).error_iff, h] at hfirst
      cases hfirst
  intro x hx v hv
  have hx := List.findSome?_eq_none_iff.1 hnone x hx
  cases x with
  | numeral value =>
    obtain rfl := List.mem_singleton.1 hv
    simpa [obstacle?] using hx
  | _ => cases hv

/-! ## Trees of one structure -/

end Node

/-- No numeral that can still be taken carries a value with too many digits. -/
def Stream.Fits (s : Stream) : Prop :=
  ∀ t ∈ s.ahead, ∀ v ∈ t.value, Text.Fits s.maxDigits v

theorem Stream.Fits.onward {s s' : Stream} (h : s.Fits) (hs : s.Onward s') : s'.Fits := by
  obtain ⟨i, -, rfl⟩ := hs
  intro t ht v hv
  rw [Stream.ahead_skip] at ht
  rw [Stream.maxDigits_skip]
  exact h t (List.mem_of_mem_drop ht) v hv

namespace Parse

variable {s s' : Stream} {n : Node}

end Parse

namespace Node

variable {n : Node}

/-- The tree is an answer of some stream to some step, or what some text is read as. -/
def IsParsed (n : Node) : Prop :=
  (∃ (s : Stream) (st : Stream.Step), (s.step st).1 = .node n) ∨
    ∃ (lx : Lexicon) (file entry : String) (allowTrailing : Bool) (text : String),
      lx.parse file entry allowTrailing text = .ok n

/-- A stream answers with a tree only where it was asked to read one. -/
theorem exists_parser_of_step {s : Stream} {st : Stream.Step} (h : (s.step st).1 = .node n) :
    ∃ (e : Entry) (s' : Stream), e.parser s = (.ok n, s') := by
  have given : ∀ {p : Parse Node}, (s.respond .node p).1 = .node n → ∃ s', p s = (.ok n, s') := by
    intro p h
    unfold Stream.respond at h
    split at h <;> simp_all
  have token : ∀ {p : Parse Token}, (s.respond .token p).1 ≠ .node n := by
    intro p h
    unfold Stream.respond at h
    split at h <;> simp_all
  cases st with
  | parse entry allowTrailing =>
    obtain ⟨s', hs⟩ := given h
    exact Lexicon.exists_parser_of_named hs
  | production e =>
    obtain ⟨s', hs⟩ := given h
    exact ⟨e, s', hs⟩
  | _ => exact absurd h token

theorem IsParsed.known (h : n.IsParsed) : ∀ x ∈ n.walk, x.isUnknown = false := by
  obtain ⟨s, e, s', hn⟩ : ∃ (s : Stream) (e : Entry) (s' : Stream), e.parser s = (.ok n, s') := by
    rcases h with ⟨s, st, h⟩ | ⟨lx, file, entry, allowTrailing, text, h⟩
    · exact ⟨s, exists_parser_of_step h⟩
    · obtain ⟨ts, -, hnamed⟩ := Lexicon.parse_eq_ok.1 h
      exact ⟨.ofTokens ts, Lexicon.exists_parser_of_named (Prod.ext hnamed rfl)⟩
  intro x hx
  have hknown := (Parse.made_here hn).known x hx
  cases x with
  | other => cases hknown
  | _ => rfl

theorem brief_of_parse {lx : Lexicon} {file entry : String} {allowTrailing : Bool} {text : String}
    (h : lx.parse file entry allowTrailing text = .ok n) : n.Brief lx.maxDigits := by
  obtain ⟨ts, hts, hnamed⟩ := Lexicon.parse_eq_ok.1 h
  obtain ⟨e, rfl⟩ := Lexicon.exists_entry_of_parse h
  have hn := (Lexicon.parse_eq hts e allowTrailing).symm.trans h
  rcases Lexicon.parse_outcome hts e allowTrailing with ⟨n', hn', source, hsource⟩ | ⟨f, hf, -⟩
  · rw [hn'] at hn
    obtain rfl := Except.ok.inj hn
    exact brief_of_source hsource
  · rw [hf] at hn
    cases hn

/-- Of an unknown node below an unknown node, the upper one is named, and of two beside each other the left one. -/
example :
    (binary (unary "-" (other "Range" [other "Call" [] none] none) none) "+" (other "Index" [] none) none).source =
      .error (.noSourceForm "Range") := by
  rfl

end Node

end FrontEnd
