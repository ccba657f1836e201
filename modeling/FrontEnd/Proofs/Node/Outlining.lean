import FrontEnd.Node.Outline
import FrontEnd.Proofs.Text.Integer
import Mathlib.Data.List.Basic

/-!
# What a printer writes

A printer writes the nodes of a tree in the order in which `walk` comes to them, one line each, and returns to the
depth it had. It fails just if it has to show an integer with too many digits (`Outline.Printer.visit_writes`). Since it
starts every tree with no lines and at depth zero, what it has written before does not show, and neither does where it
failed before (**`Outline.Printer.renderAll_eq_walk`**).
-/

namespace FrontEnd

/-- The range of offsets, in digits. -/
def Span.text (s : Span) : String :=
  Text.decimal s.start ++ ".." ++ Text.decimal s.stop

namespace Outline

/-- The integers can be written out. -/
def Style.CanShow (style : Style) (vs : List Int) : Prop :=
  ∀ v ∈ vs, Text.Fits style.maxDigits v

instance (style : Style) (vs : List Int) : Decidable (style.CanShow vs) :=
  inferInstanceAs (Decidable (∀ v ∈ vs, Text.Fits style.maxDigits v))

theorem Style.canShow_append {style : Style} {vs ws : List Int} :
    style.CanShow (vs ++ ws) ↔ style.CanShow vs ∧ style.CanShow ws :=
  List.forall_mem_append

end Outline

namespace Node

/-- What a node holds beside its children; empty if there is nothing to show. -/
def detail : Node → String
  | symbol name _ => name
  | numeral value _ => Text.decimal value
  | truth value _ => if value then "true" else "false"
  | binary _ op _ _ | comparison _ op _ _ | unary op _ _ => Text.quoted op
  | pragma name _ _ => name
  | _ => ""

/-- The line of a node that stands at the given depth. -/
def outlineLine (style : Outline.Style) (depth : Nat) (n : Node) : String :=
  String.join (List.replicate depth style.indent) ++ n.typeName ++
    (if n.detail = "" then "" else " " ++ n.detail) ++
    (match style.span? n with
      | some s => " @" ++ s.text
      | none => "")

/-- The value of a numeral. -/
def values : Node → List Int
  | numeral value _ => [value]
  | _ => []

/-- The ends of the span that is shown. -/
def places (style : Outline.Style) (n : Node) : List Int :=
  match style.span? n with
  | some s => [s.start, s.stop]
  | none => []

/-- The integers that are shown of the node itself. -/
def shown (style : Outline.Style) (n : Node) : List Int :=
  n.values ++ n.places style

/-- All integers that are shown of the tree can be written out. -/
def Shows (style : Outline.Style) (n : Node) : Prop :=
  style.CanShow (n.walk.flatMap (shown style))

instance (style : Outline.Style) (n : Node) : Decidable (n.Shows style) :=
  inferInstanceAs (Decidable (style.CanShow _))

theorem shows_of_none {style : Outline.Style} (h : style.maxDigits = none) (n : Node) : n.Shows style :=
  fun v _ => h ▸ Text.fits_none v

/-- No numeral of the tree has too many digits. -/
def Brief (maxDigits : Option Nat) (n : Node) : Prop :=
  ∀ x ∈ n.walk, ∀ v ∈ x.values, Text.Fits maxDigits v

/-- The nodes that `walk` comes to, each with its depth, if the tree stands at the given one. -/
def descent (depth : Nat) (n : Node) : List (Nat × Node) :=
  (depth, n) :: n.children.attach.flatMap fun ⟨c, h⟩ =>
    have := sizeOf_lt_of_mem_children h
    descent (depth + 1) c
termination_by n

theorem descent_eq (depth : Nat) (n : Node) :
    n.descent depth = (depth, n) :: n.children.flatMap (descent (depth + 1)) := by
  rw [descent]
  simp

/-- The lines of a tree that stands at the given depth. -/
def outlineLines (style : Outline.Style) (depth : Nat) (n : Node) : List String :=
  (n.descent depth).map fun x => x.2.outlineLine style x.1

theorem outlineLines_eq (style : Outline.Style) (depth : Nat) (n : Node) :
    n.outlineLines style depth =
      n.outlineLine style depth :: n.children.flatMap (outlineLines style (depth + 1)) := by
  rw [outlineLines, descent_eq, List.map_cons, List.map_flatMap]
  rfl

end Node

namespace Outline.Printer

variable {p p' : Printer} {α β : Type} {a b : Printing Unit} {vs ws : List Int} {ls ms : List String} {m : Misuse}

/-- The printer after it has written some more lines. -/
def wrote (p : Printer) (lines : List String) : Printer :=
  { p with lines := lines.reverse ++ p.lines }

theorem wrote_wrote (p : Printer) (ls ms : List String) : (p.wrote ls).wrote ms = p.wrote (ls ++ ms) := by
  simp [wrote]

theorem run_bind_of_ok {x : Printing α} {f : α → Printing β} {r : α} (h : x.run p = (.ok r, p')) :
    (x >>= f).run p = (f r).run p' := by
  show (ExceptT.bindCont f (x.run p).1) (x.run p).2 = _
  rw [h]
  rfl

theorem run_bind_of_error {x : Printing α} {f : α → Printing β} (h : x.run p = (.error m, p')) :
    (x >>= f).run p = (.error m, p') := by
  show (ExceptT.bindCont f (x.run p).1) (x.run p).2 = _
  rw [h]
  rfl

/-! ## Writing lines -/

/-- From the printer `p` on, `a` shows the integers `vs` and writes the lines `ls`, or fails if one of the integers has
too many digits. -/
structure Writes (p : Printer) (a : Printing Unit) (vs : List Int) (ls : List String) : Prop where
  ok : p.style.CanShow vs → a.run p = (.ok (), p.wrote ls)
  error : ¬ p.style.CanShow vs →
    ∃ p', a.run p = (.error (.tooLong (p.style.maxDigits.getD 0)), p') ∧ p'.style = p.style

theorem Writes.nothing (p : Printer) : p.Writes (pure ()) [] [] :=
  ⟨fun _ => rfl, fun h => absurd nofun h⟩

theorem Writes.append (h : p.Writes a vs ls) (h' : (p.wrote ls).Writes b ws ms) :
    p.Writes (do a; b) (vs ++ ws) (ls ++ ms) := by
  by_cases hvs : p.style.CanShow vs
  · have hrun : (do a; b : Printing Unit).run p = b.run (p.wrote ls) := run_bind_of_ok (h.ok hvs)
    constructor
    · intro hall
      rw [hrun, h'.ok (Style.canShow_append.1 hall).2, wrote_wrote]
    · intro hlong
      rw [hrun]
      exact h'.error fun hws => hlong (Style.canShow_append.2 ⟨hvs, hws⟩)
  · obtain ⟨p', hrun, hstyle⟩ := h.error hvs
    refine ⟨fun hall => absurd (Style.canShow_append.1 hall).1 hvs, fun _ => ⟨p', ?_, hstyle⟩⟩
    exact run_bind_of_error hrun

/-- What is written one level deeper. -/
theorem Writes.deeper (h : Writes { p with depth := p.depth + 1 } a vs ls) :
    p.Writes (do enter; a; leave) vs ls := by
  have henter : enter.run p = (.ok (), { p with depth := p.depth + 1 }) := rfl
  refine ⟨fun hall => ?_, fun hlong => ?_⟩
  · rw [run_bind_of_ok henter, run_bind_of_ok (h.ok hall)]
    rfl
  · obtain ⟨p', hrun, hstyle⟩ := h.error hlong
    exact ⟨p', by rw [run_bind_of_ok henter, run_bind_of_error hrun], hstyle⟩

/-! ## The line of a node -/

theorem run_ofExcept (p : Printer) (r : Except Misuse α) : (ofExcept r : Printing α).run p = (r, p) := by
  cases r <;> rfl

theorem render_eq (style : Style) (s : Span) :
    s.render style.maxDigits =
      if style.CanShow [s.start, s.stop] then .ok s.text else .error (.tooLong (style.maxDigits.getD 0)) := by
  rw [Span.render, shownInteger_eq, shownInteger_eq]
  by_cases hstart : Text.Fits style.maxDigits s.start <;> by_cases hstop : Text.Fits style.maxDigits s.stop <;>
    simp [Style.CanShow, hstart, hstop, Span.text, bind, Except.bind, pure, Except.pure]

/-- A line shows its span, if at all, behind the rest. -/
theorem emit_writes (p : Printer) (n : Node) :
    p.Writes (emit n n.detail) (n.places p.style) [n.outlineLine p.style p.depth] := by
  have hget : (get : Printing Printer).run p = (.ok p, p) := rfl
  -- the detail is put on by two branches of the program, and by one text in `outlineLine`
  have hplain : ∀ start : String, (if n.detail = "" then start else start ++ " " ++ n.detail) =
      start ++ if n.detail = "" then "" else " " ++ n.detail := by
    intro start
    split <;> simp [String.append_assoc]
  unfold emit
  simp only [hplain]
  cases hspan : p.style.span? n with
  | none =>
    rw [show n.places p.style = [] by simp [Node.places, hspan]]
    refine ⟨fun _ => ?_, fun h => absurd nofun h⟩
    rw [run_bind_of_ok hget, Node.outlineLine]
    simp only [hspan, String.append_empty]
    rfl
  | some s =>
    rw [show n.places p.style = [s.start, s.stop] by simp [Node.places, hspan]]
    have hrender : (ofExcept (s.render p.style.maxDigits) : Printing String).run p = _ := run_ofExcept p _
    have hresult := render_eq p.style s
    -- either way the printer is the one that was given until the span has been written out
    refine ⟨fun hfits => ?_, fun hlong => ⟨p, ?_, rfl⟩⟩ <;> rw [run_bind_of_ok hget] <;> simp only [hspan]
    · rw [if_pos hfits] at hresult
      rw [hresult] at hrender ⊢
      rw [run_bind_of_ok hrender, Node.outlineLine, hspan]
      dsimp only
      rw [← String.append_assoc]
      rfl
    · rw [if_neg hlong] at hresult
      rw [hresult] at hrender ⊢
      exact run_bind_of_error hrender

/-- The handling of a node but for its children. -/
def line (n : Node) : Printing Unit :=
  match n with
  | .numeral value _ => do emit n (← showInteger value)
  | _ => emit n n.detail

theorem line_writes (p : Printer) (n : Node) :
    p.Writes (line n) (n.shown p.style) [n.outlineLine p.style p.depth] := by
  have hemit := p.emit_writes n
  cases n with
  | numeral value sp =>
    have hvalue : (showInteger value).run p = _ := run_ofExcept p (shownInteger p.style.maxDigits value)
    rw [shownInteger_eq] at hvalue
    have hshown : p.style.CanShow ((Node.numeral value sp).shown p.style) ↔ _ :=
      List.forall_mem_cons (a := value) (l := (Node.numeral value sp).places p.style)
    by_cases hfits : Text.Fits p.style.maxDigits value
    · rw [if_pos hfits] at hvalue
      have hrun : (line (.numeral value sp)).run p = _ := run_bind_of_ok hvalue
      refine ⟨fun hall => ?_, fun hlong => ?_⟩ <;> rw [hrun]
      · exact hemit.ok (hshown.1 hall).2
      · exact hemit.error fun hplaces => hlong (hshown.2 ⟨hfits, hplaces⟩)
    · rw [if_neg hfits] at hvalue
      exact ⟨fun hall => absurd (hshown.1 hall).1 hfits, fun _ => ⟨p, run_bind_of_error hvalue, rfl⟩⟩
  | _ => exact hemit

/-! ## Trees -/

/-- Every handler writes its node and then the children at one more depth; literals have none. -/
theorem visit_eq_visitAll (n : Node) : visit n = (do line n; enter; visitAll n.children; leave) := by
  have hnone : (do enter; visitAll []; leave) = pure () := rfl
  cases n with
  | symbol | numeral | truth => simp [visit, line, Node.children, Node.detail, hnone]
  | _ => simp [visit, visitAll, line, Node.children, Node.detail]

/-- Trees are written one by one if each is written as it should be. -/
theorem visitAll_writes {xs : List Node} (p : Printer)
    (h : ∀ x ∈ xs, ∀ p : Printer,
      p.Writes (visit x) (x.walk.flatMap (Node.shown p.style)) (x.outlineLines p.style p.depth)) :
    p.Writes (visitAll xs) ((xs.flatMap Node.walk).flatMap (Node.shown p.style))
      (xs.flatMap (Node.outlineLines p.style p.depth)) := by
  induction xs generalizing p with
  | nil => exact .nothing p
  | cons x xs ih =>
    obtain ⟨hx, hxs⟩ := List.forall_mem_cons.1 h
    rw [visitAll, List.flatMap_cons, List.flatMap_append, List.flatMap_cons]
    exact (hx p).append (ih _ hxs)

/-- **A printer writes the lines of the tree**, in order, unless an integer that is to be shown has too many digits, and
is otherwise left as it was. -/
theorem visit_writes (p : Printer) (n : Node) :
    p.Writes (visit n) (n.walk.flatMap (Node.shown p.style)) (n.outlineLines p.style p.depth) := by
  induction n using Node.childInduction generalizing p with
  | step n ih =>
    rw [visit_eq_visitAll, Node.walk_eq, List.flatMap_cons, Node.outlineLines_eq]
    exact (line_writes p n).append (.deeper (visitAll_writes _ ih))

theorem render_eq_outlineLines (p : Printer) (n : Node) :
    (p.render n).1 =
        (if n.Shows p.style then .ok (String.intercalate "\n" (n.outlineLines p.style 0))
        else .error (.tooLong (p.style.maxDigits.getD 0))) ∧
      (p.render n).2.style = p.style := by
  have hwrites := visit_writes { p with lines := [], depth := 0 } n
  by_cases hshows : n.Shows p.style
  · rw [if_pos hshows, render, hwrites.ok hshows]
    simp [wrote]
  · obtain ⟨p', hrun, hstyle⟩ := hwrites.error hshows
    rw [if_neg hshows, render, hrun]
    exact ⟨rfl, hstyle⟩

end Outline.Printer

theorem Node.outline_eq (style : Outline.Style) (n : Node) :
    n.outline style =
      if n.Shows style then .ok (String.intercalate "\n" (n.outlineLines style 0))
      else .error (.tooLong (style.maxDigits.getD 0)) :=
  (Outline.Printer.render_eq_outlineLines { style } n).1

theorem Node.outline_of_shows {style : Outline.Style} {n : Node} (h : n.Shows style) :
    n.outline style = .ok (String.intercalate "\n" (n.outlineLines style 0)) := by
  rw [outline_eq, if_pos h]

end FrontEnd
