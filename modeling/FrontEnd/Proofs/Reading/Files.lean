import FrontEnd.Proofs.Command.Driver
import FrontEnd.Proofs.Reading.Relayout

/-!
# Files are read like texts

A line end is a blank however it is written, so a text and the one with unified line ends differ in their blanks only
(`Text.relaid_unifyNewlines`). What is read of a file, whose line ends are unified, is therefore what is read of the
text that the file was written from, up to places, which are those in the unified text (**`Storage.reading_agrees`**).
-/

namespace FrontEnd

/-! ## Line ends -/

namespace Text

theorem relaid_unifyNewlines (cs : List Char) : Relaid (unifyNewlines cs) cs := by
  have blank : ∀ {c : Char}, isBlank c = true → AllBlank [c] := fun hc => by simpa [AllBlank] using hc
  have gap : ∀ {c d : Char} {g cs cs' : List Char}, isBlank c = true → AllBlank (d :: g) → Relaid cs cs' →
      Relaid (c :: cs) (d :: g ++ cs') := fun hc hg h =>
    .gap (g := [_]) (blank hc) (List.cons_ne_nil _ _) hg (List.cons_ne_nil _ _) h
  fun_induction unifyNewlines cs with
  | case1 => exact .tail allBlank_nil allBlank_nil
  | case2 cs ih =>
    have hcrlf : AllBlank ['\r', '\n'] := .append (blank (c := '\r') rfl) (blank (c := '\n') rfl)
    exact gap rfl hcrlf ih
  | case3 cs _ ih => exact gap (g := []) rfl (blank rfl) ih
  | case4 c cs _ _ ih =>
    cases hc : isBlank c with
    | true => exact gap (g := []) hc (blank hc) ih
    | false => exact .char hc ih

theorem unifyNewlines_of_not_mem {cs : List Char} (h : '\r' ∉ cs) : unifyNewlines cs = cs := by
  fun_induction unifyNewlines cs with
  | case1 => rfl
  | case2 | case3 => simp at h
  | case4 c cs _ _ ih => rw [ih fun hcs => h (List.mem_cons_of_mem c hcs)]

end Text

/-! ## Other blanks and another name -/

namespace SameOutcome

variable {ε δ α : Type} {E E' : ε → ε → Prop} {D : δ → δ → Prop} {R R' : α → α → Prop} {x y : Except ε α}

theorem imp (h : SameOutcome E R x y) (hE : ∀ e f, x = .error e → E e f → E' e f)
    (hR : ∀ a b, x = .ok a → R a b → R' a b) : SameOutcome E' R' x y := by
  cases h with
  | ok h => exact .ok (hR _ _ rfl h)
  | error h => exact .error (hE _ _ rfl h)

theorem mapError (h : SameOutcome E R x y) (g : ε → δ) (hg : ∀ e f, E e f → D (g e) (g f)) :
    SameOutcome D R (x.mapError g) (y.mapError g) := by
  cases h with
  | ok h => exact .ok h
  | error h => exact .error (hg _ _ h)

end SameOutcome

namespace Lexicon

variable {lx : Lexicon} {text text' : String}

/-- With other blanks and under another name, a text has the same tokens, up to their places, and their streams agree
all the way; or it has the same fault. -/
theorem tokenize_agrees (file file' : String) (h : Relayout text.toList text'.toList) :
    SameOutcome (fun f g => ∃ l, g = LexicalRefusal.moved l f)
      (fun ts us => ts.Forall₂ Token.Alike us ∧ ∀ n, Likeness.anywhere.Agree n (.ofTokens ts) (.ofTokens us))
      (lx.tokenize file text) (lx.tokenize file' text') := by
  rcases lx.tokenize_across file file' h with
    ⟨ps, qs, hstep, ⟨rest, hj, hb, ht⟩, rest', hj', hb', ht'⟩ | ⟨f, l, l', hf, hf'⟩
  · rw [tokenize_eq_ok_iff.2 ⟨ps, rest, hj, hb, ht, rfl⟩, tokenize_eq_ok_iff.2 ⟨qs, rest', hj', hb', ht', rfl⟩]
    exact .ok ⟨List.rel_append hstep.tokens (.cons ⟨rfl, rfl, rfl⟩ .nil), agree_of_inStep hstep file _ _⟩
  · rw [hf, hf', ← LexicalRefusal.moved_moved f l l']
    exact .error ⟨l', rfl⟩

theorem parse_agrees (file file' : String) (h : Relayout text.toList text'.toList) (entry : String)
    (allowTrailing : Bool) :
    SameOutcome Failure.SameReport (fun n n' => n.same n' = true) (lx.parse file entry allowTrailing text)
      (lx.parse file' entry allowTrailing text') := by
  have hagrees := lx.tokenize_agrees file file' h
  unfold parse
  generalize ht : lx.tokenize file text = r, lx.tokenize file' text' = r' at hagrees ⊢
  cases hagrees with
  | error hmoved =>
    obtain ⟨l, rfl⟩ := hmoved
    exact .error (.ofLexical _ l)
  | ok hstep =>
    refine parse_of_agree hstep.2 (fun t hmem => ?_) (valued_of_tokenize ht) entry allowTrailing
    exact ((stream_of_tokenize ht).2 t hmem).token_class.2

end Lexicon

/-! ## Reading files -/

namespace Storage

/-- The same failure to read a text, up to where it is. -/
inductive Failure.SameReport : Failure → Failure → Prop
  | text {f g : FrontEnd.Failure} : f.SameReport g → SameReport (.text f) (.text g)

theorem readText_of_toUTF8 {storage : Storage} {path text : String} (h : storage path = .ok text.toUTF8) :
    storage.readText path = .ok (String.ofList (Text.unifyNewlines text.toList)) := by
  have hdecode : String.fromUTF8? text.toUTF8 = some text := by
    simp only [String.fromUTF8?, String.toUTF8_eq_toByteArray, dif_pos text.isValidUTF8]
    rfl
  simp only [readText, h, hdecode]

open Command in
/-- **Files are read like texts.** Let a file hold a text as UTF-8. Tokenizing and parsing it is tokenizing and parsing
the text with unified line ends, which is the text itself if there is no CR in it. It gives the tokens and the tree of
the text under whatever name, up to places, or it fails in the same way. The tool, run on the file, shows such a tree or
complains of such a failure; an empty file name counts as none for it. -/
theorem reading_agrees {storage : Storage} {path text : String} (h : storage path = .ok text.toUTF8) (file : String) :
    let unified := String.ofList (Text.unifyNewlines text.toList)
    ('\r' ∉ text.toList → unified = text) ∧
    (∀ lx, storage.tokenize lx path = (lx.tokenize path unified).mapError (fun e => .text (.ofLexical e)) ∧
      SameOutcome Failure.SameReport (List.Forall₂ Token.Alike) (storage.tokenize lx path)
        ((lx.tokenize file text).mapError fun e => .text (.ofLexical e))) ∧
    (∀ lx entry, storage.parse lx entry path = (lx.parse path entry false unified).mapError .text ∧
      SameOutcome Failure.SameReport (fun n n' => n.same n' = true) (storage.parse lx entry path)
        ((lx.parse file entry false text).mapError .text)) ∧
    ∀ (st : Settings) words e, st.file = some path → path ≠ "" → st.keywords = words.map some → st.tokens = false →
      st.entry = some e →
      SameOutcome (fun f g => f.SameReport g ∧ st.run storage = .ok ⟨1, "", f.render⟩)
        (fun n n' => n.same n' = true ∧ ∃ shown, st.Displays n shown ∧ st.run storage = .ok ⟨0, shown ++ "\n", ""⟩)
        (Lexicon.parse { reserved := words } path e.name st.allowTrailing unified)
        (Lexicon.parse { reserved := words } file e.name st.allowTrailing text) := by
  intro unified
  have hread : storage.readText path = .ok unified := readText_of_toUTF8 h
  have hrelaid : Relayout unified.toList text.toList := by
    rw [String.toList_ofList]
    exact (Text.relaid_unifyNewlines _).relayout
  refine ⟨fun hcr => ?_, fun lx => ?_, fun lx entry => ?_, fun st words e hfile hne hwords htokens he => ?_⟩
  · rw [← String.toList_inj, String.toList_ofList, Text.unifyNewlines_of_not_mem hcr]
  · have heq : storage.tokenize lx path = (lx.tokenize path unified).mapError (fun e => .text (.ofLexical e)) := by
      rw [tokenize, hread]
    have hagrees := (lx.tokenize_agrees path file hrelaid).imp (fun _ _ _ => id) fun _ _ _ => And.left
    exact ⟨heq, heq ▸ hagrees.mapError _ fun _ _ ⟨_, hl⟩ => hl ▸ .text (.ofLexical _ _)⟩
  · have heq : storage.parse lx entry path = (lx.parse path entry false unified).mapError .text := by
      rw [parse, hread]
    exact ⟨heq, heq ▸ (lx.parse_agrees path file hrelaid entry false).mapError _ fun _ _ => .text⟩
  · have hrun : st.run storage = st.report { reserved := words } unified path := by
      rw [(Settings.Supplies.file hfile hne hread).run_eq, Settings.lexicon?_of_given hwords]
    rw [hrun]
    refine (Lexicon.parse_agrees path file hrelaid e.name st.allowTrailing).imp (fun f g hf hreport => ?_)
      fun n n' hn hsame => ?_
    · exact ⟨hreport, Settings.report_of_parse_error htokens he hf⟩
    · exact ⟨hsame, Settings.report_of_parse_ok htokens he hn⟩

open Command in
/-- Two ways to end a line in one file, which the tool reads as a program with a reserved word. -/
theorem reading_agrees_lines :
    let storage : Storage := fun _ => .ok "x\r\n:=\ry.".toUTF8
    let st : Settings := { file := some "p", keywords := [some "z"] }
    String.ofList (Text.unifyNewlines "x\r\n:=\ry.".toList) = "x\n:=\ny." ∧
      SameOutcome (fun f g => f.SameReport g ∧ st.run storage = .ok ⟨1, "", f.render⟩)
        (fun n n' => n.same n' = true ∧ ∃ shown, st.Displays n shown ∧ st.run storage = .ok ⟨0, shown ++ "\n", ""⟩)
        (Lexicon.parse { reserved := ["z"] } "p" "program" false "x\n:=\ny.")
        (Lexicon.parse { reserved := ["z"] } "<string>" "program" false "x\r\n:=\ry.") := by
  intro storage st
  have hunified : String.ofList (Text.unifyNewlines "x\r\n:=\ry.".toList) = "x\n:=\ny." := by decide
  have hholds : storage "p" = .ok "x\r\n:=\ry.".toUTF8 := rfl
  have hagrees := (reading_agrees hholds "<string>").2.2.2 st ["z"] .program rfl (by decide) rfl rfl rfl
  exact ⟨hunified, hunified ▸ hagrees⟩

end Storage

end FrontEnd
