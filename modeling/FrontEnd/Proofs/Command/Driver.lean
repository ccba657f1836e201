import FrontEnd.Command.Run
import FrontEnd.Proofs.Node.Outlining
import FrontEnd.Proofs.Reading.Outcome

/-!
# The tool reports what the library answers

The tool tokenizes and parses by itself. For a source text that is at hand its report is nevertheless the one that the
library's answers on that text call for (`Settings.Agrees`), because nothing but lexical and syntax faults can come of
reading a text, and every tree that does has the form that is to be shown. Only a value that the command line left out
breaks a run down, and only where the value is needed (**`Settings.run_agrees`**).
-/

namespace FrontEnd

/-- The words in which a failure is reported. -/
def Failure.render : Failure → String
  | lexical f => f.diagnostic.render
  | syntactic f => f.diagnostic.render
  | misuse m => m.message

namespace Command

namespace Settings

/-! ## What the library's answers call for -/

/-- The source text that the settings name is at hand, as an argument or in a file that can be read. The last argument
is the name that the text is reported by. -/
inductive Supplies (storage : Storage) (st : Settings) : String → String → Prop
  | argument {text : String} : st.file = none ∨ st.file = some "" → st.source = some text →
      Supplies storage st text "<string>"
  | file {path text : String} : st.file = some path → path ≠ "" → storage.readText path = .ok text →
      Supplies storage st text path

/-- The text that shows a tree in the layout that is asked for, with spans if they are. -/
inductive Displays (st : Settings) (n : Node) : String → Prop
  | source {text : String} : st.layout = .source → n.source = .ok text → Displays st n text
  | summary {text : String} : st.layout = .summary → n.summary = .ok text → Displays st n text
  | tree {text : String} : st.layout = .tree → n.outline { spans := st.spans, maxDigits := none } = .ok text →
      Displays st n text

/-- The report that the library's answers on a text call for: its tokens, one a line, or a tree and a line end, and
nothing else; or the library's failure, on the other channel. -/
inductive Agrees (st : Settings) (lx : Lexicon) (text file : String) : Report → Prop
  | tokens {ts : List Token} : st.tokens = true → lx.tokenize file text = .ok ts →
      Agrees st lx text file ⟨0, String.join (ts.map fun t => t.render ++ "\n"), ""⟩
  | tree {e : Entry} {n : Node} {shown : String} : st.tokens = false → st.entry = some e →
      lx.parse file e.name st.allowTrailing text = .ok n → st.Displays n shown →
      Agrees st lx text file ⟨0, shown ++ "\n", ""⟩
  | unscanned {f : LexicalFault} : lx.tokenize file text = .error (.fault f) →
      Agrees st lx text file ⟨1, "", (Failure.lexical f).render⟩
  | unparsed {e : Entry} {f : Failure} : st.tokens = false → st.entry = some e →
      lx.parse file e.name st.allowTrailing text = .error f → Agrees st lx text file ⟨1, "", f.render⟩

variable {storage : Storage} {st : Settings} {lx : Lexicon} {text file : String} {words : List String} {n : Node}
  {r : Report}

theorem Agrees.status (h : st.Agrees lx text file r) : r.status = 0 ∨ r.status = 1 := by
  cases h with
  | tokens | tree => exact .inl rfl
  | unscanned | unparsed => exact .inr rfl

/-! ## Running -/

theorem lexicon?_of_given (h : st.keywords = words.map some) : st.lexicon? = some { reserved := words } := by
  have hall : (words.map some).mapM id = some words := by
    rw [List.mapM_map]
    exact List.mapM_pure.trans (by simp)
  rw [lexicon?, h, hall, Option.map_some]

theorem lexicon?_of_left_out (h : none ∈ st.keywords) : st.lexicon? = none := by
  have hall : ∀ ws : List (Option String), none ∈ ws → ws.mapM id = none := by
    intro ws hws
    induction ws with
    | nil => cases hws
    | cons w ws ih =>
      cases w with
      | none => simp
      | some w => simp [ih (by simpa using hws)]
  rw [lexicon?, hall _ h, Option.map_none]

theorem Supplies.run_eq (h : st.Supplies storage text file) :
    st.run storage =
      match st.lexicon? with
      | none => .error (.misuse .noValue)
      | some lx => st.report lx text file := by
  have hobtain : st.obtain storage = .ok (.ok (some text, file)) := by
    cases h with
    | argument hfile hsource => rcases hfile with hfile | hfile <;> simp [obtain, hfile, hsource]
    | file hfile hne hread => simp [obtain, hfile, hread]
  rw [run, hobtain]
  cases st.lexicon? <;> rfl

/-- A tree with a source form can be shown in every layout. -/
theorem show_of_source {source : String} (h : n.source = .ok source) :
    ∃ shown, st.show n = .ok shown ∧ st.Displays n shown := by
  unfold Settings.show
  cases hl : st.layout with
  | tree =>
    have hshows : n.Shows { spans := st.spans, maxDigits := none } := Node.shows_of_none rfl n
    exact ⟨_, Node.outline_of_shows hshows, .tree hl (Node.outline_of_shows hshows)⟩
  | source => exact ⟨source, h, .source hl h⟩
  | summary =>
    have hsummary : n.summary = .ok ("<" ++ n.typeName ++ ">:: " ++ source) := by
      rw [Node.summary, h]
      rfl
    exact ⟨_, hsummary, .summary hl hsummary⟩

section Parsing

variable {e : Entry}

/-- A tree that the library reads with the entry asked for is shown. -/
theorem report_of_parse_ok (htokens : st.tokens = false) (he : st.entry = some e)
    (h : Lexicon.parse { reserved := words } file e.name st.allowTrailing text = .ok n) :
    ∃ shown, st.Displays n shown ∧ st.report { reserved := words } text file = .ok ⟨0, shown ++ "\n", ""⟩ := by
  cases ht : Lexicon.tokenize { reserved := words } file text with
  | error f => simp [Lexicon.parse, ht] at h
  | ok ts =>
    rw [Lexicon.parse_eq ht] at h
    rcases Lexicon.parse_outcome ht e st.allowTrailing with ⟨n', hn, source, hsource⟩ | ⟨f, hf, -, -⟩
    · obtain rfl : n' = n := by simpa [hn, Except.mapError] using h
      obtain ⟨shown, hshow, hdisplays⟩ := st.show_of_source hsource
      exact ⟨shown, hdisplays, by simp [report, ht, htokens, he, hn, hshow]⟩
    · simp [hf, Except.mapError] at h

/-- A failure of the library is what the complaint is about. -/
theorem report_of_parse_error {f : Failure} (htokens : st.tokens = false) (he : st.entry = some e)
    (h : Lexicon.parse { reserved := words } file e.name st.allowTrailing text = .error f) :
    st.report { reserved := words } text file = .ok ⟨1, "", f.render⟩ := by
  cases ht : Lexicon.tokenize { reserved := words } file text with
  | error r =>
    obtain ⟨g, rfl⟩ := Lexicon.exists_fault_of_tokenize ht (Lexicon.roomy_default words)
    obtain rfl : .lexical g = f := by simpa [Lexicon.parse, ht, Failure.ofLexical] using h
    rw [report, ht]
    rfl
  | ok ts =>
    rw [Lexicon.parse_eq ht] at h
    rcases Lexicon.parse_outcome ht e st.allowTrailing with ⟨n, hn, -⟩ | ⟨g, hg, -, -⟩
    · simp [hn, Except.mapError] at h
    · obtain rfl : .syntactic g = f := by simpa [hg, Except.mapError, Failure.ofRefusal] using h
      simp [report, ht, htokens, he, hg, complaint, Failure.render]

end Parsing

theorem report_agrees
    (h : st.entry.isSome = true ∨ st.tokens = true ∨
      ∃ f, Lexicon.tokenize { reserved := words } file text = .error f) :
    ∃ r, st.report { reserved := words } text file = .ok r ∧ st.Agrees { reserved := words } text file r := by
  cases ht : Lexicon.tokenize { reserved := words } file text with
  | error e =>
    obtain ⟨f, rfl⟩ := Lexicon.exists_fault_of_tokenize ht (Lexicon.roomy_default words)
    exact ⟨_, by rw [report, ht]; rfl, .unscanned ht⟩
  | ok ts =>
    cases htokens : st.tokens with
    | true => exact ⟨_, by simp [report, ht, htokens], .tokens htokens ht⟩
    | false =>
      have hentry : st.entry.isSome = true := by simpa [htokens, ht] using h
      obtain ⟨e, he⟩ := Option.isSome_iff_exists.1 hentry
      cases hp : Lexicon.parse { reserved := words } file e.name st.allowTrailing text with
      | ok n =>
        obtain ⟨shown, hdisplays, hreport⟩ := report_of_parse_ok htokens he hp
        exact ⟨_, hreport, .tree htokens he hp hdisplays⟩
      | error f => exact ⟨_, report_of_parse_error htokens he hp, .unparsed htokens he hp⟩

/-- A text that can be tokenized is not parsed without an entry. -/
theorem Supplies.run_without_entry {ts : List Token} (h : st.Supplies storage text file)
    (hwords : st.keywords = words.map some) (he : st.entry = none) (htokens : st.tokens = false)
    (ht : Lexicon.tokenize { reserved := words } file text = .ok ts) :
    st.run storage = .error (.misuse .noValue) := by
  rw [h.run_eq, lexicon?_of_given hwords]
  simp [report, ht, htokens, he]

/-- **The tool reports what the library answers.** Let the source text be at hand. If all words to reserve were given,
and the entry as well unless nothing is to be parsed, the run ends in a report with status 0 or 1, the one that the
library's answers call for. Otherwise it breaks down for the value that was left out. -/
theorem run_agrees (h : st.Supplies storage text file) :
    (∀ words, st.keywords = words.map some →
      (st.entry.isSome = true ∨ st.tokens = true ∨ ∃ f, Lexicon.tokenize { reserved := words } file text = .error f) →
      ∃ r, st.run storage = .ok r ∧ (r.status = 0 ∨ r.status = 1) ∧ st.Agrees { reserved := words } text file r) ∧
    (none ∈ st.keywords → st.run storage = .error (.misuse .noValue)) ∧
    ∀ words ts, st.keywords = words.map some → st.entry = none → st.tokens = false →
      Lexicon.tokenize { reserved := words } file text = .ok ts → st.run storage = .error (.misuse .noValue) := by
  refine ⟨fun words hwords hneeded => ?_, fun hnone => ?_,
    fun words ts hwords he htokens ht => h.run_without_entry hwords he htokens ht⟩
  · obtain ⟨r, hr, hagrees⟩ := report_agrees hneeded
    exact ⟨r, by rw [h.run_eq, lexicon?_of_given hwords]; exact hr, hagrees.status, hagrees⟩
  · rw [h.run_eq, lexicon?_of_left_out hnone]

/-- A file with a line end of two characters, read as a unary expression with a reserved word. -/
theorem run_agrees_file :
    let st : Settings := { file := some "p", entry := some .unary, spans := true, keywords := [some "y"] }
    let storage : Storage := fun _ => .ok "-x\r\n".toUTF8
    st.Supplies storage "-x\n" "p" ∧
      ∃ r, st.run storage = .ok r ∧ (r.status = 0 ∨ r.status = 1) ∧ st.Agrees { reserved := ["y"] } "-x\n" "p" r := by
  intro st storage
  have h : st.Supplies storage "-x\n" "p" := .file rfl (by decide) (by cbv)
  exact ⟨h, (run_agrees h).1 ["y"] rfl (.inl rfl)⟩

/-- An entry is left out by `--` in its place. The arguments are accepted, but the run breaks down. -/
theorem run_breaks_down :
    ∃ st, readArguments ["-e--", "x := y."] = .ok st ∧ st.Supplies (.ofFiles []) "x := y." "<string>" ∧
      ∀ r, st.run (.ofFiles []) ≠ .ok r := by
  let st : Settings := { source := some "x := y.", entry := none }
  have h : st.Supplies (.ofFiles []) "x := y." "<string>" := .argument (.inl rfl) rfl
  have hscanned : (Lexicon.tokenize { reserved := [] } "<string>" "x := y.").isOk = true := by cbv
  cases ht : Lexicon.tokenize { reserved := [] } "<string>" "x := y." with
  | error f => simp [ht, Except.isOk, Except.toBool] at hscanned
  | ok ts =>
    have hwords : st.keywords = List.map some [] := rfl
    exact ⟨st, by cbv, h, fun r => by simp [h.run_without_entry hwords rfl rfl ht]⟩

end Settings

end Command

end FrontEnd
