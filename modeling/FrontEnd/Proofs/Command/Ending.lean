import FrontEnd.Proofs.Command.Driver

/-!
# How a run ends

A run has no report when it is stuck (`Settings.Stuck`): over a file that is not text or a name that can name no file,
for want of a source text, or for want of a value that the command line left out. Every other run ends in a report with
status 0 or 1, among them all runs on a file that the system does not give, and its reason is then all that is reported
(**`Settings.run_reports_iff`**).
-/

namespace FrontEnd

namespace Command

namespace Settings

variable {storage : Storage} {st : Settings} {path text file : String} {f : ReadFault}

/-- The file that is named, if one is. An empty name counts as none. -/
def path? (st : Settings) : Option String :=
  st.file.filter (· ≠ "")

/-- What leaves a run without a report. -/
inductive Stuck (storage : Storage) (st : Settings) : Prop
  | notText {path : String} : st.path? = some path → storage.readText path = .error .notText → Stuck storage st
  | badName {path : String} : st.path? = some path → storage path = .error .badName → Stuck storage st
  | noSource : st.path? = none → st.source = none → Stuck storage st
  /-- A word to reserve was left out. Nobody asks for it unless the file, if one is named, has been read. -/
  | noWord : (∀ path, st.path? = some path → ∃ text, storage.readText path = .ok text) → none ∈ st.keywords →
      Stuck storage st
  /-- What to parse was left out, although there is something to parse. -/
  | noEntry {text file : String} {words : List String} {ts : List Token} : st.Supplies storage text file →
      st.keywords = words.map some → st.entry = none → st.tokens = false →
      Lexicon.tokenize { reserved := words } file text = .ok ts → Stuck storage st

/-! ## Obtaining the source text -/

theorem path?_eq_some : st.path? = some path ↔ st.file = some path ∧ path ≠ "" := by
  rw [path?, Option.filter_eq_some_iff, decide_eq_true_iff]

theorem path?_eq_none : st.path? = none ↔ st.file = none ∨ st.file = some "" := by
  rw [path?]
  cases st.file with
  | none => simp
  | some path => simp [Option.filter]

theorem obtain_argument (h : st.path? = none) : st.obtain storage = .ok (.ok (st.source, "<string>")) := by
  rcases path?_eq_none.1 h with h | h <;> simp [obtain, h]

/-- A file that the system does not give is complained of in the words of the system. -/
theorem obtain_unreadable (h : st.path? = some path) (hf : storage path = .error f) (hne : f ≠ .badName) :
    st.obtain storage =
      .ok (.error (complaint (Release.toolName ++ ": cannot read " ++ path ++ ": " ++ f.message ++ "\n"))) := by
  obtain ⟨hfile, hpath⟩ := path?_eq_some.1 h
  cases f <;> simp_all [obtain, Storage.readText]

/-- Other trouble with a file is nobody's to report. -/
theorem obtain_breaks {g : FileFault} (h : st.path? = some path) (hread : storage.readText path = .error g)
    (hg : g = .notText ∨ g = .unreadable .badName) : st.obtain storage = .error (.file g) := by
  obtain ⟨hfile, hpath⟩ := path?_eq_some.1 h
  rcases hg with rfl | rfl <;> simp [obtain, hfile, hread]

theorem Supplies.path? (h : st.Supplies storage text file) :
    ∀ path, st.path? = some path → ∃ text, storage.readText path = .ok text := by
  intro path hpath
  obtain ⟨hfile, hne⟩ := path?_eq_some.1 hpath
  cases h with
  | argument hnone _ =>
    rw [hfile] at hnone
    simp [hne] at hnone
  | file hfile' _ hread =>
    obtain rfl : _ = path := Option.some.inj (hfile'.symm.trans hfile)
    exact ⟨text, hread⟩

/-! ## Running -/

/-- A value left out for a word is missed before the source text is. -/
theorem run_without_word (hread : ∀ path, st.path? = some path → ∃ text, storage.readText path = .ok text)
    (h : none ∈ st.keywords) : st.run storage = .error (.misuse .noValue) := by
  have hlexicon : st.lexicon? = none := lexicon?_of_left_out h
  have hobtain : ∃ text? file, st.obtain storage = .ok (.ok (text?, file)) := by
    cases hpath : st.path? with
    | none => exact ⟨_, _, obtain_argument hpath⟩
    | some path =>
      obtain ⟨text, htext⟩ := hread path hpath
      obtain ⟨hfile, hne⟩ := path?_eq_some.1 hpath
      exact ⟨some text, path, by simp [obtain, hfile, htext]⟩
  obtain ⟨text?, file, hobtain⟩ := hobtain
  rw [run, hobtain, hlexicon]

theorem run_without_source (h : st.path? = none) (hsource : st.source = none) (r : Report) :
    st.run storage ≠ .ok r := by
  rw [run, obtain_argument h, hsource]
  cases st.lexicon? <;> simp

theorem run_of_stuck (h : st.Stuck storage) (r : Report) : st.run storage ≠ .ok r := by
  cases h with
  | notText hpath hread => simp [run, obtain_breaks hpath hread (.inl rfl)]
  | @badName path hpath hname =>
    have hread : storage.readText path = .error (.unreadable .badName) := by rw [Storage.readText, hname]
    simp [run, obtain_breaks hpath hread (.inr rfl)]
  | noSource hpath hsource => exact run_without_source hpath hsource r
  | noWord hread hword => simp [run_without_word hread hword]
  | noEntry hsupplies hwords hentry htokens ht => simp [hsupplies.run_without_entry hwords hentry htokens ht]

/-- With the source text at hand, only a value that was left out can be missed. -/
theorem Supplies.stuck_or_reports (h : st.Supplies storage text file) :
    st.Stuck storage ∨ ∃ r, st.run storage = .ok r ∧ (r.status = 0 ∨ r.status = 1) := by
  by_cases hnone : none ∈ st.keywords
  · exact .inl (.noWord h.path? hnone)
  obtain ⟨words, hwords⟩ : ∃ words : List String, st.keywords = words.map some := by
    refine ⟨st.keywords.map (·.getD ""), ?_⟩
    rw [List.map_map]
    refine ((List.map_congr_left ?_).trans (List.map_id _)).symm
    intro w hw
    cases w with
    | none => exact absurd hw hnone
    | some word => rfl
  have hreport : (st.entry.isSome = true ∨ st.tokens = true ∨
      ∃ f, Lexicon.tokenize { reserved := words } file text = .error f) →
      ∃ r, st.run storage = .ok r ∧ (r.status = 0 ∨ r.status = 1) := by
    intro hneeded
    obtain ⟨r, hr, hagrees⟩ := report_agrees hneeded
    exact ⟨r, by rw [h.run_eq, lexicon?_of_given hwords]; exact hr, hagrees.status⟩
  cases hentry : st.entry with
  | some e => exact .inr (hreport (.inl (by rw [hentry]; rfl)))
  | none =>
    cases htokens : st.tokens with
    | true => exact .inr (hreport (.inr (.inl htokens)))
    | false =>
      cases ht : Lexicon.tokenize { reserved := words } file text with
      | error f => exact .inr (hreport (.inr (.inr ⟨f, ht⟩)))
      | ok ts => exact .inl (.noEntry h hwords hentry htokens ht)

theorem run_unreadable (h : st.path? = some path) (hf : storage path = .error f) (hne : f ≠ .badName) :
    st.run storage =
      .ok ⟨1, "", Release.toolName ++ ": cannot read " ++ path ++ ": " ++ f.message ++ "\n"⟩ := by
  rw [run, obtain_unreadable h hf hne, complaint]

theorem stuck_or_reports (storage : Storage) (st : Settings) :
    st.Stuck storage ∨ ∃ r, st.run storage = .ok r ∧ (r.status = 0 ∨ r.status = 1) := by
  cases hpath : st.path? with
  | none =>
    cases hsource : st.source with
    | none => exact .inl (.noSource hpath hsource)
    | some text => exact (Supplies.argument (path?_eq_none.1 hpath) hsource).stuck_or_reports
  | some path =>
    obtain ⟨hfile, hne⟩ := path?_eq_some.1 hpath
    cases hread : storage.readText path with
    | ok text => exact (Supplies.file hfile hne hread).stuck_or_reports
    | error g =>
      cases g with
      | notText => exact .inl (.notText hpath hread)
      | unreadable f =>
        have hf : storage path = .error f := by
          unfold Storage.readText at hread
          split at hread
          · simp_all
          · split at hread <;> simp at hread
        by_cases hname : f = .badName
        · exact .inl (.badName hpath (hname ▸ hf))
        · exact .inr ⟨_, run_unreadable hpath hf hname, .inr rfl⟩

/-- **A run ends in a report with status 0 or 1 unless it is stuck**, and where a file is named that the system does not
give, the report has status 1, nothing on the first channel and the system's reason on the second. -/
theorem run_reports_iff (storage : Storage) (st : Settings) :
    ((∃ r, st.run storage = .ok r ∧ (r.status = 0 ∨ r.status = 1)) ↔ ¬ st.Stuck storage) ∧
      ∀ path f, st.file = some path → path ≠ "" → storage path = .error f → f ≠ .badName →
        st.run storage =
          .ok ⟨1, "", Release.toolName ++ ": cannot read " ++ path ++ ": " ++ f.message ++ "\n"⟩ := by
  constructor
  · constructor
    · rintro ⟨r, hr, -⟩ hstuck
      exact run_of_stuck hstuck r hr
    · intro hstuck
      exact (stuck_or_reports storage st).resolve_left hstuck
  · intro path f hfile hne hf hname
    exact run_unreadable (path?_eq_some.2 ⟨hfile, hne⟩) hf hname

/-- A file that is not there. -/
theorem run_reports_missing :
    (Storage.ofFiles []) "p" = .error .missing ∧
      Settings.run { file := some "p" } (.ofFiles []) =
        .ok ⟨1, "", "clitac: cannot read p: No such file or directory\n"⟩ := by
  have hmissing : (Storage.ofFiles []) "p" = .error .missing := by cbv
  refine ⟨hmissing, ?_⟩
  rw [(run_reports_iff (.ofFiles []) { file := some "p" }).2 "p" .missing rfl (by decide) hmissing (by decide)]
  rfl

/-- A file of one byte that is not text. The arguments are accepted, but the run ends without a report. -/
theorem run_stuck_on_bytes :
    ∃ st, readArguments ["-f", "p"] = .ok st ∧ ∀ r, st.run (.ofFiles [("p", ⟨#[0xff]⟩)]) ≠ .ok r := by
  have hread : (Storage.ofFiles [("p", ⟨#[0xff]⟩)]).readText "p" = .error .notText := by cbv
  refine ⟨{ file := some "p" }, by cbv, fun r => run_of_stuck (.notText ?_ hread) r⟩
  exact path?_eq_some.2 ⟨rfl, by decide⟩

end Settings

end Command

end FrontEnd
