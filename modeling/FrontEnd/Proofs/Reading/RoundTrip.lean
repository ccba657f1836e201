import FrontEnd.Reading
import FrontEnd.Proofs.Grammar.Language
import FrontEnd.Proofs.Node.Grammatical
import FrontEnd.Proofs.Node.Writing

/-!
# Reading and writing

What is read and written again has the tokens it had, up to blanks and leading zeros
(**`Lexicon.source_echoes_tokens`**), and what is written is read back as the same tree exactly when the tree is
grammatical (**`Lexicon.parse_source_iff_grammatical`**). Both go through derivations: reading finds one, writing spells
it, and the spelling has it again.
-/

namespace FrontEnd

namespace Node

mutual
theorem same_refl : ∀ n : Node, n.same n = true
  | symbol .. | numeral .. | truth .. => by simp [same]
  | binary l _ r _ | comparison l _ r _ => by simp [same, same_refl l, same_refl r]
  | unary _ x _ | pragma _ x _ | program x _ => by simp [same, same_refl x]
  | declaration i x _ | assignment i x _ => by simp [same, same_refl i, same_refl x]
  | block xs _ | other _ xs _ => by simp [same, sameAll_refl xs]
theorem sameAll_refl : ∀ xs : List Node, sameAll xs xs = true
  | [] => rfl
  | x :: xs => by simp [sameAll, same_refl x, sameAll_refl xs]
end

end Node

namespace Lexicon

variable {lx : Lexicon} {file text entry : String} {e : Entry} {ts : List Token} {n : Node}

/-- A text has the trees that its tokens derive. -/
theorem parse_iff_derives :
    (∃ n', lx.parse file e.name false text = .ok n' ∧ n'.same n = true) ↔
      ∃ ts m, lx.tokenize file text = .ok (ts ++ [.ending file m]) ∧ (∀ t ∈ ts, lx.Accepts t) ∧ Derives e ts n := by
  cases ht : lx.tokenize file text with
  | error f => simp [parse, ht]
  | ok ts =>
    obtain ⟨init, m, rfl, ha⟩ := accepts_of_tokenize ht
    have hparse : ∀ n', lx.parse file e.name false text = .ok n' ↔
        (Parse.named e.name false (.ofTokens (init ++ [.ending file m]))).1 = .ok n' := by
      intro n'
      cases hr : (Parse.named e.name false (.ofTokens (init ++ [.ending file m]))).1 <;>
        simp [parse, ht, hr, Except.mapError]
    simp only [hparse, Parse.named_iff_derives ha file m e n]
    constructor
    · exact fun hd => ⟨init, m, rfl, ha, hd⟩
    · rintro ⟨ts, m', hts, _, hd⟩
      obtain ⟨rfl, _⟩ := List.append_inj' (Except.ok.inj hts) rfl
      exact hd

/-- A name that gives a tree is the name of an entry. -/
theorem exists_entry_of_parse {allowTrailing : Bool} (h : lx.parse file entry allowTrailing text = .ok n) :
    ∃ e : Entry, e.name = entry := by
  unfold parse at h
  split at h
  · cases h
  · cases he : Entry.ofName? entry with
    | none => simp [Parse.named, he, Except.mapError, Parse.misuse] at h
    | some e => exact ⟨e, by simpa using List.find?_some he⟩

end Lexicon

/-- Scanning the source form of a tree finds its spelling. -/
theorem Written.tokenize {lx : Lexicon} {e : Entry} {ts : List Token} {n : Node} (h : Written lx e ts n)
    (file : String) :
    ∃ s us m, n.source lx.maxDigits = .ok s ∧ lx.tokenize file s = .ok (us ++ [.ending file m]) ∧
      (∀ t ∈ us, lx.Accepts t) ∧ ts.Forall₂ Token.Echoes us ∧ Derives e us n := by
  obtain ⟨s, ps, hs, hp, hd⟩ := h
  have hj : lx.Joins ps [] := hp.joins rfl
  have ht : lx.tokenize file s = .ok (Piece.tokens file .start ps ++ [.ending file (Mark.start.past s.toList)]) :=
    Lexicon.tokenize_eq_ok_iff.2 ⟨ps, [], hj, allBlank_nil, by simp [hp.render_eq], rfl⟩
  exact ⟨s, _, _, hs, ht, Lexicon.accepts_of_joins hj, hp.echoes _ _, hd _ _⟩

namespace Lexicon

/-- **Writing keeps the tokens**: the source form of a tree that was read has, one by one, the tokens of the text it
was read from, up to leading zeros. -/
theorem source_echoes_tokens {lx : Lexicon} {file entry text : String} {n : Node}
    (h : lx.parse file entry false text = .ok n) :
    ∃ s ts us, n.source lx.maxDigits = .ok s ∧ lx.tokenize file text = .ok ts ∧ lx.tokenize file s = .ok us ∧
      ts.Forall₂ Token.Echoes us := by
  obtain ⟨e, rfl⟩ := exists_entry_of_parse h
  obtain ⟨ts, m, ht, ha, hd⟩ := parse_iff_derives.1 ⟨n, h, n.same_refl⟩
  obtain ⟨s, us, m', hs, hu, _, he, _⟩ := (hd.written ha).tokenize file
  exact ⟨s, _, _, hs, ht, hu, List.rel_append he (.cons ⟨rfl, fun _ => rfl, nofun⟩ .nil)⟩

/-- A numeral with leading zeros and a reserved truth value. -/
theorem source_echoes_padded :
    ∃ n, Lexicon.parse { reserved := ["true"], limit := 9 } "" "expression" false "07* true" = .ok n ∧
      ∃ s ts us, n.source = .ok s ∧ Lexicon.tokenize { reserved := ["true"], limit := 9 } "" "07* true" = .ok ts ∧
        Lexicon.tokenize { reserved := ["true"], limit := 9 } "" s = .ok us ∧ ts.Forall₂ Token.Echoes us := by
  have h : Lexicon.parse { reserved := ["true"], limit := 9 } "" "expression" false "07* true" =
      .ok (.binary (.numeral 7 (some ⟨0, 2⟩)) "*" (.truth true (some ⟨4, 8⟩)) (some ⟨0, 8⟩)) := by
    cbv
  exact ⟨_, h, source_echoes_tokens h⟩

/-- **Reading what was written**: under the default lexicon, the source form of a tree is read as an entry with the
structure of the tree exactly when the tree is grammatical as that entry. -/
theorem parse_source_iff_grammatical (file : String) (e : Entry) (n : Node) :
    (∃ s n', n.source = .ok s ∧ ({} : Lexicon).parse file e.name false s = .ok n' ∧ n'.same n = true) ↔
      e.grammatical n = true := by
  rw [← Entry.derivable_iff_grammatical]
  constructor
  · rintro ⟨s, n', _, hp⟩
    obtain ⟨ts, _, _, ha, hd⟩ := parse_iff_derives.1 ⟨n', hp⟩
    exact ⟨ts, ha, hd⟩
  · rintro ⟨ts, ha, hd⟩
    obtain ⟨s, us, m, hs, hu, ha', _, hd'⟩ := (hd.written ha).tokenize file
    obtain ⟨n', hp⟩ := parse_iff_derives.2 ⟨us, m, hu, ha', hd'⟩
    exact ⟨s, n', hs, hp⟩

-- A name that denotes a truth value can be assigned to and not be read.
example : Entry.statement.grammatical (.assignment (.symbol "true" none) (.numeral 1 none) none) = true := by decide

example : Entry.statement.grammatical (.assignment (.symbol "x" none) (.symbol "true" none) none) = false := by decide

end Lexicon

end FrontEnd
