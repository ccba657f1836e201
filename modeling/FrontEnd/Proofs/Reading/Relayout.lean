import FrontEnd.Reading
import FrontEnd.Proofs.Grammar.Language
import FrontEnd.Proofs.Grammar.Lockstep
import FrontEnd.Proofs.Token.Relaid

/-!
# Layout does not matter

Two texts that differ in their blanks have tokens of the same kinds, texts and values, and the same tokens touch. This
is all that a parser sees of a token, so both texts have the same tree, up to spans, or the same failure, up to where it
is (**`Lexicon.relayout_agrees`**).
-/

namespace FrontEnd

namespace SyntaxFault

/-- The kind that was needed, where there is one. -/
def expected? : SyntaxFault → Option Kind
  | endOfInput k _ => k
  | unexpectedKind k _ => some k
  | noProduction .. => none

def production? : SyntaxFault → Option String
  | noProduction p _ _ => some p
  | _ => none

/-- The same class of fault with the same message, kinds, production, help and hints. -/
structure SameReport (f g : SyntaxFault) : Prop where
  code : f.code = g.code
  message : f.message = g.message
  expected : f.expected? = g.expected?
  found : f.found.kind = g.found.kind
  production : f.production? = g.production?
  help : f.help = g.help
  hints : f.hints = g.hints

end SyntaxFault

/-- The same failure, up to where it is. -/
inductive Failure.SameReport : Failure → Failure → Prop
  | lexical {f : LexicalFault} {l : Location} : SameReport (.lexical f) (.lexical (f.moved l))
  | syntactic {f g : SyntaxFault} : f.SameReport g → SameReport (.syntactic f) (.syntactic g)
  | misuse {m : Misuse} : SameReport (.misuse m) (.misuse m)

theorem Failure.SameReport.ofLexical (r : LexicalRefusal) (l : Location) :
    SameReport (.ofLexical r) (.ofLexical (r.moved l)) := by
  cases r with
  | fault f => exact .lexical
  | misuse m => exact .misuse

/-- Both readings give a result or both give a failure, and what they give corresponds. -/
inductive SameOutcome {ε α : Type} (E : ε → ε → Prop) (R : α → α → Prop) : Except ε α → Except ε α → Prop
  | ok {a b : α} : R a b → SameOutcome E R (.ok a) (.ok b)
  | error {e f : ε} : E e f → SameOutcome E R (.error e) (.error f)

/-! ## Tokens -/

namespace Likeness

/-- Nothing that a fault says depends on where its token stands. -/
theorem Fault.sameReport {f g : SyntaxFault} (h : anywhere.Fault f g) : f.SameReport g := by
  cases h with
  | endOfInput h => exact ⟨rfl, rfl, rfl, h.1, rfl, rfl, rfl⟩
  | @unexpectedKind k t u h =>
    have hmessage := congrArg (fun found : Kind => "Expected " ++ k.title ++ ", found " ++ found.title) h.1
    have hhelp := congrArg (fun text => some ("The parser expected to see " ++ k.title ++
      " at this position, but found '" ++ text ++ "' instead.")) h.2.1
    exact ⟨rfl, hmessage, rfl, h.1, rfl, hhelp, rfl⟩
  | @noProduction production forms t u h =>
    have hmessage := congrArg (fun found : Kind => "Expected " ++ production ++ ", found " ++ found.title) h.1
    refine ⟨rfl, hmessage, rfl, h.1, rfl, ?_, rfl⟩
    cases forms <;> rfl

end Likeness

namespace Piece

variable {file file' : String} {m m' : Mark} {p q : Piece} {ps qs : List Piece}

theorem Alike.token (h : p.Alike q) : (p.token file m).Alike (q.token file' m') :=
  ⟨h.1, congrArg String.ofList h.2.1, h.2.2⟩

theorem forall₂_tokens (h : ps.Forall₂ Abreast qs) : (tokens file m ps).Forall₂ Token.Alike (tokens file' m' qs) := by
  induction h generalizing m m' with
  | nil => exact .nil
  | cons h _ ih => exact .cons h.1.token ih

theorem InStep.tokens (h : InStep ps qs) : (tokens file m ps).Forall₂ Token.Alike (tokens file' m' qs) := by
  cases h with
  | nil => exact .nil
  | cons h hs => exact .cons h.token (forall₂_tokens hs)

/-- A token touches the one before it if it has no gap. -/
theorem token_touches : (q.token file (p.mark m)).start = (p.token file m).stop ↔ q.gap = [] := by
  simp only [token, mark, Mark.offset_past, ← List.length_eq_zero_iff]
  omega

/-- The induction is on the pieces behind the first one, whose own gap does not matter. -/
theorem touches_iff {t u : Token} (ht : t.isEnd = true) (h : ps.Forall₂ Abreast qs) (i : Nat)
    (hi : (((tokens file m (p :: ps)).getD (i + 1) t)).isEnd = false) :
    ((tokens file m (p :: ps)).getD (i + 1) t).start = ((tokens file m (p :: ps)).getD i t).stop ↔
      ((tokens file' m' (q :: qs)).getD (i + 1) u).start = ((tokens file' m' (q :: qs)).getD i u).stop := by
  induction h generalizing p q m m' i with
  | nil => simp [tokens, ht] at hi
  | @cons p' q' ps qs hpq hs ih =>
    cases i with
    | zero => exact token_touches.trans (hpq.2.trans token_touches.symm)
    | succ i => exact ih i hi

end Piece

/-! ## Streams -/

/-- Tokens that correspond one by one, read at any place of their streams. -/
theorem forall₂_getD {α : Type} {R : α → α → Prop} {xs ys : List α} (h : xs.Forall₂ R ys) {x y : α} (hxy : R x y)
    (i : Nat) : R (xs.getD i x) (ys.getD i y) := by
  induction h generalizing i with
  | nil => exact hxy
  | cons h _ ih =>
    cases i with
    | zero => exact h
    | succ i => exact ih i

open Piece

variable {lx : Lexicon} {file : String} {ps qs : List Piece}

/-- The streams of pieces in step agree all the way. -/
theorem agree_of_inStep (h : InStep ps qs) (file : String) {file' : String} (m m' : Mark) (n : Nat) :
    Likeness.anywhere.Agree n (.ofTokens (tokens file .start ps ++ [.ending file m]))
      (.ofTokens (tokens file' .start qs ++ [.ending file' m'])) := by
  rw [Stream.ofTokens_ending, Stream.ofTokens_ending]
  have halike : ∀ i, ((tokens file .start ps).getD i (.ending file m)).Alike
      ((tokens file' .start qs).getD i (.ending file' m')) := forall₂_getD h.tokens ⟨rfl, rfl, rfl⟩
  refine ⟨⟨rfl, rfl⟩, fun i _ => halike i, fun i _ _ => ?_, fun i _ hi => ?_⟩
  · obtain ⟨_, htext, hvalue⟩ := halike i
    simp only [Stream.look, Parse.reading, htext, hvalue]
  · cases h with
    | nil => simp [Stream.look, tokens, Token.isEnd, Token.ending] at hi
    | cons _ hs => exact touches_iff rfl hs i hi

/-- Streams that agree all the way are parsed alike. -/
theorem parse_of_agree {s t : Stream} (hagree : ∀ n, Likeness.anywhere.Agree n s t)
    (hends : ∀ u ∈ s.ahead, u.isEnd = false) (hvalued : s.Valued) (entry : String) (allowTrailing : Bool) :
    SameOutcome Failure.SameReport (fun n n' => n.same n' = true)
      ((Parse.named entry allowTrailing s).1.mapError .ofRefusal)
      ((Parse.named entry allowTrailing t).1.mapError .ofRefusal) := by
  unfold Parse.named
  cases Entry.ofName? entry with
  | none => exact .error .misuse
  | some e =>
    dsimp only
    obtain ⟨k, ⟨n, n', hn, hn', hlike⟩ | ⟨f, g, hf, hg, hfault⟩⟩ := e.parse_agrees allowTrailing hagree hends hvalued
    · rw [hn, hn']
      exact .ok hlike.same
    · rw [hf, hg]
      exact .error (.syntactic hfault.sameReport)

namespace Lexicon

/-- **Layout does not matter**: with other blanks, a text has the same tokens, up to their places, and the same tree, up
to spans, from any entry; or it fails in the same way. -/
theorem relayout_agrees (lx : Lexicon) (file : String) {text text' : String}
    (h : Relayout text.toList text'.toList) :
    SameOutcome (fun f g => ∃ l, g = LexicalRefusal.moved l f) (List.Forall₂ Token.Alike) (lx.tokenize file text)
        (lx.tokenize file text') ∧
      ∀ entry allowTrailing, SameOutcome Failure.SameReport (fun n n' => n.same n' = true)
        (lx.parse file entry allowTrailing text) (lx.parse file entry allowTrailing text') := by
  unfold parse
  rcases lx.tokenize_relayout file h with
    ⟨ps, qs, hstep, ⟨rest, hj, hb, ht⟩, rest', hj', hb', ht'⟩ | ⟨f, l, l', hf, hf'⟩
  · have ha : ∀ t ∈ tokens file .start ps, lx.Accepts t := accepts_of_joins hj
    rw [tokenize_eq_ok_iff.2 ⟨ps, rest, hj, hb, ht, rfl⟩, tokenize_eq_ok_iff.2 ⟨qs, rest', hj', hb', ht', rfl⟩]
    refine ⟨.ok (List.rel_append hstep.tokens (.cons ⟨rfl, rfl, rfl⟩ .nil)), parse_of_agree
      (agree_of_inStep hstep file _ _) ?_ ?_⟩ <;> rw [Stream.ofTokens_ending]
    · exact fun t ht => (ha t ht).token_class.2
    · exact fun t ht => (ha t ht).token_class.1
  · rw [hf, hf', ← LexicalRefusal.moved_moved f l l']
    exact ⟨.error ⟨l', rfl⟩, fun _ _ => .error (.ofLexical _ l')⟩

/-- Blanks in front come and go, and a line end stands for a space; the two signs of `++` stay together. -/
theorem relayout_agrees_plusPlus :
    Relayout " x = ++y.".toList "x\n=\t++y. ".toList ∧
      SameOutcome Failure.SameReport (fun n n' => n.same n' = true)
        (({} : Lexicon).parse "" "program" false " x = ++y.")
        (({} : Lexicon).parse "" "program" false "x\n=\t++y. ") := by
  have h : Relayout " x = ++y.".toList "x\n=\t++y. ".toList := by
    show Relayout ([' '] ++ 'x' :: ([' '] ++ '=' :: ([' '] ++ ['+', '+', 'y', '.'])))
      ([] ++ 'x' :: (['\n'] ++ '=' :: (['\t'] ++ ['+', '+', 'y', '.', ' '])))
    have blank : ∀ {c : Char}, isBlank c = true → AllBlank [c] := fun hc => by simpa [AllBlank] using hc
    refine .lead (blank rfl) nofun (.char rfl (.gap (blank rfl) nofun (blank rfl) nofun (.char rfl ?_)))
    refine .gap (blank rfl) nofun (blank rfl) nofun (.char rfl (.char rfl (.char rfl (.char rfl ?_))))
    exact .tail nofun (blank rfl)
  exact ⟨h, (relayout_agrees {} "" h).2 _ _⟩

end Lexicon

end FrontEnd
