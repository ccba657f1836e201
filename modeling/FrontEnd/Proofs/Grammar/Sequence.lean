import FrontEnd.Proofs.Grammar.Language
import FrontEnd.Proofs.Grammar.Lockstep

/-!
# Statement after statement

A statement ends in a dot and looks at nothing behind it. So where the tokens of one stream begin another stream, all
statements of the first one are read of the second one as well, with the same trees, and reading goes on behind them as
if nothing had been read before (**`Parse.statements_of_begins`**).
-/

namespace FrontEnd

/-! ## The last token -/

namespace Derives

variable {ts : List Token} {t : Token} {n : Node}

theorem statement_dot (h : Derives .statement ts n) : ∃ init d, ts = init ++ [d] ∧ d.kind = .dot := by
  cases h with
  | statementDeclaration h =>
    cases h with
    | @declaration c q d ts us _ _ _ _ _ _ _ hd => exact ⟨ts ++ c :: q :: us, d, by simp, hd⟩
  | statementAssignment h =>
    cases h with
    | @assignment q d ts us _ _ _ _ _ _ hd => exact ⟨ts ++ q :: us, d, by simp, hd⟩

theorem block_dot (h : Derives .block ts n) (ht : ts.getLast? = some t) : t.kind = .dot := by
  generalize he : Entry.block = e at h
  induction h with
  | blockNil => cases ht
  | @blockCons ts us _ _ _ _ hx _ _ ih =>
    rw [List.getLast?_append] at ht
    cases hus : us.getLast? with
    | some u =>
      rw [hus] at ht ih
      exact ih ht rfl
    | none =>
      obtain ⟨init, d, rfl, hd⟩ := hx.statement_dot
      rw [hus, Option.none_or, List.getLast?_concat] at ht
      rwa [← Option.some.inj ht]
  | _ => cases he

end Derives

/-! ## Streams of texts -/

/-- The last token, and no other one, is an end of input, and numerals carry their values. -/
structure Stream.Regular (s : Stream) : Prop where
  proper : ∀ t ∈ s.ahead, t.isEnd = false
  valued : s.Valued
  closed : s.final.isEnd = true

namespace Stream

variable {s : Stream} {n : Nat}

theorem regular_ofTokens {lx : Lexicon} {init : List Token} (h : ∀ t ∈ init, lx.Accepts t) (file : String) (m : Mark) :
    (ofTokens (init ++ [.ending file m])).Regular := by
  rw [ofTokens_ending]
  exact ⟨fun t ht => (h t ht).token_class.2, fun t ht => (h t ht).token_class.1, rfl⟩

theorem Regular.skip (h : s.Regular) (hn : n ≤ s.ahead.length) : (s.skip n).Regular where
  proper t ht := h.proper t (List.mem_of_mem_drop (by rwa [ahead_skip] at ht))
  valued := h.valued.onward ⟨n, hn, rfl⟩
  closed := by simpa using h.closed

theorem Regular.ahead_eq_nil (h : s.Regular) (hend : s.peek.isEnd = true) : s.ahead = [] := by
  cases ha : s.ahead with
  | nil => rfl
  | cons t rest =>
    have ht := h.proper t (by simp [ha])
    rw [peek_eq ha, ht] at hend
    cases hend

end Stream

/-! ## Streams that begin others -/

/-- Tokens and offsets are alike if they are the same. -/
def Likeness.exact : Likeness where
  token := Eq
  offset := Eq
  kind_eq h := congrArg Token.kind h
  text_eq h := congrArg Token.text h
  start h := congrArg Token.start h
  stop h := congrArg Token.stop h

/-- The first stream is that of a text, and the second one begins with its tokens. -/
structure Stream.Begins (s t : Stream) : Prop where
  regular : s.Regular
  ahead : s.ahead <+: t.ahead
  closed : t.final.isEnd = true
  maxDigits : s.maxDigits = t.maxDigits

namespace Stream.Begins

variable {s t : Stream} {n i : Nat}

theorem look (h : s.Begins t) (hi : i < s.ahead.length) : t.look i = s.look i := by
  obtain ⟨more, hmore⟩ := h.ahead
  simp only [Stream.look, List.getD_eq_getElem?_getD, ← hmore, List.getElem?_append_left hi,
    List.getElem?_eq_getElem hi, Option.getD_some]

theorem skip (h : s.Begins t) (hn : n ≤ s.ahead.length) : (s.skip n).Begins (t.skip n) where
  regular := h.regular.skip hn
  ahead := by
    obtain ⟨more, hmore⟩ := h.ahead
    refine ⟨more, ?_⟩
    rw [ahead_skip, ahead_skip, ← hmore, List.drop_append_of_le_length hn]
  closed := by simpa using h.closed
  maxDigits := by simpa using h.maxDigits

theorem agree (h : s.Begins t) (hn : n ≤ s.ahead.length) : Likeness.exact.Agree n t s where
  closed := ⟨h.closed, h.regular.closed⟩
  token i hi := h.look (by omega)
  value i hi _ := by rw [h.look (by omega), h.maxDigits]
  touch i hi _ := by rw [h.look (by omega), h.look (by omega)]

/-- As far as the first stream goes, the second one goes on like it or the first one ends. -/
theorem upto (h : s.Begins t) (hn : n ≤ s.ahead.length) : Likeness.exact.Upto n t s := by
  refine ⟨h.agree hn, ?_⟩
  rcases Nat.lt_or_eq_of_le hn with hlt | rfl
  · exact .inr (h.agree hlt)
  · exact .inl (by rw [look_of_le (Nat.le_refl _), h.regular.closed])

end Stream.Begins

namespace Parse

variable {s s' t : Stream} {x : Node} {xs : List Node}

/-- The second stream is read by completeness, and then the first one in step with it: read the other way round, the
token behind the statement would have to be an end of input in the second stream. -/
theorem statement_of_begins (h : s.Begins t) (hx : statement s = (.ok x, s')) :
    ∃ n, n ≤ s.ahead.length ∧ s' = s.skip n ∧ statement t = (.ok x, t.skip n) := by
  obtain ⟨ts, htakes, hd⟩ := statement_derives h.regular.valued hx
  obtain ⟨rfl, hlen⟩ := htakes.eq_skip
  obtain ⟨more, hmore⟩ := h.ahead
  rw [htakes.ahead_eq, List.append_assoc] at hmore
  obtain ⟨t', htakes', -⟩ := Stream.exists_takes hmore.symm
  obtain ⟨y, hy, -⟩ := hd.parses htakes' trivial
  obtain ⟨rfl, hlen'⟩ := htakes'.eq_skip
  have hclear : t.Clear ts.length := by
    refine ⟨hlen', fun i hi => ?_⟩
    rw [h.look (by omega)]
    exact (Stream.clear_of_ahead h.regular.proper hlen).2 i hi
  obtain ⟨z, hz, hlike⟩ := (tracks_statement (L := .exact)).ok hy hclear (h.upto hlen)
  obtain rfl : z = x := Except.ok.inj (Prod.mk.inj (hz.symm.trans hx)).1
  rw [← hlike.eq]
  exact ⟨ts.length, hlen, rfl, hy⟩

theorem statements_of_end (h : s.peek.isEnd = true) : statements s = (.ok [], s) := by
  rw [statements, if_pos h]

theorem statements_of_statement (h : s.peek.isEnd = false) (hx : statement s = (.ok x, s')) :
    statements s = (do return x :: (← statements)) s' := by
  rw [congrFun statements_eq s, bind_of_ok (peek_eq_ok.2 ⟨rfl, rfl⟩), if_neg (by simp [h]), bind_of_ok hx]

/-- The induction is on the statements of the first stream. -/
theorem statements_of_begins (h : s.Begins t) (hxs : statements s = (.ok xs, s')) :
    statements t = (do return xs ++ (← statements)) (t.skip s.ahead.length) := by
  fun_induction statements s generalizing xs s' t with
  | case1 s hend =>
    obtain rfl : [] = xs := Except.ok.inj (Prod.mk.inj hxs).1
    rw [h.regular.ahead_eq_nil hend, List.length_nil, Stream.skip_zero, bind_apply]
    cases statements t with
    | mk r t' => cases r <;> rfl
  | case2 | case3 => simp at hxs
  | case4 s hend x s₁ hx _ xs' s₂ hxs' ih =>
    obtain rfl : x :: xs' = xs := Except.ok.inj (Prod.mk.inj hxs).1
    obtain ⟨n, hn, rfl, ht⟩ := statement_of_begins h hx
    have hlen : n + (s.skip n).ahead.length = s.ahead.length := by
      rw [Stream.ahead_skip, List.length_drop]
      omega
    have hend : s.peek.isEnd = false := by simpa using hend
    have hpeek : t.peek = s.peek := h.look (Stream.lt_of_look h.regular.closed hend)
    rw [statements_of_statement (hpeek ▸ hend) ht, bind_apply, ih (h.skip hn) hxs', Stream.skip_skip, hlen, bind_apply,
      bind_apply]
    cases statements (t.skip s.ahead.length) with
    | mk r t' => cases r <;> rfl

/-! ## Programs -/

theorem peek_of_statements (h : statements s = (.ok xs, s')) : s'.peek.isEnd = true := by
  fun_induction statements s generalizing xs s' with
  | case1 s hend =>
    obtain rfl := (Prod.mk.inj h).2
    exact hend
  | case2 | case3 => simp at h
  | case4 s _ x s₁ _ _ xs' s₂ hxs ih =>
    obtain rfl := (Prod.mk.inj h).2
    exact ih hxs

/-- Statements use up the stream of a text. -/
theorem derives_of_statements (hs : s.Regular) (h : statements s = (.ok xs, s')) :
    Derives .block s.ahead (.block xs none) := by
  obtain ⟨ts, htakes, hd⟩ : ∃ ts, s.Takes ts s' ∧ Derives .block ts (.block xs none) := statements_derives hs.valued h
  obtain ⟨rfl, hlen⟩ := htakes.eq_skip
  have hnil := (hs.skip hlen).ahead_eq_nil (peek_of_statements h)
  rw [htakes.ahead_eq, hnil, List.append_nil]
  exact hd

theorem program_of_statements (h : statements s = (.ok xs, s')) : (Entry.program.parse false s).1 =
    .ok (.program (.block xs (some (s.spanTo s'))) (some (s.spanTo s'))) := by
  have hblock : block s = (.ok (.block xs (some (s.spanTo s'))), s') :=
    spanned_eq_ok.2 ⟨_, bind_of_ok h, rfl⟩
  have hprogram : Entry.program.parser s =
      (.ok (.program (.block xs (some (s.spanTo s'))) (some (s.spanTo s'))), s') :=
    spanned_eq_ok.2 ⟨_, bind_of_ok hblock, rfl⟩
  rw [Entry.parse_eq_ok.2 ⟨hprogram, peek_of_statements h⟩]

theorem program_of_refusal {e : Refusal} (h : statements s = (.error e, s')) :
    (Entry.program.parse false s).1 = .error e := by
  have hblock : block s = (.error e, s') := by rw [block, spanned, bind_apply, h]
  rw [Entry.parse, bind_apply, Entry.parser, program, spanned, bind_apply, hblock]

end Parse

end FrontEnd
