import FrontEnd.Proofs.Token.Offset

/-!
# The seam between two texts

No text behind a dot can make it longer. So where the last token of a text is a dot, putting another text behind it
changes none of its tokens, and the tokens of the second text follow in their places, or its refusal does
(**`Lexicon.tokenize_append`**).
-/

namespace FrontEnd

variable {file : String} {source source' : List Char} {n : Nat}

theorem locationAt_append (file : String) (source' : List Char) (hn : n ≤ source.length) :
    locationAt file (source ++ source') n = locationAt file source n := by
  rw [locationAt, locationAt, List.take_append_of_le_length hn]

namespace Lexicon

variable {lx : Lexicon} {n' m : Nat} {us : List Token} {gap w after : List Char} {k : Kind} {v : Option Int}
  {r : Except LexicalRefusal Token} {rs rs' : Except LexicalRefusal (List Token)}

/-- A lexeme stays one when its text goes on, unless it is at the end of the text and can be made longer. -/
theorem Lexeme.append (h : lx.Lexeme after k w v) (hdot : after = [] → k = .dot) (source' : List Char) :
    lx.Lexeme (after ++ source') k w v := by
  cases after with
  | nil =>
    have hk := hdot rfl
    exact h.move (by simp [hk]) (by simp [hk]) (by simp [hk])
  | cons x after => exact h.transfer fun q _ hq => hq

/-- Blanks in front of what is read are passed over. -/
theorem Reads.of_blank (h : lx.Reads file source (n + gap.length) r n')
    (hgap : source.drop n = gap ++ source.drop (n + gap.length)) (hb : AllBlank gap) :
    lx.Reads file source n r n' := by
  have hall : ∀ {gap'}, AllBlank gap' → AllBlank (gap ++ gap') := fun hg c hc =>
    (List.mem_append.1 hc).elim (hb c) (hg c)
  have hoffset : ∀ gap' : List Char, n + gap.length + gap'.length = n + (gap ++ gap').length := fun gap' => by
    rw [List.length_append, Nat.add_assoc]
  cases h with
  | ending hg => exact .ending (by rw [hgap]; exact hall hg)
  | @token gap' w after k v hsrc hg hl =>
    rw [hoffset]
    exact .token (by rw [hgap, hsrc, List.append_assoc]) (hall hg) hl
  | @rejected gap' w after hsrc hg he =>
    rw [hoffset]
    exact .rejected (by rw [hgap, hsrc, List.append_assoc]) (hall hg) he
  | @stray gap' after x hsrc hg hx =>
    rw [hoffset]
    exact .stray (by rw [hgap, hsrc, List.append_assoc]) (hall hg) hx

theorem ReadsAll.of_blank (h : lx.ReadsAll file source (n + gap.length) rs n')
    (hgap : source.drop n = gap ++ source.drop (n + gap.length)) (hb : AllBlank gap) :
    lx.ReadsAll file source n rs n' := by
  cases h with
  | ending h ht => exact .ending (h.of_blank hgap hb) ht
  | refusal h => exact .refusal (h.of_blank hgap hb)
  | token h ht hrest => exact .token (h.of_blank hgap hb) ht hrest

/-- A token of a text is read in the same way when the text goes on. -/
theorem Reads.append {t : Token} (h : lx.Reads file source n (.ok t) n') (ht : t.isEnd = false)
    (hn : n ≤ source.length) (hdot : n' = source.length → t.kind = .dot) (source' : List Char) :
    lx.Reads file (source ++ source') n (.ok t) n' := by
  have hwithin := h.within hn
  cases h with
  | ending => cases ht
  | @token gap w after k v hsrc hg hl =>
    have hend : after = [] → n + gap.length + w.length = source.length := by
      rintro rfl
      have hlen := congrArg List.length hsrc
      simp only [List.length_drop, List.length_append, List.length_nil] at hlen
      omega
    have htoken : tokenAt file source (n + gap.length) k w v =
        tokenAt file (source ++ source') (n + gap.length) k w v := by
      rw [tokenAt, tokenAt, locationAt_append file source' (by omega)]
    rw [htoken]
    refine .token ?_ hg (hl.append (fun hafter => hdot (hend hafter)) source')
    rw [List.drop_append_of_le_length hn, hsrc, List.append_assoc, List.append_assoc]

/-- The induction is on the reading of the first text; behind its last token come its last blanks, and then the second
text. -/
theorem ReadsAll.append (h : lx.ReadsAll file source n (.ok us) n') (hn : n ≤ source.length)
    (hdot : ∀ t, us.dropLast.getLast? = some t → t.kind = .dot) (h' : lx.ReadsAll file source' 0 rs' m) :
    lx.ReadsAll file (source ++ source') n
      ((placedAll (source ++ source') source.length rs').map (us.dropLast ++ ·)) (source.length + m) := by
  induction h using ReadsAll.ok_induction with
  | @ending n n' t h ht =>
    obtain ⟨rfl, rfl, hb⟩ := h.eq_end ht
    have hdrop : (source ++ source').drop source.length = source' := List.drop_left
    have hlen : n + (source.drop n).length = source.length := by
      rw [List.length_drop]
      omega
    have hplaced : lx.ReadsAll file (source ++ source') (source.length + 0)
        (placedAll (source ++ source') source.length rs') (source.length + m) :=
      ReadsAll.placed (by rwa [hdrop]) (by simp)
    rw [Nat.add_zero, ← hlen] at hplaced
    have hall := hplaced.of_blank (by rw [hlen, hdrop, List.drop_append_of_le_length hn]) hb
    rw [hlen] at hall
    cases rs' <;> exact hall
  | @token n n' n'' t us' h ht hrest ih =>
    obtain ⟨hlast, -⟩ := hrest.eq_end
    have hne : us' ≠ [] := by
      rintro rfl
      cases hlast
    rw [List.dropLast_cons_of_ne_nil hne] at hdot ⊢
    have hall := ih (h.within hn).2 fun u hu => hdot u (by rw [List.getLast?_cons, hu, Option.getD_some])
    have htoken := h.append ht hn ?_ source'
    · have hcons := ReadsAll.token htoken ht hall
      cases rs' <;> exact hcons
    · rintro rfl
      obtain rfl := Except.ok.inj (hrest.unique (readsAll_end lx file source))
      exact hdot t rfl

/-- **A text that ends in a dot keeps its tokens** when another text is put behind it, and the tokens of that text come
behind them. -/
theorem tokenize_append {text : String} {ts : List Token} (h : lx.tokenize file text = .ok ts)
    (hdot : ∀ t, ts.dropLast.getLast? = some t → t.kind = .dot) (text' : String) :
    lx.tokenize file (text ++ text') =
      (placedAll (text ++ text').toList text.length (lx.tokenize file text')).map (ts.dropLast ++ ·) := by
  obtain ⟨n, hfirst⟩ := lx.readsAll_tokenize file text
  obtain ⟨n', hsecond⟩ := lx.readsAll_tokenize file text'
  obtain ⟨m, hboth⟩ := lx.readsAll_tokenize file (text ++ text')
  rw [String.toList_append] at hboth ⊢
  rw [h] at hfirst
  exact hboth.unique (hfirst.append (Nat.zero_le _) hdot hsecond)

end Lexicon

end FrontEnd
