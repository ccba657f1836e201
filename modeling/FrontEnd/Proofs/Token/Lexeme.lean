import FrontEnd.Proofs.Token.Numeral

/-!
# Lexemes

`Lexicon.Lexeme lx after k w v` says, without any scanner, when the characters `w` with `after` behind them are a token
of kind `k` and value `v`: words and numerals cannot be continued, and `>` and `<` have no `=` behind them. The end of
input is no lexeme. Numerals are within the limit, and there are none if the limit cannot be written out.

Where the text begins with a lexeme, scanning finds it (**`Lexicon.here_of_lexeme`**), so a text begins with at most
one; what scanning finds is a lexeme, or the end of input where there is no text (**`Lexicon.lexeme_of_here`**).
-/

namespace FrontEnd

/-- A letter or an underscore, followed by letters, digits and underscores. -/
def isName : List Char → Bool
  | [] => false
  | c :: cs => isWordStart c && cs.all isWordPart

/-- Whether the text begins with a character of the class. -/
def begins (p : Char → Bool) (cs : List Char) : Bool :=
  cs.head?.any p

/-- The characters `w`, with `after` behind them, are a token of the given kind and value. -/
inductive Lexicon.Lexeme (lx : Lexicon) (after : List Char) : Kind → List Char → Option Int → Prop
  | symbol {w : List Char} : isName w = true → String.ofList w ∉ lx.reserved → begins isWordPart after = false →
      Lexeme lx after .symbol w none
  | keyword {w : List Char} : isName w = true → String.ofList w ∈ lx.reserved → begins isWordPart after = false →
      Lexeme lx after .keyword w none
  | numeral {w : List Char} : w ≠ [] → (∀ d ∈ w, isDigit d = true) → begins isDigit after = false → lx.Writable →
      (Text.decimalValue w : Int) ≤ lx.limit → Lexeme lx after .numeric w (some (Text.decimalValue w))
  | greaterEqual : Lexeme lx after .greaterEqual ['>', '='] none
  | lessEqual : Lexeme lx after .lessEqual ['<', '='] none
  | sign {x : Char} {k : Kind} : punctuation? x = some k → k ≠ .underscore →
      (k = .greater ∨ k = .less → begins (· == '=') after = false) → Lexeme lx after k [x] none

/-! ## Character classes -/

theorem mem_punctuation {x : Char} {k : Kind} (h : punctuation? x = some k) : (x, k) ∈ punctuation := by
  obtain ⟨l₁, l₂, hl, _⟩ := List.lookup_eq_some_iff.1 h
  rw [hl]
  exact List.mem_append_right _ List.mem_cons_self

/-- The table has signs only, and `>=` and `<=` are not in it. -/
theorem kind_of_punctuation {x : Char} {k : Kind} (h : punctuation? x = some k) :
    k ∉ [.endOfFile, .numeric, .symbol, .keyword, .greaterEqual, .lessEqual] := by
  have table : ∀ e ∈ punctuation, e.2 ∉ [.endOfFile, .numeric, .symbol, .keyword, .greaterEqual, .lessEqual] := by
    decide
  exact table (x, k) (mem_punctuation h)

/-- Apart from the underscore, no sign begins a word or a numeral, and none is a blank. -/
theorem sign_class {x : Char} {k : Kind} (h : punctuation? x = some k) (hk : k ≠ .underscore) :
    isWordStart x = false ∧ isDigit x = false ∧ isBlank x = false := by
  have table : ∀ e ∈ punctuation, e.2 ≠ .underscore →
      isWordStart e.1 = false ∧ isDigit e.1 = false ∧ isBlank e.1 = false := by decide
  exact table (x, k) (mem_punctuation h) hk

theorem blank_class {x : Char} (h : isBlank x = true) : isWordStart x = false ∧ isDigit x = false := by
  have table : (blanks.all fun b => !isWordStart b && !isDigit b) = true := by decide
  simpa using List.all_eq_true.1 table x (by simpa [isBlank] using h)

/-- Digits do not begin words. -/
theorem isWordStart_of_isDigit {x : Char} (h : isDigit x = true) : isWordStart x = false := by
  simp only [isDigit, Bool.and_eq_true, decide_eq_true_eq, Char.le_def, UInt32.le_iff_toNat_le] at h
  have h9 : x.val.toNat ≤ 57 := h.2
  have ha : ¬ 'a' ≤ x := by
    simp only [Char.le_def, UInt32.le_iff_toNat_le]
    exact fun hx => absurd (Nat.le_trans (show 97 ≤ x.val.toNat from hx) h9) (by decide)
  have hA : ¬ 'A' ≤ x := by
    simp only [Char.le_def, UInt32.le_iff_toNat_le]
    exact fun hx => absurd (Nat.le_trans (show 65 ≤ x.val.toNat from hx) h9) (by decide)
  have hu : x ≠ '_' := by
    rintro rfl
    exact absurd h9 (by decide)
  simp [isWordStart, isLetter, ha, hA, hu]

/-! ## Runs of a class -/

namespace Cursor

variable {c : Cursor} {p : Char → Bool} {w after : List Char}

theorem take_rest (h : c.rest = w ++ after) : c.rest.take w.length = w := by simp [h]

/-- A run ends where the class ends. -/
theorem run_eq (h : c.rest = w ++ after) (hw : ∀ x ∈ w, p x = true) (ha : begins p after = false) :
    c.run p = w.length := by
  have htail : after.takeWhile p = [] := by
    cases after with
    | nil => rfl
    | cons x xs => rw [List.takeWhile_cons_of_neg (by simpa [begins] using ha)]
  rw [run, h, List.takeWhile_append_of_pos hw, htail, List.append_nil]

theorem exists_run (c : Cursor) (p : Char → Bool) :
    ∃ w after, c.rest = w ++ after ∧ (∀ x ∈ w, p x = true) ∧ begins p after = false ∧ c.run p = w.length := by
  refine ⟨c.rest.takeWhile p, c.rest.dropWhile p, List.takeWhile_append_dropWhile.symm, ?_, ?_, rfl⟩
  · exact fun x hx => List.all_eq_true.1 List.all_takeWhile x hx
  · have := List.head?_dropWhile_not p c.rest
    cases hd : (c.rest.dropWhile p).head? with
    | none => simp [begins, hd]
    | some x => simpa [begins, hd] using this

/-- A run that begins at the cursor. -/
theorem exists_run_cons {x : Char} {xs : List Char} (h : c.rest = x :: xs) (hx : p x = true) :
    ∃ w after, c.rest = (x :: w) ++ after ∧ (∀ y ∈ w, p y = true) ∧ begins p after = false ∧
      c.run p = (x :: w).length := by
  obtain ⟨w, after, hc, hw, ha, hrun⟩ := c.exists_run p
  cases w with
  | nil =>
    rw [List.nil_append, h] at hc
    rw [← hc] at ha
    simp [begins, hx] at ha
  | cons y w =>
    rw [h, List.cons_append] at hc
    obtain ⟨rfl, hc⟩ := List.cons.inj hc
    exact ⟨w, after, by rw [h, hc]; rfl, fun z hz => hw z (List.mem_cons_of_mem _ hz), ha, hrun⟩

end Cursor

namespace Lexicon

variable {lx : Lexicon} {file : String} {c c' : Cursor} {t : Token} {after w : List Char} {k : Kind} {v : Option Int}

/-! ## Scanning finds the lexeme -/

theorem here_of_name (hc : c.rest = w ++ after) (hw : isName w = true) (ha : begins isWordPart after = false) :
    lx.here file c = (.ok (c.token file w.length (lx.wordKind (String.ofList w)) none), c.pass w.length) := by
  cases w with
  | nil => simp [isName] at hw
  | cons x xs =>
    have hx : isWordStart x = true ∧ ∀ y ∈ xs, isWordPart y = true := by simpa [isName] using hw
    have hrun : c.run isWordPart = (x :: xs).length := by
      refine Cursor.run_eq hc ?_ ha
      intro y hy
      rcases List.mem_cons.1 hy with rfl | hy
      · simp [isWordPart, hx.1]
      · exact hx.2 y hy
    rw [here, hc]
    simp only [List.cons_append, hx.1, if_true, word, hrun, Cursor.take_rest hc]

theorem here_of_digits (hc : c.rest = w ++ after) (hne : w ≠ []) (hw : ∀ d ∈ w, isDigit d = true)
    (ha : begins isDigit after = false) (hwr : lx.Writable) (hl : (Text.decimalValue w : Int) ≤ lx.limit) :
    lx.here file c = (.ok (c.token file w.length .numeric (some (Text.decimalValue w))), c.pass w.length) := by
  cases w with
  | nil => exact absurd rfl hne
  | cons x xs =>
    have hx : isDigit x = true := hw x List.mem_cons_self
    have hrun : c.run isDigit = (x :: xs).length := Cursor.run_eq hc hw ha
    rw [here, hc]
    simp only [List.cons_append, isWordStart_of_isDigit hx, Bool.false_eq_true, if_false, hx, if_true, numeral, hrun,
      Cursor.take_rest hc, (value?_eq_some_iff hw).2 ⟨hwr, hl, rfl⟩]

theorem here_of_sign {x : Char} {k : Kind} (hc : c.rest = x :: after) (hx : punctuation? x = some k)
    (hk : k ≠ .underscore) :
    lx.here file c = (.ok (c.token file (sign k after).2 (sign k after).1 none), c.pass (sign k after).2) := by
  obtain ⟨hs, hd, _⟩ := sign_class hx hk
  rw [here, hc]
  simp only [hs, Bool.false_eq_true, if_false, hd, hx]

/-- Only `>` and `<` take an equals sign. -/
theorem sign_eq_one (h : k = .greater ∨ k = .less → begins (· == '=') after = false) : sign k after = (k, 1) := by
  unfold sign
  split
  · next k' rest hk =>
    have hk : k = .greater ∨ k = .less := by cases k <;> simp_all [Kind.withEquals?]
    exact absurd (h hk) (by simp [begins])
  · rfl

theorem here_of_lexeme (hc : c.rest = w ++ after) (h : lx.Lexeme after k w v) :
    lx.here file c = (.ok (c.token file w.length k v), c.pass w.length) := by
  cases h with
  | symbol hw hr ha =>
    rw [here_of_name hc hw ha, wordKind, if_neg (by simpa using hr)]
  | keyword hw hr ha =>
    rw [here_of_name hc hw ha, wordKind, if_pos (by simpa using hr)]
  | numeral hne hw ha hwr hl => exact here_of_digits hc hne hw ha hwr hl
  | greaterEqual => exact here_of_sign hc (k := .greater) rfl (by decide)
  | lessEqual => exact here_of_sign hc (k := .less) rfl (by decide)
  | @sign x k hx hk ha =>
    rw [here_of_sign (show c.rest = x :: after from hc) hx hk, sign_eq_one ha]
    rfl

/-- A sign is a lexeme, alone or with the equals sign that it takes. -/
theorem lexeme_of_sign (lx : Lexicon) {x : Char} (xs : List Char) (hx : punctuation? x = some k)
    (hk : k ≠ .underscore) :
    ∃ w after, x :: xs = w ++ after ∧ lx.Lexeme after (sign k xs).1 w none ∧ (sign k xs).2 = w.length := by
  by_cases h : k = .greater ∨ k = .less → begins (· == '=') xs = false
  · rw [sign_eq_one h]
    exact ⟨[x], xs, rfl, .sign hx hk h, rfl⟩
  · obtain ⟨hcmp, hxs⟩ := Classical.not_imp.1 h
    obtain ⟨rest, rfl⟩ : ∃ rest, xs = '=' :: rest := by
      cases xs with
      | nil => simp [begins] at hxs
      | cons y rest => exact ⟨rest, by rw [show y = '=' by simpa [begins] using hxs]⟩
    have table : ∀ e ∈ punctuation, (e.2 = .greater → e.1 = '>') ∧ (e.2 = .less → e.1 = '<') := by decide
    have hc := table _ (mem_punctuation hx)
    rcases hcmp with rfl | rfl
    · obtain rfl : x = '>' := hc.1 rfl
      exact ⟨['>', '='], rest, rfl, .greaterEqual, rfl⟩
    · obtain rfl : x = '<' := hc.2 rfl
      exact ⟨['<', '='], rest, rfl, .lessEqual, rfl⟩

/-- What scanning accepts is a lexeme, or the end of input. -/
theorem lexeme_of_here (h : lx.here file c = (.ok t, c')) :
    (c.rest = [] ∧ t = c.token file 0 .endOfFile none ∧ c' = c) ∨
      ∃ w after k v, c.rest = w ++ after ∧ lx.Lexeme after k w v ∧ t = c.token file w.length k v ∧
        c' = c.pass w.length := by
  unfold here at h
  split at h
  case h_1 hc =>
    obtain ⟨rfl, rfl⟩ := by simpa using h
    exact .inl ⟨hc, rfl, rfl⟩
  case h_2 x xs hc =>
    right
    split at h
    case isTrue hx =>
      obtain ⟨w, after, hw, hp, ha, hrun⟩ := Cursor.exists_run_cons hc (p := isWordPart) (by simp [isWordPart, hx])
      simp only [word, hrun, Cursor.take_rest hw, Prod.mk.injEq, Except.ok.injEq] at h
      obtain ⟨rfl, rfl⟩ := h
      have hname : isName (x :: w) = true := by simpa [isName, hx] using hp
      refine ⟨x :: w, after, _, _, hw, ?_, rfl, rfl⟩
      unfold wordKind
      split
      case isTrue hr => exact .keyword hname (by simpa using hr) ha
      case isFalse hr => exact .symbol hname (by simpa using hr) ha
    case isFalse hx =>
      split at h
      case isTrue hd =>
        obtain ⟨w, after, hw, hp, ha, hrun⟩ := Cursor.exists_run_cons hc hd
        have hdigits : ∀ y ∈ x :: w, isDigit y = true := List.forall_mem_cons.2 ⟨hd, hp⟩
        simp only [numeral, hrun, Cursor.take_rest hw] at h
        split at h
        case h_1 v hv =>
          obtain ⟨hwr, hl, rfl⟩ := (value?_eq_some_iff hdigits).1 hv
          obtain ⟨rfl, rfl⟩ := by simpa using h
          exact ⟨x :: w, after, _, _, hw, .numeral (by simp) hdigits ha hwr hl, rfl, rfl⟩
        case h_2 | h_3 => simp at h
      case isFalse hd =>
        split at h
        case h_2 => simp at h
        case h_1 k hk =>
          have hu : k ≠ .underscore := by
            rintro rfl
            have table : ∀ e ∈ punctuation, e.2 = .underscore → isWordStart e.1 = true := by decide
            exact hx (table _ (mem_punctuation hk) rfl)
          obtain ⟨rfl, rfl⟩ := by simpa using h
          obtain ⟨w, after, hw, hl, hn⟩ := lexeme_of_sign lx xs hk hu
          exact ⟨w, after, _, _, hc.trans hw, hl, by rw [hn], by rw [hn]⟩

/-! ## What lexemes of a kind are -/

theorem Lexeme.of_symbol (h : lx.Lexeme after .symbol w v) : isName w = true ∧ String.ofList w ∉ lx.reserved := by
  cases h with
  | symbol hw hr => exact ⟨hw, hr⟩
  | sign hx => simpa using kind_of_punctuation hx

theorem Lexeme.of_numeric (h : lx.Lexeme after .numeric w v) :
    v = some (Text.decimalValue w : Int) ∧ (Text.decimalValue w : Int) ≤ lx.limit := by
  cases h with
  | numeral _ _ _ _ hl => exact ⟨rfl, hl⟩
  | sign hx => simpa using kind_of_punctuation hx

theorem Lexeme.digits_of_numeric (h : lx.Lexeme after .numeric w v) : w ≠ [] ∧ ∀ d ∈ w, isDigit d = true := by
  cases h with
  | numeral hne hw => exact ⟨hne, hw⟩
  | sign hx => simpa using kind_of_punctuation hx

/-- There are numerals only if the limit can be written out. -/
theorem Lexeme.writable_of_numeric (h : lx.Lexeme after .numeric w v) : lx.Writable := by
  cases h with
  | numeral _ _ _ hwr => exact hwr
  | sign hx => simpa using kind_of_punctuation hx

/-- The value of a numeral can be written out, as the limit can. -/
theorem Lexeme.fits_of_numeric (h : lx.Lexeme after .numeric w v) : ∀ d ∈ v, Text.Fits lx.maxDigits d := by
  obtain ⟨rfl, hlimit⟩ := h.of_numeric
  rintro _ ⟨⟩
  exact h.writable_of_numeric.mono (by omega)

/-- The kind of a sign tells its character. -/
theorem Lexeme.of_sign {x : Char} (h : lx.Lexeme after k w v) (hx : punctuation? x = some k) : w = [x] := by
  have table : ∀ e ∈ punctuation, ∀ e' ∈ punctuation, e.2 = e'.2 → e.1 = e'.1 := by decide
  cases h with
  | @sign y _ hy =>
    obtain rfl : x = y := table _ (mem_punctuation hx) _ (mem_punctuation hy) rfl
    rfl
  | _ => simpa using kind_of_punctuation hx

theorem Lexeme.of_comparison {op : String} (h : lx.Lexeme after k w v) (hop : k.comparison? = some op) :
    w = op.toList := by
  cases k <;> simp only [Kind.comparison?, reduceCtorEq, Option.some.injEq] at hop <;> subst hop
  case greaterEqual =>
    cases h with
    | greaterEqual => rfl
    | sign hx => simpa using kind_of_punctuation hx
  case lessEqual =>
    cases h with
    | lessEqual => rfl
    | sign hx => simpa using kind_of_punctuation hx
  all_goals exact h.of_sign rfl

/-- A lexeme stays one in front of another text that does not continue it. -/
theorem Lexeme.move {after' : List Char} (h : lx.Lexeme after k w v)
    (hword : k = .symbol ∨ k = .keyword → begins isWordPart after' = false)
    (hnum : k = .numeric → begins isDigit after' = false)
    (hcmp : k = .greater ∨ k = .less → begins (· == '=') after' = false) : lx.Lexeme after' k w v := by
  cases h with
  | symbol hw hr => exact .symbol hw hr (hword (.inl rfl))
  | keyword hw hr => exact .keyword hw hr (hword (.inr rfl))
  | numeral hne hw _ hwr hl => exact .numeral hne hw (hnum rfl) hwr hl
  | greaterEqual => exact .greaterEqual
  | lessEqual => exact .lessEqual
  | sign hx hk => exact .sign hx hk hcmp

/-- A number within the limit, written in decimal. -/
theorem Lexeme.decimal {d : Nat} (hwr : lx.Writable) (hd : (d : Int) ≤ lx.limit) (ha : begins isDigit after = false) :
    lx.Lexeme after .numeric (Text.decimal d).toList (some (d : Int)) := by
  have hchars : (Text.decimal d).toList = Nat.toDigits 10 d := String.toList_ofList
  have hvalue : Text.decimalValue (Nat.toDigits 10 d) = d := Text.decimalValue_toDigits d
  have hdigits : ∀ x ∈ Nat.toDigits 10 d, isDigit x = true := fun x hx => Text.isDigit_of_mem_toDigits hx
  have h := Lexeme.numeral Nat.toDigits_ne_nil hdigits ha hwr (by rw [hvalue]; exact hd)
  rwa [hvalue, ← hchars] at h

/-! ## What every lexeme has -/

theorem Lexeme.ne_nil (h : lx.Lexeme after k w v) : w ≠ [] := by
  cases h with
  | symbol hw | keyword hw =>
    rintro rfl
    simp [isName] at hw
  | numeral hne => exact hne
  | greaterEqual | lessEqual | sign => simp

theorem Lexeme.kind_ne_end (h : lx.Lexeme after k w v) : k ≠ .endOfFile := by
  cases h with
  | sign hx =>
    rintro rfl
    simpa using kind_of_punctuation hx
  | _ => decide

/-- Blanks end where a lexeme begins. -/
theorem Lexeme.begins_not_blank (h : lx.Lexeme after k w v) (rest : List Char) :
    begins isBlank (w ++ rest) = false := by
  have hstart : ∀ {x : Char}, isWordStart x = true ∨ isDigit x = true → isBlank x = false := by
    intro x hx
    rw [Bool.eq_false_iff]
    intro hb
    obtain ⟨hs, hd⟩ := blank_class hb
    simp [hs, hd] at hx
  cases h with
  | symbol hw | keyword hw =>
    cases w with
    | nil => simp [isName] at hw
    | cons x xs => exact hstart (.inl (by simp [isName] at hw; exact hw.1))
  | numeral hne hw =>
    cases w with
    | nil => exact absurd rfl hne
    | cons x xs => exact hstart (.inr (hw x List.mem_cons_self))
  | greaterEqual | lessEqual => rfl
  | sign hx hk => exact (sign_class hx hk).2.2

end Lexicon

end FrontEnd
