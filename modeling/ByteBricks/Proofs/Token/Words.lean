import Mathlib.Data.List.TakeWhile
import ByteBricks.Proofs.Token.Scan

/-! # Words

  A token is a word that stands at some place of a source. The word alone is read like
  the token, and a text of words is cut into these words again if no word begins with a
  character that could be a part of the one in front of it. -/

namespace ByteBricks

namespace Token

/-- What a token is, wherever it stands. -/
structure Word where
  /-- The kind of the token. -/
  kind : Kind
  /-- Its text. -/
  text : String
  deriving DecidableEq

/-- The word of a token. -/
def word (t : Token) : Word := ⟨t.kind, t.text⟩

/-- Whether the text alone is read as the word. -/
def Word.IsLexeme (w : Word) : Prop :=
  lexeme? w.text.toList = some ⟨w.kind, w.text.toList, []⟩

instance (w : Word) : Decidable w.IsLexeme :=
  match h : lexeme? w.text.toList with
  | none => .isFalse (by simp [Word.IsLexeme, h])
  | some l =>
    if hl : l.kind = w.kind ∧ l.text = w.text.toList ∧ l.rest = [] then
      .isTrue (by
        obtain ⟨kind, text, rest⟩ := l
        obtain ⟨rfl, rfl, rfl⟩ := hl
        exact h)
    else .isFalse (by
      intro hw
      rw [Word.IsLexeme, h] at hw
      cases hw
      exact hl ⟨rfl, rfl, rfl⟩)

variable {cs : List Char} {ws : List Word} {offset line : Nat}

/-! ### Lexemes Alone -/

theorem Lexeme.run_text (kind : List Char → Kind) (p : Char → Bool) (c : Char) (cs : List Char) :
    Lexeme.run kind p c (cs.takeWhile p) = { Lexeme.run kind p c cs with rest := [] } := by
  have hdrop : (cs.takeWhile p).dropWhile p = [] :=
    List.dropWhile_eq_nil_iff.2 fun a ha => List.mem_takeWhile_imp ha
  unfold Lexeme.run
  rw [List.takeWhile_idem, hdrop]

theorem splitQuoted_text {inside after : List Char} (h : splitQuoted cs = some (inside, after)) :
    splitQuoted inside = some (inside, []) := by
  fun_induction splitQuoted cs generalizing inside after with
  | case1 => simp at h
  | case2 rest =>
    obtain ⟨rfl, rfl⟩ := Prod.mk.inj (Option.some.inj h)
    rfl
  | case3 => simp at h
  | case4 c rest hc ih =>
    obtain ⟨⟨i, a⟩, hs, he⟩ := Option.map_eq_some_iff.1 h
    obtain ⟨rfl, rfl⟩ := Prod.mk.inj he
    rw [splitQuoted, if_neg hc, ih hs]
    rfl
  | case5 => simp at h
  | case6 c rest hquote hescape hlast ih =>
    obtain ⟨⟨i, a⟩, hs, he⟩ := Option.map_eq_some_iff.1 h
    obtain ⟨rfl, rfl⟩ := Prod.mk.inj he
    -- The other cases are about a backslash, with a character behind it or without one.
    have hc : c ≠ '\\' := by
      intro hc
      cases rest with
      | nil => exact hlast hc rfl
      | cons d rest => exact hescape d rest hc rfl
    rw [splitQuoted, ih hs]
    · rfl
    · exact hquote
    · exact fun _ _ h _ => hc h
    · exact fun h _ => hc h

/-- A lexeme is also read when nothing follows it. -/
theorem lexeme?_text {l : Lexeme} (h : lexeme? cs = some l) :
    lexeme? l.text = some { l with rest := [] } := by
  -- Every branch but that of the comments is chosen by the first character alone.
  cases cs with
  | nil => simp [lexeme?] at h
  | cons c cs =>
    unfold lexeme? at h
    dsimp only at h
    split at h
    · next hblank =>
      cases h
      rw [Lexeme.run, lexeme?, if_pos hblank, Lexeme.run_text]
      rfl
    next hblank =>
    split at h
    · next hdigit =>
      cases h
      rw [Lexeme.run, lexeme?, if_neg hblank, if_pos hdigit, Lexeme.run_text]
      rfl
    next hdigit =>
    split at h
    · next hname =>
      cases h
      rw [Lexeme.run, lexeme?, if_neg hblank, if_neg hdigit, if_pos hname, Lexeme.run_text]
      rfl
    next hname =>
    split at h
    · next hquote =>
      obtain ⟨⟨inside, after⟩, hs, rfl⟩ := Option.map_eq_some_iff.1 h
      rw [lexeme?, if_neg hblank, if_neg hdigit, if_neg hname, if_pos hquote, splitQuoted_text hs]
      rfl
    next hquote =>
    split at h
    · next hcomment =>
      cases h
      -- The second slash belongs to the comment.
      obtain ⟨hslash, hhead⟩ : c = '/' ∧ cs.head? = some '/' := by simpa using hcomment
      have hcomment' : (c = '/' && (cs.takeWhile (· ≠ '\n')).head? = some '/') = true := by
        cases cs with
        | nil => simp at hhead
        | cons d cs =>
          cases hhead
          rw [hslash]
          rfl
      rw [Lexeme.run, lexeme?, if_neg hblank, if_neg hdigit, if_neg hname, if_neg hquote,
        if_pos hcomment', Lexeme.run_text]
      rfl
    · next hcomment =>
      obtain ⟨kind, hkind, rfl⟩ := Option.map_eq_some_iff.1 h
      rw [lexeme?, if_neg hblank, if_neg hdigit, if_neg hname, if_neg hquote, if_neg (by simp),
        hkind]
      rfl

/-- No lexeme is the end of the source. -/
theorem kind_ne_endOfInput {l : Lexeme} (h : lexeme? cs = some l) : l.kind ≠ .endOfInput := by
  cases cs with
  | nil => simp [lexeme?] at h
  | cons c cs =>
    unfold lexeme? at h
    dsimp only at h
    split at h
    · cases h
      simp [Lexeme.run]
    split at h
    · cases h
      simp [Lexeme.run]
    split at h
    · cases h
      rcases wordKind_cases (c :: cs.takeWhile isNamePart) with hk | hk | hk | hk | hk <;>
        simp [Lexeme.run, hk]
    split at h
    · obtain ⟨⟨inside, after⟩, hs, rfl⟩ := Option.map_eq_some_iff.1 h
      simp
    split at h
    · cases h
      simp [Lexeme.run]
    · obtain ⟨kind, hkind, rfl⟩ := Option.map_eq_some_iff.1 h
      unfold symbolKind? at hkind
      split at hkind <;> simp at hkind <;> subst hkind <;> simp

/-- The tokens of a source are words, and behind them is the end of the source. -/
theorem isLexeme_of_scanFrom (cs : List Char) (offset line : Nat)
    (h : (scanFrom cs offset line).failure = none) :
    ∃ ts e, (scanFrom cs offset line).tokens = ts ++ [e] ∧ e.kind = .endOfInput ∧
      ∀ t ∈ ts, t.kind ≠ .endOfInput ∧ t.word.IsLexeme := by
  fun_induction scanFrom cs offset line with
  | case1 offset line => exact ⟨[], _, rfl, rfl, by simp⟩
  | case2 => simp at h
  | case3 offset line c rest l hl hlt text htrivia ih => exact ih h
  | case4 offset line c rest l hl hlt text htrivia ih =>
    obtain ⟨ts, e, hts, he, hall⟩ := ih h
    refine ⟨⟨l.kind, offset, text, line⟩ :: ts, e, congrArg (List.cons _) hts, he, ?_⟩
    refine List.forall_mem_cons.2 ⟨⟨kind_ne_endOfInput hl, ?_⟩, hall⟩
    show lexeme? (String.ofList l.text).toList = some ⟨_, (String.ofList l.text).toList, []⟩
    rw [String.toList_ofList]
    exact lexeme?_text hl

/-- The end of a source is its last token, and stands behind all of it. -/
theorem scanFrom_endOfInput (cs : List Char) (offset line : Nat) :
    ∀ us t vs, (scanFrom cs offset line).tokens = us ++ t :: vs → t.kind = .endOfInput →
      vs = [] ∧ t.start = offset + (String.ofList cs).utf8ByteSize := by
  fun_induction scanFrom cs offset line with
  | case1 offset line =>
    intro us t vs h ht
    obtain ⟨rfl, htail⟩ := List.append_eq_singleton_iff.1 h.symm |>.resolve_right (by simp)
    cases htail
    exact ⟨rfl, rfl⟩
  | case2 => simp
  | case3 offset line c rest l hl hlt text htrivia ih =>
    intro us t vs h ht
    obtain ⟨hvs, hstart⟩ := ih us t vs h ht
    rw [hstart, utf8ByteSize_of_lexeme hl, Nat.add_assoc]
    exact ⟨hvs, rfl⟩
  | case4 offset line c rest l hl hlt text htrivia ih =>
    intro us t vs h ht
    cases us with
    | nil =>
      cases h
      exact absurd ht (kind_ne_endOfInput hl)
    | cons u us =>
      obtain ⟨hvs, hstart⟩ := ih us t vs (List.cons.inj h).2 ht
      rw [hstart, utf8ByteSize_of_lexeme hl, Nat.add_assoc]
      exact ⟨hvs, rfl⟩

/-! ### Texts of Words -/

/-- A character behind the word could be read as a part of it. -/
def Word.Extends (w : Word) (b : Char) : Prop := Lexeme.Extends ⟨w.kind, w.text.toList, []⟩ b

/-- The text begins with no character that could be a part of a name or an integer. -/
def Breaks (cs : List Char) : Prop := ∀ b ∈ cs.head?, isNamePart b = false

/-- The text is cut into the words, wherever it stands. -/
def Spells (cs : List Char) (ws : List Word) : Prop :=
  ∀ offset line, (scanFrom cs offset line).failure = none ∧
    (scanFrom cs offset line).tokens.map word = ws

theorem spells_nil : Spells [] [⟨.endOfInput, ""⟩] := by
  intro offset line
  rw [scanFrom_nil]
  exact ⟨rfl, rfl⟩

/-- Blanks are no words. -/
theorem Spells.skip {c : Char} (hc : isBlank c = true) (h : Spells cs ws) :
    Spells (c :: cs) ws := by
  intro offset line
  rw [scanFrom_blank hc]
  exact h _ _

theorem Spells.blank (h : Spells cs ws) : Spells (' ' :: cs) ws := h.skip rfl

/-- A word in front of a text is cut off if the text does not go on with it. -/
theorem Spells.cons {w : Word} (hw : w.IsLexeme) (htrivia : w.kind.isTrivia = false)
    (h : Spells cs ws) (hcs : ∀ b ∈ cs.head?, ¬ w.Extends b) :
    Spells (w.text.toList ++ cs) (w :: ws) := by
  have hlexeme : lexeme? (w.text.toList ++ cs) = some ⟨w.kind, w.text.toList, cs⟩ := by
    cases cs with
    | nil =>
      rw [List.append_nil]
      exact hw
    | cons b cs => exact lexeme?_append hw (hcs b rfl) cs
  intro offset line
  rw [scanFrom_of_lexeme hlexeme, if_neg (by simp [htrivia])]
  obtain ⟨hfailure, hwords⟩ := h (offset + (String.ofList w.text.toList).utf8ByteSize) line
  refine ⟨hfailure, ?_⟩
  show _ :: (scanFrom cs _ _).tokens.map word = _
  rw [hwords, word, String.ofList_toList]

theorem Spells.name {text : String} (hw : Word.IsLexeme ⟨.name, text⟩) (h : Spells cs ws)
    (hcs : Breaks cs) : Spells (text.toList ++ cs) (⟨.name, text⟩ :: ws) :=
  .cons hw rfl h fun b hb => by simp [Word.Extends, Lexeme.Extends, hcs b hb]

/-- The decimal digits of a number are read as an integer. -/
theorem isLexeme_toString (n : Nat) : Word.IsLexeme ⟨.integer, toString n⟩ := by
  unfold Word.IsLexeme
  dsimp only
  rw [Nat.toString_eq_ofList_toDigits, String.toList_ofList]
  have hall : ∀ c ∈ Nat.toDigits 10 n, c.isDigit = true := fun c hc =>
    Nat.isDigit_of_mem_toDigits (by decide) (by decide) hc
  obtain ⟨c, cs, hdigits⟩ := List.exists_cons_of_ne_nil (Nat.toDigits_ne_nil (n := n) (b := 10))
  rw [hdigits] at hall ⊢
  obtain ⟨hc, hcs⟩ := List.forall_mem_cons.1 hall
  -- The first digit is no blank, so the digits are read as an integer, all of them.
  have hblank : ¬ isBlank c = true := by
    intro hblank
    simp only [isBlank, Bool.or_eq_true, decide_eq_true_eq] at hblank
    rcases hblank with (((rfl | rfl) | rfl) | rfl) | rfl <;> simp at hc
  rw [lexeme?, if_neg hblank, if_pos hc, Lexeme.run, List.takeWhile_eq_self_iff.2 hcs,
    List.dropWhile_eq_nil_iff.2 hcs]

/-- The digits of a number stand for the number. -/
theorem ofDigitChars_toString (n : Nat) : Nat.ofDigitChars 10 (toString n).toList 0 = n := by
  rw [Nat.toString_eq_ofList_toDigits, String.toList_ofList, Nat.ofDigitChars_ten_toDigits]

theorem Spells.integer (n : Nat) (h : Spells cs ws) (hcs : Breaks cs) :
    Spells ((toString n).toList ++ cs) (⟨.integer, toString n⟩ :: ws) := by
  have hext : ∀ b ∈ cs.head?, ¬ Word.Extends ⟨.integer, toString n⟩ b := by
    intro b hb hdigit
    have hdigit : b.isDigit = true := hdigit
    have hpart : isNamePart b = true := by simp [isNamePart, Char.isAlphanum, hdigit]
    rw [hcs b hb] at hpart
    simp at hpart
  exact Spells.cons (w := ⟨.integer, toString n⟩) (isLexeme_toString n) rfl h hext

end Token

end ByteBricks
