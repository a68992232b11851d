import ByteBricks.Proofs.Token.Words

/-! # Senses

  Parentheses and semicolons only keep other words together or apart, and leading zeros
  add nothing to an integer. The sense of a word is what is left of it without them. -/

namespace ByteBricks.Token

/-- What a word says, however it is spelled. -/
inductive Sense where
  /-- An integer of this value. -/
  | value (n : Nat)
  /-- Any other word. -/
  | word (w : Word)
  deriving DecidableEq

/-- The sense of a word. Parentheses and semicolons have none. -/
def Word.sense? (w : Word) : Option Sense :=
  match w.kind with
  | .openParen | .closeParen | .semicolon => none
  | .integer => some (.value (Nat.ofDigitChars 10 w.text.toList 0))
  | _ => some (.word w)

/-- The senses of words, in the order of the words. -/
def senses (ws : List Word) : List Sense := ws.filterMap Word.sense?

@[simp] theorem senses_append (a b : List Word) : senses (a ++ b) = senses a ++ senses b :=
  List.filterMap_append

theorem senses_cons (w : Word) (ws : List Word) : senses (w :: ws) = senses [w] ++ senses ws :=
  senses_append [w] ws

theorem senses_between (first last : Word) {a b : List Word} (h : senses a = senses b) :
    senses (first :: (a ++ [last])) = senses (first :: (b ++ [last])) := by
  rw [senses_cons, senses_append, h, ← senses_append, ← senses_cons]

theorem senses_singleton_of_none {w : Word} (h : w.sense? = none) : senses [w] = [] := by
  simp [senses, h]

theorem senses_semicolon {t : Token} (h : t.kind = .semicolon) : senses [t.word] = [] :=
  senses_singleton_of_none (by simp [word, Word.sense?, h])

/-- Integers of one value have one sense. -/
theorem senses_integer {text text' : String}
    (h : Nat.ofDigitChars 10 text.toList 0 = Nat.ofDigitChars 10 text'.toList 0) :
    senses [⟨.integer, text⟩] = senses [⟨.integer, text'⟩] := by
  simp [senses, Word.sense?, h]

/-! ### Symbols and Keywords -/

/-- The text of the kind, if all words of the kind are written alike. -/
def Kind.text? : Kind → Option String
  | .openParen => some "("
  | .closeParen => some ")"
  | .openBracket => some "["
  | .closeBracket => some "]"
  | .openBrace => some "\x7b"
  | .closeBrace => some "\x7d"
  | .semicolon => some ";"
  | .comma => some ","
  | .dot => some "."
  | .equals => some "="
  | .plus => some "+"
  | .minus => some "-"
  | .star => some "*"
  | .slash => some "/"
  | .openAngle => some "<"
  | .closeAngle => some ">"
  | .structWord => some "struct"
  | .ifWord => some "if"
  | .elseWord => some "else"
  | .whileWord => some "while"
  | .lineComment | .whitespace | .integer | .string | .name | .endOfInput => none

theorem text_of_wordKind {cs : List Char} {text : String}
    (h : (wordKind cs).text? = some text) : cs = text.toList := by
  unfold wordKind at h
  split_ifs at h with hstruct hif helse hwhile
  · cases h
    exact hstruct
  · cases h
    exact hif
  · cases h
    exact helse
  · cases h
    exact hwhile
  · simp [Kind.text?] at h

theorem text_of_symbolKind? {c : Char} {kind : Kind} {text : String}
    (hkind : symbolKind? c = some kind) (h : kind.text? = some text) : [c] = text.toList := by
  unfold symbolKind? at hkind
  split at hkind <;> cases hkind <;> cases h <;> rfl

/-- A symbol or a keyword is known by its kind. -/
theorem text_of_lexeme? {cs : List Char} {l : Lexeme} {text : String} (h : lexeme? cs = some l)
    (htext : l.kind.text? = some text) : l.text = text.toList := by
  cases cs with
  | nil => simp [lexeme?] at h
  | cons c cs =>
    unfold lexeme? at h
    dsimp only at h
    split at h
    · cases h
      simp [Lexeme.run, Kind.text?] at htext
    split at h
    · cases h
      simp [Lexeme.run, Kind.text?] at htext
    split at h
    · cases h
      exact text_of_wordKind htext
    split at h
    · obtain ⟨⟨inside, after⟩, hs, rfl⟩ := Option.map_eq_some_iff.1 h
      simp [Kind.text?] at htext
    split at h
    · cases h
      simp [Lexeme.run, Kind.text?] at htext
    · obtain ⟨kind, hkind, rfl⟩ := Option.map_eq_some_iff.1 h
      exact text_of_symbolKind? hkind htext

theorem word_eq {t : Token} {kind : Kind} {text : String} (ht : t.word.IsLexeme)
    (hkind : t.kind = kind) (htext : kind.text? = some text) : t.word = ⟨kind, text⟩ := by
  subst hkind
  have hsame := String.toList_injective (text_of_lexeme? ht htext)
  rw [← hsame]
  rfl

/-! ### The End of a Source -/

/-- The end of a source has no text. -/
theorem word_endOfInput (cs : List Char) (offset line : Nat) :
    ∀ t ∈ (scanFrom cs offset line).tokens, t.kind = .endOfInput →
      t.word = ⟨.endOfInput, ""⟩ := by
  fun_induction scanFrom cs offset line with
  | case1 offset line => simp [word]
  | case2 => simp
  | case3 offset line c rest l hl hlt text htrivia ih => exact ih
  | case4 offset line c rest l hl hlt text htrivia ih =>
    refine List.forall_mem_cons.2 ⟨?_, ih⟩
    intro hend
    exact absurd hend (kind_ne_endOfInput hl)

end ByteBricks.Token
