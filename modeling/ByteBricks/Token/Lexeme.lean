import ByteBricks.Token

/-! # Lexemes

  The longest word at the front of a text. The first character of a word settles
  its class, but for `/`, which starts a comment only if another one follows. -/

namespace ByteBricks

namespace Token

/-- Whether the character may stand between tokens: a space, a tab, a line feed,
    a carriage return or a form feed. -/
def isBlank (c : Char) : Bool :=
  c = ' ' || c = '\t' || c = '\n' || c = '\r' || c = '\x0c'

/-- Whether a name may start with the character. -/
def isNameStart (c : Char) : Bool := c.isAlpha || c = '_'

/-- Whether a name may hold the character after its start. -/
def isNamePart (c : Char) : Bool := c.isAlphanum || c = '_'

/-- The kind of a word that is formed like a name. -/
def wordKind (word : List Char) : Kind :=
  if word = ['s', 't', 'r', 'u', 'c', 't'] then .structWord
  else if word = ['i', 'f'] then .ifWord
  else if word = ['e', 'l', 's', 'e'] then .elseWord
  else if word = ['w', 'h', 'i', 'l', 'e'] then .whileWord
  else .name

/-- The kind of a token that is a single symbol. -/
def symbolKind? (c : Char) : Option Kind :=
  match c with
  | '(' => some .openParen
  | ')' => some .closeParen
  | '[' => some .openBracket
  | ']' => some .closeBracket
  | '\x7b' => some .openBrace
  | '\x7d' => some .closeBrace
  | ';' => some .semicolon
  | ',' => some .comma
  | '.' => some .dot
  | '=' => some .equals
  | '+' => some .plus
  | '-' => some .minus
  | '*' => some .star
  | '/' => some .slash
  | '<' => some .openAngle
  | '>' => some .closeAngle
  | _ => none

/-- Splits the rest of a string literal after its opening quote: what belongs to
    the literal, its closing quote included, and what follows. A backslash takes
    the next character with it, which may not be a line feed; there is no split if
    the literal is never closed. -/
def splitQuoted : List Char → Option (List Char × List Char)
  | [] => none
  | '"' :: rest => some (['"'], rest)
  | '\\' :: c :: rest =>
    if c = '\n' then none
    else (splitQuoted rest).map fun (inside, after) => ('\\' :: c :: inside, after)
  | '\\' :: [] => none
  | c :: rest => (splitQuoted rest).map fun (inside, after) => (c :: inside, after)

/-- A word at the front of a text and the rest of the text. -/
structure Lexeme where
  /-- The kind of the word. -/
  kind : Kind
  /-- The characters of the word. -/
  text : List Char
  /-- What follows the word. -/
  rest : List Char

/-- The lexeme of the first character and those after it that satisfy `p`. -/
def Lexeme.run (kind : List Char → Kind) (p : Char → Bool) (c : Char) (cs : List Char) :
    Lexeme where
  kind := kind (c :: cs.takeWhile p)
  text := c :: cs.takeWhile p
  rest := cs.dropWhile p

/-- The longest word at the front of a text; there is none if no kind of word
    starts like this. -/
def lexeme? : List Char → Option Lexeme
  | [] => none
  | c :: cs =>
    if isBlank c then some (.run (fun _ => .whitespace) isBlank c cs)
    else if c.isDigit then some (.run (fun _ => .integer) Char.isDigit c cs)
    else if isNameStart c then some (.run wordKind isNamePart c cs)
    else if c = '"' then
      (splitQuoted cs).map fun (inside, after) => ⟨.string, c :: inside, after⟩
    else if c = '/' && cs.head? = some '/' then
      some (.run (fun _ => .lineComment) (· ≠ '\n') c cs)
    else (symbolKind? c).map fun kind => ⟨kind, [c], cs⟩

theorem append_of_splitQuoted {cs inside after : List Char}
    (h : splitQuoted cs = some (inside, after)) : inside ++ after = cs := by
  fun_induction splitQuoted cs generalizing inside after with
  | case1 => simp at h
  | case2 rest =>
    simp only [Option.some.injEq, Prod.mk.injEq] at h
    obtain ⟨rfl, rfl⟩ := h
    rfl
  | case3 => simp at h
  | case4 c rest hc ih =>
    obtain ⟨⟨i, a⟩, hs, he⟩ := Option.map_eq_some_iff.1 h
    simp only [Prod.mk.injEq] at he
    obtain ⟨rfl, rfl⟩ := he
    simp [ih hs]
  | case5 => simp at h
  | case6 c rest _ _ _ ih =>
    obtain ⟨⟨i, a⟩, hs, he⟩ := Option.map_eq_some_iff.1 h
    simp only [Prod.mk.injEq] at he
    obtain ⟨rfl, rfl⟩ := he
    simp [ih hs]

/-- A lexeme is either a run, a closed string literal or a symbol. -/
theorem lexeme?_cons_cases {c : Char} {cs : List Char} {l : Lexeme}
    (h : lexeme? (c :: cs) = some l) :
    (∃ kind p, l = .run kind p c cs) ∨
    (∃ inside after, splitQuoted cs = some (inside, after) ∧ l = ⟨.string, c :: inside, after⟩) ∨
    (∃ kind, symbolKind? c = some kind ∧ l = ⟨kind, [c], cs⟩) := by
  simp only [lexeme?] at h
  split at h
  · exact .inl ⟨_, _, (Option.some.inj h).symm⟩
  split at h
  · exact .inl ⟨_, _, (Option.some.inj h).symm⟩
  split at h
  · exact .inl ⟨_, _, (Option.some.inj h).symm⟩
  split at h
  · obtain ⟨⟨inside, after⟩, hs, he⟩ := Option.map_eq_some_iff.1 h
    exact .inr (.inl ⟨inside, after, hs, he.symm⟩)
  split at h
  · exact .inl ⟨_, _, (Option.some.inj h).symm⟩
  · obtain ⟨kind, hk, he⟩ := Option.map_eq_some_iff.1 h
    exact .inr (.inr ⟨kind, hk, he.symm⟩)

theorem text_append_rest_of_lexeme? {cs : List Char} {l : Lexeme} (h : lexeme? cs = some l) :
    l.text ++ l.rest = cs := by
  cases cs with
  | nil => simp [lexeme?] at h
  | cons c cs =>
    rcases lexeme?_cons_cases h with ⟨kind, p, rfl⟩ | ⟨inside, after, hs, rfl⟩ | ⟨kind, _, rfl⟩
    · simp [Lexeme.run]
    · simp [append_of_splitQuoted hs]
    · simp

theorem text_ne_nil_of_lexeme? {cs : List Char} {l : Lexeme} (h : lexeme? cs = some l) :
    l.text ≠ [] := by
  cases cs with
  | nil => simp [lexeme?] at h
  | cons c cs =>
    rcases lexeme?_cons_cases h with ⟨kind, p, rfl⟩ | ⟨inside, after, hs, rfl⟩ | ⟨kind, _, rfl⟩ <;>
      simp [Lexeme.run]

theorem length_rest_lt_of_lexeme? {cs : List Char} {l : Lexeme} (h : lexeme? cs = some l) :
    l.rest.length < cs.length := by
  have happend := congrArg List.length (text_append_rest_of_lexeme? h)
  have hpos := List.length_pos_iff.2 (text_ne_nil_of_lexeme? h)
  simp only [List.length_append] at happend
  omega

end Token

end ByteBricks
