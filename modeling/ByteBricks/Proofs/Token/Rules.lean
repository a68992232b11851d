import ByteBricks.Proofs.Token.Senses
import Mathlib.Computability.Language

/-! # The Rules of Tokens

  Every kind of token is a regular language. At each place of a source the longest text
  that belongs to any of these languages is cut off; a symbol or a keyword wins over another
  kind of the same text. The lexeme at the front of a text is this longest match. -/

namespace ByteBricks.Token

open Computability

/-! ### Languages -/

/-- The texts of one character of a class. -/
def oneOf (p : Char → Prop) : Language Char := {w | ∃ c, p c ∧ w = [c]}

/-- The language of a single text. -/
def exactly (text : String) : Language Char := {text.toList}

/-- The characters that separate words. -/
def Blank (c : Char) : Prop := c ∈ [' ', '\t', '\r', '\n', '\x0c']

/-- The decimal digits. -/
def Digit (c : Char) : Prop := '0' ≤ c ∧ c ≤ '9'

/-- The letters and the underscore. -/
def Letter (c : Char) : Prop := ('a' ≤ c ∧ c ≤ 'z') ∨ ('A' ≤ c ∧ c ≤ 'Z') ∨ c = '_'

/-- A part of a string literal: a character that needs no backslash, or a backslash with any
    character of the same line. -/
def quotedPart : Language Char :=
  oneOf (fun c => c ≠ '\\' ∧ c ≠ '"') + exactly "\\" * oneOf (· ≠ '\n')

/-- The texts that the rule of a kind matches. The end of a source has no rule. -/
def Kind.language (kind : Kind) : Language Char :=
  match kind with
  | .lineComment => exactly "//" * (oneOf (· ≠ '\n'))∗
  | .whitespace => oneOf Blank * (oneOf Blank)∗
  | .integer => oneOf Digit * (oneOf Digit)∗
  | .string => exactly "\"" * quotedPart∗ * exactly "\""
  | .name => oneOf Letter * (oneOf fun c => Letter c ∨ Digit c)∗
  | kind =>
    match kind.text? with
    | some text => exactly text
    | none => 0

/-! ### Classes of Characters -/

theorem isBlank_iff {c : Char} : isBlank c = true ↔ Blank c := by
  simp only [isBlank, Blank, Bool.or_eq_true, decide_eq_true_eq, List.mem_cons, List.not_mem_nil]
  tauto

theorem isDigit_iff {c : Char} : c.isDigit = true ↔ Digit c := by
  simp [Char.isDigit, Digit, Char.le_def]

theorem isNameStart_iff {c : Char} : isNameStart c = true ↔ Letter c := by
  have halpha : c.isAlpha = (c.isUpper || c.isLower) := rfl
  have hupper : c.isUpper = decide ('A' ≤ c ∧ c ≤ 'Z') := rfl
  have hlower : c.isLower = (decide ('a' ≤ c) && decide (c ≤ 'z')) := rfl
  simp only [isNameStart, Letter, halpha, hupper, hlower, Bool.or_eq_true, Bool.and_eq_true,
    decide_eq_true_eq]
  tauto

theorem isNamePart_iff {c : Char} : isNamePart c = true ↔ Letter c ∨ Digit c := by
  rw [← isNameStart_iff, ← isDigit_iff]
  simp only [isNamePart, isNameStart, Char.isAlphanum, Bool.or_eq_true]
  tauto

theorem Digit.not_blank {c : Char} (h : Digit c) : ¬ Blank c := by
  intro hblank
  simp only [Blank, List.mem_cons, List.not_mem_nil, or_false] at hblank
  rcases hblank with rfl | rfl | rfl | rfl | rfl <;> exact absurd h (by unfold Digit; decide)

theorem Letter.not_blank {c : Char} (h : Letter c) : ¬ Blank c := by
  intro hblank
  simp only [Blank, List.mem_cons, List.not_mem_nil, or_false] at hblank
  rcases hblank with rfl | rfl | rfl | rfl | rfl <;> exact absurd h (by unfold Letter; decide)

theorem Letter.not_digit {c : Char} (h : Letter c) : ¬ Digit c := by
  rintro ⟨hlow, hhigh⟩
  rcases h with ⟨h, -⟩ | ⟨h, -⟩ | rfl
  · exact absurd (Char.le_trans h hhigh) (by decide)
  · exact absurd (Char.le_trans h hhigh) (by decide)
  · exact absurd hhigh (by decide)

/-! ### Members of the Languages -/

theorem mem_kstar_oneOf {p : Char → Prop} {w : List Char} :
    w ∈ (oneOf p)∗ ↔ ∀ c ∈ w, p c := by
  rw [Language.mem_kstar]
  constructor
  · rintro ⟨parts, rfl, hparts⟩ c hc
    obtain ⟨part, hpart, hc⟩ := List.mem_flatten.1 hc
    obtain ⟨d, hd, rfl⟩ := hparts part hpart
    rw [List.mem_singleton.1 hc]
    exact hd
  · intro h
    refine ⟨w.map ([·]), by simp [← List.flatMap_def], fun part hpart => ?_⟩
    obtain ⟨c, hc, rfl⟩ := List.mem_map.1 hpart
    exact ⟨c, h c hc, rfl⟩

theorem mem_kstar_cons {l : Language Char} {v w : List Char} (hv : v ∈ l) (hw : w ∈ l∗) :
    v ++ w ∈ l∗ := by
  obtain ⟨parts, rfl, hparts⟩ := Language.mem_kstar.1 hw
  exact Language.mem_kstar.2 ⟨v :: parts, rfl, List.forall_mem_cons.2 ⟨hv, hparts⟩⟩

/-- A run of characters begins with one class and goes on with another. -/
theorem mem_run {p q : Char → Prop} {w : List Char} :
    w ∈ oneOf p * (oneOf q)∗ ↔ ∃ c cs, w = c :: cs ∧ p c ∧ ∀ d ∈ cs, q d := by
  rw [Language.mem_mul]
  constructor
  · rintro ⟨_, ⟨c, hc, rfl⟩, cs, hcs, rfl⟩
    exact ⟨c, cs, rfl, hc, mem_kstar_oneOf.1 hcs⟩
  · rintro ⟨c, cs, rfl, hc, hcs⟩
    exact ⟨[c], ⟨c, hc, rfl⟩, cs, mem_kstar_oneOf.2 hcs, rfl⟩

theorem mem_lineComment {w : List Char} :
    w ∈ Kind.language .lineComment ↔ ∃ cs, w = '/' :: '/' :: cs ∧ ∀ d ∈ cs, d ≠ '\n' := by
  show w ∈ exactly "//" * _ ↔ _
  rw [Language.mem_mul]
  constructor
  · rintro ⟨_, rfl, cs, hcs, rfl⟩
    exact ⟨cs, rfl, mem_kstar_oneOf.1 hcs⟩
  · rintro ⟨cs, rfl, hcs⟩
    exact ⟨['/', '/'], rfl, cs, mem_kstar_oneOf.2 hcs, rfl⟩

/-- The rest of a string literal goes on to the first quote that no backslash takes. -/
theorem splitQuoted_of_parts {body : List Char} (h : body ∈ quotedPart∗) (rest : List Char) :
    splitQuoted (body ++ '"' :: rest) = some (body ++ ['"'], rest) := by
  obtain ⟨parts, rfl, hparts⟩ := Language.mem_kstar.1 h
  clear h
  induction parts with
  | nil => rfl
  | cons part parts ih =>
    obtain ⟨hpart, hparts⟩ := List.forall_mem_cons.1 hparts
    have ih := ih hparts
    rw [List.flatten_cons, List.append_assoc]
    rcases hpart with ⟨c, ⟨hslash, hquote⟩, rfl⟩ | ⟨_, rfl, _, ⟨c, hc, rfl⟩, rfl⟩
    · show splitQuoted (c :: (parts.flatten ++ '"' :: rest)) = _
      rw [splitQuoted, ih]
      · rfl
      · exact hquote
      · exact fun _ _ h => absurd h hslash
      · exact fun h => absurd h hslash
    · show splitQuoted ('\\' :: c :: (parts.flatten ++ '"' :: rest)) = _
      rw [splitQuoted, if_neg hc, ih]
      rfl

theorem parts_of_splitQuoted {cs inside after : List Char}
    (h : splitQuoted cs = some (inside, after)) : ∃ body ∈ quotedPart∗, inside = body ++ ['"'] := by
  fun_induction splitQuoted cs generalizing inside after with
  | case1 => simp at h
  | case2 rest =>
    cases h
    exact ⟨[], Language.nil_mem_kstar _, rfl⟩
  | case3 => simp at h
  | case4 c rest hc ih =>
    obtain ⟨⟨i, a⟩, hs, he⟩ := Option.map_eq_some_iff.1 h
    cases he
    obtain ⟨body, hbody, rfl⟩ := ih hs
    have hpart : ['\\', c] ∈ quotedPart := .inr ⟨['\\'], rfl, [c], ⟨c, hc, rfl⟩, rfl⟩
    exact ⟨'\\' :: c :: body, mem_kstar_cons hpart hbody, rfl⟩
  | case5 => simp at h
  | case6 c rest hquote hslash hlone ih =>
    obtain ⟨⟨i, a⟩, hs, he⟩ := Option.map_eq_some_iff.1 h
    cases he
    obtain ⟨body, hbody, rfl⟩ := ih hs
    have hc : c ≠ '\\' := by
      intro hc
      cases rest with
      | nil => exact hlone hc rfl
      | cons d rest => exact hslash d rest hc rfl
    have hpart : [c] ∈ quotedPart := .inl ⟨c, ⟨hc, hquote⟩, rfl⟩
    exact ⟨c :: body, mem_kstar_cons hpart hbody, rfl⟩

theorem mem_string {w : List Char} : w ∈ Kind.language .string ↔
    ∃ inside, w = '"' :: inside ∧ splitQuoted inside = some (inside, []) := by
  show w ∈ exactly "\"" * _ * _ ↔ _
  rw [mul_assoc, Language.mem_mul]
  constructor
  · rintro ⟨_, rfl, _, ⟨body, hbody, _, rfl, rfl⟩, rfl⟩
    exact ⟨body ++ ['"'], rfl, splitQuoted_of_parts hbody []⟩
  · rintro ⟨inside, rfl, h⟩
    obtain ⟨body, hbody, rfl⟩ := parts_of_splitQuoted h
    exact ⟨['"'], rfl, _, ⟨body, hbody, ['"'], rfl, rfl⟩, rfl⟩

/-- Every other rule matches a single text. -/
theorem mem_of_text? {kind : Kind} {text : String} (h : kind.text? = some text)
    {w : List Char} : w ∈ kind.language ↔ w = text.toList := by
  cases kind <;> cases h <;> exact Iff.rfl

theorem not_mem_endOfInput {w : List Char} : w ∉ Kind.language .endOfInput :=
  Language.notMem_zero w

/-- A rule matches no empty text. -/
theorem ne_nil_of_mem {kind : Kind} {w : List Char} (h : w ∈ kind.language) : w ≠ [] := by
  rintro rfl
  cases htext : kind.text? with
  | some text =>
    rw [mem_of_text? htext] at h
    cases kind <;> cases htext <;> cases h
  | none =>
    cases kind <;> cases htext
    case none.lineComment.refl => simp [mem_lineComment] at h
    case none.whitespace.refl | none.integer.refl | none.name.refl =>
      obtain ⟨c, cs, hw, -⟩ := mem_run.1 h
      cases hw
    case none.string.refl => simp [mem_string] at h
    case none.endOfInput.refl => exact not_mem_endOfInput h

/-! ### The Branches of the Lexeme -/

section Branches

variable {c : Char} {cs : List Char}

theorem lexeme?_blank (hc : Blank c) :
    lexeme? (c :: cs) = some (.run (fun _ => .whitespace) isBlank c cs) := by
  rw [lexeme?, if_pos (isBlank_iff.2 hc)]

theorem lexeme?_digit (hc : Digit c) :
    lexeme? (c :: cs) = some (.run (fun _ => .integer) Char.isDigit c cs) := by
  have hblank : ¬ isBlank c = true := isBlank_iff.not.2 hc.not_blank
  rw [lexeme?, if_neg hblank, if_pos (isDigit_iff.2 hc)]

theorem lexeme?_letter (hc : Letter c) :
    lexeme? (c :: cs) = some (.run wordKind isNamePart c cs) := by
  have hblank : ¬ isBlank c = true := isBlank_iff.not.2 hc.not_blank
  have hdigit : ¬ c.isDigit = true := isDigit_iff.not.2 hc.not_digit
  rw [lexeme?, if_neg hblank, if_neg hdigit, if_pos (isNameStart_iff.2 hc)]

theorem lexeme?_quote : lexeme? ('"' :: cs) =
    (splitQuoted cs).map fun (inside, after) => ⟨.string, '"' :: inside, after⟩ := rfl

theorem lexeme?_comment : lexeme? ('/' :: '/' :: cs) =
    some (.run (fun _ => .lineComment) (· ≠ '\n') '/' ('/' :: cs)) := rfl

theorem lexeme?_symbol {kind : Kind} (hc : symbolKind? c = some kind)
    (hcomment : c = '/' → cs.head? ≠ some '/') : lexeme? (c :: cs) = some ⟨kind, [c], cs⟩ := by
  unfold symbolKind? at hc
  split at hc <;> cases hc
  case h_14 =>
    have hhead : ('/' = '/' && cs.head? = some '/') = false := by simpa using hcomment rfl
    show (if ('/' = '/' && cs.head? = some '/') = true then _ else _) = _
    rw [hhead]
    rfl
  all_goals rfl

end Branches

/-! ### The Text of a Lexeme -/

theorem text?_of_symbolKind? {c : Char} {kind : Kind} (h : symbolKind? c = some kind) :
    kind.text? = some (String.ofList [c]) := by
  unfold symbolKind? at h
  split at h <;> cases h <;> rfl

/-- A word is a keyword or a name. -/
theorem mem_wordKind {c : Char} {cs : List Char} (hc : Letter c)
    (hcs : ∀ d ∈ cs, Letter d ∨ Digit d) : c :: cs ∈ (wordKind (c :: cs)).language := by
  cases htext : (wordKind (c :: cs)).text? with
  | some text => exact (mem_of_text? htext).2 (text_of_wordKind htext)
  | none =>
    have hname : wordKind (c :: cs) = .name := by
      rcases wordKind_cases (c :: cs) with h | h | h | h | h
      · simp [h, Kind.text?] at htext
      · simp [h, Kind.text?] at htext
      · simp [h, Kind.text?] at htext
      · simp [h, Kind.text?] at htext
      · exact h
    rw [hname]
    exact mem_run.2 ⟨c, cs, rfl, hc, hcs⟩

/-- The rule of its kind matches the text of a lexeme. -/
theorem mem_of_lexeme? {cs : List Char} {l : Lexeme} (h : lexeme? cs = some l) :
    l.text ∈ l.kind.language := by
  cases cs with
  | nil => simp [lexeme?] at h
  | cons c cs =>
    unfold lexeme? at h
    dsimp only at h
    split at h
    · next hc =>
      cases h
      refine mem_run.2 ⟨c, _, rfl, isBlank_iff.1 hc, fun d hd => ?_⟩
      exact isBlank_iff.1 (List.mem_takeWhile_imp hd)
    split at h
    · next hc =>
      cases h
      refine mem_run.2 ⟨c, _, rfl, isDigit_iff.1 hc, fun d hd => ?_⟩
      exact isDigit_iff.1 (List.mem_takeWhile_imp hd)
    split at h
    · next hc =>
      cases h
      refine mem_wordKind (isNameStart_iff.1 hc) fun d hd => ?_
      exact isNamePart_iff.1 (List.mem_takeWhile_imp hd)
    split at h
    · next hc =>
      obtain ⟨⟨inside, after⟩, hs, rfl⟩ := Option.map_eq_some_iff.1 h
      exact mem_string.2 ⟨inside, by rw [hc], splitQuoted_text hs⟩
    split at h
    · next hc =>
      cases h
      obtain ⟨rfl, hhead⟩ : c = '/' ∧ cs.head? = some '/' := by simpa using hc
      obtain ⟨cs, rfl⟩ := List.head?_eq_some_iff.1 hhead
      refine mem_lineComment.2 ⟨cs.takeWhile (· ≠ '\n'), rfl, fun d hd => ?_⟩
      simpa using List.mem_takeWhile_imp hd
    · obtain ⟨kind, hkind, rfl⟩ := Option.map_eq_some_iff.1 h
      exact (mem_of_text? (text?_of_symbolKind? hkind)).2 (String.toList_ofList).symm

/-! ### The Longest Match -/

/-- The lexeme in front of a text takes in a match, and it has its kind if that is a symbol
    or a keyword that fills the lexeme. -/
structure Lexeme.Covers (l : Lexeme) (kind : Kind) (w : List Char) : Prop where
  length_le : w.length ≤ l.text.length
  kind_eq : l.text.length = w.length → kind.text?.isSome → l.kind = kind

theorem length_le_takeWhile {p : Char → Bool} {cs : List Char} (rest : List Char)
    (h : ∀ d ∈ cs, p d = true) :
    cs.length ≤ ((cs ++ rest).takeWhile p).length := by
  rw [List.takeWhile_append_of_pos h, List.length_append]
  exact Nat.le_add_right _ _

/-- A kind of a single text is that of a symbol or of a keyword. -/
theorem symbol_or_keyword {kind : Kind} {text : String} (h : kind.text? = some text) :
    (∃ c, text.toList = [c] ∧ symbolKind? c = some kind) ∨
      wordKind text.toList = kind ∧ text.toList ∈ Kind.language .name := by
  cases kind <;> cases h
  case structWord | ifWord | elseWord | whileWord =>
    refine .inr ⟨rfl, mem_run.2 ⟨_, _, rfl, isNameStart_iff.1 rfl, fun d hd => ?_⟩⟩
    exact isNamePart_iff.1 (List.all_eq_true.1 rfl d hd)
  all_goals exact .inl ⟨_, rfl, rfl⟩

theorem covers_of_symbol {c : Char} {kind : Kind} (hc : symbolKind? c = some kind)
    (rest : List Char) : ∃ l, lexeme? (c :: rest) = some l ∧ l.Covers kind [c] := by
  by_cases hcomment : c = '/' ∧ rest.head? = some '/'
  · -- Two slashes begin a comment, which is longer than the symbol.
    obtain ⟨rfl, hhead⟩ := hcomment
    obtain ⟨rest, rfl⟩ := List.head?_eq_some_iff.1 hhead
    refine ⟨_, lexeme?_comment, ?_, fun hlength _ => ?_⟩
    · simp [Lexeme.run]
    · simp [Lexeme.run] at hlength
  · have hsymbol : lexeme? (c :: rest) = some _ :=
      lexeme?_symbol hc fun hslash hhead => hcomment ⟨hslash, hhead⟩
    exact ⟨_, hsymbol, Nat.le_refl _, fun _ _ => rfl⟩

theorem covers_of_word {w : List Char} (h : w ∈ Kind.language .name) (rest : List Char) :
    ∃ l, lexeme? (w ++ rest) = some l ∧ w.length ≤ l.text.length ∧
      (l.text.length = w.length → l.kind = wordKind w) := by
  obtain ⟨c, cs, rfl, hc, hcs⟩ := mem_run.1 h
  have hrun : (cs ++ rest).takeWhile isNamePart = cs ++ rest.takeWhile isNamePart :=
    List.takeWhile_append_of_pos fun d hd => isNamePart_iff.2 (hcs d hd)
  refine ⟨_, lexeme?_letter hc, ?_, fun hlength => ?_⟩
  · simp [Lexeme.run, hrun]
  · have hnil : rest.takeWhile isNamePart = [] := by
      apply List.eq_nil_of_length_eq_zero
      simpa [Lexeme.run, hrun] using hlength
    simp [Lexeme.run, hrun, hnil]

/-- Whatever a rule matches at the front of a text is covered by the lexeme there. -/
theorem covers_of_mem {kind : Kind} {w : List Char} (h : w ∈ kind.language) (rest : List Char) :
    ∃ l, lexeme? (w ++ rest) = some l ∧ l.Covers kind w := by
  cases htext : kind.text? with
  | none =>
    -- A rule for many texts wins over no other rule.
    have hcovers {l : Lexeme} (hl : w.length ≤ l.text.length) : l.Covers kind w :=
      ⟨hl, fun _ hkind => by simp [htext] at hkind⟩
    cases kind <;> cases htext
    case none.lineComment.refl =>
      obtain ⟨cs, rfl, hcs⟩ := mem_lineComment.1 h
      refine ⟨_, lexeme?_comment, hcovers ?_⟩
      have hlong : ∀ d ∈ '/' :: cs, decide (d ≠ '\n') = true := by
        simpa using hcs
      simpa [Lexeme.run] using length_le_takeWhile rest hlong
    case none.whitespace.refl =>
      obtain ⟨c, cs, rfl, hc, hcs⟩ := mem_run.1 h
      refine ⟨_, lexeme?_blank hc, hcovers ?_⟩
      simpa [Lexeme.run] using length_le_takeWhile rest fun d hd => isBlank_iff.2 (hcs d hd)
    case none.integer.refl =>
      obtain ⟨c, cs, rfl, hc, hcs⟩ := mem_run.1 h
      refine ⟨_, lexeme?_digit hc, hcovers ?_⟩
      simpa [Lexeme.run] using length_le_takeWhile rest fun d hd => isDigit_iff.2 (hcs d hd)
    case none.string.refl =>
      obtain ⟨inside, rfl, hinside⟩ := mem_string.1 h
      refine ⟨⟨.string, '"' :: inside, rest⟩, ?_, hcovers (Nat.le_refl _)⟩
      rw [List.cons_append, lexeme?_quote, splitQuoted_append hinside]
      rfl
    case none.name.refl =>
      obtain ⟨l, hl, hlength, -⟩ := covers_of_word h rest
      exact ⟨l, hl, hcovers hlength⟩
    case none.endOfInput.refl => exact absurd h not_mem_endOfInput
  | some text =>
    obtain rfl := (mem_of_text? htext).1 h
    rcases symbol_or_keyword htext with ⟨c, hw, hc⟩ | ⟨rfl, hword⟩
    · rw [hw]
      exact covers_of_symbol hc rest
    · obtain ⟨l, hl, hlength, hkind⟩ := covers_of_word hword rest
      exact ⟨l, hl, hlength, fun h _ => hkind h⟩

/-- The longest match at the front of a text: the rule of the kind matches what is cut off, no
    rule matches a longer part of the text, and a symbol or keyword is not taken for anything
    else. -/
structure IsLongest (kind : Kind) (w rest : List Char) : Prop where
  matched : w ∈ kind.language
  length_le : ∀ (kind' : Kind) (w' rest' : List Char), w' ++ rest' = w ++ rest → w' ∈ kind'.language →
    w'.length ≤ w.length
  preferred : ∀ kind' : Kind, w ∈ kind'.language → kind'.text?.isSome → kind' = kind

/-- No rule matches at the front of a text. -/
def Unmatched (cs : List Char) : Prop := ∀ kind w rest, w ++ rest = cs → w ∉ Kind.language kind

/-- The only kind for many texts whose texts begin with a character. -/
def runKind (c : Char) : Kind :=
  if isBlank c then .whitespace
  else if c.isDigit then .integer
  else if isNameStart c then .name
  else if c = '"' then .string
  else .lineComment

theorem eq_runKind {kind : Kind} {w : List Char} (h : w ∈ kind.language)
    (htext : kind.text? = none) : ∃ c cs, w = c :: cs ∧ kind = runKind c := by
  cases kind <;> cases htext
  case lineComment.refl =>
    obtain ⟨cs, rfl, -⟩ := mem_lineComment.1 h
    exact ⟨_, _, rfl, rfl⟩
  case whitespace.refl =>
    obtain ⟨c, cs, rfl, hc, -⟩ := mem_run.1 h
    exact ⟨c, cs, rfl, by simp [runKind, isBlank_iff, hc]⟩
  case integer.refl =>
    obtain ⟨c, cs, rfl, hc, -⟩ := mem_run.1 h
    exact ⟨c, cs, rfl, by simp [runKind, isBlank_iff, isDigit_iff, hc, hc.not_blank]⟩
  case string.refl =>
    obtain ⟨inside, rfl, -⟩ := mem_string.1 h
    exact ⟨_, _, rfl, rfl⟩
  case name.refl =>
    obtain ⟨c, cs, rfl, hc, -⟩ := mem_run.1 h
    exact ⟨c, cs, rfl, by
      simp [runKind, isBlank_iff, isDigit_iff, isNameStart_iff, hc, hc.not_blank, hc.not_digit]⟩
  case endOfInput.refl => exact absurd h not_mem_endOfInput

/-- Two kinds for many texts have no text in common. -/
theorem kind_eq_of_mem {kind kind' : Kind} {w : List Char} (h : w ∈ kind.language)
    (h' : w ∈ kind'.language) (htext : kind.text? = none) (htext' : kind'.text? = none) :
    kind = kind' := by
  obtain ⟨c, cs, rfl, rfl⟩ := eq_runKind h htext
  obtain ⟨d, ds, hw, rfl⟩ := eq_runKind h' htext'
  cases hw
  rfl

/-- **Main theorem.** The lexeme at the front of a text is the longest match there. -/
theorem lexeme?_eq_some_iff {kind : Kind} {w rest : List Char} :
    lexeme? (w ++ rest) = some ⟨kind, w, rest⟩ ↔ IsLongest kind w rest := by
  constructor
  · intro h
    refine ⟨mem_of_lexeme? h, fun kind' w' rest' happend hmem => ?_, fun kind' hmem htext => ?_⟩
    · obtain ⟨l, hl, hcovers⟩ := covers_of_mem hmem rest'
      rw [happend, h] at hl
      cases hl
      exact hcovers.length_le
    · obtain ⟨l, hl, hcovers⟩ := covers_of_mem hmem rest
      rw [h] at hl
      cases hl
      exact (hcovers.kind_eq rfl htext).symm
  · intro h
    obtain ⟨⟨kind', w', rest'⟩, hl, hcovers⟩ := covers_of_mem h.matched rest
    have happend : w' ++ rest' = w ++ rest := text_append_rest_of_lexeme? hl
    have hmem : w' ∈ kind'.language := mem_of_lexeme? hl
    have hlength : w'.length = w.length :=
      Nat.le_antisymm (h.length_le kind' w' rest' happend hmem) hcovers.length_le
    obtain ⟨hw, hrest⟩ := List.append_inj happend hlength
    subst hw hrest
    have hkind : kind' = kind := by
      cases htext' : kind'.text? with
      | some text => exact h.preferred kind' hmem (by simp [htext'])
      | none =>
        cases htext : kind.text? with
        | some text => exact hcovers.kind_eq rfl (by simp [htext])
        | none => exact kind_eq_of_mem hmem h.matched htext' htext
    rw [hl, hkind]

/-- There is no lexeme where no rule matches. -/
theorem lexeme?_eq_none_iff {cs : List Char} : lexeme? cs = none ↔ Unmatched cs := by
  constructor
  · intro h kind w rest happend hmem
    obtain ⟨l, hl, -⟩ := covers_of_mem hmem rest
    rw [happend, h] at hl
    cases hl
  · intro h
    cases hl : lexeme? cs with
    | none => rfl
    | some l =>
      exact absurd (mem_of_lexeme? hl) (h l.kind l.text l.rest (text_append_rest_of_lexeme? hl))

end ByteBricks.Token
