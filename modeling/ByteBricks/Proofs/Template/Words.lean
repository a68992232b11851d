import Mathlib.Data.List.Forall2
import ByteBricks.Proofs.Token.Words
import ByteBricks.Template.Text

/-! # The Words of a Template

  The text of a template is a text of words: cut into tokens again, it gives the words
  that its statements are written with. The blanks of the text only matter around names
  and slashes. -/

namespace ByteBricks

open Token (Word Spells Breaks)

/-- The word that a name is written as. -/
def Name.word (n : Name) : Word := ⟨.name, n.text⟩

namespace Template

/-! ### Words -/

/-- The words of a reference to a field. -/
def Access.words : Access → List Word
  | .field name => [name.word]
  | .member owner part => [owner.word, ⟨.dot, "."⟩, part.word]

/-- The word of an operator. -/
def ArithOp.word : ArithOp → Word
  | add => ⟨.plus, "+"⟩
  | sub => ⟨.minus, "-"⟩
  | mul => ⟨.star, "*"⟩
  | div => ⟨.slash, "/"⟩

/-- The words of an expression. -/
def Expr.words : Expr → List Word
  | .literal _ value => [⟨.integer, toString value.toInt⟩]
  | .access _ _ field => field.words
  | .element _ _ _ field index =>
    field.words ++ ⟨.openBracket, "["⟩ :: (index.words ++ [⟨.closeBracket, "]"⟩])
  | .arith _ _ op lhs rhs =>
    ⟨.openParen, "("⟩ :: (lhs.words ++ op.word :: (rhs.words ++ [⟨.closeParen, ")"⟩]))

/-- The words of a declaration. -/
def Declaration.words (d : Declaration) : List Word :=
  match d.count with
  | none => [d.typeName.word, d.name.word]
  | some count => d.typeName.word :: ⟨.openBracket, "["⟩ ::
      (count.words ++ [⟨.closeBracket, "]"⟩, d.name.word])

/-- The words of parts in braces, each of which is followed by a semicolon. -/
def bracedWords (parts : List (List Word)) : List Word :=
  ⟨.openBrace, "\x7b"⟩ :: (parts.flatMap (· ++ [⟨.semicolon, ";"⟩]) ++ [⟨.closeBrace, "\x7d"⟩])

mutual

/-- The words of a statement. The end of the script has none. -/
def Statement.words : Statement → List Word
  | .struct _ name members =>
    ⟨.structWord, "struct"⟩ :: name.word :: bracedWords (members.map Declaration.words)
  | .field d => d.words
  | .block _ body => bracedWords (Statement.wordsAll body)
  | .expression e => e.words
  | .scriptEnd _ => []

/-- The words of statements. -/
def Statement.wordsAll : List Statement → List (List Word)
  | [] => []
  | s :: rest => s.words :: Statement.wordsAll rest

end

/-! ### Printable Statements -/

/-- Whether all names of the reference are words. -/
def Access.Printable : Access → Prop
  | .field name => name.word.IsLexeme
  | .member owner part => owner.word.IsLexeme ∧ part.word.IsLexeme

/-- Whether all names are words and no integer has a sign. -/
def Expr.Printable : Expr → Prop
  | .literal _ value => 0 ≤ value.toInt
  | .access _ _ field => field.Printable
  | .element _ _ _ field index => field.Printable ∧ index.Printable
  | .arith _ _ _ lhs rhs => lhs.Printable ∧ rhs.Printable

/-- Whether all names are words and no integer has a sign. -/
structure Declaration.Printable (d : Declaration) : Prop where
  typeName : d.typeName.word.IsLexeme
  name : d.name.word.IsLexeme
  count : ∀ e, d.count = some e → e.Printable

mutual

/-- Whether all names are words, no integer has a sign, and no braces are empty. The end of
    the script cannot be written down. -/
def Statement.Printable : Statement → Prop
  | .struct _ name members =>
    name.word.IsLexeme ∧ members ≠ [] ∧ ∀ d ∈ members, d.Printable
  | .field d => d.Printable
  | .block _ body => body ≠ [] ∧ Statement.PrintableAll body
  | .expression e => e.Printable
  | .scriptEnd _ => False

/-- Whether all statements can be written down. -/
def Statement.PrintableAll : List Statement → Prop
  | [] => True
  | s :: rest => s.Printable ∧ Statement.PrintableAll rest

end

/-! ### Cutting the Text -/

/-- In front of a text that breaks words, the text is cut into the words. -/
def Prints (text : String) (words : List Word) : Prop :=
  ∀ cs ws, Spells cs ws → Breaks cs → Spells (text.toList ++ cs) (words ++ ws)

theorem breaks_cons {b : Char} (hb : Token.isNamePart b = false) (cs : List Char) :
    Breaks (b :: cs) := by
  intro c hc
  cases hc
  exact hb

theorem prints_access {a : Access} (ha : a.Printable) : Prints a.text a.words := by
  intro cs ws h hcs
  cases a with
  | field name => exact .name ha h hcs
  | member owner part =>
    have htext : (Access.member owner part).text.toList ++ cs =
        owner.text.toList ++ (".".toList ++ (part.text.toList ++ cs)) := by
      simp [Access.text]
    rw [htext]
    refine .name ha.1 (.cons (w := ⟨.dot, "."⟩) (by decide) rfl ?_ fun _ _ => id)
      (breaks_cons rfl _)
    exact .name ha.2 h hcs

theorem prints_expr {e : Expr} (he : e.Printable) : Prints e.text e.words := by
  induction e with
  | literal m value =>
    intro cs ws h hcs
    -- Without a sign, the text is the digits of a natural number.
    obtain ⟨n, hn⟩ := Int.eq_ofNat_of_zero_le he
    rw [Expr.text, Expr.words, hn]
    exact .integer n h hcs
  | access m t field => exact prints_access he
  | element m t baseMark field index ih =>
    intro cs ws h hcs
    have htext : (Expr.element m t baseMark field index).text.toList ++ cs =
        field.text.toList ++ ("[".toList ++ (index.text.toList ++ ("]".toList ++ cs))) := by
      simp [Expr.text]
    have hwords : (Expr.element m t baseMark field index).words ++ ws =
        field.words ++ ⟨.openBracket, "["⟩ :: (index.words ++ ⟨.closeBracket, "]"⟩ :: ws) := by
      simp [Expr.words]
    rw [htext, hwords]
    refine prints_access he.1 _ _ ?_ (breaks_cons rfl _)
    refine .cons (w := ⟨.openBracket, "["⟩) (by decide) rfl ?_ fun _ _ => id
    refine ih he.2 _ _ ?_ (breaks_cons rfl _)
    exact .cons (w := ⟨.closeBracket, "]"⟩) (by decide) rfl h fun _ _ => id
  | arith m t op lhs rhs ihl ihr =>
    intro cs ws h hcs
    have htext : (Expr.arith m t op lhs rhs).text.toList ++ cs = "(".toList ++ (lhs.text.toList ++
        ' ' :: (op.word.text.toList ++ ' ' :: (rhs.text.toList ++ (")".toList ++ cs)))) := by
      have hop : op.symbol = op.word.text := by cases op <;> rfl
      simp [Expr.text, hop]
    have hwords : (Expr.arith m t op lhs rhs).words ++ ws = ⟨.openParen, "("⟩ :: (lhs.words ++
        op.word :: (rhs.words ++ ⟨.closeParen, ")"⟩ :: ws)) := by
      simp [Expr.words]
    rw [htext, hwords]
    refine .cons (w := ⟨.openParen, "("⟩) (by decide) rfl ?_ fun _ _ => id
    refine ihl he.1 _ _ (.blank ?_) (breaks_cons rfl _)
    -- The blank behind a slash keeps it from being the start of a comment.
    refine .cons (by cases op <;> decide) (by cases op <;> rfl) (.blank ?_) ?_
    · refine ihr he.2 _ _ ?_ (breaks_cons rfl _)
      exact .cons (w := ⟨.closeParen, ")"⟩) (by decide) rfl h fun _ _ => id
    · intro b hb
      cases hb
      cases op <;> simp [ArithOp.word, Word.Extends, Token.Lexeme.Extends]

theorem prints_declaration {d : Declaration} (hd : d.Printable) : Prints d.text d.words := by
  intro cs ws h hcs
  obtain ⟨m, typeName, count, name⟩ := d
  cases count with
  | none =>
    have htext : (Declaration.mk m typeName none name).text.toList ++ cs =
        typeName.text.toList ++ ' ' :: (name.text.toList ++ cs) := by
      simp [Declaration.text]
    rw [htext]
    exact .name hd.typeName (.blank (.name hd.name h hcs)) (breaks_cons rfl _)
  | some count =>
    have htext : (Declaration.mk m typeName (some count) name).text.toList ++ cs =
        typeName.text.toList ++ ("[".toList ++ (count.text.toList ++
          ("]".toList ++ ' ' :: (name.text.toList ++ cs)))) := by
      simp [Declaration.text]
    have hwords : (Declaration.mk m typeName (some count) name).words ++ ws =
        typeName.word :: ⟨.openBracket, "["⟩ ::
          (count.words ++ ⟨.closeBracket, "]"⟩ :: name.word :: ws) := by
      simp [Declaration.words]
    rw [htext, hwords]
    refine .name hd.typeName ?_ (breaks_cons rfl _)
    refine .cons (w := ⟨.openBracket, "["⟩) (by decide) rfl ?_ fun _ _ => id
    refine prints_expr (hd.count _ rfl) _ _ ?_ (breaks_cons rfl _)
    refine .cons (w := ⟨.closeBracket, "]"⟩) (by decide) rfl ?_ fun _ _ => id
    exact .blank (.name hd.name h hcs)

/-- Parts in braces are cut one after the other. -/
theorem prints_braced {texts : List String} {parts : List (List Word)}
    (hparts : List.Forall₂ Prints texts parts) : Prints (braced texts) (bracedWords parts) := by
  intro cs ws h hcs
  have hbody : Spells ((String.join (texts.map fun part => " " ++ part ++ ";")).toList ++
      (' ' :: '\x7d' :: cs)) (parts.flatMap (· ++ [⟨.semicolon, ";"⟩]) ++
        ⟨.closeBrace, "\x7d"⟩ :: ws) := by
    -- Each part is ended by its semicolon, and the blank in front of it is skipped.
    induction hparts with
    | nil => exact .blank (.cons (w := ⟨.closeBrace, "\x7d"⟩) (by decide) rfl h fun _ _ => id)
    | @cons text words texts parts hpart hparts ih =>
      have htext : (String.join ((text :: texts).map fun part => " " ++ part ++ ";")).toList ++
          (' ' :: '\x7d' :: cs) = ' ' :: (text.toList ++ (";".toList ++
            ((String.join (texts.map fun part => " " ++ part ++ ";")).toList ++
              (' ' :: '\x7d' :: cs)))) := by
        simp [String.join_cons]
      rw [htext, List.flatMap_cons, List.append_assoc, List.append_assoc]
      refine .blank (hpart _ _ ?_ (breaks_cons rfl _))
      exact .cons (w := ⟨.semicolon, ";"⟩) (by decide) rfl ih fun _ _ => id
  have htext : (braced texts).toList ++ cs = "\x7b".toList ++
      ((String.join (texts.map fun part => " " ++ part ++ ";")).toList ++
        (' ' :: '\x7d' :: cs)) := by
    simp [braced]
  have hwords : bracedWords parts ++ ws = ⟨.openBrace, "\x7b"⟩ ::
      (parts.flatMap (· ++ [⟨.semicolon, ";"⟩]) ++ ⟨.closeBrace, "\x7d"⟩ :: ws) := by
    simp [bracedWords]
  rw [htext, hwords]
  exact .cons (w := ⟨.openBrace, "\x7b"⟩) (by decide) rfl hbody fun _ _ => id

mutual

/-- The text of a statement is cut into its words. -/
theorem prints_statement : ∀ {s : Statement}, s.Printable → Prints s.text s.words
  | .struct m name members, hs => by
    rw [Statement.Printable] at hs
    obtain ⟨hname, -, hmembers⟩ := hs
    have hparts : List.Forall₂ Prints (members.map Declaration.text)
        (members.map Declaration.words) := by
      rw [List.forall₂_map_left_iff, List.forall₂_map_right_iff, List.forall₂_same]
      exact fun d hd => prints_declaration (hmembers d hd)
    intro cs ws h hcs
    have htext : (Statement.struct m name members).text.toList ++ cs = "struct".toList ++
        ' ' :: (name.text.toList ++ ' ' ::
          ((braced (members.map Declaration.text)).toList ++ cs)) := by
      simp [Statement.text]
    rw [htext, Statement.words]
    refine .cons (w := ⟨.structWord, "struct"⟩) (by decide) rfl (.blank ?_) ?_
    · exact .name hname (.blank (prints_braced hparts _ _ h hcs)) (breaks_cons rfl _)
    · intro b hb
      cases hb
      simp [Word.Extends, Token.Lexeme.Extends, Token.isNamePart]
  | .field d, hs => by
    rw [Statement.Printable] at hs
    rw [Statement.text, Statement.words]
    exact prints_declaration hs
  | .block m body, hs => by
    rw [Statement.Printable] at hs
    rw [Statement.text, Statement.words]
    exact prints_braced (prints_statements hs.2)
  | .expression e, hs => by
    rw [Statement.Printable] at hs
    rw [Statement.text, Statement.words]
    exact prints_expr hs
  | .scriptEnd m, hs => by simp [Statement.Printable] at hs

theorem prints_statements : ∀ {xs : List Statement}, Statement.PrintableAll xs →
    List.Forall₂ Prints (Statement.texts xs) (Statement.wordsAll xs)
  | [], _ => by
    rw [Statement.texts, Statement.wordsAll]
    exact .nil
  | s :: rest, hs => by
    rw [Statement.PrintableAll] at hs
    rw [Statement.texts, Statement.wordsAll]
    exact .cons (prints_statement hs.1) (prints_statements hs.2)

end

/-! ### The Printed Template -/

/-- The text of all statements but the end of the script, each followed by a semicolon. -/
def printed (t : Template) : String :=
  String.join (t.statements.dropLast.map fun s => s.text ++ ";")

/-- The text of statements is cut into their words, each statement with its semicolon. -/
theorem spells_statements {xs : List Statement} (hxs : Statement.PrintableAll xs) :
    Spells (String.join (xs.map fun s => s.text ++ ";")).toList
      (xs.flatMap (fun s => s.words ++ [⟨.semicolon, ";"⟩]) ++ [⟨.endOfInput, ""⟩]) := by
  induction xs with
  | nil => exact Token.spells_nil
  | cons s xs ih =>
    rw [Statement.PrintableAll] at hxs
    have htext : (String.join ((s :: xs).map fun s => s.text ++ ";")).toList =
        s.text.toList ++ (";".toList ++ (String.join (xs.map fun s => s.text ++ ";")).toList) := by
      simp [String.join_cons]
    rw [htext, List.flatMap_cons, List.append_assoc, List.append_assoc]
    refine prints_statement hxs.1 _ _ ?_ (breaks_cons rfl _)
    exact .cons (w := ⟨.semicolon, ";"⟩) (by decide) rfl (ih hxs.2) fun _ _ => id

end Template

end ByteBricks
