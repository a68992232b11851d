import ByteBricks.Proofs.Syntax.Senses
import ByteBricks.Proofs.Template.RoundTrip

/-! # Nothing is Lost

  The text of a template says what its source says, in the same order. A declaration takes
  two trees of a chain and every other statement takes one, and no tree is passed over. -/

namespace ByteBricks.Template

open Syntax (Node Origin Script)
open Token (Word senses)

/-! ### Words of Statements -/

theorem senses_paren (ws : List Word) :
    senses (⟨.openParen, "("⟩ :: (ws ++ [⟨.closeParen, ")"⟩])) = senses ws := by
  rw [Token.senses_cons, Token.senses_append]
  show [] ++ (senses ws ++ []) = _
  rw [List.append_nil, List.nil_append]

/-- The semicolons behind parts say nothing. -/
theorem senses_semicolons (parts : List (List Word)) :
    senses (parts.flatMap (· ++ [⟨.semicolon, ";"⟩])) = senses parts.flatten := by
  induction parts with
  | nil => rfl
  | cons part parts ih =>
    rw [List.flatMap_cons, List.flatten_cons, Token.senses_append, Token.senses_append,
      Token.senses_append, ih]
    show senses part ++ [] ++ _ = _
    rw [List.append_nil]

theorem senses_bracedWords (parts : List (List Word)) :
    senses (bracedWords parts) =
      senses (⟨.openBrace, "\x7b"⟩ :: (parts.flatten ++ [⟨.closeBrace, "\x7d"⟩])) :=
  Token.senses_between _ _ (senses_semicolons parts)

namespace Resolve

/-! ### References -/

theorem word_of_intern {t : Token} {n : Name} {s s' : Scope} (h : intern t s = .ok (n, s')) :
    n.word = ⟨.name, t.text⟩ := by
  rw [Name.word, (intern_eq_ok h).2.1]

/-- A reference is written as its tree. -/
theorem words_of_indexed {n : Node} {m : Mark} {a : Access} {b : Entry} {s s' : Scope}
    (h : indexed n s = .ok ((m, a, b), s')) : a.words = n.words := by
  unfold indexed at h
  split at h
  · next o =>
    obtain ⟨name, u, -, hname, -, rfl⟩ := fieldAccess_eq_ok_iff.1 h
    rw [Access.words, Node.words, word_of_intern hname]
  · next o lhs rhs =>
    obtain ⟨owner, part, p, struct, ownerName, u, partName, v, rfl, rfl, -, -, -, -, howner, hpart,
      -, rfl⟩ := memberAccess_eq_ok_iff.1 h
    rw [Access.words, word_of_intern howner, word_of_intern hpart]
    simp [Node.words, Syntax.BinaryOp.words, Syntax.BinaryOp.kind, Syntax.BinaryOp.symbol]
  · simp at h

/-! ### Expressions -/

theorem senses_of_integer {o : Origin} {e : Expr} {s s' : Scope}
    (h : integer o.token s = .ok (e, s')) : senses e.words = senses (Node.integer o).words := by
  unfold integer at h
  simp only [bind_eq_ok, require_eq_ok, pure_eq_ok, and_assoc, exists_and_left,
    exists_eq_left] at h
  obtain ⟨value, hvalue, m, u, hm, rfl, rfl⟩ := h
  rw [Expr.words, Node.words, Word.toInt_of_int64? hvalue]
  exact Token.senses_integer (Token.ofDigitChars_toString _)

theorem words_binary (op : ArithOp) : op.binary.words = [op.word] := by
  cases op <;> rfl

theorem senses_of_arith {o : Origin} {op : ArithOp} {lhs rhs : Node} {x y : Resolve Expr}
    {e : Expr} {s s' : Scope}
    (hx : ∀ l s t, x s = .ok (l, t) → senses l.words = senses lhs.words)
    (hy : ∀ r s t, y s = .ok (r, t) → senses r.words = senses rhs.words)
    (h : (do let l ← x; let r ← y; arith o op l r) s = .ok (e, s')) :
    senses e.words = senses (Node.binary o op.binary lhs rhs).words := by
  unfold arith at h
  simp only [bind_eq_ok, pure_eq_ok] at h
  obtain ⟨l, t, hl, r, u, hr, m, v, hm, rfl, rfl⟩ := h
  have hwords : (Expr.arith m (resultType l.type r.type) op l r).words =
      ⟨.openParen, "("⟩ :: (l.words ++ ([op.word] ++ r.words) ++ [⟨.closeParen, ")"⟩]) := by
    simp [Expr.words]
  rw [hwords, senses_paren, Node.words, words_binary, Token.senses_append, Token.senses_append,
    Token.senses_append, Token.senses_append, hx l s t hl, hy r t u hr]

mutual

/-- An expression says what its tree says. -/
theorem senses_of_expr : ∀ {n : Node} {e : Expr} {s s' : Scope}, expr n s = .ok (e, s') →
    senses e.words = senses n.words
  | .name o, e, s, s', h => by
    rw [expr] at h
    simp only [bind_eq_ok, pure_eq_ok] at h
    obtain ⟨⟨m, a, b⟩, s₁, haccess, t, s₂, ht, rfl, rfl⟩ := h
    rw [Expr.words, words_of_indexed (n := .name o) haccess]
  | .integer o, e, s, s', h => senses_of_integer h
  | .control o word, e, s, s', h => by simp [expr] at h
  | .paren o inner, e, s, s', h => by
    -- The parentheses of the source are gone, and those of the text are its own.
    rw [Node.words, senses_paren]
    exact senses_of_single h
  | .element o base index, e, s, s', h => by
    rw [expr] at h
    simp only [bind_eq_ok, check_eq_ok, pure_eq_ok, and_assoc, exists_and_left,
      exists_eq_left] at h
    obtain ⟨⟨m, a, t⟩, s₁, haccess, i, s₂, hi, -, -, m', s₃, hm, rfl, rfl⟩ := h
    obtain ⟨b, hindexed, -⟩ := arrayAccess_eq_ok_iff.1 haccess
    -- A reference is written as its tree, so only the index has to be compared.
    rw [Expr.words, Node.words, words_of_indexed hindexed, Token.senses_append,
      Token.senses_append, Token.senses_between _ _ (senses_of_single hi)]
  | .binary o .member lhs rhs, e, s, s', h => by
    rw [expr] at h
    simp only [bind_eq_ok, pure_eq_ok] at h
    obtain ⟨⟨m, a, b⟩, s₁, haccess, t, s₂, ht, rfl, rfl⟩ := h
    rw [Expr.words, words_of_indexed (n := .binary o .member lhs rhs) haccess]
  | .binary o .assign lhs rhs, e, s, s', h => by simp [expr] at h
  | .binary o .compare lhs rhs, e, s, s', h => by simp [expr] at h
  | .binary o .plus lhs rhs, e, s, s', h | .binary o .minus lhs rhs, e, s, s', h
  | .binary o .times lhs rhs, e, s, s', h | .binary o .divide lhs rhs, e, s, s', h => by
    rw [expr] at h
    exact senses_of_arith (fun _ _ _ => senses_of_expr) (fun _ _ _ => senses_of_expr) h
  | .structHead o _, e, s, s', h | .block o _, e, s, s', h | .scriptEnd o, e, s, s', h => by
    simp [expr] at h

theorem senses_of_single : ∀ {line : Nat} {ns : List Node} {e : Expr} {s s' : Scope},
    single line ns s = .ok (e, s') → senses e.words = senses (Node.wordsAll ns)
  | line, [], e, s, s', h => by simp [single] at h
  | line, [n], e, s, s', h => by
    rw [Node.wordsAll, Node.wordsAll, List.append_nil]
    exact senses_of_expr h
  | line, n :: _ :: _, e, s, s', h => by simp [single] at h

end

/-! ### Declarations -/

/-- A declaration says what its trees say. -/
theorem senses_of_declaration {inStruct : Bool} {type : Origin}
    {bracket : Option (Origin × List Node)} {name : Origin} {d : Declaration} {s s' : Scope}
    (h : declaration inStruct type bracket name s = .ok (d, s')) :
    senses d.words = senses (Node.wordsAll (declarationNodes type bracket name)) := by
  obtain ⟨t, size, s₁, typeName, s₂, fieldName, s₃, s₄, m, -, hsize, htype, hname, -, -, rfl⟩ :=
    declaration_eq_ok_iff.1 h
  cases bracket with
  | none =>
    obtain ⟨rfl, rfl⟩ := pure_eq_ok.1 hsize
    simp [Declaration.words, declarationNodes, Node.wordsAll, Node.words, word_of_intern htype,
      word_of_intern hname]
  | some p =>
    obtain ⟨o, index⟩ := p
    obtain ⟨e, t₁, he, hsize⟩ := bind_eq_ok.1 hsize
    obtain ⟨rfl, rfl⟩ := pure_eq_ok.1 hsize
    have hcount := senses_of_single (count_eq_ok_iff.1 he).1
    have hwords : (Declaration.mk m typeName (some e) fieldName).words =
        [typeName.word] ++ ⟨.openBracket, "["⟩ :: (e.words ++ [⟨.closeBracket, "]"⟩]) ++
          [fieldName.word] := by
      simp [Declaration.words]
    have hnodes : Node.wordsAll (declarationNodes type (some (o, index)) name) =
        [⟨.name, type.token.text⟩] ++
          ⟨.openBracket, "["⟩ :: (Node.wordsAll index ++ [⟨.closeBracket, "]"⟩]) ++
          [⟨.name, name.token.text⟩] := by
      simp [declarationNodes, Node.wordsAll, Node.words]
    rw [hwords, hnodes, word_of_intern htype, word_of_intern hname, Token.senses_append,
      Token.senses_append, Token.senses_between _ _ hcount, ← Token.senses_append,
      ← Token.senses_append]

/-- A member says what its trees say, and the others say what the trees behind them say. -/
theorem senses_of_member {type name : Origin} {bracket : Option (Origin × List Node)}
    {rest : List Node} {d : Declaration} {ds : List Declaration} {s t : Scope}
    (hd : declaration true type bracket name s = .ok (d, t))
    (hds : senses (ds.map Declaration.words).flatten = senses (Node.wordsAll rest)) :
    senses ((d :: ds).map Declaration.words).flatten =
      senses (Node.wordsAll (declarationNodes type bracket name ++ rest)) := by
  rw [List.map_cons, List.flatten_cons, Token.senses_append, senses_of_declaration hd, hds,
    Node.wordsAll_append, Token.senses_append]

theorem senses_of_members {body : List Node} {ds : List Declaration} {s s' : Scope}
    (h : members body s = .ok (ds, s')) :
    senses (ds.map Declaration.words).flatten = senses (Node.wordsAll body) := by
  fun_induction members body generalizing ds s s' with
  | case1 =>
    obtain ⟨rfl, rfl⟩ := pure_eq_ok.1 h
    rfl
  | case2 type name rest ih =>
    simp only [bind_eq_ok, pure_eq_ok] at h
    obtain ⟨d, t, hd, ds, u, hds, rfl, rfl⟩ := h
    exact senses_of_member hd (ih hds)
  | case3 o type index name rest ih =>
    simp only [bind_eq_ok, pure_eq_ok] at h
    obtain ⟨d, t, hd, ds, u, hds, rfl, rfl⟩ := h
    exact senses_of_member hd (ih hds)
  | case4 n rest => simp at h

/-- A struct says what its head and its body say. -/
theorem senses_of_struct {o name o' : Origin} {body : List Node} {x : Statement} {s s' : Scope}
    (h : struct o name body s = .ok (x, s')) :
    senses x.words = senses (Node.wordsAll [.structHead o name, .block o' body]) := by
  obtain ⟨ds, s₁, structName, s₂, m, s₃, -, -, hds, hname, -, rfl, -⟩ := struct_eq_ok_iff.1 h
  have hnodes : Node.wordsAll [.structHead o name, .block o' body] =
      [⟨.structWord, "struct"⟩, ⟨.name, name.token.text⟩] ++
        ⟨.openBrace, "\x7b"⟩ :: (Node.wordsAll body ++ [⟨.closeBrace, "\x7d"⟩]) := by
    simp [Node.wordsAll, Node.words]
  have hwords : (Statement.struct m structName ds).words =
      [⟨.structWord, "struct"⟩, structName.word] ++ bracedWords (ds.map Declaration.words) := by
    simp [Statement.words]
  rw [hnodes, hwords, word_of_intern hname, Token.senses_append, senses_bracedWords,
    Token.senses_between _ _ (senses_of_members hds), ← Token.senses_append]

/-! ### Statements -/

/-- All statements that the step reads say what the trees say. -/
def Says (r : Resolve (List Statement)) (nodes : List Node) : Prop :=
  ∀ xs s s', r s = .ok (xs, s') →
    senses (xs.flatMap Statement.words) = senses (Node.wordsAll nodes)

theorem Says.nil : Says (pure []) [] := by
  intro xs s s' h
  obtain ⟨rfl, rfl⟩ := pure_eq_ok.1 h
  rfl

/-- The first trees make a statement, and the others make those behind it. -/
theorem Says.cons {α : Type} {first : Resolve α} {f : α → Statement}
    {rest : Resolve (List Statement)} {front back : List Node}
    (hfirst : ∀ a s s', first s = .ok (a, s') →
      senses (f a).words = senses (Node.wordsAll front))
    (hrest : Says rest back) :
    Says (do let a ← first; let xs ← rest; pure (f a :: xs)) (front ++ back) := by
  intro xs s s' h
  simp only [bind_eq_ok, pure_eq_ok] at h
  obtain ⟨a, t, ha, ys, u, hys, rfl, rfl⟩ := h
  rw [List.flatMap_cons, Token.senses_append, hfirst a s t ha, hrest ys t _ hys,
    Node.wordsAll_append, Token.senses_append]

theorem senses_of_field {type : Origin} {bracket : Option (Origin × List Node)} {name : Origin}
    (d : Declaration) (s s' : Scope)
    (h : declaration false type bracket name s = .ok (d, s')) :
    senses (Statement.field d).words = senses (Node.wordsAll (declarationNodes type bracket name)) := by
  rw [Statement.words]
  exact senses_of_declaration h

/-- A chain of statements says what its trees say. -/
theorem says_statements (ns : List Node) : Says (statements ns) ns := by
  -- A single statement and a chain are read by mutual recursion; there is a case for each branch.
  refine (statement.mutual_induct_unfolding
    (fun n r => ∀ x s s', r s = .ok (x, s') → senses x.words = senses (Node.wordsAll [n]))
    (fun ns r => Says r ns)
    ?structHead ?block ?scriptEnd ?expression ?nil ?field ?array ?struct ?other).2 ns
  case structHead =>
    intro o name x s s' h
    simp at h
  case block =>
    intro o body ih x s s' h
    simp only [bind_eq_ok, pure_eq_ok] at h
    obtain ⟨inner, t, hinner, m, u, hm, rfl, rfl⟩ := h
    have hinside := ih inner s t hinner
    rw [List.flatMap_def, ← Statement.wordsAll_eq_map] at hinside
    rw [Statement.words, senses_bracedWords, Token.senses_between _ _ hinside]
    simp [Node.wordsAll, Node.words]
  case scriptEnd =>
    intro o x s s' h
    simp only [bind_eq_ok, pure_eq_ok] at h
    obtain ⟨m, t, hm, rfl, rfl⟩ := h
    rfl
  case expression =>
    intro n _ _ _ x s s' h
    simp only [bind_eq_ok, pure_eq_ok] at h
    obtain ⟨e, t, he, rfl, rfl⟩ := h
    rw [Statement.words, senses_of_expr he, Node.wordsAll, Node.wordsAll, List.append_nil]
  case nil => exact .nil
  case field => exact fun type name rest ih => .cons senses_of_field ih
  case array => exact fun o type index name rest ih => .cons senses_of_field ih
  case struct => exact fun o name o' body rest ih => .cons (fun x s s' => senses_of_struct) ih
  case other => exact fun n rest _ _ _ ihn ih => .cons ihn ih

theorem says_chains (cs : List (List Node)) : Says (chains cs) cs.flatten := by
  induction cs with
  | nil => exact .nil
  | cons chain cs ih =>
    intro xs s s' h
    rw [chains] at h
    simp only [bind_eq_ok, pure_eq_ok] at h
    obtain ⟨first, t, hfirst, others, u, hothers, rfl, rfl⟩ := h
    rw [List.flatMap_append, Token.senses_append, says_statements chain first s t hfirst,
      ih others t _ hothers, List.flatten_cons, Node.wordsAll_append, Token.senses_append]

end Resolve

/-! ### The Text of a Template -/

/-- The texts of statements, each on a line of its own. -/
def linesOf (xs : List Statement) : String := String.join (xs.map fun x => x.text ++ "\n")

/-- The end mark stands behind the lines of the statements. -/
theorem text_eq_linesOf {t : Template} {xs : List Statement} {m : Mark}
    (ht : t.statements = xs ++ [.scriptEnd m]) : t.text = linesOf xs ++ "<end>" := by
  unfold text
  rw [ht]
  clear ht
  induction xs with
  | nil => simp [Statement.texts, Statement.text, linesOf, String.intercalate_singleton]
  | cons x xs ih =>
    have hne : Statement.texts (xs ++ [.scriptEnd m]) ≠ [] := by
      cases xs <;> simp [Statement.texts]
    have hlines : linesOf (x :: xs) = x.text ++ "\n" ++ linesOf xs := by
      simp [linesOf, String.join_cons]
    rw [List.cons_append, Statement.texts, String.intercalate_cons_of_ne_nil hne, ih, hlines]
    exact String.append_assoc.symm

/-- The lines are cut into the words of the statements. -/
theorem spells_linesOf {xs : List Statement} (hxs : Statement.PrintableAll xs) :
    Token.Spells (linesOf xs).toList (xs.flatMap Statement.words ++ [⟨.endOfInput, ""⟩]) := by
  induction xs with
  | nil => exact Token.spells_nil
  | cons x xs ih =>
    rw [Statement.PrintableAll] at hxs
    have htext : (linesOf (x :: xs)).toList = x.text.toList ++ '\n' :: (linesOf xs).toList := by
      simp [linesOf, String.join_cons]
    rw [htext, List.flatMap_cons, List.append_assoc]
    exact prints_statement hxs.1 _ _ ((ih hxs.2).skip rfl) (breaks_cons rfl _)

/-- **Main theorem.** In front of its end mark, the text of a template says what the source
    says: but for parentheses, semicolons and the digits that integers are written with, its
    tokens are those of the source, in the same order. -/
theorem text_says_source {source : String} {t : Template} (h : compile source = .ok t) :
    ∃ body, t.text = body ++ "<end>" ∧ (Token.scan body).failure = none ∧
      senses ((Token.scan body).tokens.map Token.word) =
        senses ((Token.scan source).tokens.map Token.word) := by
  obtain ⟨xs, m, s, u, line, ht, hrestates, -⟩ := restates_of_compile h
  obtain ⟨script, scope, hscript, hchains, -⟩ := compile_eq_ok_iff.1 h
  obtain ⟨hfailure, hwords⟩ := spells_linesOf (hrestates.printable trivial) 0 1
  refine ⟨linesOf xs, text_eq_linesOf ht, hfailure, ?_⟩
  have hstatements := Resolve.says_chains script.statements _ _ _ hchains
  -- The end of the script has no words.
  rw [ht, List.flatMap_append, List.flatMap_singleton, Statement.words, List.append_nil]
    at hstatements
  have hlines : (Token.scan (linesOf xs)).tokens.map Token.word =
      xs.flatMap Statement.words ++ [⟨.endOfInput, ""⟩] := hwords
  calc senses ((Token.scan (linesOf xs)).tokens.map Token.word)
      = senses (xs.flatMap Statement.words ++ [⟨.endOfInput, ""⟩]) := by rw [hlines]
    _ = senses (Node.wordsAll script.statements.flatten ++ [⟨.endOfInput, ""⟩]) := by
        rw [Token.senses_append, hstatements, ← Token.senses_append]
    _ = senses ((Token.scan source).tokens.map Token.word) :=
        (Script.senses_of_ofSource hscript).symm

/-- A source in which each statement is written another way than in the text. -/
def looseSource : String :=
  "struct Head \x7b uint8 n uint8[(01) + 1] v; \x7d // two members
    Head[(2)] h; uint16 w; (w) - 007 * ((w)) \x7b Head g g.n; \x7d g.v[0]"

theorem loose_text_says_source : ∃ t, compile looseSource = .ok t ∧
    ∃ body, t.text = body ++ "<end>" ∧ (Token.scan body).failure = none ∧
      senses ((Token.scan body).tokens.map Token.word) =
        senses ((Token.scan looseSource).tokens.map Token.word) := by
  have hcompiled : (compile looseSource).toBool = true := by decide +kernel
  cases ht : compile looseSource with
  | error e => simp [ht, Except.toBool] at hcompiled
  | ok t => exact ⟨t, rfl, text_says_source ht⟩

end ByteBricks.Template
