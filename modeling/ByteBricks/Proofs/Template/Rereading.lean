import ByteBricks.Proofs.Syntax.Words
import ByteBricks.Proofs.Template.Words

/-! # Reading the Text of a Template

  The trees that the text of a template is read as, whatever the template was compiled
  from. Outside of blocks each statement makes a chain of its own; the statements of a
  block are one chain. -/

namespace ByteBricks

open Syntax (Node Item Origin Reader Joined resolve)
open Token (Word Spells)

namespace Template

/-! ### Trees of Texts -/

/-- The binary operator of an operation. -/
def ArithOp.binary : ArithOp → Syntax.BinaryOp
  | add => .plus
  | sub => .minus
  | mul => .times
  | div => .divide

/-- The tree is one that the text of the reference is read as. -/
inductive Access.ReadAs : Access → Node → Prop where
  /-- A field is a name. -/
  | field {name : Name} {o : Origin} (text : o.token.text = name.text) :
    ReadAs (.field name) (.name o)
  /-- A member has the name of its owner in front. -/
  | member {owner part : Name} {o ownerOrigin partOrigin : Origin}
    (ownerText : ownerOrigin.token.text = owner.text)
    (partText : partOrigin.token.text = part.text) :
    ReadAs (.member owner part) (.binary o .member (.name ownerOrigin) (.name partOrigin))

/-- The tree is one that the text of the expression is read as. -/
inductive Expr.ReadAs : Expr → Node → Prop where
  /-- A literal is an integer. -/
  | literal {m : Mark} {value : Int64} {o : Origin}
    (text : o.token.text = toString value.toInt) : ReadAs (.literal m value) (.integer o)
  /-- The value of a field is a reference. -/
  | access {m : Mark} {t : Primitive} {a : Access} {n : Node} (field : a.ReadAs n) :
    ReadAs (.access m t a) n
  /-- An element has an index behind a reference. -/
  | element {m baseMark : Mark} {t : Primitive} {a : Access} {index : Expr} {o : Origin}
    {base n : Node} (field : a.ReadAs base) (place : index.ReadAs n) :
    ReadAs (.element m t baseMark a index) (.element o base [n])
  /-- An operation stands in parentheses. -/
  | arith {m : Mark} {t : Primitive} {op : ArithOp} {lhs rhs : Expr} {o o' : Origin} {l r : Node}
    (left : lhs.ReadAs l) (right : rhs.ReadAs r) :
    ReadAs (.arith m t op lhs rhs) (.paren o [.binary o' op.binary l r])

/-- The trees are such as the text of the declaration is read as. -/
inductive Declaration.ReadAs : Declaration → List Node → Prop where
  /-- Without a count, a declaration is two names. -/
  | single {m : Mark} {typeName name : Name} {type field : Origin}
    (typeText : type.token.text = typeName.text) (nameText : field.token.text = name.text) :
    ReadAs ⟨m, typeName, none, name⟩ [.name type, .name field]
  /-- The count is an index behind the name of the type. -/
  | array {m : Mark} {typeName name : Name} {count : Expr} {o type field : Origin} {n : Node}
    (typeText : type.token.text = typeName.text) (nameText : field.token.text = name.text)
    (size : count.ReadAs n) :
    ReadAs ⟨m, typeName, some count, name⟩ [.element o (.name type) [n], .name field]

/-- The trees are such as the text of the statement is read as. -/
inductive Statement.ReadAs : Statement → List Node → Prop where
  /-- A struct is a head and a block. -/
  | struct {m : Mark} {name : Name} {members : List Declaration} {o o' head : Origin}
    {body : List Node} (nameText : head.token.text = name.text)
    (declarations : Joined Declaration.ReadAs members body) :
    ReadAs (.struct m name members) [.structHead o head, .block o' body]
  /-- A field is its declaration. -/
  | field {d : Declaration} {nodes : List Node} (declaration : d.ReadAs nodes) :
    ReadAs (.field d) nodes
  /-- The trees of all statements of a block stand side by side. -/
  | block {m : Mark} {body : List Statement} {o : Origin} {nodes : List Node}
    (statements : Joined Statement.ReadAs body nodes) : ReadAs (.block m body) [.block o nodes]
  /-- An expression is a single tree. -/
  | expression {e : Expr} {n : Node} (value : e.ReadAs n) : ReadAs (.expression e) [n]

theorem Declaration.ReadAs.ne_nil {d : Declaration} {nodes : List Node} (h : d.ReadAs nodes) :
    nodes ≠ [] := by
  cases h <;> simp

theorem Statement.ReadAs.ne_nil {s : Statement} {nodes : List Node} (h : s.ReadAs nodes) :
    nodes ≠ [] := by
  cases h with
  | field h => exact h.ne_nil
  | struct | block | expression => simp

/-! ### Operands -/

/-- The items of a reference, and the tree that they are resolved to. -/
inductive Reference : List Item → Node → Prop where
  /-- A field. -/
  | field (a : Origin) : Reference [.tree (.name a)] (.name a)
  /-- A member. -/
  | member (o a b : Origin) : Reference [.tree (.name a), .operator o .member, .tree (.name b)]
    (.binary o .member (.name a) (.name b))

/-- The items of an operand, and the tree that they are resolved to. -/
inductive Operand : List Item → Node → Prop where
  /-- An integer. -/
  | integer (o : Origin) : Operand [.tree (.integer o)] (.integer o)
  /-- A chain in parentheses. -/
  | paren (o : Origin) (inner : List Node) : Operand [.tree (.paren o inner)] (.paren o inner)
  /-- A reference. -/
  | reference {items : List Item} {n : Node} (h : Reference items n) : Operand items n
  /-- An element of what a reference stands for. -/
  | element {items : List Item} {n : Node} (h : Reference items n) (o : Origin)
    (index : List Node) : Operand (items ++ [.subscript o index]) (.element o n index)

theorem Operand.ne_nil {items : List Item} {n : Node} (h : Operand items n) : items ≠ [] := by
  rcases h with _ | _ | h | h
  · simp
  · simp
  · cases h <;> simp
  · simp

theorem resolve_operand {items : List Item} {n : Node} (h : Operand items n) :
    resolve items = .ok [n] := by
  rcases h with _ | _ | h | h
  · rfl
  · rfl
  · cases h <;> rfl
  · cases h <;> rfl

/-- An operation is resolved after its operands. -/
theorem resolve_arith {l r : List Item} {m n : Node} (hl : Operand l m) (hr : Operand r n)
    (o : Origin) (op : ArithOp) :
    resolve (l ++ .operator o op.binary :: r) = .ok [.binary o op.binary m n] := by
  -- The items of both operands are known, so the levels can be gone through.
  rcases hl with _ | _ | ⟨_ | _⟩ | ⟨_ | _⟩ <;> rcases hr with _ | _ | ⟨_ | _⟩ | ⟨_ | _⟩ <;>
    cases op <;> rfl

/-- A name behind the type of a declaration stays beside it. -/
theorem resolve_name {items : List Item} {n : Node} (h : Operand items n) (o : Origin) :
    resolve (items ++ [.tree (.name o)]) = .ok [n, .name o] := by
  rcases h with _ | _ | ⟨_ | _⟩ | ⟨_ | _⟩ <;> rfl

/-! ### Reading -/

section Reading

variable {r : Reader} {ws : List Word} {Q : Reader → Prop}

theorem readsTo_access (a : Access) (hr : r.pending = .nothing)
    (h : ∀ items n count, Reference items n → a.ReadAs n → (r.append items count).ReadsTo ws Q) :
    r.ReadsTo (a.words ++ ws) Q := by
  cases a with
  | field name => exact .name hr fun o count ho => h _ _ _ (.field o) (.field ho)
  | member owner part =>
    refine .name hr fun o₁ k₁ howner => ?_
    refine .operator .member rfl rfl (by decide) fun o k₂ => ?_
    refine .name rfl fun o₂ k₃ hpart => ?_
    rw [Reader.append_append, Reader.append_append]
    exact h _ _ _ (.member o o₁ o₂) (.member howner hpart)

/-- The text of an expression is read as an operand. -/
theorem readsTo_expr (e : Expr) (hr : r.pending = .nothing)
    (h : ∀ items n count, Operand items n → e.ReadAs n → (r.append items count).ReadsTo ws Q) :
    r.ReadsTo (e.words ++ ws) Q := by
  -- What follows is arbitrary, so the rules for the parts are put together in their order.
  induction e generalizing r ws Q with
  | literal m value =>
    exact .integer hr fun o count ho => h _ _ _ (.integer o) (.literal ho)
  | access m t a =>
    exact readsTo_access a hr fun items n count hitems ha =>
      h _ _ _ (.reference hitems) (.access ha)
  | element m t baseMark a index ih =>
    have hwords : (Expr.element m t baseMark a index).words ++ ws =
        a.words ++ ⟨.openBracket, "["⟩ :: (index.words ++ ⟨.closeBracket, "]"⟩ :: ws) := by
      simp [Expr.words]
    rw [hwords]
    refine readsTo_access a hr fun items base k hitems ha => ?_
    refine .enter .square rfl rfl fun t => ?_
    refine ih rfl fun inner n k hinner hn => ?_
    refine .close (by simp) rfl hinner.ne_nil (resolve_operand hinner) fun o k => ?_
    rw [Reader.append_append]
    exact h _ _ _ (.element hitems o [n]) (.element ha hn)
  | arith m t op lhs rhs ihl ihr =>
    have hwords : (Expr.arith m t op lhs rhs).words ++ ws = ⟨.openParen, "("⟩ :: (lhs.words ++
        op.word :: (rhs.words ++ ⟨.closeParen, ")"⟩ :: ws)) := by
      simp [Expr.words]
    rw [hwords]
    refine .enter .paren hr rfl fun t => ?_
    refine ihl hr fun left l k hleft hl => ?_
    refine .operator op.binary rfl (by cases op <;> rfl) (by cases op <;> decide)
      fun o' k => ?_
    refine ihr rfl fun right r k hright hr => ?_
    rw [Reader.append_append, Reader.append_append, List.singleton_append]
    refine .close (by simp) rfl (by simp) (resolve_arith hleft hright o' op) fun o k => ?_
    exact h _ _ _ (.paren o _) (.arith hl hr)

end Reading

/-! ### Statements -/

theorem readsStatement_expr (e : Expr) :
    Reader.ReadsStatement e.words fun nodes => Statement.ReadAs (.expression e) nodes := by
  intro r ws Q hchain hpending hterminator h
  refine readsTo_expr e hpending fun items n count hitems hn => ?_
  exact .semicolon hchain hterminator hitems.ne_nil (resolve_operand hitems)
    (h _ _ (.expression hn))

theorem readsStatement_declaration (d : Declaration) :
    Reader.ReadsStatement d.words d.ReadAs := by
  intro r ws Q hchain hpending hterminator h
  obtain ⟨m, typeName, count, name⟩ := d
  cases count with
  | none =>
    refine .name hpending fun type k htype => ?_
    refine .name rfl fun field k hname => ?_
    rw [Reader.append_append]
    have hnodes := resolve_name (.reference (.field type)) field
    exact .semicolon hchain hterminator (by simp) hnodes (h _ _ (.single htype hname))
  | some count =>
    have hwords : (Declaration.mk m typeName (some count) name).words ++ ⟨.semicolon, ";"⟩ :: ws =
        typeName.word :: ⟨.openBracket, "["⟩ :: (count.words ++
          ⟨.closeBracket, "]"⟩ :: name.word :: ⟨.semicolon, ";"⟩ :: ws) := by
      simp [Declaration.words]
    rw [hwords]
    refine .name hpending fun type k htype => ?_
    refine .enter .square rfl rfl fun t => ?_
    refine readsTo_expr count rfl fun items n k hitems hn => ?_
    refine .close (by simp) rfl hitems.ne_nil (resolve_operand hitems) fun o k => ?_
    refine .name rfl fun field k hname => ?_
    rw [Reader.append_append, Reader.append_append]
    have hnodes := resolve_name (.element (.field type) o [n]) field
    exact .semicolon hchain hterminator (by simp) hnodes (h _ _ (.array htype hname hn))

theorem bracedWords_map {α : Type} (words : α → List Word) (xs : List α) :
    bracedWords (xs.map words) = ⟨.openBrace, "\x7b"⟩ ::
      (xs.flatMap (fun x => words x ++ [⟨.semicolon, ";"⟩]) ++ [⟨.closeBrace, "\x7d"⟩]) := by
  unfold bracedWords
  rw [List.flatMap_map]

theorem Statement.wordsAll_eq_map (xs : List Statement) :
    Statement.wordsAll xs = xs.map Statement.words := by
  induction xs with
  | nil => rfl
  | cons x xs ih => rw [Statement.wordsAll, ih, List.map_cons]

mutual

/-- The text of a statement is read as its trees. -/
theorem readsStatement : ∀ (s : Statement), s.Printable →
    Reader.ReadsStatement s.words s.ReadAs
  | .struct m name members, hs => by
    rw [Statement.Printable] at hs
    intro r ws Q hchain hpending hterminator h
    rw [Statement.words, bracedWords_map, List.cons_append, List.cons_append, List.cons_append,
      List.append_assoc, List.singleton_append]
    refine .structHead hpending fun o head k hname => ?_
    refine .braces (r := r.append [.tree (.structHead o head)] k)
      (fun o' body => [.structHead o head, .block o' body]) rfl hterminator hs.2.1
      (fun d nodes => Declaration.ReadAs.ne_nil) (fun d _ => readsStatement_declaration d)
      (fun o' body => ?_) fun o' body k hbody => ?_
    · show resolve (([Item.tree (.structHead o head)].reverse ++ r.chain).reverse ++ _) = _
      rw [hchain]
      rfl
    · exact h _ _ (.struct hname hbody)
  | .field d, hs => by
    rw [Statement.words]
    intro r ws Q hchain hpending hterminator h
    exact readsStatement_declaration d r ws Q hchain hpending hterminator fun nodes count hnodes =>
      h _ _ (.field hnodes)
  | .block m body, hs => by
    rw [Statement.Printable] at hs
    intro r ws Q hchain hpending hterminator h
    rw [Statement.words, Statement.wordsAll_eq_map, bracedWords_map, List.cons_append,
      List.append_assoc, List.singleton_append]
    refine .braces (fun o body => [.block o body]) hpending hterminator hs.1
      (fun x nodes => Statement.ReadAs.ne_nil) (readsStatements body hs.2)
      (fun o body => ?_) fun o nodes k hbody => h _ _ (.block hbody)
    rw [hchain]
    rfl
  | .expression e, hs => by
    rw [Statement.words]
    exact readsStatement_expr e
  | .scriptEnd m, hs => by simp [Statement.Printable] at hs

theorem readsStatements : ∀ (xs : List Statement), Statement.PrintableAll xs →
    ∀ x ∈ xs, Reader.ReadsStatement x.words x.ReadAs
  | [], _ => by simp
  | s :: rest, hs => by
    rw [Statement.PrintableAll] at hs
    exact List.forall_mem_cons.2 ⟨readsStatement s hs.1, readsStatements rest hs.2⟩

end

/-- Outside of blocks, the text of each statement is read as a chain. -/
theorem readsTo_chains {xs : List Statement} (hxs : Statement.PrintableAll xs)
    (statements : List (List Node)) (count : Nat) :
    Reader.ReadsTo ⟨[], [], statements, count, .nothing⟩
      (xs.flatMap (fun x => x.words ++ [⟨.semicolon, ";"⟩]) ++ [⟨.endOfInput, ""⟩]) fun r =>
        ∃ chains o, List.Forall₂ Statement.ReadAs xs chains ∧
          r.statements = [.scriptEnd o] :: (chains.reverse ++ statements) := by
  induction xs generalizing statements count with
  | nil => exact .endOfInput fun o count => ⟨[], o, .nil, rfl⟩
  | cons x xs ih =>
    rw [Statement.PrintableAll] at hxs
    rw [List.flatMap_cons, List.append_assoc, List.append_assoc]
    refine readsStatement x hxs.1 _ _ _ rfl rfl rfl fun chain count hchain => ?_
    intro ts hts hnesting
    obtain ⟨r, hr, chains, o, hchains, hstatements⟩ :=
      ih hxs.2 (chain :: statements) count ts hts hnesting
    refine ⟨r, hr, chain :: chains, o, .cons hchain hchains, ?_⟩
    simp [hstatements]

/-! ### Scripts -/

/-- **Main theorem.** If its delimiters are not nested too deeply, the printed template is
    read as one chain for each statement. -/
theorem ofSource_printed {t : Template} {xs : List Statement} {m : Mark}
    (hxs : Statement.PrintableAll xs) (ht : t.statements = xs ++ [.scriptEnd m])
    (hnesting : Token.nesting 0 (Token.scan t.printed).tokens ≤ Syntax.maxDepth) :
    ∃ chains o count, List.Forall₂ Statement.ReadAs xs chains ∧
      Syntax.Script.ofSource t.printed = .ok ⟨chains ++ [[.scriptEnd o]], count⟩ := by
  have hspells := spells_statements hxs
  have hprinted : t.printed = String.join (xs.map fun s => s.text ++ ";") := by
    rw [printed, ht, List.dropLast_concat]
  rw [hprinted] at hnesting ⊢
  obtain ⟨hfailure, hwords⟩ := hspells 0 1
  obtain ⟨r, hr, chains, o, hchains, hstatements⟩ := readsTo_chains hxs [] 0 _ hwords hnesting
  refine ⟨chains, o, r.count, hchains, Syntax.Script.ofSource_eq_ok_iff.2 ⟨hfailure, r, hr, ?_⟩⟩
  simp [hstatements]

end Template

end ByteBricks
