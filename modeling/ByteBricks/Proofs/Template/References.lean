import ByteBricks.Proofs.Template.Cells
import ByteBricks.Proofs.Template.Senses

/-! # References to Names

  The nodes of a template refer to the names that stand in its statements, each of them
  to its own. From left to right, these are the names of the source, and they are read
  back from the table of names. -/

namespace ByteBricks

namespace Token

/-- The texts of the names among words, in the order of the words. -/
def nameTexts (ws : List Word) : List String :=
  ws.filterMap fun w => if w.kind = .name then some w.text else none

/-- The text of a name. -/
def Sense.name? : Sense → Option String
  | .word ⟨.name, text⟩ => some text
  | _ => none

/-- The names among words belong to what the words say. -/
theorem filterMap_name_senses (ws : List Word) :
    (senses ws).filterMap Sense.name? = nameTexts ws := by
  unfold senses nameTexts
  rw [List.filterMap_filterMap]
  congr 1
  funext w
  obtain ⟨kind, text⟩ := w
  cases kind <;> rfl

theorem nameTexts_congr {a b : List Word} (h : senses a = senses b) :
    nameTexts a = nameTexts b := by
  rw [← filterMap_name_senses, ← filterMap_name_senses, h]

@[simp] theorem nameTexts_append (a b : List Word) :
    nameTexts (a ++ b) = nameTexts a ++ nameTexts b :=
  List.filterMap_append

/-- Delimiters are no names. -/
theorem nameTexts_between {first last : Word} (hfirst : first.kind ≠ .name)
    (hlast : last.kind ≠ .name) (ws : List Word) :
    nameTexts (first :: (ws ++ [last])) = nameTexts ws := by
  simp [nameTexts, hfirst, hlast]

end Token

namespace Template

open Token (Word nameTexts)

/-! ### References -/

/-- The names of an expression from left to right, with the handles of their nodes. -/
def Expr.references : Expr → List (Handle × Name)
  | .literal _ _ => []
  | .access m _ field => field.names.map (m.handle, ·)
  | .element _ _ baseMark field index => field.names.map (baseMark.handle, ·) ++ index.references
  | .arith _ _ _ lhs rhs => lhs.references ++ rhs.references

/-- The names of a declaration. The count stands between those of the type and the field. -/
def Declaration.references (d : Declaration) : List (Handle × Name) :=
  (d.mark.handle, d.typeName) ::
    (d.count.toList.flatMap Expr.references ++ [(d.mark.handle, d.name)])

mutual

/-- The names of a statement from left to right. -/
def Statement.references : Statement → List (Handle × Name)
  | .struct m name members => (m.handle, name) :: members.flatMap Declaration.references
  | .field d => d.references
  | .block _ body => Statement.referencesAll body
  | .expression e => e.references
  | .scriptEnd _ => []

/-- The names of statements from left to right. -/
def Statement.referencesAll : List Statement → List (Handle × Name)
  | [] => []
  | s :: rest => s.references ++ Statement.referencesAll rest

end

theorem Statement.referencesAll_eq (xs : List Statement) :
    Statement.referencesAll xs = xs.flatMap Statement.references := by
  induction xs with
  | nil => rfl
  | cons x xs ih => rw [referencesAll, ih, List.flatMap_cons]

/-! ### References of Cells -/

section HasCells

variable {α : Type} [HasCells α]

/-- The references of the cells of a tree, in another order, are given. -/
def Refers (x : α) (references : List (Handle × Name)) : Prop :=
  ∀ next, references.Perm ((treeCells x next).flatMap Placed.references)

theorem refers_chain {f : α → List (Handle × Name)} {xs : List α} (h : ∀ x ∈ xs, Refers x (f x)) :
    (xs.flatMap f).Perm ((chainCells xs).flatMap Placed.references) := by
  induction xs with
  | nil => exact .refl _
  | cons x xs ih =>
    obtain ⟨hx, hxs⟩ := List.forall_mem_cons.1 h
    rw [List.flatMap_cons, chainCells, List.flatMap_append]
    exact (hx _).append (ih hxs)

/-- The references of a node come behind those of the nodes below it. -/
theorem Refers.root {x : α} {references : List (Handle × Name)}
    (h : references.Perm ((HasCells.content x).names.map (handleOf x, ·) ++
      (HasCells.inner x).flatMap Placed.references)) : Refers x references := by
  intro next
  rw [treeCells, List.flatMap_append, List.flatMap_singleton]
  exact h.trans List.perm_append_comm

end HasCells

theorem refers_expr (e : Expr) : Refers e e.references := by
  induction e with
  | literal m value => exact .root (.refl _)
  | access m t field =>
    apply Refers.root
    show (field.names.map (m.handle, ·)).Perm (field.names.map (m.handle, ·) ++ [])
    rw [List.append_nil]
  | element m t baseMark field index ih =>
    apply Refers.root
    exact (List.Perm.refl (field.names.map (baseMark.handle, ·))).append (ih none)
  | arith m t op lhs rhs ihl ihr =>
    have h := (ihl none).append (ihr none)
    rw [← List.flatMap_append, treeCells, List.append_assoc] at h
    exact .root h

theorem refers_declaration (d : Declaration) : Refers d d.references := by
  have hcount : (d.count.toList.flatMap Expr.references).Perm _ :=
    refers_chain fun e _ => refers_expr e
  apply Refers.root
  show ((d.mark.handle, d.typeName) :: (d.count.toList.flatMap Expr.references ++
    [(d.mark.handle, d.name)])).Perm ((d.mark.handle, d.typeName) :: (d.mark.handle, d.name) :: _)
  exact .cons _ ((List.perm_append_singleton _ _).trans (hcount.cons _))

mutual

/-- A statement refers to the names that stand in it. -/
theorem refers_statement : ∀ s : Statement, Refers s s.references
  | .struct m name members => .root ((refers_chain fun d _ => refers_declaration d).cons _)
  | .field d => refers_declaration d
  | .block m body => by
    apply Refers.root
    show (Statement.referencesAll body).Perm ((Statement.innerAll body).flatMap Placed.references)
    rw [Statement.referencesAll_eq, Statement.innerAll_eq]
    exact refers_chain (refers_statements body)
  | .expression e => refers_expr e
  | .scriptEnd m => .root (.refl _)

theorem refers_statements : ∀ (xs : List Statement), ∀ x ∈ xs, Refers x x.references
  | [] => by simp
  | s :: rest => List.forall_mem_cons.2 ⟨refers_statement s, refers_statements rest⟩

end

/-! ### References along Links -/

mutual

/-- The references of a cell and of the chains below it, in the order of the source. -/
inductive Cites (cells : List Placed) : Placed → List (Handle × Name) → Prop where
  | structDecl {h : Handle} {c : Cell} {name : Name} {members : Handle}
    {inner : List (Handle × Name)} (content : c.content = .structDecl name members)
    (below : CitesAll cells (some members) inner) : Cites cells (h, c) ((h, name) :: inner)
  | fieldDecl {h : Handle} {c : Cell} {typeName name : Name} {count : Option Handle}
    {inner : List (Handle × Name)} (content : c.content = .fieldDecl typeName count name)
    (below : CitesAll cells count inner) :
    Cites cells (h, c) ((h, typeName) :: (inner ++ [(h, name)]))
  | block {h : Handle} {c : Cell} {first : Handle} {inner : List (Handle × Name)}
    (content : c.content = .block first) (below : CitesAll cells (some first) inner) :
    Cites cells (h, c) inner
  | access {h : Handle} {c : Cell} {field : Access} (content : c.content = .access field) :
    Cites cells (h, c) (field.names.map (h, ·))
  | element {h : Handle} {c : Cell} {base index : Handle} {left right : List (Handle × Name)}
    (content : c.content = .element base index) (base : CitesAll cells (some base) left)
    (index : CitesAll cells (some index) right) : Cites cells (h, c) (left ++ right)
  | arith {h : Handle} {c : Cell} {op : ArithOp} {lhs rhs : Handle}
    {left right : List (Handle × Name)} (content : c.content = .arith op lhs rhs)
    (lhs : CitesAll cells (some lhs) left) (rhs : CitesAll cells (some rhs) right) :
    Cites cells (h, c) (left ++ right)
  | literal {h : Handle} {c : Cell} {value : Int64} (content : c.content = .literal value) :
    Cites cells (h, c) []
  | scriptEnd {h : Handle} {c : Cell} (content : c.content = .scriptEnd) : Cites cells (h, c) []

/-- The references of the cells of a chain and of all chains below it. -/
inductive CitesAll (cells : List Placed) : Option Handle → List (Handle × Name) → Prop where
  | nil : CitesAll cells none []
  | cons {p : Placed} {own rest : List (Handle × Name)} (mem : p ∈ cells)
    (head : Cites cells p own) (tail : CitesAll cells p.2.next rest) :
    CitesAll cells (some p.1) (own ++ rest)

end

section HasCells

variable {α : Type} [HasCells α] {cells : List Placed}

/-- Wherever its cells are, the root of the tree leads to the references. -/
def Cited (x : α) (references : List (Handle × Name)) : Prop :=
  ∀ cells next, treeCells x next ⊆ cells → Cites cells (rootCell x next) references

theorem citesAll_chain {f : α → List (Handle × Name)} {xs : List α} (h : ∀ x ∈ xs, Cited x (f x))
    (hsub : chainCells xs ⊆ cells) : CitesAll cells (headOf? xs) (xs.flatMap f) := by
  induction xs with
  | nil => exact .nil
  | cons x xs ih =>
    obtain ⟨hx, hxs⟩ := List.forall_mem_cons.1 h
    obtain ⟨htree, hrest⟩ := List.append_subset.1 hsub
    have hroot : rootCell x (headOf? xs) ∈ cells :=
      htree (List.mem_append_right _ (List.mem_singleton_self _))
    exact .cons hroot (hx cells _ htree) (ih hxs hrest)

theorem Cited.citesAll {x : α} {references : List (Handle × Name)} (h : Cited x references)
    (hsub : treeCells x none ⊆ cells) : CitesAll cells (some (handleOf x)) references := by
  have hcells : chainCells [x] ⊆ cells := by rwa [chainCells, chainCells, List.append_nil]
  have hchain := citesAll_chain (f := fun _ => references) (List.forall_mem_singleton.2 h) hcells
  rwa [List.flatMap_singleton] at hchain

end HasCells

theorem cited_expr (e : Expr) : Cited e e.references := by
  induction e with
  | literal m value => exact fun cells next _ => .literal rfl
  | access m t field => exact fun cells next _ => .access rfl
  | element m t baseMark field index ih =>
    intro cells next hsub
    obtain ⟨hinner, -⟩ := List.append_subset.1 hsub
    obtain ⟨hbase, hindex⟩ := List.cons_subset.1 hinner
    have hfield : CitesAll cells (some baseMark.handle)
        (field.names.map (baseMark.handle, ·) ++ []) := .cons hbase (.access rfl) .nil
    rw [List.append_nil] at hfield
    exact .element rfl hfield (ih.citesAll hindex)
  | arith m t op lhs rhs ihl ihr =>
    intro cells next hsub
    obtain ⟨hinner, -⟩ := List.append_subset.1 hsub
    have hinner : treeCells lhs none ++ treeCells rhs none ⊆ cells := by
      rwa [treeCells, List.append_assoc]
    obtain ⟨hlhs, hrhs⟩ := List.append_subset.1 hinner
    exact .arith rfl (ihl.citesAll hlhs) (ihr.citesAll hrhs)

theorem cited_declaration (d : Declaration) : Cited d d.references := by
  intro cells next hsub
  obtain ⟨hcount, -⟩ := List.append_subset.1 hsub
  exact .fieldDecl rfl (citesAll_chain (fun e _ => cited_expr e) hcount)

mutual

/-- The links of a statement lead to its names, from left to right. -/
theorem cited_statement : ∀ {s : Statement}, s.Printable → Cited s s.references
  | .struct m name members, hs => by
    rw [Statement.Printable] at hs
    intro cells next hsub
    obtain ⟨hmembers, -⟩ := List.append_subset.1 hsub
    have hchain := citesAll_chain (fun d _ => cited_declaration d) hmembers
    rw [headOf?_eq_some hs.2.1] at hchain
    exact .structDecl rfl hchain
  | .field d, _ => cited_declaration d
  | .block m body, hs => by
    rw [Statement.Printable] at hs
    intro cells next hsub
    obtain ⟨hbody, -⟩ := List.append_subset.1 hsub
    have hbody : Statement.innerAll body ⊆ cells := hbody
    rw [Statement.innerAll_eq] at hbody
    have hchain := citesAll_chain (cited_statements hs.2) hbody
    rw [headOf?_eq_some hs.1, ← Statement.referencesAll_eq] at hchain
    exact .block rfl hchain
  | .expression e, _ => cited_expr e
  | .scriptEnd m, hs => by simp [Statement.Printable] at hs

theorem cited_statements : ∀ {xs : List Statement}, Statement.PrintableAll xs →
    ∀ x ∈ xs, Cited x x.references
  | [], _ => by simp
  | s :: rest, hs => by
    rw [Statement.PrintableAll] at hs
    exact List.forall_mem_cons.2 ⟨cited_statement hs.1, cited_statements hs.2⟩

end

/-! ### References and Names -/

theorem texts_of_access (a : Access) : a.names.map Name.text = nameTexts a.words := by
  cases a <;> rfl

/-- From left to right, an expression refers to its names. -/
theorem texts_of_expr (e : Expr) : e.references.map (·.2.text) = nameTexts e.words := by
  have haccess (m : Mark) (a : Access) :
      (a.names.map (m.handle, ·)).map (·.2.text) = nameTexts a.words := by
    rw [List.map_map, ← texts_of_access]
    rfl
  induction e with
  | literal m value => rfl
  | access m t field => exact haccess m field
  | element m t baseMark field index ih =>
    rw [Expr.references, Expr.words, List.map_append, haccess, ih, Token.nameTexts_append,
      Token.nameTexts_between (by decide) (by decide)]
  | arith m t op lhs rhs ihl ihr =>
    have hop : nameTexts [op.word] = [] := by cases op <;> rfl
    have hwords : (Expr.arith m t op lhs rhs).words =
        ⟨.openParen, "("⟩ :: (lhs.words ++ ([op.word] ++ rhs.words) ++ [⟨.closeParen, ")"⟩]) := by
      simp [Expr.words]
    rw [hwords, Token.nameTexts_between (by decide) (by decide), Expr.references, List.map_append,
      ihl, ihr, Token.nameTexts_append, Token.nameTexts_append, hop, List.nil_append]

theorem texts_of_declaration (d : Declaration) :
    d.references.map (·.2.text) = nameTexts d.words := by
  obtain ⟨m, typeName, count, name⟩ := d
  cases count with
  | none => rfl
  | some e =>
    have hwords : (Declaration.mk m typeName (some e) name).words = [typeName.word] ++
        ⟨.openBracket, "["⟩ :: (e.words ++ [⟨.closeBracket, "]"⟩]) ++ [name.word] := by
      simp [Declaration.words]
    rw [hwords, Token.nameTexts_append, Token.nameTexts_append,
      Token.nameTexts_between (by decide) (by decide), ← texts_of_expr]
    simp [Declaration.references, nameTexts, Name.word]

theorem texts_of_parts {α : Type} {f : α → List (Handle × Name)} {words : α → List Word}
    {xs : List α} (h : ∀ x ∈ xs, (f x).map (·.2.text) = nameTexts (words x)) :
    (xs.flatMap f).map (·.2.text) = nameTexts (xs.flatMap words) := by
  induction xs with
  | nil => rfl
  | cons x xs ih =>
    obtain ⟨hx, hxs⟩ := List.forall_mem_cons.1 h
    rw [List.flatMap_cons, List.flatMap_cons, List.map_append, hx, ih hxs, Token.nameTexts_append]

theorem nameTexts_bracedWords {α : Type} (words : α → List Word) (xs : List α) :
    nameTexts (bracedWords (xs.map words)) = nameTexts (xs.flatMap words) := by
  rw [Token.nameTexts_congr (senses_bracedWords _), Token.nameTexts_between (by decide) (by decide),
    List.flatMap_def]

mutual

/-- From left to right, a statement refers to its names. -/
theorem texts_of_statement : ∀ s : Statement, s.references.map (·.2.text) = nameTexts s.words
  | .struct m name members => by
    have hwords : (Statement.struct m name members).words =
        [⟨.structWord, "struct"⟩, name.word] ++ bracedWords (members.map Declaration.words) := by
      simp [Statement.words]
    rw [hwords, Token.nameTexts_append, nameTexts_bracedWords,
      ← texts_of_parts fun d _ => texts_of_declaration d]
    rfl
  | .field d => texts_of_declaration d
  | .block m body => by
    rw [Statement.references, Statement.words, Statement.referencesAll_eq,
      Statement.wordsAll_eq_map, nameTexts_bracedWords]
    exact texts_of_parts (texts_of_statements body)
  | .expression e => texts_of_expr e
  | .scriptEnd m => rfl

theorem texts_of_statements : ∀ (xs : List Statement), ∀ x ∈ xs,
    x.references.map (·.2.text) = nameTexts x.words
  | [] => by simp
  | s :: rest => List.forall_mem_cons.2 ⟨texts_of_statement s, texts_of_statements rest⟩

end

/-! ### Names in the Table -/

theorem map_snd_references (e : Expr) : e.references.map Prod.snd = e.names := by
  have haccess (m : Mark) (a : Access) : (a.names.map (m.handle, ·)).map Prod.snd = a.names := by
    rw [List.map_map]
    exact List.map_id _
  induction e with
  | literal m value => rfl
  | access m t field => exact haccess m field
  | element m t baseMark field index ih =>
    rw [Expr.references, Expr.names, List.map_append, haccess, ih]
  | arith m t op lhs rhs ihl ihr => rw [Expr.references, Expr.names, List.map_append, ihl, ihr]

theorem mem_names_of_declaration {d : Declaration} {r : Handle × Name} (h : r ∈ d.references) :
    r.2 ∈ d.names := by
  obtain ⟨m, typeName, count, name⟩ := d
  have hcount : ∀ e, count = some e → r ∈ e.references → r.2 ∈ e.names := by
    intro e _ hr
    rw [← map_snd_references]
    exact List.mem_map_of_mem hr
  cases count with
  | none =>
    simp only [Declaration.references, Option.toList_none, List.flatMap_nil, List.nil_append,
      List.mem_cons, List.not_mem_nil, or_false] at h
    rcases h with rfl | rfl <;> simp [Declaration.names]
  | some e =>
    simp only [Declaration.references, Option.toList_some, List.flatMap_singleton, List.mem_cons,
      List.mem_append, List.not_mem_nil, or_false] at h
    rcases h with rfl | h | rfl
    · simp [Declaration.names]
    · simp [Declaration.names, hcount e rfl h]
    · simp [Declaration.names]

mutual

theorem mem_names_of_statement : ∀ {s : Statement} {r : Handle × Name}, r ∈ s.references →
    r.2 ∈ s.names
  | .struct m name members, r, h => by
    rcases List.mem_cons.1 h with rfl | h
    · exact List.mem_cons_self
    · obtain ⟨d, hd, hr⟩ := List.mem_flatMap.1 h
      exact List.mem_cons_of_mem _ (List.mem_flatMap.2 ⟨d, hd, mem_names_of_declaration hr⟩)
  | .field d, r, h => mem_names_of_declaration h
  | .block m body, r, h => mem_namesOf h
  | .expression e, r, h => by
    rw [Statement.names, ← map_snd_references]
    exact List.mem_map_of_mem h
  | .scriptEnd m, r, h => nomatch h

/-- What statements refer to are names that stand in them. -/
theorem mem_namesOf : ∀ {xs : List Statement} {r : Handle × Name}, r ∈ Statement.referencesAll xs →
    r.2 ∈ namesOf xs
  | [], r, h => nomatch h
  | s :: rest, r, h => by
    rw [namesOf, List.mem_append]
    exact (List.mem_append.1 h).imp mem_names_of_statement mem_namesOf

end

/-- The references of a compiled template are those of its nodes, and what is read back for
    them are the names of the source, from left to right. -/
theorem references_of_compile {source : String} {t : Template} (h : compile source = .ok t) :
    (Statement.referencesAll t.statements).Perm (t.cells.flatMap Placed.references) ∧
      (Statement.referencesAll t.statements).map (fun r => t.names.get? r.2.offset) =
        (nameTexts ((Token.scan source).tokens.map Token.word)).map some := by
  obtain ⟨script, scope, hscript, hchains, -⟩ := compile_eq_ok_iff.1 h
  constructor
  · rw [Statement.referencesAll_eq]
    exact refers_chain (refers_statements t.statements)
  · have hstored : ∀ r ∈ Statement.referencesAll t.statements,
        t.names.get? r.2.offset = some r.2.text := by
      intro r hr
      exact (typed_of_compile h).2.stored r.2 (mem_namesOf hr)
    have hsource : Token.nameTexts ((Token.scan source).tokens.map Token.word) =
        Token.nameTexts (t.statements.flatMap Statement.words) := by
      have hsays := Resolve.says_chains script.statements _ _ _ hchains
      rw [Token.nameTexts_congr (Syntax.Script.senses_of_ofSource hscript),
        Token.nameTexts_append, ← Token.nameTexts_congr hsays]
      exact List.append_nil _
    rw [hsource, ← texts_of_parts (texts_of_statements t.statements), List.map_map,
      ← Statement.referencesAll_eq]
    exact List.map_congr_left hstored

end Template

end ByteBricks
