import Mathlib.Data.List.Perm.Basic
import Mathlib.Logic.Relation
import ByteBricks.Proofs.Template.Typing
import ByteBricks.Proofs.Template.Words
import ByteBricks.Template.Cell

/-! # The Cells of a Tree

  The statements of a template as a list of placed cells, one for each node in the order in
  which the nodes are finished. These are the cells that a script is lowered to, each with
  its handle. They hang together: a cell refers to the next one in its chain, and to the
  heads of the chains below it. -/

namespace ByteBricks

namespace Template

/-! ### Placed Cells -/

namespace Content

/-- The heads of the chains below the cell. -/
def children : Content → List Handle
  | structDecl _ members => [members]
  | fieldDecl _ count _ => count.toList
  | block first => [first]
  | element base index => [base, index]
  | arith _ lhs rhs => [lhs, rhs]
  | access _ | literal _ | scriptEnd => []

/-- The names that the cell refers to. -/
def names : Content → List Name
  | structDecl name _ => [name]
  | fieldDecl typeName _ name => [typeName, name]
  | access field => field.names
  | block _ | element _ _ | arith _ _ _ | literal _ | scriptEnd => []

end Content

/-- The cells that the cell links to. -/
def Cell.links (c : Cell) : List Handle := c.next.toList ++ c.content.children

/-- A cell with its handle. -/
abbrev Placed := Handle × Cell

namespace Placed

/-- What the cell stands for. -/
def content (p : Placed) : Content := p.2.content

/-- The cells that the cell links to. -/
def links (p : Placed) : List Handle := p.2.links

/-- The names of the cell, with its handle. -/
def references (p : Placed) : List (Handle × Name) := p.2.content.names.map (p.1, ·)

end Placed

/-! ### Cells of Statements -/

/-- Trees of a template whose roots are nodes. -/
class HasCells (α : Type) where
  /-- The number and line of the root. -/
  mark : α → Mark
  /-- What the root stands for. -/
  content : α → Content
  /-- The type of the root, if it has one. -/
  type : α → Option CellType
  /-- The cells below the root. -/
  inner : α → List Placed

/-- The handle of a node. -/
def Mark.handle (m : Mark) : Handle := ⟨m.id⟩

section HasCells

variable {α : Type} [HasCells α]

/-- The handle of the root. -/
def handleOf (x : α) : Handle := (HasCells.mark x).handle

/-- The cell of the root. -/
def rootCell (x : α) (next : Option Handle) : Placed :=
  (handleOf x, ⟨HasCells.content x, HasCells.type x, next, (HasCells.mark x).line⟩)

/-- The cells of a tree. The root is finished last. -/
def treeCells (x : α) (next : Option Handle) : List Placed :=
  HasCells.inner x ++ [rootCell x next]

/-- The handle of the first tree of a chain. -/
def headOf? (xs : List α) : Option Handle := xs.head?.map handleOf

/-- The roots of a chain, each of which goes on to the next one. -/
def chainRoots : List α → List Placed
  | [] => []
  | x :: rest => rootCell x (headOf? rest) :: chainRoots rest

/-- The cells of a chain. -/
def chainCells : List α → List Placed
  | [] => []
  | x :: rest => treeCells x (headOf? rest) ++ chainCells rest

end HasCells

/-- What an expression is. -/
def Expr.content : Expr → Content
  | .literal _ value => .literal value
  | .access _ _ field => .access field
  | .element _ _ baseMark _ index => .element baseMark.handle index.mark.handle
  | .arith _ _ op lhs rhs => .arith op lhs.mark.handle rhs.mark.handle

/-- The cell of an expression, which is a chain by itself. -/
def Expr.cell (e : Expr) : Placed :=
  (e.mark.handle, ⟨e.content, some (.primitive e.type), none, e.mark.line⟩)

/-- The cells below an expression. -/
def Expr.inner : Expr → List Placed
  | .literal _ _ | .access _ _ _ => []
  | .element _ type baseMark field index =>
    (baseMark.handle, ⟨.access field, some (.primitive type), none, baseMark.line⟩) ::
      (index.inner ++ [index.cell])
  | .arith _ _ _ lhs rhs => lhs.inner ++ lhs.cell :: (rhs.inner ++ [rhs.cell])

instance : HasCells Expr := ⟨Expr.mark, Expr.content, fun e => some (.primitive e.type), Expr.inner⟩

/-- The type of what is declared. -/
def Declaration.cellType (d : Declaration) : CellType := .ofName d.primitive? d.typeName

/-- What a declaration is. -/
def Declaration.content (d : Declaration) : Content :=
  .fieldDecl d.typeName (headOf? d.count.toList) d.name

instance : HasCells Declaration :=
  ⟨Declaration.mark, Declaration.content, fun d => some d.cellType,
    fun d => chainCells d.count.toList⟩

/-- The number and line of a statement. -/
def Statement.mark : Statement → Mark
  | .struct m _ _ | .block m _ | .scriptEnd m => m
  | .field d => d.mark
  | .expression e => e.mark

/-- What a statement is. A struct and a block have a chain of statements below them. -/
def Statement.content : Statement → Content
  | .struct _ name members => .structDecl name ((headOf? members).getD ⟨0⟩)
  | .field d => d.content
  | .block _ body => .block ((body.head?.map (·.mark.handle)).getD ⟨0⟩)
  | .expression e => e.content
  | .scriptEnd _ => .scriptEnd

/-- The type of what a statement declares or evaluates. -/
def Statement.cellType? : Statement → Option CellType
  | .field d => some d.cellType
  | .expression e => some (.primitive e.type)
  | .struct _ _ _ | .block _ _ | .scriptEnd _ => none

mutual

/-- The cells below a statement. -/
def Statement.inner : Statement → List Placed
  | .struct _ _ members => chainCells members
  | .field d => chainCells d.count.toList
  | .block _ body => Statement.innerAll body
  | .expression e => e.inner
  | .scriptEnd _ => []

/-- The cells of a chain of statements. -/
def Statement.innerAll : List Statement → List Placed
  | [] => []
  | s :: rest =>
    s.inner ++ (s.mark.handle, ⟨s.content, s.cellType?, rest.head?.map (·.mark.handle),
      s.mark.line⟩) :: Statement.innerAll rest

end

instance : HasCells Statement :=
  ⟨Statement.mark, Statement.content, Statement.cellType?, Statement.inner⟩

theorem Statement.innerAll_eq (xs : List Statement) : Statement.innerAll xs = chainCells xs := by
  induction xs with
  | nil => rfl
  | cons s xs ih =>
    rw [innerAll, ih, chainCells, treeCells, List.append_assoc, List.singleton_append]
    rfl

theorem headOf?_eq_some {α : Type} [HasCells α] {xs : List α} (h : xs ≠ []) :
    headOf? xs = some ((headOf? xs).getD ⟨0⟩) := by
  cases xs with
  | nil => exact absurd rfl h
  | cons x xs => rfl

end Template

/-- The first statement of a template. -/
def Template.first? (t : Template) : Option Handle := Template.headOf? t.statements

/-- The cells of a template. -/
def Template.cells (t : Template) : List Template.Placed := Template.chainCells t.statements

namespace Template

/-! ### Chains and Paths -/

/-- Following the chain from its head gives the cells. A chain ends. -/
inductive IsChain (cells : List Placed) : Option Handle → List Placed → Prop where
  /-- Behind its last cell, a chain goes on nowhere. -/
  | nil : IsChain cells none []
  /-- A chain goes on behind each other cell. -/
  | cons {p : Placed} {rest : List Placed} (mem : p ∈ cells) (tail : IsChain cells p.2.next rest) :
    IsChain cells (some p.1) (p :: rest)

/-- A cell links to another. -/
def Step (cells : List Placed) (i j : Handle) : Prop := ∃ c, (i, c) ∈ cells ∧ j ∈ c.links

/-- A cell is reached from another along links. -/
abbrev Reaches (cells : List Placed) : Handle → Handle → Prop :=
  Relation.ReflTransGen (Step cells)

/-- A struct and a block have a chain of cells below them, which are declarations in a struct,
    and an element is picked from a reference. -/
def Cell.Shaped (cells : List Placed) (c : Cell) : Prop :=
  match c.content with
  | .structDecl _ members => ∃ chain, IsChain cells (some members) chain ∧
      ∀ p ∈ chain, ∃ typeName count name, p.content = .fieldDecl typeName count name
  | .block first => ∃ chain, IsChain cells (some first) chain
  | .element base _ => ∃ c, (base, c) ∈ cells ∧ ∃ field, c.content = .access field
  | _ => True

section Subset

variable {cells cells' : List Placed}

theorem IsChain.mono (hsub : cells ⊆ cells') {head : Option Handle} {chain : List Placed}
    (h : IsChain cells head chain) : IsChain cells' head chain := by
  induction h with
  | nil => exact .nil
  | cons mem _ ih => exact .cons (hsub mem) ih

theorem Step.mono (hsub : cells ⊆ cells') {i j : Handle} (h : Step cells i j) :
    Step cells' i j := by
  obtain ⟨c, hc, hlink⟩ := h
  exact ⟨c, hsub hc, hlink⟩

theorem Reaches.mono (hsub : cells ⊆ cells') {i j : Handle} (h : Reaches cells i j) :
    Reaches cells' i j :=
  Relation.ReflTransGen.mono (fun _ _ => Step.mono hsub) _ _ h

theorem Cell.Shaped.mono (hsub : cells ⊆ cells') {c : Cell} (h : c.Shaped cells) :
    c.Shaped cells' := by
  unfold Shaped at *
  split
  · next hcontent =>
    simp only [hcontent] at h
    obtain ⟨chain, hchain, hdecls⟩ := h
    exact ⟨chain, hchain.mono hsub, hdecls⟩
  · next hcontent =>
    simp only [hcontent] at h
    obtain ⟨chain, hchain⟩ := h
    exact ⟨chain, hchain.mono hsub⟩
  · next hcontent =>
    simp only [hcontent] at h
    obtain ⟨b, hb, hbase⟩ := h
    exact ⟨b, hsub hb, hbase⟩
  · trivial

theorem shaped_append {a b : List Placed} (ha : ∀ p ∈ a, p.2.Shaped a)
    (hb : ∀ p ∈ b, p.2.Shaped b) : ∀ p ∈ a ++ b, p.2.Shaped (a ++ b) := by
  intro p hp
  rcases List.mem_append.1 hp with hp | hp
  · exact (ha p hp).mono (List.subset_append_left a b)
  · exact (hb p hp).mono (List.subset_append_right a b)

end Subset

/-- The cell is linked to a later one in its chain and to earlier ones below it. -/
structure Placed.Ordered (p : Placed) : Prop where
  next : ∀ h, p.2.next = some h → p.1.raw < h.raw
  children : ∀ h ∈ p.content.children, h.raw < p.1.raw

/-! ### Hanging Together -/

/-- The handles of the cells go up. -/
def Ascending (cells : List Placed) : Prop := cells.Pairwise fun p q => p.1.raw < q.1.raw

/-- The cells hang together: apart from the roots, which are linked from elsewhere, each of
    them is linked to once, and what else they link to is given. -/
structure Hangs (roots : List Handle) (cells : List Placed) (next : List Handle) : Prop where
  once : (roots ++ cells.flatMap Placed.links).Perm (cells.map Prod.fst ++ next)
  reached : ∀ p ∈ cells, ∃ r ∈ roots, Reaches cells r p.1
  shaped : ∀ p ∈ cells, p.2.Shaped cells
  ordered : Ascending cells → (∀ h ∈ next, ∀ p ∈ cells, p.1.raw < h.raw) →
    ∀ p ∈ cells, p.Ordered

namespace Hangs

variable {r r' : List Handle} {a b : List Placed}

theorem nil : Hangs [] [] [] where
  once := .refl _
  reached := by simp
  shaped := by simp
  ordered := by simp

/-- Without links to elsewhere, all roots are among the cells. -/
theorem root_mem (h : Hangs r a []) {i : Handle} (hi : i ∈ r) : ∃ p ∈ a, p.1 = i := by
  have hmem := h.once.subset (List.mem_append_left _ hi)
  rw [List.append_nil] at hmem
  exact List.mem_map.1 hmem

/-- Cells hang together side by side. -/
theorem beside (ha : Hangs r a []) (hb : Hangs r' b []) : Hangs (r ++ r') (a ++ b) [] where
  once := by
    refine List.perm_iff_count.2 fun i => ?_
    have hcount := List.perm_iff_count.1 ha.once i
    have hcount' := List.perm_iff_count.1 hb.once i
    simp only [List.flatMap_append, List.map_append, List.count_append, List.append_nil] at *
    omega
  reached := by
    intro p hp
    rcases List.mem_append.1 hp with hp | hp
    · obtain ⟨i, hi, hpath⟩ := ha.reached p hp
      exact ⟨i, List.mem_append_left _ hi, hpath.mono (List.subset_append_left a b)⟩
    · obtain ⟨i, hi, hpath⟩ := hb.reached p hp
      exact ⟨i, List.mem_append_right _ hi, hpath.mono (List.subset_append_right a b)⟩
  shaped := shaped_append ha.shaped hb.shaped
  ordered := by
    intro hasc _ p hp
    obtain ⟨hasc, hasc', -⟩ := List.pairwise_append.1 hasc
    rcases List.mem_append.1 hp with hp | hp
    · exact ha.ordered hasc (by simp) p hp
    · exact hb.ordered hasc' (by simp) p hp

/-- Cells hang together behind those that link to their roots. -/
theorem follow {n : List Handle} (ha : Hangs r a n) (hb : Hangs n b []) :
    Hangs r (a ++ b) [] where
  once := by
    refine List.perm_iff_count.2 fun i => ?_
    have hcount := List.perm_iff_count.1 ha.once i
    have hcount' := List.perm_iff_count.1 hb.once i
    simp only [List.flatMap_append, List.map_append, List.count_append, List.append_nil] at *
    omega
  reached := by
    intro p hp
    rcases List.mem_append.1 hp with hp | hp
    · obtain ⟨i, hi, hpath⟩ := ha.reached p hp
      exact ⟨i, hi, hpath.mono (List.subset_append_left a b)⟩
    · obtain ⟨j, hj, hpath⟩ := hb.reached p hp
      have hpath := hpath.mono (List.subset_append_right a b)
      -- The root of the back is a root of the front, or a cell of the front links to it.
      have hj := ha.once.symm.subset (List.mem_append_right _ hj)
      rcases List.mem_append.1 hj with hj | hj
      · exact ⟨j, hj, hpath⟩
      · obtain ⟨q, hq, hlink⟩ := List.mem_flatMap.1 hj
        obtain ⟨i, hi, hfront⟩ := ha.reached q hq
        have hstep : Step (a ++ b) q.1 j := ⟨q.2, List.mem_append_left b hq, hlink⟩
        exact ⟨i, hi, ((hfront.mono (List.subset_append_left a b)).tail hstep).trans hpath⟩
  shaped := shaped_append ha.shaped hb.shaped
  ordered := by
    intro hasc _ p hp
    obtain ⟨hasc, hasc', hless⟩ := List.pairwise_append.1 hasc
    rcases List.mem_append.1 hp with hp | hp
    · refine ha.ordered hasc (fun i hi q hq => ?_) p hp
      obtain ⟨e, he, rfl⟩ := hb.root_mem hi
      exact hless q hq e he
    · exact hb.ordered hasc' (by simp) p hp

/-- A cell hangs together with what is below it. -/
theorem node {p : Placed} (ha : Hangs p.content.children a []) (hp : p.2.Shaped (a ++ [p])) :
    Hangs [p.1] (a ++ [p]) p.2.next.toList where
  once := by
    refine List.perm_iff_count.2 fun i => ?_
    have hcount := List.perm_iff_count.1 ha.once i
    simp only [List.flatMap_append, List.flatMap_singleton, List.map_append, List.map_singleton,
      List.count_append, List.append_nil, Placed.links, Placed.content, Cell.links] at *
    omega
  reached := by
    intro q hq
    refine ⟨p.1, List.mem_singleton_self _, ?_⟩
    rcases List.mem_append.1 hq with hq | hq
    · obtain ⟨i, hi, hpath⟩ := ha.reached q hq
      have hstep : Step (a ++ [p]) p.1 i :=
        ⟨p.2, List.mem_append_right a (List.mem_singleton_self p), List.mem_append_right _ hi⟩
      exact .head hstep (hpath.mono (List.subset_append_left a [p]))
    · rw [List.mem_singleton.1 hq]
  shaped := by
    intro q hq
    rcases List.mem_append.1 hq with hq | hq
    · exact (ha.shaped q hq).mono (List.subset_append_left a [p])
    · rw [List.mem_singleton.1 hq]
      exact hp
  ordered := by
    intro hasc hnext q hq
    obtain ⟨hasc, -, hless⟩ := List.pairwise_append.1 hasc
    rcases List.mem_append.1 hq with hq | hq
    · exact ha.ordered hasc (by simp) q hq
    · obtain rfl := List.mem_singleton.1 hq
      constructor
      · intro i hi
        exact hnext i (by simp [hi]) q (List.mem_append_right a (List.mem_singleton_self q))
      · intro i hi
        obtain ⟨e, he, rfl⟩ := ha.root_mem hi
        exact hless e he q (List.mem_singleton_self q)

end Hangs

/-! ### Trees and Chains -/

section HasCells

variable {α : Type} [HasCells α]

/-- What is below the root of a tree hangs together. -/
structure Grown (x : α) : Prop where
  below : Hangs (HasCells.content x).children (HasCells.inner x) []
  shaped : ∀ next, (rootCell x next).2.Shaped (treeCells x next)

theorem Grown.hangs {x : α} (h : Grown x) (next : Option Handle) :
    Hangs [handleOf x] (treeCells x next) next.toList :=
  .node (p := rootCell x next) h.below (h.shaped next)

theorem hangs_chain {xs : List α} (h : ∀ x ∈ xs, Grown x) :
    Hangs (headOf? xs).toList (chainCells xs) [] := by
  induction xs with
  | nil => exact .nil
  | cons x rest ih =>
    obtain ⟨hx, hrest⟩ := List.forall_mem_cons.1 h
    exact (hx.hangs (headOf? rest)).follow (ih hrest)

theorem isChain_chainRoots (xs : List α) :
    IsChain (chainCells xs) (headOf? xs) (chainRoots xs) := by
  induction xs with
  | nil => exact .nil
  | cons x rest ih =>
    refine .cons (p := rootCell x (headOf? rest)) ?_ (ih.mono (List.subset_append_right _ _))
    exact List.mem_append_left _ (List.mem_append_right _ (List.mem_singleton_self _))

/-- A cell of a chain is the root of one of its trees. -/
theorem content_of_mem_chainRoots {xs : List α} {p : Placed} (h : p ∈ chainRoots xs) :
    ∃ x ∈ xs, p.content = HasCells.content x := by
  induction xs with
  | nil => cases h
  | cons x rest ih =>
    rcases List.mem_cons.1 h with rfl | h
    · exact ⟨x, List.mem_cons_self, rfl⟩
    · obtain ⟨y, hy, hp⟩ := ih h
      exact ⟨y, List.mem_cons_of_mem x hy, hp⟩

end HasCells

/-- An expression hangs together. -/
theorem grown_expr (e : Expr) : Grown e := by
  induction e with
  | literal m value | access m t field => exact ⟨.nil, fun next => trivial⟩
  | element m t baseMark field index ih =>
    have hbase := Hangs.node (a := [])
      (p := (baseMark.handle, ⟨.access field, some (.primitive t), none, baseMark.line⟩)) .nil
      trivial
    constructor
    · exact hbase.beside (ih.hangs none)
    · intro next
      exact ⟨_, List.mem_append_left _ List.mem_cons_self, field, rfl⟩
  | arith m t op lhs rhs ihl ihr =>
    refine ⟨?_, fun next => trivial⟩
    have h := (ihl.hangs none).beside (ihr.hangs none)
    rwa [treeCells, List.append_assoc] at h

theorem grown_declaration (d : Declaration) : Grown d :=
  ⟨hangs_chain fun e _ => grown_expr e, fun _ => trivial⟩

mutual

/-- A statement hangs together if its structs and blocks are not empty. -/
theorem grown_statement : ∀ {s : Statement}, s.Printable → Grown s
  | .struct m name members, hs => by
    rw [Statement.Printable] at hs
    have hhead := headOf?_eq_some hs.2.1
    have hbelow := hangs_chain fun d (_ : d ∈ members) => grown_declaration d
    rw [hhead] at hbelow
    refine ⟨hbelow, fun next => ?_⟩
    have hchain := isChain_chainRoots members
    rw [hhead] at hchain
    refine ⟨chainRoots members, hchain.mono (List.subset_append_left _ _), fun p hp => ?_⟩
    obtain ⟨d, -, hd⟩ := content_of_mem_chainRoots hp
    exact ⟨_, _, _, hd⟩
  | .field d, _ => by
    obtain ⟨hbelow, hshaped⟩ := grown_declaration d
    exact ⟨hbelow, hshaped⟩
  | .block m body, hs => by
    rw [Statement.Printable] at hs
    have hhead := headOf?_eq_some hs.1
    constructor
    · show Hangs [(headOf? body).getD ⟨0⟩] (Statement.innerAll body) []
      have hbelow := hangs_chain (grown_statements hs.2)
      rw [hhead] at hbelow
      rw [Statement.innerAll_eq]
      exact hbelow
    · intro next
      have hchain := isChain_chainRoots body
      rw [hhead] at hchain
      refine ⟨chainRoots body, hchain.mono ?_⟩
      rw [← Statement.innerAll_eq]
      exact List.subset_append_left _ _
  | .expression e, _ => by
    obtain ⟨hbelow, hshaped⟩ := grown_expr e
    exact ⟨hbelow, hshaped⟩
  | .scriptEnd m, hs => by simp [Statement.Printable] at hs

theorem grown_statements : ∀ {xs : List Statement}, Statement.PrintableAll xs → ∀ x ∈ xs, Grown x
  | [], _ => by simp
  | s :: rest, hs => by
    rw [Statement.PrintableAll] at hs
    exact List.forall_mem_cons.2 ⟨grown_statement hs.1, grown_statements hs.2⟩

end

end Template

end ByteBricks
