import ByteBricks.Execution.Run
import ByteBricks.Proofs.NameTable
import ByteBricks.Template.Resolve

/-! # Typing Templates

  What it means for the commands of a template to be well typed: every name stands
  for a declaration in front of it, and that declaration fits the use. A context
  lists the declarations; each command is typed in the context that the commands
  before it leave.

  A template is linked if its marks count its nodes and its names are stored in its
  name table. -/

namespace ByteBricks

namespace Template

open Execution (Command)

/-! ### Contexts -/

/-- What is declared in front of a point of a template. -/
structure Context where
  /-- The declared structs, newest first. -/
  structs : List StructEntry
  /-- The declared fields, newest first. -/
  fields : List Entry

namespace Context

/-- The context at the start of a template. -/
def empty : Context := ⟨[], []⟩

/-- The newest field of a name. -/
def field? (Γ : Context) (name : String) : Option Entry := Γ.fields.find? (·.name == name)

/-- The newest struct of a name. -/
def struct? (Γ : Context) (name : String) : Option StructEntry :=
  Γ.structs.find? (·.name == name)

/-- The declaration that a reference stands for. Only a field that holds a single
    struct has members. -/
def target? (Γ : Context) : Access → Option Entry
  | .field name => Γ.field? name.text
  | .member owner member => do
    let b ← Γ.field? owner.text
    match b.isArray, b.type with
    | false, .struct name => do (← Γ.struct? name).members.find? (·.name == member.text)
    | _, _ => none

theorem target?_member {Γ : Context} {owner part : Name} {b : Entry} :
    Γ.target? (.member owner part) = some b ↔
      ∃ parent struct e, Γ.field? owner.text = some parent ∧ parent.isArray = false ∧
        parent.type = .struct struct ∧ Γ.struct? struct = some e ∧
        e.members.find? (·.name == part.text) = some b := by
  simp only [target?, Option.bind_eq_bind, Option.bind_eq_some_iff]
  constructor
  · intro h
    obtain ⟨parent, hparent, h⟩ := h
    split at h
    · next struct harray htype =>
      obtain ⟨e, he, hb⟩ := Option.bind_eq_some_iff.1 h
      exact ⟨parent, struct, e, hparent, harray, htype, he, hb⟩
    · simp at h
  · intro h
    obtain ⟨parent, struct, e, hparent, harray, htype, he, hb⟩ := h
    refine ⟨parent, hparent, ?_⟩
    rw [harray, htype]
    exact Option.bind_eq_some_iff.2 ⟨e, he, hb⟩

/-- The type is primitive or a declared struct. -/
def Knows (Γ : Context) : ElementType → Prop
  | .primitive _ => True
  | .struct name => ∃ entry, Γ.struct? name = some entry

end Context

/-- The type that a name stands for if it is the name of a type. -/
def ElementType.ofName (name : String) : ElementType :=
  match Primitive.ofName? name with
  | some t => .primitive t
  | none => .struct name

/-- What a declaration adds to a context. -/
def Declaration.entry (d : Declaration) : Entry :=
  ⟨d.name.text, .ofName d.typeName.text, d.count.isSome⟩

/-! ### Well-Typed Commands -/

/-- An expression uses fields as what they are declared to be. -/
def Expr.Typed (Γ : Context) : Expr → Prop
  | .literal _ _ => True
  | .access _ t field =>
    ∃ b, Γ.target? field = some b ∧ b.isArray = false ∧ b.type = .primitive t
  | .element _ t _ field index =>
    (∃ b, Γ.target? field = some b ∧ b.isArray = true ∧ b.type = .primitive t) ∧
      index.Typed Γ ∧ index.type.isInteger = true
  | .arith _ t _ lhs rhs =>
    lhs.Typed Γ ∧ rhs.Typed Γ ∧ t = Resolve.resultType lhs.type rhs.type

/-- A declaration has a known type, and its count is an integer. -/
def Declaration.Typed (Γ : Context) (d : Declaration) : Prop :=
  Γ.Knows (.ofName d.typeName.text) ∧
    ∀ e, d.count = some e → e.Typed Γ ∧ e.type.isInteger = true

/-- The count of a member does not depend on data. -/
def Declaration.Constant (d : Declaration) : Prop := ∀ e, d.count = some e → e.isConstant = true

/-- The members of a struct have names of their own and constant counts. -/
def MembersTyped (Γ : Context) (members : List Declaration) : Prop :=
  (∀ d ∈ members, d.Typed Γ ∧ d.Constant) ∧ (members.map (·.name.text)).Nodup

/-- A command is typed in a context. A struct has a new name. -/
def CommandTyped (Γ : Context) : Command → Prop
  | .declare _ name members =>
    Primitive.ofName? name = none ∧ Γ.struct? name = none ∧ MembersTyped Γ members
  | .place d => d.Typed Γ
  | .evaluate e => e.Typed Γ

/-- The context behind a command. -/
def Context.after (Γ : Context) : Command → Context
  | .declare _ name members =>
    { Γ with structs := ⟨name, (members.map Declaration.entry).reverse⟩ :: Γ.structs }
  | .place d => { Γ with fields := d.entry :: Γ.fields }
  | .evaluate _ => Γ

/-- The context behind some commands. -/
def Context.afterAll (Γ : Context) (commands : List Command) : Context :=
  commands.foldl Context.after Γ

/-- A new field hides older ones of its name. -/
theorem Context.field?_after_place (Γ : Context) (d : Declaration) (name : String) :
    (Γ.after (.place d)).field? name =
      if d.name.text = name then some d.entry else Γ.field? name := by
  show List.find? _ (d.entry :: Γ.fields) = _
  split
  · next h => exact List.find?_cons_of_pos (by simpa [Declaration.entry] using h)
  · next h => exact List.find?_cons_of_neg (by simpa [Declaration.entry] using h)

theorem Context.struct?_after_declare (Γ : Context) (line : Nat) (struct : String)
    (members : List Declaration) (name : String) :
    (Γ.after (.declare line struct members)).struct? name =
      if struct = name then some ⟨struct, (members.map Declaration.entry).reverse⟩
      else Γ.struct? name := by
  show List.find? _ (_ :: Γ.structs) = _
  split
  · next h => exact List.find?_cons_of_pos (by simpa using h)
  · next h => exact List.find?_cons_of_neg (by simpa using h)

/-- Each command is typed in the context that the commands before it leave. -/
def CommandsTyped (Γ : Context) : List Command → Prop
  | [] => True
  | c :: rest => CommandTyped Γ c ∧ CommandsTyped (Γ.after c) rest

theorem commandsTyped_append {Γ : Context} {a b : List Command} :
    CommandsTyped Γ (a ++ b) ↔ CommandsTyped Γ a ∧ CommandsTyped (Γ.afterAll a) b := by
  induction a generalizing Γ with
  | nil => simp [CommandsTyped, Context.afterAll]
  | cons c a ih =>
    rw [List.cons_append, CommandsTyped, CommandsTyped, ih, and_assoc]
    rfl

@[simp] theorem Context.afterAll_append (Γ : Context) (a b : List Command) :
    Γ.afterAll (a ++ b) = (Γ.afterAll a).afterAll b :=
  List.foldl_append

/-- A constant expression refers to nothing and is typed in every context. -/
theorem Expr.Typed.of_isConstant {Γ Γ' : Context} {e : Expr} (h : e.Typed Γ)
    (hc : e.isConstant = true) : e.Typed Γ' := by
  -- Without references the context is never asked.
  induction e with
  | literal m value => trivial
  | access m t field => simp [isConstant] at hc
  | element m t baseMark field index ih => simp [isConstant] at hc
  | arith m t op lhs rhs ihl ihr =>
    obtain ⟨hl, hr, ht⟩ := h
    simp only [isConstant, Bool.and_eq_true] at hc
    exact ⟨ihl hl hc.1, ihr hr hc.2, ht⟩

/-- The fields of a context do not matter to a declaration with a constant count. -/
theorem Declaration.Typed.of_constant {Γ Γ' : Context} {d : Declaration} (h : d.Typed Γ)
    (hc : d.Constant) (hstructs : Γ'.structs = Γ.structs) : d.Typed Γ' := by
  obtain ⟨hknows, hcount⟩ := h
  constructor
  · unfold Context.Knows Context.struct? at *
    rw [hstructs]
    exact hknows
  · intro e he
    obtain ⟨htyped, hint⟩ := hcount e he
    exact ⟨htyped.of_isConstant (hc e he), hint⟩

/-- The expression and all its parts. -/
def Expr.nodes : Expr → List Expr
  | .literal m value => [.literal m value]
  | .access m t field => [.access m t field]
  | .element m t baseMark field index => .element m t baseMark field index :: index.nodes
  | .arith m t op lhs rhs => .arith m t op lhs rhs :: (lhs.nodes ++ rhs.nodes)

/-- The parts of the count of a declaration. -/
def Declaration.nodes (d : Declaration) : List Expr := (d.count.map Expr.nodes).getD []

/-- The parts of a typed expression are typed. -/
theorem Expr.Typed.of_mem_nodes {Γ : Context} {e e' : Expr} (h : e.Typed Γ) (he : e' ∈ e.nodes) :
    e'.Typed Γ := by
  induction e with
  | literal m value =>
    rw [List.mem_singleton.1 he]
    exact h
  | access m t field =>
    rw [List.mem_singleton.1 he]
    exact h
  | element m t baseMark field index ih =>
    rcases List.mem_cons.1 he with rfl | he
    · exact h
    · exact ih h.2.1 he
  | arith m t op lhs rhs ihl ihr =>
    rcases List.mem_cons.1 he with rfl | he
    · exact h
    · rcases List.mem_append.1 he with he | he
      · exact ihl h.1 he
      · exact ihr h.2.1 he

theorem Declaration.Typed.of_mem_nodes {Γ : Context} {d : Declaration} (h : d.Typed Γ) {e : Expr}
    (he : e ∈ d.nodes) : e.Typed Γ := by
  unfold nodes at he
  cases hd : d.count with
  | none => simp [hd] at he
  | some count =>
    simp only [hd, Option.map_some, Option.getD_some] at he
    exact (h.2 count hd).1.of_mem_nodes he

/-! ### Linked Templates -/

/-- The names of a reference. -/
def Access.names : Access → List Name
  | .field name => [name]
  | .member owner m => [owner, m]

/-- The marks of an expression and its parts. -/
def Expr.marks : Expr → List Mark
  | .literal m _ => [m]
  | .access m _ _ => [m]
  | .element m _ baseMark _ index => m :: baseMark :: index.marks
  | .arith m _ _ lhs rhs => m :: (lhs.marks ++ rhs.marks)

/-- The names in an expression. -/
def Expr.names : Expr → List Name
  | .literal _ _ => []
  | .access _ _ field => field.names
  | .element _ _ _ field index => field.names ++ index.names
  | .arith _ _ _ lhs rhs => lhs.names ++ rhs.names

/-- The marks of a declaration and its count. -/
def Declaration.marks (d : Declaration) : List Mark :=
  d.mark :: (d.count.map Expr.marks).getD []

/-- The names in a declaration. -/
def Declaration.names (d : Declaration) : List Name :=
  d.typeName :: d.name :: (d.count.map Expr.names).getD []

mutual

/-- The marks of a statement and its parts. -/
def Statement.marks : Statement → List Mark
  | .struct m _ members => m :: members.flatMap Declaration.marks
  | .field d => d.marks
  | .block m body => m :: marksOf body
  | .expression e => e.marks
  | .scriptEnd m => [m]

/-- The marks of statements and their parts. -/
def marksOf : List Statement → List Mark
  | [] => []
  | s :: rest => s.marks ++ marksOf rest

end

mutual

/-- The names in a statement. -/
def Statement.names : Statement → List Name
  | .struct _ name members => name :: members.flatMap Declaration.names
  | .field d => d.names
  | .block _ body => namesOf body
  | .expression e => e.names
  | .scriptEnd _ => []

/-- The names in statements. -/
def namesOf : List Statement → List Name
  | [] => []
  | s :: rest => s.names ++ namesOf rest

end

/-- The marks are below a count, and the names are stored in a table. -/
structure Linked (table : NameTable) (count : Nat) (marks : List Mark) (names : List Name) :
    Prop where
  /-- The numbers of the marks are below the count. -/
  counted : ∀ m ∈ marks, m.id < count
  /-- Each name is read back from its offset. -/
  stored : ∀ n ∈ names, table.get? n.offset = some n.text

theorem Linked.mono {table table' : NameTable} {count count' : Nat} {marks : List Mark}
    {names : List Name} (h : Linked table count marks names) (htable : table'.Extends table)
    (hcount : count ≤ count') : Linked table' count' marks names where
  counted := fun m hm => Nat.lt_of_lt_of_le (h.counted m hm) hcount
  stored := fun n hn => NameTable.get?_of_extends htable (h.stored n hn)

theorem linked_append {table : NameTable} {count : Nat} {marks marks' : List Mark}
    {names names' : List Name} (h : Linked table count marks names)
    (h' : Linked table count marks' names') :
    Linked table count (marks ++ marks') (names ++ names') where
  counted := fun m hm => (List.mem_append.1 hm).elim (h.counted m) (h'.counted m)
  stored := fun n hn => (List.mem_append.1 hn).elim (h.stored n) (h'.stored n)

end Template

/-- All marks of the template are below its count, and all its names are stored in its
    table. -/
def Template.IsLinked (t : Template) : Prop :=
  Template.Linked t.names t.count (Template.marksOf t.statements) (Template.namesOf t.statements)

end ByteBricks
