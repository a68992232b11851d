import ByteBricks.Template.Error
import ByteBricks.Word

/-! # Scopes

  What is known at a point of a source: the structs and fields declared so far,
  the members of the struct that is being declared, the names stored and the number
  of nodes finished. Newer declarations come first and hide older ones. -/

namespace ByteBricks.Template

/-- The type of the elements of a field. -/
inductive ElementType where
  /-- A primitive type. -/
  | primitive (type : Primitive)
  /-- The struct of the name. -/
  | struct (name : String)
  deriving DecidableEq

/-- A declared field. -/
structure Entry where
  /-- The name of the field. -/
  name : String
  /-- The type of its elements. -/
  type : ElementType
  /-- Whether the field was declared with a count. -/
  isArray : Bool

/-- A declared struct. -/
structure StructEntry where
  /-- The name of the struct. -/
  name : String
  /-- Its members, newest first. -/
  members : List Entry

/-- What is known at a point of a source. -/
structure Scope where
  /-- The structs declared so far, newest first. -/
  structs : List StructEntry
  /-- The fields declared outside of structs so far, newest first. -/
  fields : List Entry
  /-- The members of the struct that is being declared, newest first. -/
  members : List Entry
  /-- The names stored so far. -/
  names : NameTable
  /-- The number of nodes finished so far. -/
  count : Nat

namespace Scope

/-- The scope at the start of a source. -/
def empty : Scope := ⟨[], [], [], .empty, 0⟩

/-- The newest field or member of a name. -/
def field? (s : Scope) (name : String) : Option Entry :=
  (s.members ++ s.fields).find? (·.name == name)

/-- The newest struct of a name. -/
def struct? (s : Scope) (name : String) : Option StructEntry :=
  s.structs.find? (·.name == name)

/-- The member of a name of the newest struct of a name. -/
def member? (s : Scope) (struct member : String) : Option Entry := do
  let scope ← s.struct? struct
  scope.members.find? (·.name == member)

/-- The type of a name, if it is the name of a type. -/
def type? (s : Scope) (name : String) : Option ElementType :=
  match Primitive.ofName? name with
  | some t => some (.primitive t)
  | none => if (s.struct? name).isSome then some (.struct name) else none

end Scope

end ByteBricks.Template
