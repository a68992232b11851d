import ByteBricks.Execution.Value

/-! # Evaluating Expressions

  An expression reads the fields that have been placed before it. A name stands
  for the newest field of that name; the offsets of a struct's members count from
  the start of the field that holds the struct. -/

namespace ByteBricks.Execution

open Template (Access Expr)

/-! ### Fields and Layouts -/

/-- The type of the elements of a field. -/
inductive Element where
  /-- A primitive type. -/
  | primitive (type : Primitive)
  /-- The struct of the layout at an index. -/
  | struct (layout : Nat)
  deriving DecidableEq

/-- A field that has been placed, or a member of a struct. -/
structure Field where
  /-- The name of the field. -/
  name : String
  /-- The offset of the field; for a member it counts from the start of the struct. -/
  start : Int64
  /-- The type of its elements. -/
  element : Element
  /-- The number of its elements. -/
  count : Nat
  /-- Whether the field was declared with a count. -/
  isArray : Bool
  deriving DecidableEq

/-- The layout of a struct. -/
structure Layout where
  /-- The name of the struct. -/
  name : String
  /-- The index of the wall's definition for it. -/
  definition : Nat
  /-- The number of bytes of one instance. -/
  size : Nat
  /-- The members in the order of their declaration. -/
  members : List Field

/-- The data that a template is executed against. -/
structure Data where
  /-- The bytes. -/
  view : View
  /-- The order of the bytes of a field. -/
  order : ByteOrder

/-- The structs and fields of an execution so far. -/
structure Store where
  /-- The layouts in the order of their declaration. -/
  layouts : List Layout
  /-- The fields outside of structs, newest first. -/
  fields : List Field

namespace Store

/-- The store before the first statement. -/
def empty : Store := ⟨[], []⟩

/-- The newest field of a name. -/
def field? (s : Store) (name : String) : Option Field := s.fields.find? (·.name == name)

/-- The layout at an index. -/
def layout (s : Store) (index : Nat) : Except Halt Layout :=
  assured .missingLayout s.layouts[index]?

/-- The number of bytes of one element. -/
def elementSize (s : Store) : Element → Except Halt Nat
  | .primitive t => .ok t.size
  | .struct index => do pure (← s.layout index).size

/-- The field that is referred to, with its offset from the start of the data. -/
def locate (s : Store) (line : Nat) : Access → Except Halt Field
  | .field name => require line (.unknownField name.text) (s.field? name.text)
  | .member owner member => do
    let parent ← require line (.unknownField owner.text) (s.field? owner.text)
    match parent.element with
    | .primitive _ => fail line (.notScalar owner.text)
    | .struct index => do
      let layout ← s.layout index
      let field ← require line (.unknownMember layout.name member.text)
        (layout.members.find? (·.name == member.text))
      let start ← assured .memberBeyondEnd (Word.int64? (parent.start.toInt + field.start.toInt))
      pure { field with name := owner.text ++ "." ++ member.text, start := start }

end Store

/-! ### Reading -/

/-- Refuses a range of bytes that is not part of the data. -/
def checkBounds (view : View) (line : Nat) (name : String) (start stop : Int64) :
    Except Halt Unit :=
  if 0 ≤ start.toInt ∧ 0 ≤ stop.toInt ∧ stop.toInt ≤ view.length then .ok ()
  else fail line (.outOfBounds name start stop view.length)

/-- Reads one number at an offset. -/
def Data.read (data : Data) (line : Nat) (name : String) (type : Primitive)
    (offset : Int64) : Except Halt Value := do
  let stop := Word.clampInt64 (offset.toInt + type.size)
  checkBounds data.view line name offset stop
  let start ← assured .negativeOffset offset.toInt.toNat?
  let bytes ←
    match data.view.read start type.size with
    | .ok bytes => pure bytes
    | .error e => fail line (.unreadable e)
  let number ← require line (.outOfBounds name offset stop data.view.length)
    (type.decode data.order bytes)
  match Value.ofNumber number with
  | .ok value => pure value
  | .error fault => fail line fault

/-- The offset of an element of an array field. -/
def Field.elementOffset (field : Field) (line : Nat) (type : Primitive) (index : Int64) :
    Except Halt Int64 :=
  if 0 ≤ index.toInt ∧ index.toInt < field.count then
    require line (.indexOutOfRange field.name index field.count)
      (Word.int64? (field.start.toInt + index.toInt * type.size))
  else fail line (.indexOutOfRange field.name index field.count)

/-- The primitive type of a field's elements. -/
def Field.primitive (field : Field) (line : Nat) : Except Halt Primitive :=
  match field.element with
  | .primitive type => .ok type
  | .struct _ => fail line (.notScalar field.name)

/-- The integer that a value is. -/
def Value.integer (line : Nat) : Value → Except Halt Int64
  | .int i => .ok i
  | .float _ => fail line .notInteger

/-! ### Evaluation -/

/-- The value of an expression. Operands are evaluated from left to right. -/
def eval (data : Data) (store : Store) : Expr → Except Halt Value
  | .literal _ value => .ok (.int value)
  | .access m _ access => do
    let field ← store.locate m.line access
    let type ← field.primitive m.line
    if field.isArray then fail m.line (.notScalar field.name)
    else data.read m.line field.name type field.start
  | .element m _ baseMark access index => do
    let field ← store.locate baseMark.line access
    let type ← field.primitive m.line
    let i ← (← eval data store index).integer m.line
    let offset ← field.elementOffset m.line type i
    data.read m.line field.name type offset
  | .arith m _ op lhs rhs => do
    let a ← eval data store lhs
    let b ← eval data store rhs
    match Value.apply op a b with
    | .ok value => pure value
    | .error fault => fail m.line fault

end ByteBricks.Execution
