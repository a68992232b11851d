import ByteBricks.Definition
import ByteBricks.LastIndex

/-! # Walls

  A wall holds the bricks of a document in the order of their offsets, and the
  struct definitions that they refer to. No two of its bricks overlap. -/

namespace ByteBricks

/-! ### Rejections -/

/-- Why a wall refuses a brick. -/
inductive Rejection where
  /-- The brick overlaps one that is there already. -/
  | overlap (new existing : Label)
  /-- The type of the brick is not known to the wall. -/
  | unknownType (name : Label)
  /-- The size of the brick is no multiple of the size of its type. -/
  | misaligned (name : Label) (elementSize : Nat)
  /-- The brick covers no bytes. -/
  | empty (name : Label)
  /-- The size of the brick does not fit into 64 bits. -/
  | tooLarge (name : Label)
  deriving DecidableEq

/-- The text of the rejection. -/
def Rejection.message : Rejection → String
  | overlap new existing =>
    "brick `" ++ new.text ++ "` overlaps the existing brick `" ++ existing.text ++ "`"
  | unknownType name => "brick `" ++ name.text ++ "` has an unknown type"
  | misaligned name size =>
    "the size of brick `" ++ name.text ++ "` is not a multiple of " ++ toString size
  | empty name => "brick `" ++ name.text ++ "` is empty"
  | tooLarge name => "the size of brick `" ++ name.text ++ "` overflows"

/-! ### Walls -/

/-- The name of a type and the number of bytes of one element. -/
structure TypeInfo where
  /-- The name of the type. -/
  name : String
  /-- The number of bytes of one element. -/
  size : Nat
  deriving DecidableEq

/-- The bricks of a document and the struct definitions they refer to. -/
structure Wall where
  /-- The bricks in the order of their offsets. -/
  bricks : List Brick
  /-- The struct definitions in the order in which they were made. -/
  definitions : List Definition
  /-- The known types: the primitive types in the order of their codes, then one
      for each definition. -/
  types : List TypeInfo
  deriving DecidableEq

namespace Wall

/-! ### Types -/

/-- The known types when the given structs are defined. -/
def typeTable (definitions : List Definition) : List TypeInfo :=
  Primitive.all.map (fun t => ⟨t.name, t.size⟩) ++
    definitions.map fun d => ⟨d.name.text, d.size.toNat⟩

/-- The wall without bricks and definitions. -/
def empty : Wall := ⟨[], [], typeTable []⟩

/-- What the wall knows about a type. -/
def typeInfo? (w : Wall) (type : TypeCode) : Option TypeInfo :=
  match type.primitive? with
  | some t => w.types[t.code]?
  | none => do w.types[Primitive.all.length + (← type.structIndex?)]?

/-- The wall with other definitions, for which the known types are listed anew. -/
def redefine (w : Wall) (definitions : List Definition) : Wall :=
  { w with definitions := definitions, types := typeTable definitions }

/-- The index of the newest definition of a name. -/
def structIndex? (w : Wall) (name : String) : Option Nat :=
  lastIdx? (·.name.text == name) w.definitions

/-- Adds a definition without members. -/
def define (w : Wall) (name : String) (color : Color) : Wall :=
  w.redefine (w.definitions ++ [Definition.empty name color])

/-- Whether a member of the definition at an index may have a type: a primitive
    type, or a struct that was defined before. -/
def mayContain (index : Nat) (type : TypeCode) : Bool :=
  match type.primitive?, type.structIndex? with
  | some _, _ => true
  | none, some i => i < index
  | none, none => false

/-- Appends a member to the definition at an index. The type of the member has to
    be allowed there and not empty, and its size has to be a multiple of the size
    of its type. -/
def appendMember? (w : Wall) (index : Nat) (member : Brick) : Option Wall := do
  let d ← w.definitions[index]?
  let info ← w.typeInfo? member.type
  if mayContain index member.type && info.size != 0 && member.size.toNat % info.size == 0 then
    let d ← d.append? member
    pure (w.redefine (w.definitions.set index d))
  else none

/-! ### Bricks -/

/-- The bricks with one more before the first that starts at its end or later. -/
def place (bricks : List Brick) (b : Brick) : List Brick :=
  bricks.takeWhile (·.start < b.stop) ++ b :: bricks.dropWhile (·.start < b.stop)

/-- Inserts a brick between those that are there. -/
def insert (w : Wall) (b : Brick) : Except Rejection Wall :=
  match w.typeInfo? b.type with
  | none => .error (.unknownType b.name)
  | some info =>
    if b.size = 0 then .error (.empty b.name)
    else if info.size = 0 ∨ b.size.toNat % info.size ≠ 0 then .error (.misaligned b.name info.size)
    else
      match w.bricks.find? (·.overlaps b) with
      | some existing => .error (.overlap b.name existing.name)
      | none => .ok { w with bricks := place w.bricks b }

/-- Inserts one brick for a number of consecutive instances of a struct. -/
def insertStruct (w : Wall) (name : String) (start : Int64) (count : Int32) (index : Nat) :
    Except Rejection Wall :=
  match w.definitions[index]?, count.toInt with
  | some d, .ofNat n =>
    match Word.uint64? (d.size.toNat * n) with
    | none => .error (.tooLarge (Label.ofString name))
    | some size =>
      w.insert ⟨Label.ofString name, .ofStruct index, start, size, d.color, some index⟩
  | _, _ => .error (.unknownType (Label.ofString name))

/-- The brick that covers an offset. -/
def brick? (w : Wall) (offset : Int64) : Option Brick := w.bricks.find? (·.contains offset)

/-- Removes the brick that covers an offset. -/
def eraseAt (w : Wall) (offset : Int64) : Wall :=
  { w with bricks := w.bricks.eraseP (·.contains offset) }

/-- Takes the brick that covers an offset off the wall, if there is one. -/
def takeAt? (w : Wall) (offset : Int64) : Option (Brick × Wall) := do
  let i ← w.bricks.findIdx? (·.contains offset)
  let b ← w.bricks[i]?
  pure (b, { w with bricks := w.bricks.eraseIdx i })

end Wall

end ByteBricks
