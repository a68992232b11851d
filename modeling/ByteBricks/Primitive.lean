import ByteBricks.ByteOrder
import ByteBricks.Color

/-! # Primitive Types

  The eleven field types that templates know without declaring them: their names,
  codes and sizes, and how a value of each is read from bytes. -/

namespace ByteBricks

/-- The type of a field that holds a single number. -/
inductive Primitive where
  /-- A signed 8-bit integer. -/
  | int8
  /-- An unsigned 8-bit integer. -/
  | uint8
  /-- A character of one byte, which counts as an unsigned integer. -/
  | char
  /-- A signed 16-bit integer. -/
  | int16
  /-- An unsigned 16-bit integer. -/
  | uint16
  /-- A signed 32-bit integer. -/
  | int32
  /-- An unsigned 32-bit integer. -/
  | uint32
  /-- A signed 64-bit integer. -/
  | int64
  /-- An unsigned 64-bit integer. -/
  | uint64
  /-- A single precision float. -/
  | float32
  /-- A double precision float. -/
  | float64
  deriving DecidableEq, Repr, Inhabited

/-- A number read from the bytes of a field. -/
inductive Number where
  /-- The value of a field of a signed type. -/
  | signed (value : Int64)
  /-- The value of a field of an unsigned type. -/
  | unsigned (value : UInt64)
  /-- The value of a float field, single precision being widened. -/
  | float (value : Float)

namespace Primitive

/-- All primitive types in the order of their codes. -/
def all : List Primitive :=
  [int8, uint8, char, int16, uint16, int32, uint32, int64, uint64, float32, float64]

/-- The number of the type among all primitive types. -/
def code : Primitive → Nat
  | int8 => 0
  | uint8 => 1
  | char => 2
  | int16 => 3
  | uint16 => 4
  | int32 => 5
  | uint32 => 6
  | int64 => 7
  | uint64 => 8
  | float32 => 9
  | float64 => 10

/-- The primitive type of the given code. -/
def ofCode? (code : Nat) : Option Primitive := all[code]?

/-- The name of the type in templates. -/
def name : Primitive → String
  | int8 => "int8"
  | uint8 => "uint8"
  | char => "char"
  | int16 => "int16"
  | uint16 => "uint16"
  | int32 => "int32"
  | uint32 => "uint32"
  | int64 => "int64"
  | uint64 => "uint64"
  | float32 => "float32"
  | float64 => "float64"

/-- The primitive type of the given name. -/
def ofName? (name : String) : Option Primitive := all.find? (·.name == name)

/-- The number of bytes of one value. -/
def size : Primitive → Nat
  | int8 | uint8 | char => 1
  | int16 | uint16 => 2
  | int32 | uint32 | float32 => 4
  | int64 | uint64 | float64 => 8

/-- Whether values of the type are floating point numbers. -/
def isFloat : Primitive → Bool
  | float32 | float64 => true
  | _ => false

/-- Whether values of the type are integers. -/
def isInteger (t : Primitive) : Bool := !t.isFloat

/-- Whether the type is an integer type with negative values. -/
def isSigned : Primitive → Bool
  | int8 | int16 | int32 | int64 => true
  | _ => false

/-- The colour of bricks of this type that have not chosen one. -/
def color (t : Primitive) : Color := Color.ofPalette t.code

/-- The number that exactly `t.size` bytes stand for. -/
def number (t : Primitive) (order : ByteOrder) (bytes : List UInt8) : Number :=
  if t.isFloat then
    if t.size = 4 then .float (Float32.ofBits (UInt32.ofNat (order.toNat bytes))).toFloat
    else .float (Float.ofBits (UInt64.ofNat (order.toNat bytes)))
  else if t.isSigned then .signed (Int64.ofInt (order.toInt bytes))
  else .unsigned (UInt64.ofNat (order.toNat bytes))

/-- Reads one value from the front of the bytes, if there are enough of them. -/
def decode (t : Primitive) (order : ByteOrder) (bytes : List UInt8) : Option Number :=
  if t.size ≤ bytes.length then some (t.number order (bytes.take t.size)) else none

theorem ofCode?_code (t : Primitive) : ofCode? t.code = some t := by cases t <;> rfl

theorem code_of_ofCode? {code : Nat} {t : Primitive} (h : ofCode? code = some t) :
    code = t.code := by
  unfold ofCode? at h
  obtain ⟨hlt, rfl⟩ := List.getElem?_eq_some_iff.1 h
  match code, hlt with
  | 0, _ | 1, _ | 2, _ | 3, _ | 4, _ | 5, _ | 6, _ | 7, _ | 8, _ | 9, _ | 10, _ => rfl

theorem size_pos (t : Primitive) : 0 < t.size := by cases t <;> decide

theorem size_le (t : Primitive) : t.size ≤ 8 := by cases t <;> decide

theorem code_lt (t : Primitive) : t.code < 11 := by cases t <;> decide

end Primitive

end ByteBricks
