import ByteBricks.Label
import ByteBricks.TypeCode
import ByteBricks.Word

/-! # Bricks

  A brick is a named, typed and coloured annotation of the bytes from `start` up
  to `stop`. -/

namespace ByteBricks

/-- An annotation of a range of bytes. -/
structure Brick where
  /-- The name of the brick. -/
  name : Label
  /-- The type of the elements in the brick. -/
  type : TypeCode
  /-- The offset of the first byte. For a member of a struct definition it counts
      from the start of the struct. -/
  start : Int64
  /-- The number of bytes. -/
  size : UInt64
  /-- The colour of the brick. -/
  color : Color
  /-- The index of the struct definition that the brick is an instance of. -/
  definition : Option Nat
  deriving DecidableEq

namespace Brick

/-- A brick that is no instance of a struct. -/
def plain (name : String) (type : TypeCode) (start : Int64) (size : UInt64) (color : Color) :
    Brick where
  name := Label.ofString name
  type := type
  start := start
  size := size
  color := color
  definition := none

/-- The offset after the last byte. No size counts for more than the largest
    offset, and a brick that reaches beyond that offset ends there. -/
def stop (b : Brick) : Int64 :=
  Word.clampInt64 (b.start.toInt + min (b.size.toNat : Int) Word.int64Max)

/-- Whether the brick covers the byte at an offset. -/
def contains (b : Brick) (offset : Int64) : Bool := b.start ≤ offset && offset < b.stop

/-- Whether each of two bricks starts before the other one ends. -/
def overlaps (a b : Brick) : Bool := a.start < b.stop && b.start < a.stop

theorem toInt_stop (b : Brick) :
    b.stop.toInt = max Word.int64Min (min (b.start.toInt + min (b.size.toNat : Int) Word.int64Max)
      Word.int64Max) :=
  Word.toInt_clampInt64 _

/-- A brick that ends before the largest offset does covers as many bytes as its
    size says. -/
theorem toInt_stop_of_le {b : Brick} (h : b.start.toInt + b.size.toNat ≤ Word.int64Max)
    (hstart : 0 ≤ b.start.toInt) : b.stop.toInt = b.start.toInt + b.size.toNat := by
  rw [toInt_stop]
  unfold Word.int64Max Word.int64Min at *
  omega

theorem start_le_stop (b : Brick) : b.start ≤ b.stop := by
  have hlo : Word.int64Min ≤ b.start.toInt := b.start.le_toInt
  have hhi : b.start.toInt < 2 ^ 63 := b.start.toInt_lt
  rw [Int64.le_iff_toInt_le, toInt_stop]
  unfold Word.int64Max Word.int64Min at *
  omega

theorem contains_iff {b : Brick} {offset : Int64} :
    b.contains offset = true ↔ b.start ≤ offset ∧ offset < b.stop := by
  simp [contains]

/-- Bricks that do not overlap lie one behind the other. -/
theorem not_overlaps_iff {a b : Brick} :
    a.overlaps b = false ↔ b.stop ≤ a.start ∨ a.stop ≤ b.start := by
  simp only [overlaps, Bool.and_eq_false_iff, decide_eq_false_iff_not, Int64.not_lt]

end Brick

end ByteBricks
