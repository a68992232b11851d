/-! # Byte Order

  The order in which the bytes of a field are stored, and the number that a list
  of bytes stands for under it. A big-endian list is read as the little-endian
  list of its reverse. -/

namespace ByteBricks

/-- The order of the bytes of a multi-byte field. -/
inductive ByteOrder where
  /-- The least significant byte comes first. -/
  | little
  /-- The most significant byte comes first. -/
  | big
  deriving DecidableEq, Repr, Inhabited

namespace ByteOrder

/-- The sum of `byte i * 256 ^ i`. -/
def littleNat : List UInt8 → Nat
  | [] => 0
  | b :: bytes => b.toNat + 256 * littleNat bytes

/-- The unsigned number that the bytes stand for. -/
def toNat : ByteOrder → List UInt8 → Nat
  | little, bytes => littleNat bytes
  | big, bytes => littleNat bytes.reverse

/-- How many numbers there are of so many bytes. -/
def numberCount : (size : Nat) → Nat
  | 0 => 1
  | size + 1 => 256 * numberCount size

/-- The two's complement number that the bytes stand for. -/
def toInt (order : ByteOrder) (bytes : List UInt8) : Int :=
  Int.bmod (order.toNat bytes) (numberCount bytes.length)

theorem littleNat_lt (bytes : List UInt8) : littleNat bytes < numberCount bytes.length := by
  induction bytes with
  | nil => simp [littleNat, numberCount]
  | cons b bytes ih =>
    have hb := b.toNat_lt
    simp only [littleNat, List.length_cons, numberCount]
    omega

theorem toNat_lt (order : ByteOrder) (bytes : List UInt8) :
    order.toNat bytes < numberCount bytes.length := by
  cases order with
  | little => exact littleNat_lt bytes
  | big => simpa [toNat] using littleNat_lt bytes.reverse

end ByteOrder

end ByteBricks
