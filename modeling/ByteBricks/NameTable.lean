import ByteBricks.ByteOrder

/-! # Name Tables

  The names of a template lie one after the other in a single run of bytes. Each
  is its length in four bytes, least significant first, and its UTF-8 text; it is
  referred to by the offset of its length. -/

namespace ByteBricks

/-- A run of names. -/
structure NameTable where
  /-- The bytes of the names. -/
  bytes : ByteArray

namespace NameTable

/-- The number of bytes of a name's length. -/
def lengthSize : Nat := 4

/-- The largest number of bytes of a table. -/
def maxSize : Nat := 0xffffffff

/-- The table without names. -/
def empty : NameTable := ⟨ByteArray.empty⟩

instance : Inhabited NameTable := ⟨empty⟩

/-- The number of bytes of the table. -/
def size (t : NameTable) : Nat := t.bytes.size

/-- The four bytes of a length, the least significant first. -/
def lengthBytes (n : Nat) : List UInt8 :=
  [UInt8.ofNat n, UInt8.ofNat (n / 0x100), UInt8.ofNat (n / 0x10000), UInt8.ofNat (n / 0x1000000)]

/-- Appends a name and gives the offset to refer to it by, unless the table would
    grow too large. -/
def intern? (t : NameTable) (name : String) : Option (Nat × NameTable) :=
  if t.size + lengthSize + name.utf8ByteSize ≤ maxSize then
    some (t.size, ⟨t.bytes ++ ⟨(lengthBytes name.utf8ByteSize).toArray⟩ ++ name.toByteArray⟩)
  else none

/-- The bytes from an offset on, if there are as many. -/
def slice? (t : NameTable) (offset length : Nat) : Option ByteArray :=
  if offset + length ≤ t.size then some (t.bytes.extract offset (offset + length)) else none

/-- The name that an offset refers to, if a length and as many bytes of valid
    UTF-8 are found there. -/
def get? (t : NameTable) (offset : Nat) : Option String := do
  let length ← t.slice? offset lengthSize
  let text ← t.slice? (offset + lengthSize) (ByteOrder.little.toNat length.data.toList)
  String.fromUTF8? text

end NameTable

end ByteBricks
