import ByteBricks.Primitive

/-! # Type Codes

  A brick names its type by a number. The codes below `TypeCode.structBase` are
  for primitive types, of which there are only eleven; code `structBase + i`
  stands for the `i`-th struct definition of a wall. -/

namespace ByteBricks

/-- The number that stands for the type of a brick. -/
structure TypeCode where
  /-- The number itself. -/
  raw : UInt32
  deriving DecidableEq, Repr, Inhabited

namespace TypeCode

/-- The code of the first struct definition. -/
def structBase : Nat := 0x100

/-- The code of a primitive type. -/
def ofPrimitive (t : Primitive) : TypeCode := ⟨UInt32.ofNat t.code⟩

/-- The code of the struct definition at an index. -/
def ofStruct (index : Nat) : TypeCode := ⟨UInt32.ofNat (structBase + index)⟩

/-- The primitive type that the code stands for. -/
def primitive? (c : TypeCode) : Option Primitive := Primitive.ofCode? c.raw.toNat

/-- The index of the struct definition that the code stands for. -/
def structIndex? (c : TypeCode) : Option Nat :=
  if structBase ≤ c.raw.toNat then some (c.raw.toNat - structBase) else none

/-- A short text for the code: a primitive's name, `struct#index` or `invalid#code`. -/
def describe (c : TypeCode) : String :=
  match c.primitive?, c.structIndex? with
  | some t, _ => t.name
  | none, some index => "struct#" ++ toString index
  | none, none => "invalid#" ++ toString c.raw.toNat

/-- The largest number of definitions whose codes all fit. -/
def structCount : Nat := 0x100000000 - structBase

theorem primitive?_ofPrimitive (t : Primitive) : (ofPrimitive t).primitive? = some t := by
  cases t <;> rfl

theorem raw_ofStruct {i : Nat} (h : i < structCount) : (ofStruct i).raw.toNat = structBase + i :=
  UInt32.toNat_ofNat_of_lt' (by unfold structCount structBase UInt32.size at *; omega)

theorem structIndex?_ofStruct {i : Nat} (h : i < structCount) :
    (ofStruct i).structIndex? = some i := by
  unfold structIndex?
  rw [raw_ofStruct h, if_pos (Nat.le_add_right _ _), Nat.add_sub_cancel_left]

theorem primitive?_ofStruct {i : Nat} (h : i < structCount) : (ofStruct i).primitive? = none := by
  unfold primitive? Primitive.ofCode?
  rw [raw_ofStruct h]
  exact List.getElem?_eq_none (Nat.le_trans (by decide) (Nat.le_add_right structBase i))

theorem eq_ofPrimitive_of_primitive? {c : TypeCode} {t : Primitive} (h : c.primitive? = some t) :
    c = ofPrimitive t := by
  obtain ⟨raw⟩ := c
  have hcode : raw.toNat = t.code := Primitive.code_of_ofCode? h
  have hraw : raw = UInt32.ofNat t.code := by rw [← hcode, UInt32.ofNat_toNat]
  rw [hraw, ofPrimitive]

theorem eq_ofStruct_of_structIndex? {c : TypeCode} {i : Nat} (h : c.structIndex? = some i) :
    c = ofStruct i := by
  obtain ⟨raw⟩ := c
  unfold structIndex? at h
  split at h
  · next hbase =>
    have hi : structBase + i = raw.toNat := by
      rw [← Option.some.inj h]
      exact Nat.add_sub_of_le hbase
    rw [ofStruct, hi, UInt32.ofNat_toNat]
  · simp at h

end TypeCode

end ByteBricks
