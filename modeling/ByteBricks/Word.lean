/-! # Checked Words

  Arithmetic on offsets and sizes is carried out on `Int` and `Nat` and brought
  back to 64 bits here. A conversion either refuses a value that does not fit
  (`int64?`, `uint64?`) or moves it to the nearest end (`clampInt64`); none wraps. -/

namespace ByteBricks.Word

/-- The largest signed 64-bit integer. -/
def int64Max : Int := 0x7fffffffffffffff

/-- The least signed 64-bit integer. -/
def int64Min : Int := -0x8000000000000000

/-- The largest unsigned 64-bit integer. -/
def uint64Max : Nat := 0xffffffffffffffff

/-- The largest signed 32-bit integer. -/
def int32Max : Nat := 0x7fffffff

/-- The signed 64-bit integer of value `i`, if there is one. -/
def int64? (i : Int) : Option Int64 :=
  if int64Min ≤ i ∧ i ≤ int64Max then some (Int64.ofInt i) else none

/-- The unsigned 64-bit integer of value `n`, if there is one. -/
def uint64? (n : Nat) : Option UInt64 :=
  if n ≤ uint64Max then some (UInt64.ofNat n) else none

/-- The signed 64-bit integer nearest to `i`. -/
def clampInt64 (i : Int) : Int64 :=
  Int64.ofInt (max int64Min (min i int64Max))

theorem int64?_eq_some_iff {i : Int} {w : Int64} :
    int64? i = some w ↔ int64Min ≤ i ∧ i ≤ int64Max ∧ w = Int64.ofInt i := by
  unfold int64?
  split
  · next h =>
    exact ⟨fun e => ⟨h.1, h.2, (Option.some.inj e).symm⟩, fun e => congrArg some e.2.2.symm⟩
  · next h => exact ⟨(nomatch ·), fun e => absurd ⟨e.1, e.2.1⟩ h⟩

theorem toInt_of_int64? {i : Int} {w : Int64} (h : int64? i = some w) : w.toInt = i := by
  obtain ⟨hlo, hhi, rfl⟩ := int64?_eq_some_iff.1 h
  exact Int64.toInt_ofInt_of_le hlo (by unfold int64Max at hhi; omega)

theorem toInt_clampInt64 (i : Int) :
    (clampInt64 i).toInt = max int64Min (min i int64Max) := by
  refine Int64.toInt_ofInt_of_le ?_ ?_ <;> simp only [int64Min, int64Max] <;> omega

end ByteBricks.Word
