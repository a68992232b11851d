import ByteBricks.Primitive
import Mathlib.Algebra.BigOperators.Ring.Finset
import Mathlib.Algebra.Order.Ring.Int
import Mathlib.Data.Int.ModEq
import Mathlib.Tactic.Ring

/-! # Numbers and Their Bytes

  A value of a primitive type is read from as many bytes as the type has. The least significant
  byte has the weight one and every further byte 256 times the weight of the one before it, and
  a signed type takes the integer of its own range that agrees with the sum modulo the number
  of sums.

  Main statement: too few bytes are the only reason why nothing is read, a big-endian value is
  the little-endian value of the reversed bytes, and every integer of an integer type is read
  from exactly one list of bytes. -/

namespace ByteBricks

namespace ByteOrder

variable {bytes bytes' : List UInt8} {size n : Nat} {i : Int}

/-! ### Unsigned Numbers -/

theorem numberCount_eq (size : Nat) : numberCount size = 2 ^ (8 * size) := by
  induction size with
  | zero => rfl
  | succ size ih =>
    rw [numberCount, ih, Nat.mul_succ, Nat.pow_add, Nat.mul_comm]

/-- Every byte has 256 times the weight of the one before it. -/
theorem littleNat_eq_sum (bytes : List UInt8) :
    littleNat bytes = ∑ i ∈ Finset.range bytes.length, (bytes.getD i 0).toNat * 256 ^ i := by
  induction bytes with
  | nil => rfl
  | cons b bytes ih =>
    rw [littleNat, ih, List.length_cons, Finset.sum_range_succ', Finset.mul_sum, Nat.add_comm]
    simp only [List.getD_cons_succ, List.getD_cons_zero, pow_zero, mul_one]
    congr 1
    apply Finset.sum_congr rfl
    intro i _
    ring

/-- The bytes of a number, the least significant first. -/
def littleBytes : (size n : Nat) → List UInt8
  | 0, _ => []
  | size + 1, n => UInt8.ofNat n :: littleBytes size (n / 256)

theorem length_littleBytes (size n : Nat) : (littleBytes size n).length = size := by
  induction size generalizing n with
  | zero => rfl
  | succ size ih => rw [littleBytes, List.length_cons, ih]

/-- A number is read back from its bytes if it fits into so many. -/
theorem littleNat_littleBytes (h : n < numberCount size) : littleNat (littleBytes size n) = n := by
  induction size generalizing n with
  | zero =>
    have hzero : n < 1 := h
    show 0 = n
    omega
  | succ size ih =>
    rw [numberCount] at h
    have hrest : littleNat (littleBytes size (n / 256)) = n / 256 := ih (by omega)
    rw [littleBytes, littleNat, hrest, UInt8.toNat_ofNat']
    omega

/-- As many bytes that stand for the same number are the same bytes. -/
theorem littleNat_inj (hlength : bytes.length = bytes'.length)
    (h : littleNat bytes = littleNat bytes') : bytes = bytes' := by
  induction bytes generalizing bytes' with
  | nil => exact (List.length_eq_zero_iff.1 hlength.symm).symm
  | cons b bytes ih =>
    cases bytes' with
    | nil => cases hlength
    | cons b' bytes' =>
      have hb := b.toNat_lt
      have hb' := b'.toNat_lt
      simp only [littleNat] at h
      have hfirst : b.toNat = b'.toNat := by omega
      have hrest : bytes = bytes' := ih (Nat.succ.inj hlength) (by omega)
      rw [UInt8.toNat_inj.1 hfirst, hrest]

theorem toNat_inj (order : ByteOrder) (hlength : bytes.length = bytes'.length)
    (h : order.toNat bytes = order.toNat bytes') : bytes = bytes' := by
  cases order with
  | little => exact littleNat_inj hlength h
  | big =>
    have hlength' : bytes.reverse.length = bytes'.reverse.length := by
      rw [List.length_reverse, List.length_reverse, hlength]
    exact List.reverse_injective (littleNat_inj hlength' h)

theorem exists_toNat_eq (order : ByteOrder) (h : n < numberCount size) :
    ∃ bytes : List UInt8, bytes.length = size ∧ order.toNat bytes = n := by
  cases order with
  | little => exact ⟨littleBytes size n, length_littleBytes size n, littleNat_littleBytes h⟩
  | big =>
    refine ⟨(littleBytes size n).reverse, ?_, ?_⟩
    · rw [List.length_reverse, length_littleBytes]
    · rw [toNat, List.reverse_reverse, littleNat_littleBytes h]

/-- Every number that fits is the number of exactly one list of so many bytes. -/
theorem existsUnique_toNat_eq (order : ByteOrder) (h : n < numberCount size) :
    ∃! bytes : List UInt8, bytes.length = size ∧ order.toNat bytes = n := by
  obtain ⟨bytes, hlength, hnat⟩ := order.exists_toNat_eq h
  refine ⟨bytes, ⟨hlength, hnat⟩, ?_⟩
  rintro bytes' ⟨hlength', hnat'⟩
  exact order.toNat_inj (hlength'.trans hlength.symm) (hnat'.trans hnat.symm)

/-! ### Signed Numbers -/

/-- The signed number is the one of its range that agrees with the unsigned one modulo the
    count of numbers. -/
theorem toInt_eq_iff (order : ByteOrder) (hlength : bytes.length = size) (hsize : 0 < size) :
    order.toInt bytes = i ↔ -2 ^ (8 * size - 1) ≤ i ∧ i < 2 ^ (8 * size - 1) ∧
      i ≡ order.toNat bytes [ZMOD 2 ^ (8 * size)] := by
  have hpos : 0 < 2 ^ (8 * size) := Nat.two_pow_pos _
  have hdouble : (2 : Int) ^ (8 * size) = 2 * 2 ^ (8 * size - 1) := by
    rw [← pow_succ', Nat.sub_add_cancel (by omega)]
  rw [toInt, hlength, numberCount_eq, Int.bmod_eq_iff hpos, Nat.cast_pow, Nat.cast_ofNat,
    Int.modEq_comm, Int.modEq_iff_dvd, hdouble]
  omega

/-- Every integer of the range is the signed number of exactly one list of so many bytes. -/
theorem existsUnique_toInt_eq (order : ByteOrder) (hsize : 0 < size)
    (hlo : -2 ^ (8 * size - 1) ≤ i) (hhi : i < 2 ^ (8 * size - 1)) :
    ∃! bytes : List UInt8, bytes.length = size ∧ order.toInt bytes = i := by
  have hpos : (0 : Int) < 2 ^ (8 * size) := pow_pos two_pos _
  -- The unsigned number that the same bytes stand for.
  obtain ⟨n, hn⟩ := Int.eq_ofNat_of_zero_le (Int.emod_nonneg i hpos.ne')
  have hlt : n < numberCount size := by
    have hmod := Int.emod_lt_of_pos i hpos
    rw [hn] at hmod
    rw [numberCount_eq]
    exact_mod_cast hmod
  have hiff : ∀ bytes : List UInt8, bytes.length = size →
      (order.toInt bytes = i ↔ order.toNat bytes = n) := by
    intro bytes hlength
    have hnat := order.toNat_lt bytes
    rw [hlength, numberCount_eq] at hnat
    have hself : (order.toNat bytes : Int) % 2 ^ (8 * size) = order.toNat bytes := by
      apply Int.emod_eq_of_lt (Int.natCast_nonneg _)
      exact_mod_cast hnat
    rw [order.toInt_eq_iff hlength hsize, Int.ModEq, hself, hn]
    constructor
    · rintro ⟨-, -, h⟩
      exact Int.ofNat_inj.1 h.symm
    · intro h
      exact ⟨hlo, hhi, by rw [h]⟩
  obtain ⟨bytes, ⟨hlength, hnat⟩, hunique⟩ := order.existsUnique_toNat_eq hlt
  refine ⟨bytes, ⟨hlength, (hiff bytes hlength).2 hnat⟩, ?_⟩
  rintro bytes' ⟨hlength', hint⟩
  exact hunique bytes' ⟨hlength', (hiff bytes' hlength').1 hint⟩

theorem toNat_big (bytes : List UInt8) : big.toNat bytes = little.toNat bytes.reverse := rfl

theorem toInt_big (bytes : List UInt8) : big.toInt bytes = little.toInt bytes.reverse := by
  rw [toInt, toInt, toNat_big, List.length_reverse]

end ByteOrder

/-- The integer that was read, if it was one. -/
def Number.integer? : Number → Option Int
  | signed v => some v.toInt
  | unsigned v => some v.toNat
  | float _ => none

namespace Primitive

variable {t : Primitive} {order : ByteOrder} {bytes bytes' : List UInt8} {i : Int}

/-! ### Numbers of a Type -/

/-- The integer is in the range of the integer type. -/
def InRange (t : Primitive) (i : Int) : Prop :=
  if t.isSigned then -2 ^ (8 * t.size - 1) ≤ i ∧ i < 2 ^ (8 * t.size - 1)
  else 0 ≤ i ∧ i < 2 ^ (8 * t.size)

instance (t : Primitive) (i : Int) : Decidable (t.InRange i) :=
  inferInstanceAs (Decidable (if t.isSigned then _ else _))

theorem isFloat_eq_false (h : t.isSigned = true) : t.isFloat = false := by
  cases t <;> first | rfl | cases h

theorem number_signed (h : t.isSigned = true) (order : ByteOrder) (bytes : List UInt8) :
    t.number order bytes = .signed (Int64.ofInt (order.toInt bytes)) := by
  simp only [number, isFloat_eq_false h, h, Bool.false_eq_true, if_true, if_false]

theorem number_unsigned (hinteger : t.isInteger = true) (h : t.isSigned = false)
    (order : ByteOrder) (bytes : List UInt8) :
    t.number order bytes = .unsigned (UInt64.ofNat (order.toNat bytes)) := by
  have hfloat : t.isFloat = false := by simpa [isInteger] using hinteger
  simp only [number, hfloat, h, Bool.false_eq_true, if_false]

theorem two_pow_size_le (t : Primitive) : 2 ^ (8 * t.size) ≤ 2 ^ 64 :=
  Nat.pow_le_pow_right (by decide) (Nat.mul_le_mul_left 8 t.size_le)

/-- No word of 64 bits is too short for the unsigned number. -/
theorem toNat_ofNat_toNat (order : ByteOrder) (hlength : bytes.length = t.size) :
    (UInt64.ofNat (order.toNat bytes)).toNat = order.toNat bytes := by
  have hlt := order.toNat_lt bytes
  rw [hlength, ByteOrder.numberCount_eq] at hlt
  exact UInt64.toNat_ofNat_of_lt' (Nat.lt_of_lt_of_le hlt t.two_pow_size_le)

/-- No word of 64 bits is too short for the signed number. -/
theorem toInt_ofInt_toInt (order : ByteOrder) (hlength : bytes.length = t.size) :
    (Int64.ofInt (order.toInt bytes)).toInt = order.toInt bytes := by
  obtain ⟨hlo, hhi, -⟩ := (order.toInt_eq_iff hlength t.size_pos).1 rfl
  have hle : (2 : Int) ^ (8 * t.size - 1) ≤ 2 ^ 63 := by
    have hsize := t.size_le
    exact pow_le_pow_right₀ (by decide) (by omega)
  exact Int64.toInt_ofInt_of_le (by omega) (by omega)

/-- The integer that is read is the signed or unsigned number of the bytes. -/
theorem integer?_number (hinteger : t.isInteger = true) (order : ByteOrder)
    (hlength : bytes.length = t.size) :
    (t.number order bytes).integer? =
      some (if t.isSigned then order.toInt bytes else order.toNat bytes) := by
  by_cases hsigned : t.isSigned = true
  · rw [number_signed hsigned, if_pos hsigned, Number.integer?, toInt_ofInt_toInt order hlength]
  · have hunsigned : t.isSigned = false := by simpa using hsigned
    rw [number_unsigned hinteger hunsigned, if_neg hsigned, Number.integer?,
      toNat_ofNat_toNat order hlength]

theorem number_big (t : Primitive) (bytes : List UInt8) :
    t.number .big bytes = t.number .little bytes.reverse := by
  unfold number
  rw [ByteOrder.toNat_big, ByteOrder.toInt_big]

/-! ### Reading -/

theorem decode_of_le (h : t.size ≤ bytes.length) (order : ByteOrder) :
    t.decode order bytes = some (t.number order (bytes.take t.size)) := if_pos h

theorem decode_eq_none_iff : t.decode order bytes = none ↔ bytes.length < t.size := by
  unfold decode
  split
  · next h => exact ⟨(nomatch ·), fun hlt => absurd h (Nat.not_le.2 hlt)⟩
  · next h => exact ⟨fun _ => Nat.not_le.1 h, fun _ => rfl⟩

theorem decode_take (t : Primitive) (order : ByteOrder) (bytes : List UInt8) :
    t.decode order (bytes.take t.size) = t.decode order bytes := by
  by_cases h : t.size ≤ bytes.length
  · have htake : t.size ≤ (bytes.take t.size).length := by
      rw [List.length_take]
      omega
    rw [decode_of_le h, decode_of_le htake, List.take_take, Nat.min_self]
  · rw [List.take_of_length_le (by omega)]

theorem decode_big (t : Primitive) (bytes : List UInt8) :
    t.decode .big bytes = t.decode .little (bytes.take t.size).reverse := by
  rw [← decode_take t .big bytes]
  have hlength : (bytes.take t.size).length ≤ t.size := by
    rw [List.length_take]
    omega
  generalize bytes.take t.size = front at hlength
  by_cases h : t.size ≤ front.length
  · have hreverse : t.size ≤ front.reverse.length := by rwa [List.length_reverse]
    rw [decode_of_le h, decode_of_le hreverse, number_big, List.take_of_length_le hlength,
      List.take_of_length_le (by rwa [List.length_reverse])]
  · have hnone : t.decode .big front = none := decode_eq_none_iff.2 (by omega)
    have hnone' : t.decode .little front.reverse = none := by
      rw [decode_eq_none_iff, List.length_reverse]
      omega
    rw [hnone, hnone']

/-- The unsigned number of the bytes that are read is a sum over them. -/
theorem toNat_take_eq_sum (h : t.size ≤ bytes.length) :
    ByteOrder.little.toNat (bytes.take t.size) =
      ∑ i ∈ Finset.range t.size, (bytes.getD i 0).toNat * 256 ^ i := by
  rw [ByteOrder.toNat, ByteOrder.littleNat_eq_sum, List.length_take, Nat.min_eq_left h]
  apply Finset.sum_congr rfl
  intro i hi
  rw [List.getD_eq_getElem?_getD, List.getD_eq_getElem?_getD,
    List.getElem?_take_of_lt (Finset.mem_range.1 hi)]

/-- Every integer in the range of the type is read from exactly one list of bytes. -/
theorem existsUnique_decode (hinteger : t.isInteger = true) (order : ByteOrder)
    (hi : t.InRange i) :
    ∃! bytes : List UInt8, bytes.length = t.size ∧
      (t.decode order bytes).bind Number.integer? = some i := by
  have hread : ∀ bytes : List UInt8, bytes.length = t.size →
      (t.decode order bytes).bind Number.integer? =
        some (if t.isSigned then order.toInt bytes else order.toNat bytes) := by
    intro bytes hlength
    rw [decode_of_le (Nat.le_of_eq hlength.symm), List.take_of_length_le (Nat.le_of_eq hlength)]
    exact integer?_number hinteger order hlength
  have hiff : ∀ bytes : List UInt8, (bytes.length = t.size ∧
      (t.decode order bytes).bind Number.integer? = some i) ↔
        bytes.length = t.size ∧
          (if t.isSigned then order.toInt bytes else (order.toNat bytes : Int)) = i := by
    intro bytes
    apply and_congr_right
    intro hlength
    rw [hread bytes hlength, Option.some_inj]
  rw [existsUnique_congr hiff]
  by_cases hsigned : t.isSigned = true
  · simp only [InRange, hsigned, if_true] at hi ⊢
    exact order.existsUnique_toInt_eq t.size_pos hi.1 hi.2
  · rw [InRange, if_neg hsigned] at hi
    simp only [if_neg hsigned]
    obtain ⟨n, rfl⟩ := Int.eq_ofNat_of_zero_le hi.1
    have hlt : n < ByteOrder.numberCount t.size := by
      rw [ByteOrder.numberCount_eq]
      exact_mod_cast hi.2
    simpa only [Int.ofNat_inj] using order.existsUnique_toNat_eq hlt

/-- What is read for a type is the number that the bytes stand for by their weights. -/
structure IsPositional (t : Primitive) : Prop where
  /-- Nothing is read if and only if there are fewer bytes than a value has. -/
  none_iff : ∀ order bytes, t.decode order bytes = none ↔ bytes.length < t.size
  /-- Bytes behind those of the value do not matter. -/
  front : ∀ order bytes bytes', bytes.take t.size = bytes'.take t.size →
    t.decode order bytes = t.decode order bytes'
  /-- The one order is the other one on the reversed bytes. -/
  reversed : ∀ bytes, t.decode .big bytes = t.decode .little (bytes.take t.size).reverse
  /-- An unsigned number is the sum of its bytes with their weights. -/
  unsigned : t.isInteger = true → t.isSigned = false → ∀ bytes, t.size ≤ bytes.length →
    ∃ v : UInt64, t.decode .little bytes = some (.unsigned v) ∧
      v.toNat = ∑ i ∈ Finset.range t.size, (bytes.getD i 0).toNat * 256 ^ i
  /-- A signed number is the one of its range that agrees with that sum. -/
  signed : t.isSigned = true → ∀ bytes, t.size ≤ bytes.length →
    ∃ v : Int64, t.decode .little bytes = some (.signed v) ∧
      -2 ^ (8 * t.size - 1) ≤ v.toInt ∧ v.toInt < 2 ^ (8 * t.size - 1) ∧
      v.toInt ≡ ((∑ i ∈ Finset.range t.size, (bytes.getD i 0).toNat * 256 ^ i : Nat) : Int)
        [ZMOD 2 ^ (8 * t.size)]
  /-- Every integer in the range of the type has exactly one list of bytes. -/
  unique : t.isInteger = true → ∀ order i, t.InRange i →
    ∃! bytes : List UInt8, bytes.length = t.size ∧
      (t.decode order bytes).bind Number.integer? = some i

/-- **Main theorem.** Values of all primitive types are read by the weights of their bytes. -/
theorem isPositional (t : Primitive) : t.IsPositional where
  none_iff order bytes := decode_eq_none_iff
  front order bytes bytes' h := by
    rw [← decode_take t order bytes, ← decode_take t order bytes', h]
  reversed := decode_big t
  unsigned hinteger hunsigned bytes h := by
    have hlength : (bytes.take t.size).length = t.size := List.length_take_of_le h
    refine ⟨_, (decode_of_le h _).trans (congrArg some (number_unsigned hinteger hunsigned _ _)), ?_⟩
    rw [toNat_ofNat_toNat _ hlength, toNat_take_eq_sum h]
  signed hsigned bytes h := by
    have hlength : (bytes.take t.size).length = t.size := List.length_take_of_le h
    refine ⟨_, (decode_of_le h _).trans (congrArg some (number_signed hsigned _ _)), ?_⟩
    rw [toInt_ofInt_toInt _ hlength, ← toNat_take_eq_sum h]
    exact (ByteOrder.little.toInt_eq_iff hlength t.size_pos).1 rfl
  unique hinteger order i hi := existsUnique_decode hinteger order hi

end Primitive

end ByteBricks
