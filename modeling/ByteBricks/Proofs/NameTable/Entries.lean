import ByteBricks.Proofs.NameTable
import ByteBricks.Proofs.Primitive

/-! # Entries of a Name Table

  What is stored for a name is its entry, the length and then the text. A table consists of the
  entries of the names that found room, one behind the other, and a name is looked up by reading
  whatever lies at an offset as an entry.

  Main statement: a name is found at the offset that it was given, whatever is stored later,
  names are refused for want of room alone, and a look-up at any offset gives the name whose
  entry lies there, all of it inside the table, or none. -/

namespace ByteBricks.NameTable

variable {t t' : NameTable} {offset length : Nat} {name : String} {names : List String}

/-- The bytes of the table. -/
def toList (t : NameTable) : List UInt8 := t.bytes.data.toList

/-- The bytes that are stored for a name. -/
def entry (name : String) : List UInt8 :=
  lengthBytes name.utf8ByteSize ++ name.toByteArray.data.toList

/-- The entry of the name lies at an offset of the table. -/
def HasEntry (t : NameTable) (offset : Nat) (name : String) : Prop :=
  entry name <+: t.toList.drop offset

theorem size_empty : empty.size = 0 := rfl

theorem length_toList (t : NameTable) : t.toList.length = t.size := Array.length_toList

theorem length_entry (name : String) : (entry name).length = lengthSize + name.utf8ByteSize := by
  have htext : name.toByteArray.data.toList.length = name.utf8ByteSize := Array.length_toList
  rw [entry, List.length_append, htext]
  rfl

/-- All bytes of an entry are bytes of the table. -/
theorem HasEntry.size_le (h : t.HasEntry offset name) :
    offset + lengthSize + name.utf8ByteSize ≤ t.size := by
  have hle := List.IsPrefix.length_le h
  rw [length_entry, List.length_drop, length_toList] at hle
  have hpos : 0 < lengthSize := by decide
  omega

/-! ### Looking Names Up -/

theorem toList_of_intern? (h : t.intern? name = some (offset, t')) :
    t'.toList = t.toList ++ entry name := by
  obtain ⟨-, -, rfl⟩ := intern?_eq_some_iff.1 h
  simp only [toList, entry, ByteArray.data_append, Array.toList_append, List.append_assoc]

theorem size_of_intern? (h : t.intern? name = some (offset, t')) :
    t'.size = t.size + (entry name).length := by
  rw [← length_toList, toList_of_intern? h, List.length_append, length_toList]

theorem slice?_eq_some_iff {b : ByteArray} :
    t.slice? offset length = some b ↔
      offset + length ≤ t.size ∧ b.data.toList = (t.toList.drop offset).take length := by
  have hextract : (t.bytes.extract offset (offset + length)).data.toList =
      (t.toList.drop offset).take length := by
    rw [ByteArray.data_extract, Array.toList_extract, List.extract_eq_take_drop,
      Nat.add_sub_cancel_left]
    rfl
  unfold slice?
  split
  · next hle =>
    rw [← hextract, Option.some_inj]
    constructor
    · rintro rfl
      exact ⟨hle, rfl⟩
    · rintro ⟨-, h⟩
      exact ByteArray.ext (Array.toList_inj.1 h.symm)
  · next hle => exact ⟨(nomatch ·), fun h => absurd h.1 hle⟩

theorem length_of_slice? {b : ByteArray} (h : t.slice? offset length = some b) :
    b.data.toList.length = length := by
  obtain ⟨hle, hbytes⟩ := slice?_eq_some_iff.1 h
  rw [← length_toList] at hle
  rw [hbytes, List.length_take, List.length_drop]
  omega

theorem fromUTF8?_eq_some_iff {b : ByteArray} :
    String.fromUTF8? b = some name ↔ b = name.toByteArray := by
  unfold String.fromUTF8?
  split
  · next h =>
    rw [Option.some_inj, ← String.toByteArray_inj]
    rfl
  · next h =>
    constructor
    · exact (nomatch ·)
    · rintro rfl
      exact absurd name.isValidUTF8 h

/-- Any four bytes are the bytes of a length. -/
theorem lengthBytes_littleNat {bytes : List UInt8} (h : bytes.length = lengthSize) :
    ByteOrder.littleNat bytes ≤ maxSize ∧ lengthBytes (ByteOrder.littleNat bytes) = bytes := by
  have hlt := ByteOrder.littleNat_lt bytes
  rw [h, ByteOrder.numberCount_eq] at hlt
  have hle : ByteOrder.littleNat bytes ≤ maxSize := Nat.le_of_lt_succ hlt
  exact ⟨hle, ByteOrder.littleNat_inj h.symm (toNat_lengthBytes hle)⟩

/-- An entry is a length and, behind it, as many bytes of text. -/
theorem hasEntry_iff :
    t.HasEntry offset name ↔
      t.slice? offset lengthSize = some ⟨(lengthBytes name.utf8ByteSize).toArray⟩ ∧
      t.slice? (offset + lengthSize) name.utf8ByteSize = some name.toByteArray := by
  have htake : t.HasEntry offset name ↔ entry name = (t.toList.drop offset).take lengthSize ++
      (t.toList.drop (offset + lengthSize)).take name.utf8ByteSize := by
    rw [HasEntry, List.prefix_iff_eq_take, length_entry, List.take_add, List.drop_drop]
  rw [slice?_eq_some_iff, slice?_eq_some_iff]
  constructor
  · intro h
    have hle := h.size_le
    have hlength : (lengthBytes name.utf8ByteSize).length =
        ((t.toList.drop offset).take lengthSize).length := by
      rw [List.length_take, List.length_drop, length_toList]
      show lengthSize = _
      omega
    obtain ⟨hfront, hback⟩ := List.append_inj (htake.1 h) hlength
    exact ⟨⟨by omega, hfront⟩, hle, hback⟩
  · rintro ⟨⟨-, hfront⟩, -, hback⟩
    exact htake.2 (congrArg₂ (· ++ ·) hfront hback)

/-- A look-up gives the name whose entry lies at the offset. -/
theorem get?_eq_some_iff :
    t.get? offset = some name ↔ name.utf8ByteSize ≤ maxSize ∧ t.HasEntry offset name := by
  simp only [hasEntry_iff, get?, Option.bind_eq_bind, Option.bind_eq_some_iff,
    fromUTF8?_eq_some_iff]
  constructor
  · rintro ⟨front, hfront, _, hback, rfl⟩
    -- The four bytes are the length of the text that was found behind them.
    obtain ⟨hmax, hbytes⟩ := lengthBytes_littleNat (length_of_slice? hfront)
    have hsize : name.utf8ByteSize = ByteOrder.little.toNat front.data.toList :=
      Array.length_toList.symm.trans (length_of_slice? hback)
    have hlength : front = ⟨(lengthBytes name.utf8ByteSize).toArray⟩ := by
      rw [hsize, ByteOrder.toNat, hbytes]
    rw [← hsize] at hback
    exact ⟨hsize ▸ hmax, hlength ▸ hfront, hback⟩
  · rintro ⟨hmax, hfront, hback⟩
    have hnat := toNat_lengthBytes hmax
    refine ⟨_, hfront, _, ?_, rfl⟩
    show t.slice? _ (ByteOrder.little.toNat (lengthBytes name.utf8ByteSize)) = _
    rwa [hnat]

/-- In a table that has not grown too large, every entry is found. -/
theorem get?_eq_some_iff_hasEntry (hsize : t.size ≤ maxSize) :
    t.get? offset = some name ↔ t.HasEntry offset name := by
  rw [get?_eq_some_iff]
  constructor
  · exact And.right
  · intro h
    have hle := h.size_le
    exact ⟨by omega, h⟩

/-! ### Series of Names -/

/-- The table after one more name was to be stored; it stays as it is if there is no room. -/
def store (t : NameTable) (name : String) : NameTable :=
  match t.intern? name with
  | some (_, t') => t'
  | none => t

/-- The table after names were to be stored one after the other. -/
def storeAll (t : NameTable) (names : List String) : NameTable := names.foldl store t

theorem extends_store (t : NameTable) (name : String) : (t.store name).Extends t := by
  unfold store
  split
  · next h => exact extends_of_intern? h
  · exact .refl t

/-- A series of names only adds bytes behind those of the table. -/
theorem extends_storeAll (t : NameTable) (names : List String) :
    (t.storeAll names).Extends t := by
  induction names generalizing t with
  | nil => exact .refl t
  | cons name names ih => exact (ih (t.store name)).trans (extends_store t name)

theorem store_of_intern? (h : t.intern? name = some (offset, t')) : t.store name = t' := by
  unfold store
  rw [h]

theorem store_of_refused (h : t.intern? name = none) : t.store name = t := by
  unfold store
  rw [h]

theorem intern?_eq_none_iff :
    t.intern? name = none ↔ maxSize < t.size + lengthSize + name.utf8ByteSize := by
  unfold intern?
  split
  · next h => exact ⟨(nomatch ·), fun hlt => absurd h (Nat.not_le.2 hlt)⟩
  · next h => exact ⟨fun _ => Nat.not_le.1 h, fun _ => rfl⟩

/-- The table of a series of names. -/
def ofNames (names : List String) : NameTable := empty.storeAll names

theorem size_ofNames_le (names : List String) : (ofNames names).size ≤ maxSize :=
  (extends_storeAll empty names).bounded (Nat.zero_le _)

theorem ofNames_append_cons (names later : List String) (name : String) :
    ofNames (names ++ name :: later) = ((ofNames names).store name).storeAll later := by
  unfold ofNames storeAll
  rw [List.foldl_append, List.foldl_cons]

/-- What a table of names promises to whoever stores one more name in it and looks names up. -/
structure KeepsNames (names : List String) : Prop where
  /-- The table has fewer than 2 ^ 32 bytes. -/
  bounded : (ofNames names).size ≤ 2 ^ 32 - 1
  /-- A name is refused if and only if its entry would make the table too large. -/
  refused_iff : ∀ name, (ofNames names).intern? name = none ↔
    2 ^ 32 - 1 < (ofNames names).size + (entry name).length
  /-- A name that is refused leaves the table as it is. -/
  unchanged : ∀ name, (ofNames names).intern? name = none →
    (ofNames names).store name = ofNames names
  /-- A name that is stored is referred to by the old size, its entry is added, and it is found
      from then on, whatever is stored later. -/
  survives : ∀ name offset t', (ofNames names).intern? name = some (offset, t') →
    offset = (ofNames names).size ∧ (ofNames names).store name = t' ∧
      t'.toList = (ofNames names).toList ++ entry name ∧
      ∀ later, (ofNames (names ++ name :: later)).get? offset = some name
  /-- At any offset, a look-up gives the name whose entry lies there, if there is one. -/
  found_iff : ∀ offset name, (ofNames names).get? offset = some name ↔
    (ofNames names).HasEntry offset name
  /-- All bytes of that entry are bytes of the table. -/
  inside : ∀ offset name, (ofNames names).HasEntry offset name →
    offset + (entry name).length ≤ (ofNames names).size

/-- **Main theorem.** Stored names survive in every table. -/
theorem keepsNames (names : List String) : KeepsNames names where
  bounded := size_ofNames_le names
  refused_iff name := by
    rw [intern?_eq_none_iff, length_entry, ← Nat.add_assoc]
    rfl
  unchanged name h := store_of_refused h
  survives name offset t' h := by
    have hstore := store_of_intern? h
    obtain ⟨-, hoffset, -⟩ := intern?_eq_some_iff.1 h
    refine ⟨hoffset, hstore, toList_of_intern? h, ?_⟩
    intro later
    rw [ofNames_append_cons, hstore]
    exact get?_of_extends (extends_storeAll t' later) (get?_of_intern? h)
  found_iff offset name := get?_eq_some_iff_hasEntry (size_ofNames_le names)
  inside offset name h := by
    rw [length_entry, ← Nat.add_assoc]
    exact h.size_le

end ByteBricks.NameTable
