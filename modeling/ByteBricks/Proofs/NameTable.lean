import ByteBricks.NameTable

/-! # Stored Names

  A name that was stored is read back from the offset that it was given, and still is
  when the table has grown. -/

namespace ByteBricks.NameTable

theorem size_append (front t : NameTable) :
    size ⟨front.bytes ++ t.bytes⟩ = front.size + t.size :=
  ByteArray.size_append

theorem size_append_name (t : NameTable) (name : String) :
    size ⟨t.bytes ++ ⟨(lengthBytes name.utf8ByteSize).toArray⟩ ++ name.toByteArray⟩ =
      t.size + lengthSize + name.utf8ByteSize := by
  unfold size
  rw [ByteArray.size_append, ByteArray.size_append, String.size_toByteArray]
  rfl

/-- The table has grown out of another one. -/
structure Extends (t' t : NameTable) : Prop where
  /-- It begins with the other table. -/
  front : ∃ more, t'.bytes = t.bytes ++ more
  /-- It has not grown too large. -/
  bounded : t.size ≤ maxSize → t'.size ≤ maxSize

theorem Extends.refl (t : NameTable) : t.Extends t := ⟨⟨ByteArray.empty, by simp⟩, id⟩

theorem Extends.trans {t t' t'' : NameTable} (h' : t''.Extends t') (h : t'.Extends t) :
    t''.Extends t := by
  obtain ⟨⟨more, hfront⟩, hbounded⟩ := h
  obtain ⟨⟨more', hfront'⟩, hbounded'⟩ := h'
  exact ⟨⟨more ++ more', by rw [hfront', hfront, ByteArray.append_assoc]⟩,
    fun hsize => hbounded' (hbounded hsize)⟩

theorem Extends.size_le {t t' : NameTable} (h : t'.Extends t) : t.size ≤ t'.size := by
  obtain ⟨more, hfront⟩ := h.front
  unfold size
  rw [hfront, ByteArray.size_append]
  omega

/-- The bytes of a table stay where they are when it grows. -/
theorem slice?_of_extends {t t' : NameTable} (h : t'.Extends t) {offset length : Nat}
    {b : ByteArray} (hb : t.slice? offset length = some b) :
    t'.slice? offset length = some b := by
  obtain ⟨more, hbytes⟩ := h.front
  unfold slice? size at *
  split at hb
  · next hfits =>
    have hfits' : offset + length ≤ t'.bytes.size := by
      rw [hbytes, ByteArray.size_append]
      omega
    have hmore : more.extract (offset - t.bytes.size) (offset + length - t.bytes.size) =
        ByteArray.empty := by
      rw [Nat.sub_eq_zero_of_le hfits]
      exact ByteArray.extract_eq_empty_iff.2 (by omega)
    rw [if_pos hfits', hbytes, ByteArray.extract_append, hmore, ByteArray.append_empty]
    exact hb
  · simp at hb

theorem get?_of_extends {t t' : NameTable} (h : t'.Extends t) {offset : Nat} {name : String}
    (hname : t.get? offset = some name) : t'.get? offset = some name := by
  unfold get? at *
  obtain ⟨length, hlength, hname⟩ := Option.bind_eq_some_iff.1 hname
  obtain ⟨text, htext, hname⟩ := Option.bind_eq_some_iff.1 hname
  refine Option.bind_eq_some_iff.2 ⟨length, slice?_of_extends h hlength, ?_⟩
  exact Option.bind_eq_some_iff.2 ⟨text, slice?_of_extends h htext, hname⟩

/-- Four bytes hold every length that fits into the largest table. -/
theorem toNat_lengthBytes {n : Nat} (h : n ≤ maxSize) :
    ByteOrder.little.toNat (lengthBytes n) = n := by
  unfold maxSize at h
  simp only [ByteOrder.toNat, lengthBytes, ByteOrder.littleNat, UInt8.toNat_ofNat']
  omega

theorem intern?_eq_some_iff {t t' : NameTable} {name : String} {offset : Nat} :
    t.intern? name = some (offset, t') ↔
      t.size + lengthSize + name.utf8ByteSize ≤ maxSize ∧ offset = t.size ∧
        t' = ⟨t.bytes ++ ⟨(lengthBytes name.utf8ByteSize).toArray⟩ ++ name.toByteArray⟩ := by
  unfold intern?
  split
  · next h => simp [h, eq_comm]
  · next h => simp [h]

theorem extends_of_intern? {t t' : NameTable} {name : String} {offset : Nat}
    (h : t.intern? name = some (offset, t')) : t'.Extends t := by
  obtain ⟨hfits, -, rfl⟩ := intern?_eq_some_iff.1 h
  refine ⟨⟨_, ByteArray.append_assoc⟩, fun _ => ?_⟩
  rw [size_append_name]
  exact hfits

/-- A stored name is read back from its offset. -/
theorem get?_of_intern? {t t' : NameTable} {name : String} {offset : Nat}
    (h : t.intern? name = some (offset, t')) : t'.get? offset = some name := by
  obtain ⟨hfits, rfl, rfl⟩ := intern?_eq_some_iff.1 h
  let length : ByteArray := ⟨(lengthBytes name.utf8ByteSize).toArray⟩
  have hlen : length.size = lengthSize := rfl
  have hname : name.toByteArray.size = name.utf8ByteSize := String.size_toByteArray
  have hsize : size ⟨t.bytes ++ length ++ name.toByteArray⟩ =
      t.size + lengthSize + name.utf8ByteSize := size_append_name t name
  -- The two lookups of the reader: the length in front, then as many bytes behind it.
  have hfront : slice? ⟨t.bytes ++ length ++ name.toByteArray⟩ t.size lengthSize = some length := by
    unfold slice?
    have hle : t.size + lengthSize ≤ size ⟨t.bytes ++ length ++ name.toByteArray⟩ := by
      rw [hsize]
      omega
    rw [if_pos hle, ByteArray.append_assoc]
    have hextract := ByteArray.extract_append_size_add (a := t.bytes)
      (b := length ++ name.toByteArray) (i := 0) (j := lengthSize)
    rw [Nat.add_zero, ByteArray.extract_append_eq_left hlen.symm] at hextract
    exact congrArg some hextract
  have hback : slice? ⟨t.bytes ++ length ++ name.toByteArray⟩ (t.size + lengthSize)
      name.utf8ByteSize = some name.toByteArray := by
    unfold slice?
    rw [if_pos (Nat.le_of_eq hsize.symm)]
    refine congrArg some (ByteArray.extract_append_eq_right ?_ ?_)
    · rw [ByteArray.size_append, hlen]
      rfl
    · rw [ByteArray.size_append, hlen, hname]
      rfl
  unfold get?
  refine Option.bind_eq_some_iff.2 ⟨length, hfront, ?_⟩
  have hnat : ByteOrder.little.toNat length.data.toList = name.utf8ByteSize :=
    toNat_lengthBytes (by omega)
  rw [hnat]
  refine Option.bind_eq_some_iff.2 ⟨name.toByteArray, hback, ?_⟩
  exact dif_pos name.isValidUTF8

end ByteBricks.NameTable
