import ByteBricks.Proofs.NameTable.Entries

/-! # Offsets of Other Tables

  An offset that a table has never given out may still be looked up in it: it was given out by
  another table. The look-up has nothing to tell it by but the bytes that lie there, and these
  may happen to be an entry.

  Main statement: the offsets of all other tables are recognised if and only if no entry lies at
  an offset of four or more that was not given out. In a table of less than 64 KiB whose names
  hold bytes other than zero, that can only be the offset in front of one that was given out,
  and it takes a text of more than 256 bytes. -/

namespace ByteBricks.NameTable

variable {t t' : NameTable} {offset : Nat} {name text : String} {names : List String}

/-! ### Offsets That Are Given Out -/

/-- The names that find room in a table, with the offsets that they are given. -/
def issued (t : NameTable) : List String → List (Nat × String)
  | [] => []
  | name :: names =>
    match t.intern? name with
    | some (offset, t') => (offset, name) :: t'.issued names
    | none => t.issued names

/-- The offsets that a table gives out for a series of names. -/
def offsetsOf (names : List String) : List Nat := (empty.issued names).map Prod.fst

/-- The offsets of the entries that lie one behind the other from an offset on. -/
def offsetsFrom (base : Nat) : List String → List Nat
  | [] => []
  | name :: names => base :: offsetsFrom (base + (entry name).length) names

theorem issued_of_intern? (h : t.intern? name = some (offset, t')) :
    t.issued (name :: names) = (offset, name) :: t'.issued names := by
  rw [issued, h]

theorem issued_of_refused (h : t.intern? name = none) :
    t.issued (name :: names) = t.issued names := by
  rw [issued, h]

/-- The names that find room are given the offsets of their entries. -/
theorem offsets_issued (t : NameTable) (names : List String) :
    (t.issued names).map Prod.fst = offsetsFrom t.size ((t.issued names).map Prod.snd) := by
  induction names generalizing t with
  | nil => rfl
  | cons name names ih =>
    cases h : t.intern? name with
    | none => rw [issued_of_refused h, ih]
    | some r =>
      obtain ⟨offset, t'⟩ := r
      obtain ⟨-, rfl, -⟩ := intern?_eq_some_iff.1 h
      rw [issued_of_intern? h, List.map_cons, List.map_cons, offsetsFrom, ih, size_of_intern? h]

/-- The table consists of the entries of the names that found room. -/
theorem toList_storeAll (t : NameTable) (names : List String) :
    (t.storeAll names).toList = t.toList ++ ((t.issued names).map Prod.snd).flatMap entry := by
  induction names generalizing t with
  | nil => exact (List.append_nil _).symm
  | cons name names ih =>
    show ((t.store name).storeAll names).toList = _
    cases h : t.intern? name with
    | none => rw [store_of_refused h, issued_of_refused h, ih]
    | some r =>
      obtain ⟨offset, t'⟩ := r
      rw [store_of_intern? h, issued_of_intern? h, ih, toList_of_intern? h, List.map_cons,
        List.flatMap_cons, List.append_assoc]

theorem mem_issued (h : (offset, name) ∈ t.issued names) : name ∈ names := by
  induction names generalizing t with
  | nil => cases h
  | cons n names ih =>
    cases hn : t.intern? n with
    | none =>
      rw [issued_of_refused hn] at h
      exact List.mem_cons_of_mem n (ih h)
    | some r =>
      rw [issued_of_intern? hn] at h
      rcases List.mem_cons.1 h with heq | htail
      · cases heq
        exact List.mem_cons_self
      · exact List.mem_cons_of_mem n (ih htail)

/-- All offsets but the first one lie behind the length of the first name. -/
theorem eq_or_le_of_mem_offsetsFrom {base : Nat} (h : offset ∈ offsetsFrom base names) :
    offset = base ∨ base + lengthSize ≤ offset := by
  induction names generalizing base with
  | nil => cases h
  | cons name names ih =>
    rcases List.mem_cons.1 h with rfl | htail
    · exact .inl rfl
    · right
      have hentry := length_entry name
      rcases ih htail with rfl | hle <;> omega

theorem eq_zero_or_le_of_mem_offsetsOf (h : offset ∈ offsetsOf names) :
    offset = 0 ∨ lengthSize ≤ offset := by
  rw [offsetsOf, offsets_issued] at h
  rcases eq_or_le_of_mem_offsetsFrom h with hzero | hle
  · exact .inl hzero
  · rw [size_empty, Nat.zero_add] at hle
    exact .inr hle

/-- A table that holds an entry has given out the offset zero. -/
theorem zero_mem_offsetsOf (h : (ofNames names).HasEntry offset text) : 0 ∈ offsetsOf names := by
  rw [offsetsOf, offsets_issued]
  cases hissued : (empty.issued names).map Prod.snd with
  | nil =>
    have hbytes := toList_storeAll empty names
    rw [hissued] at hbytes
    have hsize : (ofNames names).size = 0 := by
      rw [← length_toList, ofNames, hbytes]
      rfl
    have hle := h.size_le
    rw [hsize] at hle
    exact absurd hle (Nat.not_le.2 (by rw [lengthSize]; omega))
  | cons name others => exact List.mem_cons_self

theorem utf8ByteSize_replicate (n : Nat) :
    (String.ofList (List.replicate n 'a')).utf8ByteSize = n := by
  induction n with
  | zero => rfl
  | succ n ih =>
    rw [List.replicate_succ, String.ofList_cons, String.utf8ByteSize_append, ih, Nat.add_comm]
    rfl

/-- Some table gives out an offset of four or more, if a name has room behind it. -/
theorem exists_mem_offsetsOf (hlo : lengthSize ≤ offset) (hhi : offset + lengthSize ≤ maxSize) :
    ∃ others, offset ∈ offsetsOf others := by
  -- A first name that reaches up to the offset, and a second one behind it.
  let first : String := String.ofList (List.replicate (offset - lengthSize) 'a')
  have hfirst : first.utf8ByteSize = offset - lengthSize := utf8ByteSize_replicate _
  refine ⟨[first, ""], ?_⟩
  cases h : empty.intern? first with
  | none =>
    have hlarge := intern?_eq_none_iff.1 h
    rw [size_empty, hfirst] at hlarge
    omega
  | some r =>
    obtain ⟨start, t⟩ := r
    have hsize : t.size = offset := by
      rw [size_of_intern? h, length_entry, hfirst, size_empty]
      omega
    cases h' : t.intern? "" with
    | none =>
      have hlarge := intern?_eq_none_iff.1 h'
      rw [hsize, String.utf8ByteSize_empty] at hlarge
      omega
    | some r' =>
      obtain ⟨start', t'⟩ := r'
      obtain ⟨-, hstart, -⟩ := intern?_eq_some_iff.1 h'
      rw [offsetsOf, issued_of_intern? h, issued_of_intern? h', ← hsize, ← hstart]
      exact List.mem_cons_of_mem _ List.mem_cons_self

/-! ### Texts without Zero Bytes -/

/-- The name has a text, and no byte of it is zero. -/
def IsPlain (name : String) : Prop := name ≠ "" ∧ 0 ∉ name.toByteArray.data.toList

instance (name : String) : Decidable (IsPlain name) := inferInstanceAs (Decidable (_ ∧ _))

theorem IsPlain.size_pos (h : IsPlain name) : 0 < name.utf8ByteSize := by
  apply Nat.pos_of_ne_zero
  intro hzero
  exact h.1 (String.utf8ByteSize_eq_zero_iff.1 hzero)

/-- Behind the length of a plain name, no byte of its entry is zero. -/
theorem IsPlain.ne_zero (h : IsPlain name) {i : Nat} (hi : lengthSize ≤ i) :
    (entry name)[i]? ≠ some 0 := by
  intro hzero
  rw [entry, List.getElem?_append_right hi] at hzero
  exact h.2 (List.mem_of_getElem? hzero)

/-- The length of a plain name that is not too long has no two zero bytes in front. -/
theorem IsPlain.length_ne_zero (h : IsPlain name) (hsize : name.utf8ByteSize < 2 ^ 16)
    (hfirst : (entry name)[0]? = some 0) : (entry name)[1]? ≠ some 0 := by
  have hpos := h.size_pos
  have hmod : UInt8.ofNat name.utf8ByteSize = 0 := Option.some.inj hfirst
  intro hsecond
  have hdiv : UInt8.ofNat (name.utf8ByteSize / 0x100) = 0 := Option.some.inj hsecond
  rw [← UInt8.toNat_inj, UInt8.toNat_ofNat'] at hmod hdiv
  have hzero : (0 : UInt8).toNat = 0 := rfl
  omega

/-- Short entries of plain names do not begin with two zero bytes. -/
theorem first_ne_zero (hplain : ∀ name ∈ names, IsPlain name)
    (hsize : (names.flatMap entry).length < 2 ^ 16)
    (hsecond : (names.flatMap entry)[1]? = some 0) : (names.flatMap entry)[0]? ≠ some 0 := by
  cases names with
  | nil => cases hsecond
  | cons name names =>
    have hentry := length_entry name
    rw [List.flatMap_cons, List.length_append] at hsize
    rw [List.flatMap_cons, List.getElem?_append_left (by rw [hentry, lengthSize]; omega)]
      at hsecond ⊢
    intro hfirst
    exact (hplain name List.mem_cons_self).length_ne_zero (by omega) hfirst hsecond

/-- An offset inside the first of several short entries is that of its last byte, if the last
    two bytes of the length that would be read there are zero. -/
theorem last_of_zeros (hname : IsPlain name) (hnames : ∀ name ∈ names, IsPlain name)
    (hsize : (names.flatMap entry).length < 2 ^ 16) (hpos : 0 < offset)
    (hin : offset < (entry name).length)
    (hthird : (entry name ++ names.flatMap entry)[offset + 2]? = some 0)
    (hfourth : (entry name ++ names.flatMap entry)[offset + 3]? = some 0) :
    offset + 1 = (entry name).length := by
  have hentry : (entry name).length = 4 + name.utf8ByteSize := length_entry name
  have htext := hname.size_pos
  by_contra hlast
  by_cases hend : offset + 2 = (entry name).length
  · -- The next entry does not begin with two zero bytes.
    rw [List.getElem?_append_right (by omega), hend, Nat.sub_self] at hthird
    rw [List.getElem?_append_right (by omega), show offset + 3 - (entry name).length = 1 by omega]
      at hfourth
    exact first_ne_zero hnames hsize hfourth hthird
  · -- One of the two is a byte of the text.
    rw [List.getElem?_append_left (by omega)] at hthird
    by_cases hfront : offset = 1
    · subst hfront
      rw [List.getElem?_append_left (by omega)] at hfourth
      exact hname.ne_zero (by decide) hfourth
    · have htail : lengthSize ≤ offset + 2 := by
        rw [lengthSize]
        omega
      exact hname.ne_zero htail hthird

/-- Where the last two bytes of a length are zero among short entries of plain names, an entry
    begins there or at the next offset, and then the first two bytes are not zero. -/
theorem mem_offsetsFrom_of_zeros (base : Nat) (hplain : ∀ name ∈ names, IsPlain name)
    (hsize : (names.flatMap entry).length < 2 ^ 16)
    (hthird : (names.flatMap entry)[offset + 2]? = some 0)
    (hfourth : (names.flatMap entry)[offset + 3]? = some 0) :
    base + offset ∈ offsetsFrom base names ∨
      base + offset + 1 ∈ offsetsFrom base names ∧
        (names.flatMap entry)[offset]? ≠ some 0 ∧ (names.flatMap entry)[offset + 1]? ≠ some 0 := by
  induction names generalizing base offset with
  | nil => cases hthird
  | cons name names ih =>
    obtain ⟨hname, hnames⟩ := List.forall_mem_cons.1 hplain
    rw [List.flatMap_cons, List.length_append] at hsize
    rw [List.flatMap_cons] at hthird hfourth ⊢
    have hrest : (names.flatMap entry).length < 2 ^ 16 := by omega
    rcases Nat.lt_or_ge offset (entry name).length with hin | hout
    · rcases Nat.eq_zero_or_pos offset with rfl | hpos
      · exact .inl List.mem_cons_self
      · right
        have hlast := last_of_zeros hname hnames hrest hpos hin hthird hfourth
        have hentry : (entry name).length = 4 + name.utf8ByteSize := length_entry name
        have htext := hname.size_pos
        have hsecond : (names.flatMap entry)[1]? = some 0 := by
          rw [List.getElem?_append_right (by omega),
            show offset + 2 - (entry name).length = 1 by omega] at hthird
          exact hthird
        refine ⟨?_, ?_, ?_⟩
        · -- There is a second entry, as it has a second byte.
          cases names with
          | nil => cases hsecond
          | cons next later =>
            rw [Nat.add_assoc, hlast]
            exact List.mem_cons_of_mem _ List.mem_cons_self
        · rw [List.getElem?_append_left hin]
          exact hname.ne_zero (by rw [lengthSize]; omega)
        · rw [hlast, List.getElem?_append_right (Nat.le_refl _), Nat.sub_self]
          exact first_ne_zero hnames hrest hsecond
    · -- The same bytes lie so much nearer in the entries behind the first one.
      obtain ⟨k, rfl⟩ := Nat.exists_eq_add_of_le hout
      have hshift : ∀ j, (entry name ++ names.flatMap entry)[(entry name).length + k + j]? =
          (names.flatMap entry)[k + j]? := by
        intro j
        rw [Nat.add_assoc, List.getElem?_append_right (Nat.le_add_right _ _),
          Nat.add_sub_cancel_left]
      have hfirst : (entry name ++ names.flatMap entry)[(entry name).length + k]? =
          (names.flatMap entry)[k]? := hshift 0
      rw [hshift] at hthird hfourth ⊢
      rw [hfirst, ← Nat.add_assoc base]
      rcases ih (base + (entry name).length) hnames hrest hthird hfourth with hmem | hmem
      · exact .inl (List.mem_cons_of_mem _ hmem)
      · obtain ⟨hmem, hbytes⟩ := hmem
        exact .inr ⟨List.mem_cons_of_mem _ hmem, hbytes⟩

/-! ### Foreign Offsets -/

theorem HasEntry.getElem? (h : t.HasEntry offset text) {i : Nat}
    (hi : i < (entry text).length) : t.toList[offset + i]? = (entry text)[i]? := by
  have hbyte := List.prefix_iff_getElem?.1 h i hi
  rw [List.getElem?_drop] at hbyte
  rw [hbyte, List.getElem?_eq_getElem hi]

/-- The length of a short text ends with two zero bytes. -/
theorem HasEntry.zeros (h : t.HasEntry offset text) (hshort : text.utf8ByteSize < 2 ^ 16) :
    t.toList[offset + 2]? = some 0 ∧ t.toList[offset + 3]? = some 0 := by
  have hentry : (entry text).length = 4 + text.utf8ByteSize := length_entry text
  constructor
  · rw [h.getElem? (by omega)]
    show some (UInt8.ofNat (text.utf8ByteSize / 0x10000)) = some 0
    rw [Nat.div_eq_of_lt (by omega)]
    rfl
  · rw [h.getElem? (by omega)]
    show some (UInt8.ofNat (text.utf8ByteSize / 0x1000000)) = some 0
    rw [Nat.div_eq_of_lt (by omega)]
    rfl

/-- A length whose first two bytes are not zero is that of a long text. -/
theorem HasEntry.long_of_ne_zero (h : t.HasEntry offset text)
    (hfirst : t.toList[offset]? ≠ some 0) (hsecond : t.toList[offset + 1]? ≠ some 0) :
    256 < text.utf8ByteSize := by
  have hentry : (entry text).length = 4 + text.utf8ByteSize := length_entry text
  rw [← Nat.add_zero offset, h.getElem? (by omega)] at hfirst
  rw [h.getElem? (by omega)] at hsecond
  have hlow : UInt8.ofNat text.utf8ByteSize ≠ 0 := fun hzero => hfirst (congrArg some hzero)
  have hhigh : UInt8.ofNat (text.utf8ByteSize / 0x100) ≠ 0 :=
    fun hzero => hsecond (congrArg some hzero)
  have hzero : (0 : UInt8).toNat = 0 := rfl
  rw [ne_eq, ← UInt8.toNat_inj, UInt8.toNat_ofNat'] at hlow hhigh
  omega

/-- In a small table of plain names, an entry lies only where one was stored or one byte in
    front of that, and there it has a long text. -/
theorem HasEntry.mem_offsetsOf (hplain : ∀ name ∈ names, IsPlain name)
    (hsize : (ofNames names).size < 2 ^ 16) (h : (ofNames names).HasEntry offset text) :
    offset ∈ offsetsOf names ∨ offset + 1 ∈ offsetsOf names ∧ 256 < text.utf8ByteSize := by
  have hle := h.size_le
  have hbytes : (ofNames names).toList = ((empty.issued names).map Prod.snd).flatMap entry :=
    toList_storeAll empty names
  have hkept : ∀ name ∈ (empty.issued names).map Prod.snd, IsPlain name := by
    intro name hname
    obtain ⟨⟨start, _⟩, hissued, rfl⟩ := List.mem_map.1 hname
    exact hplain _ (mem_issued hissued)
  have hshort : (((empty.issued names).map Prod.snd).flatMap entry).length < 2 ^ 16 := by
    rwa [← hbytes, length_toList]
  obtain ⟨hthird, hfourth⟩ := h.zeros (by omega)
  rw [hbytes] at hthird hfourth
  have hmem := mem_offsetsFrom_of_zeros 0 hkept hshort hthird hfourth
  rw [Nat.zero_add, ← hbytes] at hmem
  rw [offsetsOf, offsets_issued, size_empty]
  apply hmem.imp_right
  rintro ⟨hnext, hfirst, hsecond⟩
  exact ⟨hnext, h.long_of_ne_zero hfirst hsecond⟩

/-- The offsets of every other table that this one has not given out are recognised. -/
def DetectsForeign (names : List String) : Prop :=
  ∀ others, ∀ offset ∈ offsetsOf others, offset ∉ offsetsOf names →
    (ofNames names).get? offset = none

/-- Foreign offsets are recognised if and only if no entry lies at one of them. -/
theorem detectsForeign_iff_forall_hasEntry :
    DetectsForeign names ↔ ∀ offset text, lengthSize ≤ offset →
      (ofNames names).HasEntry offset text → offset ∈ offsetsOf names := by
  have hmax := size_ofNames_le names
  constructor
  · intro h offset text hlo hentry
    by_contra hforeign
    have hle := hentry.size_le
    obtain ⟨others, hissued⟩ := exists_mem_offsetsOf hlo (by omega)
    have hnone := h others offset hissued hforeign
    rw [(get?_eq_some_iff_hasEntry hmax).2 hentry] at hnone
    cases hnone
  · intro h others offset hissued hforeign
    rw [Option.eq_none_iff_forall_ne_some]
    intro text hfound
    have hentry := (get?_eq_some_iff_hasEntry hmax).1 hfound
    rcases eq_zero_or_le_of_mem_offsetsOf hissued with rfl | hlo
    · exact hforeign (zero_mem_offsetsOf hentry)
    · exact hforeign (h offset text hlo hentry)

/-- **Main theorem.** An offset is recognised as none of this table if and only if no entry lies
    there, so all offsets of other tables are if and only if every entry at an offset of four or
    more is one that was stored there. In a table of less than 64 KiB whose names are plain, the
    only offsets that may be taken for one that was given out are those one byte in front, and
    264 bytes are too few for that. -/
theorem detectsForeign_iff (names : List String) :
    (∀ offset, (ofNames names).get? offset = none ↔
      ∀ text, ¬ (ofNames names).HasEntry offset text) ∧
    (DetectsForeign names ↔ ∀ offset text, 4 ≤ offset → (ofNames names).HasEntry offset text →
      offset ∈ offsetsOf names) ∧
    ((∀ name ∈ names, IsPlain name) → (ofNames names).size < 2 ^ 16 → ∀ offset text,
      (ofNames names).get? offset = some text →
        offset ∈ offsetsOf names ∨ offset + 1 ∈ offsetsOf names ∧ 256 < text.utf8ByteSize) ∧
    ((∀ name ∈ names, IsPlain name) → (ofNames names).size ≤ 264 → DetectsForeign names) := by
  have hmax := size_ofNames_le names
  refine ⟨?_, detectsForeign_iff_forall_hasEntry, ?_, ?_⟩
  · intro offset
    rw [Option.eq_none_iff_forall_ne_some]
    exact forall_congr' fun text => not_congr (get?_eq_some_iff_hasEntry hmax)
  · intro hplain hsize offset text hfound
    have hentry := (get?_eq_some_iff_hasEntry hmax).1 hfound
    exact hentry.mem_offsetsOf hplain hsize
  · intro hplain hsize
    apply detectsForeign_iff_forall_hasEntry.2
    intro offset text hlo hentry
    rcases hentry.mem_offsetsOf hplain (by omega) with hmem | ⟨-, hlong⟩
    · exact hmem
    · have hle := hentry.size_le
      rw [lengthSize] at hlo hle
      omega

/-- Two names take too few bytes for a mistake. -/
theorem twoNames_detectsForeign :
    (∀ name ∈ ["hdr", "größe"], IsPlain name) ∧ (ofNames ["hdr", "größe"]).size ≤ 264 ∧
      DetectsForeign ["hdr", "größe"] := by
  have hplain : ∀ name ∈ ["hdr", "größe"], IsPlain name := by decide +kernel
  have hsize : (ofNames ["hdr", "größe"]).size ≤ 264 := by decide +kernel
  exact ⟨hplain, hsize, (detectsForeign_iff ["hdr", "größe"]).2.2.2 hplain hsize⟩

/-- A name of four zero bytes is the entry of the empty name, at the offset that another table
    gives out for its second name if the first one is empty. -/
theorem zeros_not_detectsForeign :
    4 ∈ offsetsOf ["", ""] ∧ 4 ∉ offsetsOf ["\x00\x00\x00\x00"] ∧
      (ofNames ["\x00\x00\x00\x00"]).get? 4 = some "" ∧
      ¬ DetectsForeign ["\x00\x00\x00\x00"] := by
  have hother : 4 ∈ offsetsOf ["", ""] := by decide +kernel
  have hforeign : 4 ∉ offsetsOf ["\x00\x00\x00\x00"] := by decide +kernel
  have hfound : (ofNames ["\x00\x00\x00\x00"]).get? 4 = some "" := by decide +kernel
  refine ⟨hother, hforeign, hfound, ?_⟩
  intro h
  have hnone := h ["", ""] 4 hother hforeign
  rw [hfound] at hnone
  cases hnone

end ByteBricks.NameTable
