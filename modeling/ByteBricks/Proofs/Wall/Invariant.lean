import ByteBricks.Wall
import Mathlib.Data.List.TakeWhile

/-! # The Invariant of Walls

  What every operation on a wall relies on and leaves true:

  - A brick ends before the next one starts.
  - Every brick covers bytes and has a known type.
  - The size of a definition is the exact sum of the sizes of its members.
  - The types of a definition's members are primitive or were defined before it.
  - The list of known types is up to date.

  Each operation has one lemma that says when it succeeds and what it changes, and
  one that says that it keeps the invariant. -/

namespace ByteBricks

namespace Wall

/-- The number of definitions that a wall stays below. -/
def definitionLimit : Nat := 0x80000000

/-- The wall has so few definitions that all type codes are exact. -/
def Small (w : Wall) : Prop := w.definitions.length < definitionLimit

instance (w : Wall) : Decidable w.Small :=
  inferInstanceAs (Decidable (w.definitions.length < definitionLimit))

/-- Each definition of the wall has a type code of its own. -/
def Coded (w : Wall) : Prop := w.definitions.length ≤ TypeCode.structCount

/-- What holds of every wall that operations lead to. -/
structure Coherent (w : Wall) : Prop where
  /-- A brick ends before every later one starts. -/
  ordered : w.bricks.Pairwise fun a b => a.stop ≤ b.start
  /-- Every brick covers bytes and has a known type. -/
  solid : ∀ b ∈ w.bricks, b.size ≠ 0 ∧ (w.typeInfo? b.type).isSome
  /-- The sizes of definitions are the sums of their members' sizes. -/
  summed : ∀ d ∈ w.definitions, d.Summed
  /-- The members of a definition have types that were there before it. -/
  grounded : ∀ i d, w.definitions[i]? = some d → ∀ m ∈ d.members, mayContain i m.type = true
  /-- The known types are those of the definitions. -/
  tabled : w.types = typeTable w.definitions

/-! ### Known Types -/

theorem Small.coded {w : Wall} (hw : w.Small) : w.Coded := by
  unfold Small definitionLimit at hw
  unfold Coded TypeCode.structCount TypeCode.structBase
  omega

theorem Coded.lt_structCount {w : Wall} (hw : w.Coded) {i : Nat}
    (hi : i < w.definitions.length) : i < TypeCode.structCount :=
  Nat.lt_of_lt_of_le hi hw

theorem typeTable_getElem?_primitive (definitions : List Definition) (t : Primitive) :
    (typeTable definitions)[t.code]? = some ⟨t.name, t.size⟩ := by
  unfold typeTable
  have hlt : t.code < (Primitive.all.map fun t => (⟨t.name, t.size⟩ : TypeInfo)).length :=
    t.code_lt
  rw [List.getElem?_append_left hlt, List.getElem?_map]
  have hall : Primitive.all[t.code]? = some t := t.ofCode?_code
  rw [hall]
  rfl

theorem typeTable_getElem?_struct (definitions : List Definition) (i : Nat) :
    (typeTable definitions)[Primitive.all.length + i]? =
      definitions[i]?.map fun d => ⟨d.name.text, d.size.toNat⟩ := by
  unfold typeTable
  rw [List.getElem?_append_right (by simp)]
  simp

/-- The known types are the primitive ones and those of the definitions. -/
theorem Coherent.typeInfo?_eq {w : Wall} (hw : w.Coherent) (c : TypeCode) :
    w.typeInfo? c = match c.primitive? with
      | some t => some ⟨t.name, t.size⟩
      | none => c.structIndex?.bind fun i =>
          w.definitions[i]?.map fun d => ⟨d.name.text, d.size.toNat⟩ := by
  unfold typeInfo?
  rw [hw.tabled]
  cases c.primitive? with
  | some t => exact typeTable_getElem?_primitive _ t
  | none =>
    cases c.structIndex? with
    | none => rfl
    | some i => exact typeTable_getElem?_struct _ i

theorem Coherent.typeInfo?_ofPrimitive {w : Wall} (hw : w.Coherent) (t : Primitive) :
    w.typeInfo? (.ofPrimitive t) = some ⟨t.name, t.size⟩ := by
  rw [hw.typeInfo?_eq, TypeCode.primitive?_ofPrimitive]

theorem Coherent.typeInfo?_ofStruct {w : Wall} (hw : w.Coherent) {i : Nat}
    (hi : i < TypeCode.structCount) :
    w.typeInfo? (.ofStruct i) =
      w.definitions[i]?.map fun d => ⟨d.name.text, d.size.toNat⟩ := by
  rw [hw.typeInfo?_eq, TypeCode.primitive?_ofStruct hi, TypeCode.structIndex?_ofStruct hi]
  rfl

/-- A type that is known remains known while no definition disappears. -/
theorem Coherent.typeInfo?_isSome_mono {w w' : Wall} (hw : w.Coherent)
    (htabled : w'.types = typeTable w'.definitions)
    (hlen : w.definitions.length ≤ w'.definitions.length) {c : TypeCode}
    (h : (w.typeInfo? c).isSome) : (w'.typeInfo? c).isSome := by
  rw [hw.typeInfo?_eq] at h
  unfold typeInfo?
  rw [htabled]
  cases hc : c.primitive? with
  | some t => simp [typeTable_getElem?_primitive]
  | none =>
    cases hi : c.structIndex? with
    | none => simp [hc, hi] at h
    | some i =>
      -- The index of a known struct remains in range.
      have hlt : i < w.definitions.length := by simpa [hc, hi] using h
      simp [typeTable_getElem?_struct, Nat.lt_of_lt_of_le hlt hlen]

/-! ### Bricks -/

theorem mem_place {bricks : List Brick} {b e : Brick} :
    e ∈ place bricks b ↔ e = b ∨ e ∈ bricks := by
  unfold place
  conv => rhs; rw [← List.takeWhile_append_dropWhile (p := (·.start < b.stop)) (l := bricks)]
  simp only [List.mem_append, List.mem_cons]
  exact or_left_comm

theorem place_perm (bricks : List Brick) (b : Brick) :
    (place bricks b).Perm (bricks ++ [b]) := by
  have hmiddle : (place bricks b).Perm (b :: (bricks.takeWhile (·.start < b.stop) ++
      bricks.dropWhile (·.start < b.stop))) := List.perm_middle
  rw [List.takeWhile_append_dropWhile] at hmiddle
  exact hmiddle.trans (List.perm_append_singleton b bricks).symm

/-- A search that the new brick does not meet finds what it found before. -/
theorem find?_place {bricks : List Brick} {b : Brick} {p : Brick → Bool} (hb : p b = false) :
    (place bricks b).find? p = bricks.find? p := by
  conv => rhs; rw [← List.takeWhile_append_dropWhile (p := (·.start < b.stop)) (l := bricks)]
  unfold place
  rw [List.find?_append, List.find?_append, List.find?_cons_of_neg (by simpa using hb)]

/-- All bricks behind the first that starts at an offset or later do so too. -/
theorem stop_le_of_mem_dropWhile {bricks : List Brick} {stop : Int64}
    (hord : bricks.Pairwise fun a b => a.stop ≤ b.start) {e : Brick}
    (he : e ∈ bricks.dropWhile (·.start < stop)) : stop ≤ e.start := by
  -- The first brick that is not skipped starts late enough, and the others start behind it.
  induction bricks with
  | nil => simp at he
  | cons a bricks ih =>
    by_cases ha : a.start < stop
    · rw [List.dropWhile_cons_of_pos (by simpa using ha)] at he
      exact ih hord.of_cons he
    · rw [List.dropWhile_cons_of_neg (by simpa using ha)] at he
      have hle : stop ≤ a.start := Int64.not_lt.1 ha
      rcases List.mem_cons.1 he with rfl | he
      · exact hle
      · have hafter := List.rel_of_pairwise_cons hord he
        exact Int64.le_trans hle (Int64.le_trans a.start_le_stop hafter)

/-- A brick that overlaps no other one finds a place between them. -/
theorem pairwise_place {bricks : List Brick} {b : Brick}
    (hord : bricks.Pairwise fun a b => a.stop ≤ b.start)
    (hfree : ∀ e ∈ bricks, e.overlaps b = false) :
    (place bricks b).Pairwise fun a b => a.stop ≤ b.start := by
  have hparts := hord
  rw [← List.takeWhile_append_dropWhile (p := (·.start < b.stop)) (l := bricks)] at hparts
  obtain ⟨hfront, hback, hacross⟩ := List.pairwise_append.1 hparts
  unfold place
  rw [List.pairwise_append]
  refine ⟨hfront, List.pairwise_cons.2 ⟨?_, hback⟩, ?_⟩
  · intro e he
    exact stop_le_of_mem_dropWhile hord he
  · intro a ha e he
    rcases List.mem_cons.1 he with rfl | he
    · -- A brick in front starts before the new one ends, so it has to end first.
      have hstart : a.start < e.stop := by simpa using List.mem_takeWhile_imp ha
      have hmem : a ∈ bricks := (List.takeWhile_sublist _).mem ha
      rcases Brick.not_overlaps_iff.1 (hfree a hmem) with h | h
      · exact absurd hstart (Int64.not_lt.2 h)
      · exact h
    · exact hacross a ha e he

/-- A brick is inserted if its type has a size that divides its own, and no other
    brick overlaps it. -/
theorem insert_eq_ok_iff {w w' : Wall} {b : Brick} :
    w.insert b = .ok w' ↔
      ∃ info, w.typeInfo? b.type = some info ∧ b.size ≠ 0 ∧ info.size ≠ 0 ∧
        b.size.toNat % info.size = 0 ∧ (∀ e ∈ w.bricks, e.overlaps b = false) ∧
        w' = { w with bricks := place w.bricks b } := by
  unfold insert
  -- The checks come in a fixed order, and each case is that of the first that fails.
  cases hinfo : w.typeInfo? b.type with
  | none => simp
  | some info =>
    by_cases hsize : b.size = 0
    · simp [hsize]
    by_cases halign : info.size = 0 ∨ b.size.toNat % info.size ≠ 0
    · simp only [hsize, halign, if_true, if_false]
      grind
    have hnone : w.bricks.find? (·.overlaps b) = none ↔ ∀ e ∈ w.bricks, e.overlaps b = false := by
      simp
    simp only [hsize, halign, if_false]
    cases hfind : w.bricks.find? (·.overlaps b) with
    | none =>
      have hfree := hnone.1 hfind
      grind
    | some e =>
      have hbusy : ¬ ∀ e ∈ w.bricks, e.overlaps b = false := by
        rw [← hnone, hfind]
        simp
      grind

/-- A brick that is aligned is inserted unless it overlaps another one. -/
theorem insert_of_aligned {w : Wall} {b : Brick} {info : TypeInfo}
    (hinfo : w.typeInfo? b.type = some info) (hsize : b.size ≠ 0) (hinfoSize : info.size ≠ 0)
    (haligned : b.size.toNat % info.size = 0) :
    w.insert b = match w.bricks.find? (·.overlaps b) with
      | some existing => .error (.overlap b.name existing.name)
      | none => .ok { w with bricks := place w.bricks b } := by
  have hfits : ¬ (info.size = 0 ∨ b.size.toNat % info.size ≠ 0) := by simp [hinfoSize, haligned]
  unfold insert
  rw [hinfo]
  exact (if_neg hsize).trans (if_neg hfits)

theorem Coherent.insert {w w' : Wall} (hw : w.Coherent) {b : Brick}
    (h : w.insert b = .ok w') : w'.Coherent := by
  obtain ⟨info, hinfo, hsize, -, -, hfree, rfl⟩ := insert_eq_ok_iff.1 h
  refine ⟨pairwise_place hw.ordered hfree, ?_, hw.summed, hw.grounded, hw.tabled⟩
  intro e he
  rcases mem_place.1 he with rfl | he
  · exact ⟨hsize, Option.isSome_of_eq_some hinfo⟩
  · exact hw.solid e he

/-- A struct brick is inserted as the brick that it stands for. -/
theorem insert_of_insertStruct {w w' : Wall} {name : String} {start : Int64} {count : Int32}
    {index : Nat} (h : w.insertStruct name start count index = .ok w') :
    ∃ b, w.insert b = .ok w' := by
  unfold insertStruct at h
  split at h
  · split at h
    · simp at h
    · exact ⟨_, h⟩
  · simp at h

/-- The brick of as many instances of a struct covers as many times its size. -/
theorem insertStruct_eq {w : Wall} {index count : Nat} {d : Definition}
    (hd : w.definitions[index]? = some d) (hcount : count ≤ Word.int32Max)
    (hsize : d.size.toNat * count ≤ Word.uint64Max) (name : String) (start : Int64) :
    w.insertStruct name start (Int32.ofNat count) index =
      w.insert ⟨Label.ofString name, .ofStruct index, start, UInt64.ofNat (d.size.toNat * count),
        d.color, some index⟩ := by
  have hint : (Int32.ofNat count).toInt = Int.ofNat count := by
    rw [Int32.toInt_ofNat_of_lt (by unfold Word.int32Max at hcount; omega)]
    rfl
  unfold insertStruct
  rw [hd, hint]
  dsimp only
  rw [Word.uint64?, if_pos hsize]

theorem Coherent.eraseAt {w : Wall} (hw : w.Coherent) (offset : Int64) :
    (w.eraseAt offset).Coherent where
  ordered := hw.ordered.sublist List.eraseP_sublist
  solid := fun b hb => hw.solid b (List.mem_of_mem_eraseP hb)
  summed := hw.summed
  grounded := hw.grounded
  tabled := hw.tabled

/-! ### Definitions -/

theorem mayContain_iff {i : Nat} {c : TypeCode} :
    mayContain i c = true ↔ (∃ t, c = .ofPrimitive t) ∨
      (c.primitive? = none ∧ ∃ j < i, c.structIndex? = some j) := by
  unfold mayContain
  cases hc : c.primitive? with
  | some t => exact iff_of_true rfl (.inl ⟨t, TypeCode.eq_ofPrimitive_of_primitive? hc⟩)
  | none =>
    have hprim : ¬ ∃ t, c = .ofPrimitive t := by
      intro hprimitive
      obtain ⟨t, rfl⟩ := hprimitive
      simp [TypeCode.primitive?_ofPrimitive] at hc
    cases hj : c.structIndex? with
    | none => simp [hprim]
    | some j => simp [hprim]

@[simp] theorem define_definitions (w : Wall) (name : String) (color : Color) :
    (w.define name color).definitions = w.definitions ++ [Definition.empty name color] := rfl

theorem Coherent.define {w : Wall} (hw : w.Coherent) (name : String) (color : Color) :
    (w.define name color).Coherent where
  ordered := hw.ordered
  solid := fun b hb => ⟨(hw.solid b hb).1,
    hw.typeInfo?_isSome_mono rfl (by simp) (hw.solid b hb).2⟩
  summed := by
    intro d hd
    rcases List.mem_append.1 hd with hd | hd
    · exact hw.summed d hd
    · rw [List.mem_singleton.1 hd]
      exact Definition.summed_empty name color
  grounded := by
    intro i d hd m hm
    rw [define_definitions, List.getElem?_append] at hd
    split at hd
    · exact hw.grounded i d hd m hm
    · have hempty : d = Definition.empty name color := by
        have := List.mem_of_getElem? hd
        simpa using this
      rw [hempty] at hm
      simp [Definition.empty] at hm
  tabled := rfl

/-- A member is appended if its type may stand in the definition and has a size that
    divides its own, and the size of the definition still fits. -/
theorem appendMember?_eq_some_iff {w w' : Wall} {index : Nat} {member : Brick} :
    w.appendMember? index member = some w' ↔
      ∃ d info d', w.definitions[index]? = some d ∧ w.typeInfo? member.type = some info ∧
        mayContain index member.type = true ∧ info.size ≠ 0 ∧
        member.size.toNat % info.size = 0 ∧ d.append? member = some d' ∧
        w' = w.redefine (w.definitions.set index d') := by
  unfold appendMember?
  cases hd : w.definitions[index]? with
  | none => simp
  | some d =>
    cases hinfo : w.typeInfo? member.type with
    | none => simp
    | some info =>
      by_cases hfit : (mayContain index member.type && info.size != 0 &&
          member.size.toNat % info.size == 0) = true
      · simp only [Option.bind_eq_bind, Option.bind_some, hfit, if_true]
        simp only [Bool.and_eq_true, bne_iff_ne, beq_iff_eq] at hfit
        cases happ : d.append? member with
        | none => simp [happ]
        | some d' => simp [hfit, happ, eq_comm]
      · simp only [Option.bind_eq_bind, Option.bind_some, hfit]
        simp only [Bool.and_eq_true, bne_iff_ne, beq_iff_eq] at hfit
        grind

theorem Coherent.appendMember? {w w' : Wall} (hw : w.Coherent) {index : Nat} {member : Brick}
    (h : w.appendMember? index member = some w') : w'.Coherent := by
  obtain ⟨d, info, d', hd, -, hmay, -, -, happ, rfl⟩ := appendMember?_eq_some_iff.1 h
  obtain ⟨hsum, -, -, -, hmembers⟩ := (hw.summed d (List.mem_of_getElem? hd)).append? happ
  refine ⟨hw.ordered, ?_, ?_, ?_, rfl⟩
  · intro b hb
    have hlen : w.definitions.length ≤ (w.definitions.set index d').length := by simp
    exact ⟨(hw.solid b hb).1, hw.typeInfo?_isSome_mono rfl hlen (hw.solid b hb).2⟩
  · intro e he
    rcases List.mem_or_eq_of_mem_set he with he | rfl
    · exact hw.summed e he
    · exact hsum
  · intro i e he m hm
    change (w.definitions.set index d')[i]? = some e at he
    -- Only the definition at the index has a member more.
    by_cases hi : index = i
    · subst hi
      rw [List.getElem?_set_self (List.getElem?_eq_some_iff.1 hd).1] at he
      cases he
      rw [hmembers] at hm
      rcases List.mem_append.1 hm with hm | hm
      · exact hw.grounded index d hd m hm
      · rw [List.mem_singleton.1 hm]
        exact hmay
    · rw [List.getElem?_set_ne hi] at he
      exact hw.grounded i e he m hm

theorem coherent_empty : Wall.empty.Coherent where
  ordered := List.Pairwise.nil
  solid := by simp [Wall.empty]
  summed := by simp [Wall.empty]
  grounded := by simp [Wall.empty]
  tabled := rfl

end Wall

end ByteBricks
