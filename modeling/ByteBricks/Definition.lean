import ByteBricks.Brick

/-! # Struct Definitions

  A struct definition lists the fields of a composite type. The members that it
  holds lie one after the other, and its size is the sum of theirs. -/

namespace ByteBricks

/-- The definition of a composite type. -/
structure Definition where
  /-- The name of the struct. -/
  name : Label
  /-- The colour of its instances. -/
  color : Color
  /-- The number of bytes of one instance. -/
  size : UInt64
  /-- The members in the order of their declaration. Their offsets count from the
      start of the struct. -/
  members : List Brick
  deriving DecidableEq

namespace Definition

/-- The definition without members. -/
def empty (name : String) (color : Color) : Definition :=
  ⟨Label.ofString name, color, 0, []⟩

/-- The first member of a name. -/
def member? (d : Definition) (name : String) : Option Brick :=
  d.members.find? (·.name.text == name)

/-- The sum of the sizes of all members. -/
def membersSize (d : Definition) : Nat := d.members.foldr (·.size.toNat + ·) 0

/-- The sum of the sizes of all members, if it fits into 64 bits. -/
def computedSize? (d : Definition) : Option UInt64 := Word.uint64? d.membersSize

/-- The definition with its size added up anew. A sum that does not fit into 64 bits
    leaves the size as it is. -/
def resize (d : Definition) : Definition :=
  { d with size := d.computedSize?.getD d.size }

/-- The definition with one more member, if the size still fits into 64 bits. -/
def append? (d : Definition) (member : Brick) : Option Definition := do
  let _ ← Word.uint64? (d.size.toNat + member.size.toNat)
  pure (resize { d with members := d.members ++ [member] })

/-- The size of the definition is what its members add up to. -/
def Summed (d : Definition) : Prop := d.size.toNat = d.membersSize

theorem foldr_add (members : List Brick) (n : Nat) :
    members.foldr (·.size.toNat + ·) n = members.foldr (·.size.toNat + ·) 0 + n := by
  induction members with
  | nil => simp
  | cons m members ih =>
    rw [List.foldr_cons, ih, List.foldr_cons]
    omega

theorem append?_eq_some_iff {d d' : Definition} {member : Brick} :
    d.append? member = some d' ↔
      d.size.toNat + member.size.toNat ≤ Word.uint64Max ∧
        d' = resize { d with members := d.members ++ [member] } := by
  unfold append? Word.uint64?
  split
  · next h => simp [h, eq_comm]
  · next h => simp [h]

/-- The size of a definition grows by exactly that of a new member. -/
theorem Summed.append? {d d' : Definition} {member : Brick} (hd : d.Summed)
    (h : d.append? member = some d') :
    d'.Summed ∧ d'.size.toNat = d.size.toNat + member.size.toNat ∧ d'.name = d.name ∧
      d'.color = d.color ∧ d'.members = d.members ++ [member] := by
  obtain ⟨hfits, rfl⟩ := append?_eq_some_iff.1 h
  have hsum : membersSize { d with members := d.members ++ [member] } =
      d.size.toNat + member.size.toNat := by
    rw [hd]
    unfold membersSize
    rw [List.foldr_append, foldr_add]
    rfl
  have hsize : (resize { d with members := d.members ++ [member] }).size.toNat =
      d.size.toNat + member.size.toNat := by
    unfold resize computedSize?
    rw [hsum, Word.uint64?, if_pos hfits]
    exact UInt64.toNat_ofNat_of_lt' (Nat.lt_succ_of_le hfits)
  exact ⟨hsize.trans hsum.symm, hsize, rfl, rfl, rfl⟩

theorem summed_empty (name : String) (color : Color) : (empty name color).Summed := rfl

end Definition

end ByteBricks
