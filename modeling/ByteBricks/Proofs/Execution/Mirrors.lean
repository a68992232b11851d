import ByteBricks.Proofs.Execution.Footprint

/-! # Layouts and Definitions

  An execution reads members through its own layouts and shows them through the
  definitions of the wall. A layout has the full names and the members without bytes,
  and the definition may be older than the execution. Still, the definition mirrors the
  layout: each member that covers bytes is a brick of it, at the same place, with the
  same type. -/

namespace ByteBricks.Execution

open Template (Declaration ElementType)
open Wall (bytesOf)

/-! ### Sizes -/

/-- What is related to a list as a whole has a related element for each of the list's. -/
theorem exists_of_forall₂ {α β : Type} {R : α → β → Prop} {as : List α} {bs : List β}
    (h : List.Forall₂ R as bs) {a : α} (ha : a ∈ as) : ∃ b ∈ bs, R a b := by
  induction h with
  | nil => simp at ha
  | @cons a' b' as bs hhead htail ih =>
    rcases List.mem_cons.1 ha with rfl | ha
    · exact ⟨b', List.mem_cons_self, hhead⟩
    · obtain ⟨b, hb, hab⟩ := ih ha
      exact ⟨b, List.mem_cons_of_mem _ hb, hab⟩

/-- The sum of some sizes. -/
def sumOf (sizes : List Nat) : Nat := sizes.foldr (· + ·) 0

@[simp] theorem sumOf_cons (n : Nat) (sizes : List Nat) : sumOf (n :: sizes) = n + sumOf sizes :=
  rfl

/-- The number of bytes of a field: that of one element for each of its elements. -/
def Field.bytes? (layouts : List Layout) (f : Field) : Option Nat :=
  (f.element.size? layouts).map (· * f.count)

theorem Field.bytes?_eq_some {layouts : List Layout} {f : Field} {n : Nat}
    (h : f.element.size? layouts = some n) : f.bytes? layouts = some (n * f.count) := by
  rw [bytes?, h]
  rfl

theorem Field.bytes?_append {layouts : List Layout} {f : Field} {n : Nat}
    (h : f.bytes? layouts = some n) (more : List Layout) :
    f.bytes? (layouts ++ more) = some n := by
  obtain ⟨k, hk, rfl⟩ := Option.map_eq_some_iff.1 h
  exact bytes?_eq_some (Element.size?_append hk more)

/-! ### Mirrors -/

/-- The brick shows a member: under its cut name, with its type, at its place. -/
structure Depicts (layouts : List Layout) (f : Field) (b : Brick) : Prop where
  /-- The name is that of the member, cut. -/
  name : b.name = Label.ofString f.name
  /-- The type is that of the member's elements. -/
  type : f.element.code? layouts = some b.type
  /-- The brick starts where the member does. -/
  start : b.start = f.start
  /-- It covers all bytes of the member. -/
  size : f.bytes? layouts = some b.size.toNat

/-- Members lie one behind the other from an offset on, and bricks show those of them that
    cover bytes. -/
structure Aligned (layouts : List Layout) (offset : Nat) (members : List Field)
    (sizes : List Nat) (bricks : List Brick) : Prop where
  /-- These are the sizes of the members. -/
  measured : List.Forall₂ (fun f n => f.bytes? layouts = some n) members sizes
  /-- Each member starts behind all bytes of those in front of it. -/
  starts : ∀ (j : Nat) (f : Field), members[j]? = some f →
    f.start.toInt = ((offset + sumOf (sizes.take j) : Nat) : Int)
  /-- The bricks are those of the members that cover bytes, in the same order. -/
  shown : List.Forall₂ (Depicts layouts) (members.filter (·.bytes? layouts != some 0)) bricks

/-- A definition mirrors a layout whose members have the given sizes. -/
structure Mirrors (layouts : List Layout) (l : Layout) (sizes : List Nat) (d : Definition) :
    Prop where
  /-- It has the cut name of the struct. -/
  name : d.name = Label.ofString l.name
  /-- Its members are those of the layout that cover bytes. -/
  members : Aligned layouts 0 l.members sizes d.members
  /-- An instance has the bytes of all members. -/
  total : l.size = sumOf sizes
  /-- The definition is as large. -/
  size : d.size.toNat = sumOf sizes

theorem Depicts.append {layouts : List Layout} {f : Field} {b : Brick} (h : Depicts layouts f b)
    (more : List Layout) : Depicts (layouts ++ more) f b where
  name := h.name
  type := Element.code?_append h.type more
  start := h.start
  size := Field.bytes?_append h.size more

theorem aligned_nil (layouts : List Layout) (offset : Nat) : Aligned layouts offset [] [] [] where
  measured := .nil
  starts := fun _ _ hf => nomatch hf
  shown := .nil

/-- A further member in front takes its own bytes, and has a brick exactly if there are any. -/
theorem Aligned.cons {layouts : List Layout} {offset n : Nat} {f : Field} {members : List Field}
    {sizes : List Nat} {front bricks : List Brick}
    (h : Aligned layouts (offset + n) members sizes bricks) (hn : f.bytes? layouts = some n)
    (hstart : f.start.toInt = offset)
    (hfront : (n = 0 ∧ front = []) ∨ (n ≠ 0 ∧ ∃ b, Depicts layouts f b ∧ front = [b])) :
    Aligned layouts offset (f :: members) (n :: sizes) (front ++ bricks) where
  measured := .cons hn h.measured
  starts := by
    intro j g hg
    cases j with
    | zero =>
      cases hg
      exact hstart
    | succ j =>
      rw [h.starts j g hg, List.take_succ_cons, sumOf_cons, Nat.add_assoc]
  shown := by
    rcases hfront with ⟨rfl, rfl⟩ | ⟨hpos, b, hb, rfl⟩
    · rw [List.filter_cons_of_neg (by simp [hn])]
      exact h.shown
    · rw [List.filter_cons_of_pos (by simpa [hn] using hpos)]
      exact .cons hb h.shown

/-- Whether a member covers bytes does not depend on layouts that are added later. -/
theorem Aligned.append {layouts : List Layout} {offset : Nat} {members : List Field}
    {sizes : List Nat} {bricks : List Brick} (h : Aligned layouts offset members sizes bricks)
    (more : List Layout) : Aligned (layouts ++ more) offset members sizes bricks where
  measured := h.measured.imp fun _ _ hn => Field.bytes?_append hn more
  starts := h.starts
  shown := by
    have hfilter : members.filter (·.bytes? (layouts ++ more) != some 0) =
        members.filter (·.bytes? layouts != some 0) := by
      apply List.filter_congr
      intro f hf
      obtain ⟨n, -, hn⟩ := exists_of_forall₂ h.measured hf
      rw [hn, Field.bytes?_append hn more]
    rw [hfilter]
    exact h.shown.imp fun _ _ hb => hb.append more

theorem Mirrors.append {layouts : List Layout} {l : Layout} {sizes : List Nat} {d : Definition}
    (h : Mirrors layouts l sizes d) (more : List Layout) :
    Mirrors (layouts ++ more) l sizes d where
  name := h.name
  members := h.members.append more
  total := h.total
  size := h.size

/-- A member that covers bytes has its brick. -/
theorem Mirrors.exists_brick {layouts : List Layout} {l : Layout} {sizes : List Nat}
    {d : Definition} (h : Mirrors layouts l sizes d) {f : Field} (hf : f ∈ l.members)
    (hpos : f.bytes? layouts ≠ some 0) : ∃ b ∈ d.members, Depicts layouts f b :=
  exists_of_forall₂ h.members.shown (List.mem_filter.2 ⟨hf, by simpa using hpos⟩)

/-! ### Declarations -/

variable {data : Data} {s s' t : State}

/-- A member of a layout is what a declaration asks for in a store. -/
structure DeclaredAs (data : Data) (store : Store) (d : Declaration) (f : Field) : Prop where
  /-- It has the full name. -/
  name : f.name = d.name.text
  /-- Its elements have the declared type. -/
  element : Denotes store.layouts (.ofName d.typeName.text) f.element
  /-- There are as many elements as the count says. -/
  count : evalCount data store d.mark.line d.count = .ok f.count

/-- The layout and the definition that the declaration of a struct leads to. -/
structure Declares (data : Data) (s s' : State) (struct : String) (ds : List Declaration)
    (l : Layout) (sizes : List Nat) (d : Definition) : Prop where
  /-- The layout is that of the struct. -/
  layouts : s'.store.layouts = s.store.layouts ++ [l]
  /-- It has the full name. -/
  name : l.name = struct
  /-- Its members are those that were declared, in the same order. -/
  members : List.Forall₂ (DeclaredAs data s.store) ds l.members
  /-- The wall has the definition, be it a new one or not. -/
  definition : s'.wall.definitions[l.definition]? = some d
  /-- The definition mirrors the layout. The members know the layouts of earlier structs only. -/
  mirrors : Mirrors s.store.layouts l sizes d

/-- The members that are laid out from an offset on are aligned with their bricks. -/
theorem aligned_of_layOut {store : Store} {w : Wall} {struct : String} {offset : Nat}
    {ds : List Declaration} {body : Body} (h : layOut data store w struct offset ds = .ok body) :
    List.Forall₂ (DeclaredAs data store) ds body.fields ∧
      ∃ sizes, Aligned store.layouts offset body.fields sizes body.bricks ∧
        body.size = offset + sumOf sizes := by
  -- Each member moves the offset past its own bytes, so the induction is for every offset.
  induction ds generalizing offset body with
  | nil =>
    rw [layOut_nil_eq_ok_iff.1 h]
    exact ⟨.nil, [], aligned_nil _ _, rfl⟩
  | cons d ds ih =>
    obtain ⟨e, start, front, tail, he, hstart, hfront, -, htail, rfl⟩ :=
      layOut_cons_eq_ok_iff.1 h
    obtain ⟨hdeclared, sizes, haligned, hsize⟩ := ih htail
    obtain ⟨n, helement, hcount, hn, hbytes, hfits⟩ := extent_eq_ok_iff.1 he
    have hmember : (e.field d start).bytes? store.layouts = some e.size := by
      rw [hbytes]
      exact Field.bytes?_eq_some (elementSize_eq_ok_iff.1 hn)
    refine ⟨.cons ⟨rfl, denotes_of_element helement, hcount⟩ hdeclared, e.size :: sizes, ?_, ?_⟩
    · apply haligned.cons hmember (Word.toInt_of_int64? hstart)
      rcases memberBricks_eq_ok_iff.1 hfront with ⟨hzero, rfl⟩ | ⟨hpos, b, hb, rfl⟩
      · exact .inl ⟨hzero, rfl⟩
      · obtain ⟨hname, htype, hplace, hcovered⟩ := memberBrick_eq_ok hb
        refine .inr ⟨hpos, b, ⟨hname, htype, hplace, ?_⟩, rfl⟩
        rw [hmember, hcovered, UInt64.toNat_ofNat_of_lt' (Nat.lt_succ_of_le hfits)]
    · show tail.size = offset + sumOf (e.size :: sizes)
      rw [hsize, sumOf_cons, Nat.add_assoc]

/-- The declaration of a struct leads to a layout and a definition that mirrors it, which is a
    new one or one that the wall has had. -/
theorem declares_of_declareStruct (hw : s.wall.Coherent) {line : Nat} {struct : String}
    {ds : List Declaration} (h : declareStruct data s line struct ds = .ok s') :
    ∃ l sizes d, Declares data s s' struct ds l sizes d := by
  obtain ⟨body, index, wall, hbody, hfound, rfl⟩ := declareStruct_eq_ok_iff.1 h
  obtain ⟨-, -, d, hd, hname, hmembers, hsum⟩ := definitions_of_obtain hw hfound
  obtain ⟨hdeclared, sizes, haligned, hsize⟩ := aligned_of_layOut hbody
  obtain ⟨hbytes, -⟩ := size_of_layOut hbody
  rw [Nat.zero_add] at hsize hbytes
  -- The definition is as large as its bricks together, and so is the struct.
  have htotal : d.size.toNat = bytesOf body.bricks := by
    rw [hsum, Definition.membersSize, hmembers]
    rfl
  refine ⟨⟨struct, index, body.size, body.fields⟩, sizes, d, rfl, rfl, hdeclared, hd, ?_⟩
  refine ⟨hname, ?_, hsize, ?_⟩
  · rw [hmembers]
    exact haligned
  · rw [htotal, ← hbytes, hsize]

/-! ### Runs -/

/-- Every layout of the store is mirrored by the definition that it refers to. -/
def State.Mirrored (s : State) : Prop :=
  ∀ l ∈ s.store.layouts, ∃ sizes d, s.wall.definitions[l.definition]? = some d ∧
    Mirrors s.store.layouts l sizes d

theorem mirrored_start (w : Wall) (cursor : Int64) : (State.start w cursor).Mirrored :=
  fun _ hl => nomatch hl

/-- Only the declaration of a struct adds a layout. -/
theorem layouts_of_step {c : Command} (h : step data s c = .ok s') :
    s'.store.layouts = s.store.layouts ∨
      ∃ line struct ds, c = .declare line struct ds := by
  cases c with
  | declare line struct ds => exact .inr ⟨line, struct, ds, rfl⟩
  | place d =>
    left
    obtain ⟨e, -, ⟨-, rfl⟩ | ⟨-, stop, answer, -, -, -, rfl⟩⟩ := placeField_eq_ok_iff.1 h
    · rfl
    · dsimp only
      rw [note_store]
      rfl
  | evaluate e =>
    left
    obtain ⟨value, -, rfl⟩ := noteValue_eq_ok_iff.1 h
    rfl

/-- A step keeps the layouts mirrored: definitions are only added behind the others. -/
theorem State.Mirrored.step {c : Command} (hm : s.Mirrored) (hs : s.Defined)
    (hw : s.wall.Coherent) (h : step data s c = .ok s') : s'.Mirrored := by
  obtain ⟨hgrow, -⟩ := hs.step hw h
  intro l hl
  rcases layouts_of_step h with hsame | ⟨line, struct, ds, rfl⟩
  · rw [hsame] at hl ⊢
    obtain ⟨sizes, d, hd, hmirrors⟩ := hm l hl
    exact ⟨sizes, d, getElem?_of_prefix hgrow hd, hmirrors⟩
  · obtain ⟨l', sizes', d', hdeclares⟩ := declares_of_declareStruct hw h
    rw [hdeclares.layouts] at hl ⊢
    rcases List.mem_append.1 hl with hl | hl
    · obtain ⟨sizes, d, hd, hmirrors⟩ := hm l hl
      exact ⟨sizes, d, getElem?_of_prefix hgrow hd, hmirrors.append _⟩
    · rw [List.mem_singleton.1 hl]
      exact ⟨sizes', d', hdeclares.definition, hdeclares.mirrors.append _⟩

theorem mirrored_of_run (hm : s.Mirrored) (hs : s.Defined) (hw : s.wall.Coherent)
    {commands : List Command} {halt : Option Halt} (h : run data s commands = (t, halt)) :
    t.Mirrored := by
  have hkept : (run data s commands).1.Mirrored ∧ (run data s commands).1.Defined ∧
      (run data s commands).1.wall.Coherent := by
    refine run_induction (P := fun s => s.Mirrored ∧ s.Defined ∧ s.wall.Coherent) ?_ ⟨hm, hs, hw⟩
    intro u u' c _ hu hstep
    obtain ⟨hm, hs, hw⟩ := hu
    exact ⟨hm.step hs hw hstep, (hs.step hw hstep).2, hw.step hstep⟩
  rw [h] at hkept
  exact hkept.1

end ByteBricks.Execution
