import ByteBricks.Proofs.Execution.Steps

/-! # Definitions of an Execution

  The definitions that an execution adds to a wall: what such a definition holds,
  when the wall takes its members, and that the wall keeps its invariant. -/

namespace ByteBricks

namespace Wall

/-- The number of bytes of all bricks together. -/
def bytesOf (bricks : List Brick) : Nat := bricks.foldr (·.size.toNat + ·) 0

/-- A brick that any later definition of the wall takes as a member. -/
def Fits (w : Wall) (m : Brick) : Prop :=
  ∃ info, w.typeInfo? m.type = some info ∧ mayContain w.definitions.length m.type = true ∧
    info.size ≠ 0 ∧ m.size.toNat % info.size = 0

@[simp] theorem redefine_redefine (w : Wall) (a b : List Definition) :
    (w.redefine a).redefine b = w.redefine b := rfl

@[simp] theorem redefine_definitions (w : Wall) (a : List Definition) :
    (w.redefine a).definitions = a := rfl

/-- What is known about the types that were there does not change when definitions are
    added behind them. -/
theorem Coherent.typeInfo?_redefine_append {w : Wall} (hw : w.Coherent) {c : TypeCode}
    (hc : mayContain w.definitions.length c = true) (ds : List Definition) :
    (w.redefine (w.definitions ++ ds)).typeInfo? c = w.typeInfo? c := by
  rw [hw.typeInfo?_eq]
  unfold typeInfo? redefine
  rcases mayContain_iff.1 hc with ⟨t, rfl⟩ | ⟨hprim, j, hj, hindex⟩
  · -- The primitive types are listed in front of all definitions.
    rw [TypeCode.primitive?_ofPrimitive]
    exact typeTable_getElem?_primitive _ t
  · -- The definitions that were there keep their indices.
    simp only [hprim, hindex]
    show (typeTable (w.definitions ++ ds))[Primitive.all.length + j]? = _
    rw [typeTable_getElem?_struct, List.getElem?_append_left hj]
    rfl

/-- Appending to the last definition changes that definition alone. -/
theorem appendMember?_last_eq_some_iff {w w' : Wall} {ds : List Definition} {d : Definition}
    {m : Brick} :
    (w.redefine (ds ++ [d])).appendMember? ds.length m = some w' ↔
      ∃ info d', (w.redefine (ds ++ [d])).typeInfo? m.type = some info ∧
        mayContain ds.length m.type = true ∧ info.size ≠ 0 ∧ m.size.toNat % info.size = 0 ∧
        d.append? m = some d' ∧ w' = w.redefine (ds ++ [d']) := by
  rw [appendMember?_eq_some_iff]
  have hlast : (w.redefine (ds ++ [d])).definitions[ds.length]? = some d := by simp
  have hset (d' : Definition) : (w.redefine (ds ++ [d])).redefine
      ((w.redefine (ds ++ [d])).definitions.set ds.length d') = w.redefine (ds ++ [d']) := by
    simp
  simp only [hlast, Option.some.injEq, exists_and_left, exists_eq_left', hset]

/-- The same wall with other bricks. -/
def mapBricks (f : List Brick → List Brick) (w : Wall) : Wall := { w with bricks := f w.bricks }

/-- Definitions are made without regard to bricks. -/
theorem appendMember?_mapBricks (f : List Brick → List Brick) (w : Wall) (index : Nat)
    (member : Brick) :
    (w.mapBricks f).appendMember? index member =
      (w.appendMember? index member).map (mapBricks f) := by
  have htype : (w.mapBricks f).typeInfo? member.type = w.typeInfo? member.type := rfl
  unfold appendMember?
  show (w.definitions[index]? >>= _) = Option.map _ (w.definitions[index]? >>= _)
  cases w.definitions[index]? with
  | none => rfl
  | some d =>
    rw [htype]
    cases w.typeInfo? member.type with
    | none => rfl
    | some info =>
      simp only [Option.bind_eq_bind, Option.bind_some]
      split
      · cases d.append? member <;> rfl
      · rfl

end Wall

namespace Execution

open Wall (Fits bytesOf)

/-- What every step of a fold keeps holds of its result. -/
theorem foldlM_induction {α β : Type} {P : β → Prop} {f : β → α → Option β}
    (hstep : ∀ b a b', P b → f b a = some b' → P b') {as : List α} {b b' : β} (hb : P b)
    (h : as.foldlM f b = some b') : P b' := by
  induction as generalizing b with
  | nil =>
    cases h
    exact hb
  | cons a as ih =>
    rw [List.foldlM_cons] at h
    obtain ⟨c, hc, h⟩ := Option.bind_eq_some_iff.1 h
    exact ih (hstep b a c hb hc) h

theorem foldlM_appendMember?_eq_some {w w' : Wall} {ds : List Definition} {d : Definition}
    {members : List Brick} (hd : d.Summed)
    (h : members.foldlM (fun w m => w.appendMember? ds.length m) (w.redefine (ds ++ [d])) =
      some w') :
    ∃ d', w' = w.redefine (ds ++ [d']) ∧ d'.name = d.name ∧ d'.color = d.color ∧
      d'.members = d.members ++ members ∧ d'.Summed := by
  -- Each member replaces the last definition by a longer one, which the induction goes on with.
  induction members generalizing d with
  | nil =>
    cases h
    exact ⟨d, rfl, rfl, rfl, (List.append_nil _).symm, hd⟩
  | cons m members ih =>
    rw [List.foldlM_cons] at h
    obtain ⟨v, hv, h⟩ := Option.bind_eq_some_iff.1 h
    obtain ⟨info, e, -, -, -, -, happ, rfl⟩ := Wall.appendMember?_last_eq_some_iff.1 hv
    obtain ⟨hsum, -, hname, hcolor, hmembers⟩ := hd.append? happ
    obtain ⟨d', rfl, hname', hcolor', hmembers', hd'⟩ := ih hsum h
    refine ⟨d', rfl, hname'.trans hname, hcolor'.trans hcolor, ?_, hd'⟩
    rw [hmembers', hmembers, List.append_assoc]
    rfl

/-- An added definition has the cut name, the next colour of the palette, the given
    members and the sum of their sizes. -/
theorem addDefinition_eq_some {w w' : Wall} {struct : String} {members : List Brick}
    (h : addDefinition w struct members = some w') :
    ∃ d, w' = w.redefine (w.definitions ++ [d]) ∧ d.name = Label.ofString struct ∧
      d.color = Color.ofPalette w.definitions.length ∧ d.members = members ∧ d.Summed :=
  foldlM_appendMember?_eq_some (Definition.summed_empty _ _) h

theorem foldlM_appendMember?_isSome {w : Wall} (hw : w.Coherent) {d : Definition}
    {members : List Brick} (hd : d.Summed) (hfits : ∀ m ∈ members, w.Fits m)
    (hsize : d.size.toNat + bytesOf members ≤ Word.uint64Max) :
    ∃ w', members.foldlM (fun w' m => w'.appendMember? w.definitions.length m)
      (w.redefine (w.definitions ++ [d])) = some w' := by
  -- What the definition covers so far and what is still to come add up to the same number.
  induction members generalizing d with
  | nil => exact ⟨_, rfl⟩
  | cons m members ih =>
    have hbytes : bytesOf (m :: members) = m.size.toNat + bytesOf members := rfl
    obtain ⟨info, hinfo, hmay, hne, hmod⟩ := hfits m List.mem_cons_self
    have happ : d.append? m = some (Definition.resize { d with members := d.members ++ [m] }) :=
      Definition.append?_eq_some_iff.2 ⟨by omega, rfl⟩
    obtain ⟨hsum, hgrown, -⟩ := hd.append? happ
    obtain ⟨w', hw'⟩ := ih hsum (fun e he => hfits e (List.mem_cons_of_mem _ he)) (by omega)
    refine ⟨w', ?_⟩
    rw [List.foldlM_cons]
    refine Option.bind_eq_some_iff.2 ⟨_, Wall.appendMember?_last_eq_some_iff.2 ?_, hw'⟩
    exact ⟨info, _, (hw.typeInfo?_redefine_append hmay _).trans hinfo, hmay, hne, hmod, happ, rfl⟩

/-- A definition can be added if each member fits and their sizes add up to 64 bits. -/
theorem addDefinition_isSome {w : Wall} (hw : w.Coherent) (struct : String)
    {members : List Brick} (hfits : ∀ m ∈ members, w.Fits m)
    (hsize : bytesOf members ≤ Word.uint64Max) :
    ∃ w', addDefinition w struct members = some w' := by
  have hzero (color : Color) : (Definition.empty struct color).size.toNat = 0 := rfl
  apply foldlM_appendMember?_isSome hw (Definition.summed_empty _ _) hfits
  rw [hzero, Nat.zero_add]
  exact hsize

theorem addDefinition_mapBricks (f : List Brick → List Brick) (w : Wall) (struct : String)
    (members : List Brick) :
    addDefinition (w.mapBricks f) struct members =
      (addDefinition w struct members).map (Wall.mapBricks f) := by
  -- The members are added one by one to the definition behind those that are there.
  have hfold (index : Nat) (v : Wall) :
      members.foldlM (fun (w : Wall) member => w.appendMember? index member) (v.mapBricks f) =
        (members.foldlM (fun (w : Wall) member => w.appendMember? index member) v).map
          (Wall.mapBricks f) := by
    induction members generalizing v with
    | nil => rfl
    | cons member members ih =>
      rw [List.foldlM_cons, List.foldlM_cons, Wall.appendMember?_mapBricks]
      cases v.appendMember? index member with
      | none => rfl
      | some u => exact ih u
  exact hfold w.definitions.length (w.define struct (Color.ofPalette w.definitions.length))

/-- Which definition is found or added does not depend on bricks. -/
theorem obtainDefinition_mapBricks (f : List Brick → List Brick) (w : Wall) (line : Nat)
    (struct : String) (members : List Brick) :
    obtainDefinition (w.mapBricks f) line struct members =
      (obtainDefinition w line struct members).map fun p => (p.1, p.2.mapBricks f) := by
  have hreusable : reusable? (w.mapBricks f) struct members = reusable? w struct members := rfl
  unfold obtainDefinition
  rw [hreusable, addDefinition_mapBricks]
  cases reusable? w struct members with
  | some i => rfl
  | none => cases addDefinition w struct members <;> rfl

/-- The wall takes the brick of a field by inserting it. -/
theorem insert_of_insertField {store : Store} {w w' : Wall} {line : Nat}
    {name : String} {e : Extent} {start : Int64}
    (h : insertField store w line name e start = .ok (.ok w')) :
    ∃ b, w.insert b = .ok w' := by
  unfold insertField at h
  split at h
  · exact ⟨_, Except.ok.inj h⟩
  · split at h
    · obtain ⟨layout, -, h⟩ := bind_eq_ok.1 h
      exact Wall.insert_of_insertStruct (pure_eq_ok.1 h)
    · simp at h

end Execution

/-! ### Walls of an Execution -/

namespace Wall.Coherent

open Execution

theorem addDefinition {w w' : Wall} (hw : w.Coherent) {struct : String} {members : List Brick}
    (h : addDefinition w struct members = some w') : w'.Coherent :=
  foldlM_induction (P := Coherent) (fun _ _ _ hv hv' => hv.appendMember? hv') (hw.define _ _) h

theorem obtainDefinition {w w' : Wall} (hw : w.Coherent) {line : Nat} {struct : String}
    {members : List Brick} {index : Nat}
    (h : obtainDefinition w line struct members = .ok (index, w')) : w'.Coherent := by
  rcases obtainDefinition_eq_ok_iff.1 h with ⟨-, rfl⟩ | ⟨-, -, hadd⟩
  · exact hw
  · exact hw.addDefinition hadd

/-- The wall that takes the brick of a field stays coherent. -/
theorem insertField {store : Store} {w w' : Wall} (hw : w.Coherent) {line : Nat}
    {name : String} {e : Extent} {start : Int64}
    (h : insertField store w line name e start = .ok (.ok w')) : w'.Coherent := by
  obtain ⟨b, hb⟩ := insert_of_insertField h
  exact hw.insert hb

/-- A step of an execution keeps the invariant of its wall. -/
theorem step {data : Data} {s s' : State} {c : Command} (hw : s.wall.Coherent)
    (h : step data s c = .ok s') : s'.wall.Coherent := by
  cases c with
  | declare line struct members =>
    obtain ⟨body, index, wall, -, hfound, rfl⟩ := declareStruct_eq_ok_iff.1 h
    exact hw.obtainDefinition hfound
  | place d =>
    obtain ⟨e, -, ⟨-, rfl⟩ | ⟨-, stop, answer, -, -, hanswer, rfl⟩⟩ := placeField_eq_ok_iff.1 h
    · exact hw
    · -- A wall that refuses the brick of the field stays as it was.
      cases answer with
      | ok w' => exact hw.insertField hanswer
      | error rejection => exact hw
  | evaluate e =>
    obtain ⟨value, -, rfl⟩ := noteValue_eq_ok_iff.1 h
    exact hw

/-- An execution keeps the invariant of the wall, whether it gets to its end or not. -/
theorem execute {w : Wall} (hw : w.Coherent) (t : Template) (view : View) (options : Options) :
    (t.execute w view options).wall.Coherent := by
  have hrun : (t.runOn w view options).1.wall.Coherent :=
    run_induction (P := fun s => s.wall.Coherent) (fun _ _ _ _ hs h => hs.step h) hw
  unfold Template.execute
  split
  · next s heq =>
    rw [heq] at hrun
    exact hrun
  · -- An execution that stops early works on a copy of the wall.
    exact hw

end Wall.Coherent

end ByteBricks
