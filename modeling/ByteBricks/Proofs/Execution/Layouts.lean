import ByteBricks.Proofs.Execution.Definitions

/-! # Layouts of an Execution

  Where the members of a struct lie, and how the layouts of an execution go together
  with the definitions of its wall. No definition of a wall is ever lost: a step adds
  at most one, behind all others. -/

namespace ByteBricks.Execution

open Template (Declaration)
open Wall (bytesOf)

/-! ### Elements -/

/-- The number of bytes of one element. -/
def Element.size? (layouts : List Layout) : Element → Option Nat
  | .primitive t => some t.size
  | .struct i => layouts[i]?.map (·.size)

/-- The code of the type of the elements in the wall. -/
def Element.code? (layouts : List Layout) : Element → Option TypeCode
  | .primitive t => some (.ofPrimitive t)
  | .struct i => layouts[i]?.map (.ofStruct ·.definition)

theorem elementSize_eq_ok_iff {store : Store} {e : Element} {n : Nat} :
    store.elementSize e = .ok n ↔ e.size? store.layouts = some n := by
  cases e with
  | primitive t => simp [Store.elementSize, Element.size?]
  | struct i =>
    simp only [Store.elementSize, Element.size?, bind_eq_ok, layout_eq_ok_iff, pure_eq_ok,
      Option.map_eq_some_iff]

theorem getElem?_of_prefix {α : Type} {as bs : List α} (h : as <+: bs) {i : Nat} {a : α}
    (ha : as[i]? = some a) : bs[i]? = some a := by
  obtain ⟨more, rfl⟩ := h
  rw [List.getElem?_append_left (List.getElem?_eq_some_iff.1 ha).1]
  exact ha

/-- Layouts that are added later do not change an element. -/
theorem Element.size?_append {layouts : List Layout} {e : Element} {n : Nat}
    (h : e.size? layouts = some n) (more : List Layout) : e.size? (layouts ++ more) = some n := by
  cases e with
  | primitive t => exact h
  | struct i =>
    obtain ⟨l, hl, rfl⟩ := Option.map_eq_some_iff.1 h
    rw [Element.size?, getElem?_of_prefix (List.prefix_append layouts more) hl]
    rfl

theorem Element.code?_append {layouts : List Layout} {e : Element} {c : TypeCode}
    (h : e.code? layouts = some c) (more : List Layout) : e.code? (layouts ++ more) = some c := by
  cases e with
  | primitive t => exact h
  | struct i =>
    obtain ⟨l, hl, rfl⟩ := Option.map_eq_some_iff.1 h
    rw [Element.code?, getElem?_of_prefix (List.prefix_append layouts more) hl]
    rfl

/-! ### Members -/

theorem bytesOf_append (a b : List Brick) : bytesOf (a ++ b) = bytesOf a + bytesOf b := by
  unfold bytesOf
  rw [List.foldr_append, Definition.foldr_add]

/-- The brick of a member has the member's name, type, offset and size. -/
theorem memberBrick_eq_ok {store : Store} {w : Wall} {name : String} {e : Extent}
    {start : Int64} {b : Brick} (h : memberBrick store w name e start = .ok b) :
    b.name = Label.ofString name ∧ e.element.code? store.layouts = some b.type ∧
      b.start = start ∧ b.size = UInt64.ofNat e.size := by
  unfold memberBrick at h
  split at h
  · next t helement =>
    cases h
    refine ⟨rfl, ?_, rfl, rfl⟩
    rw [helement]
    rfl
  · next i helement =>
    simp only [bind_eq_ok, layout_eq_ok_iff, pure_eq_ok] at h
    obtain ⟨l, hl, rfl⟩ := h
    refine ⟨rfl, ?_, rfl, rfl⟩
    rw [helement, Element.code?, hl]
    rfl

theorem memberBricks_eq_ok_iff {store : Store} {w : Wall} {name : String} {e : Extent}
    {start : Int64} {bricks : List Brick} :
    memberBricks store w name e start = .ok bricks ↔
      (e.size = 0 ∧ bricks = []) ∨
        (e.size ≠ 0 ∧ ∃ b, memberBrick store w name e start = .ok b ∧ bricks = [b]) := by
  unfold memberBricks
  split
  · next h => simp [h, eq_comm]
  · next h =>
    simp only [bind_eq_ok, pure_eq_ok, h, false_and, false_or, not_false_eq_true, ne_eq, true_and,
      eq_comm (a := bricks)]

theorem bytesOf_memberBricks {store : Store} {w : Wall} {name : String} {e : Extent}
    {start : Int64} {bricks : List Brick} (hsize : e.size ≤ Word.uint64Max)
    (h : memberBricks store w name e start = .ok bricks) : bytesOf bricks = e.size := by
  rcases memberBricks_eq_ok_iff.1 h with ⟨hzero, rfl⟩ | ⟨-, b, hb, rfl⟩
  · exact hzero.symm
  · obtain ⟨-, -, -, hbrick⟩ := memberBrick_eq_ok hb
    show b.size.toNat + 0 = e.size
    rw [hbrick, UInt64.toNat_ofNat_of_lt' (Nat.lt_succ_of_le hsize), Nat.add_zero]

/-- The bricks of a struct's members cover all of its bytes. -/
theorem size_of_layOut {data : Data} {store : Store} {w : Wall} {struct : String} {offset : Nat}
    {ds : List Declaration} {body : Body} (h : layOut data store w struct offset ds = .ok body) :
    body.size = offset + bytesOf body.bricks ∧ (offset ≤ Word.uint64Max →
      body.size ≤ Word.uint64Max) := by
  -- Each member moves the offset past its own bytes, so the induction is for every offset.
  induction ds generalizing offset body with
  | nil =>
    rw [layOut_nil_eq_ok_iff.1 h]
    exact ⟨rfl, id⟩
  | cons d ds ih =>
    obtain ⟨e, start, bricks, tail, he, -, hbricks, hfits, htail, rfl⟩ := layOut_cons_eq_ok_iff.1 h
    obtain ⟨hsize, hle⟩ := ih htail
    have hbytes : bytesOf bricks = e.size :=
      bytesOf_memberBricks (Nat.le_trans (Nat.le_add_left _ _) hfits) hbricks
    refine ⟨?_, fun _ => hle hfits⟩
    show tail.size = offset + bytesOf (bricks ++ tail.bricks)
    rw [bytesOf_append, hbytes, hsize, Nat.add_assoc]

/-- The elements of a member lie within the first bytes of its struct. -/
def Field.Within (f : Field) (layouts : List Layout) (size : Nat) : Prop :=
  ∃ n, f.element.size? layouts = some n ∧ 0 ≤ f.start.toInt ∧
    f.start.toInt + (n * f.count : Nat) ≤ size

theorem Field.Within.append {f : Field} {layouts : List Layout} {size : Nat}
    (h : f.Within layouts size) (more : List Layout) : f.Within (layouts ++ more) size := by
  obtain ⟨n, hn, hbounds⟩ := h
  exact ⟨n, Element.size?_append hn more, hbounds⟩

theorem within_of_layOut {data : Data} {store : Store} {w : Wall} {struct : String}
    {offset : Nat} {ds : List Declaration} {body : Body}
    (h : layOut data store w struct offset ds = .ok body) :
    ∀ f ∈ body.fields, f.Within store.layouts body.size := by
  induction ds generalizing offset body with
  | nil =>
    rw [layOut_nil_eq_ok_iff.1 h]
    simp
  | cons d ds ih =>
    intro f hf
    obtain ⟨e, start, bricks, tail, he, hstart, -, -, htail, rfl⟩ := layOut_cons_eq_ok_iff.1 h
    obtain ⟨hsize, -⟩ := size_of_layOut htail
    rcases List.mem_cons.1 hf with rfl | hf
    · -- The struct ends behind the members that follow, and these start where this one ends.
      obtain ⟨n, -, -, hn, hbytes, -⟩ := extent_eq_ok_iff.1 he
      have hoffset : start.toInt = offset := Word.toInt_of_int64? hstart
      refine ⟨n, elementSize_eq_ok_iff.1 hn, ?_, ?_⟩
      · show 0 ≤ start.toInt
        omega
      · show start.toInt + (n * e.count : Nat) ≤ tail.size
        omega
    · exact ih htail f hf

/-! ### Layouts and Definitions -/

/-- The wall has the definition that the layout refers to: one of the same size, under
    the cut name. -/
def Layout.DefinedIn (l : Layout) (w : Wall) : Prop :=
  ∃ d, w.definitions[l.definition]? = some d ∧ d.name = Label.ofString l.name ∧
    d.size.toNat = l.size

theorem Layout.DefinedIn.mono {l : Layout} {w w' : Wall} (h : l.DefinedIn w)
    (hgrow : w.definitions <+: w'.definitions) : l.DefinedIn w' := by
  obtain ⟨d, hd, hl⟩ := h
  exact ⟨d, getElem?_of_prefix hgrow hd, hl⟩

/-- A definition is obtained by adding at most one. -/
theorem definitions_of_obtain {w w' : Wall} {line : Nat} {struct : String}
    {members : List Brick} {index : Nat} (hw : w.Coherent)
    (h : obtainDefinition w line struct members = .ok (index, w')) :
    w.definitions <+: w'.definitions ∧ w'.bricks = w.bricks ∧
      ∃ d, w'.definitions[index]? = some d ∧ d.name = Label.ofString struct ∧
        d.members = members ∧ d.Summed := by
  rcases obtainDefinition_eq_ok_iff.1 h with ⟨hreuse, rfl⟩ | ⟨-, rfl, hadd⟩
  · -- The definition was looked up by its name, and its members were compared.
    obtain ⟨hindex, d, hd, hmembers⟩ := reusable?_eq_some_iff.1 hreuse
    have hname : d.name = Label.ofString struct := by
      obtain ⟨d', hd', hname⟩ := getElem?_of_lastIdx? hindex
      rw [hd] at hd'
      cases hd'
      exact Label.ext (by simpa using hname)
    exact ⟨List.prefix_rfl, rfl, d, hd, hname, hmembers, hw.summed d (List.mem_of_getElem? hd)⟩
  · obtain ⟨d, rfl, hname, -, hmembers, hsum⟩ := addDefinition_eq_some hadd
    exact ⟨List.prefix_append _ _, rfl, d, by simp, hname, hmembers, hsum⟩

/-- What the layouts of a state have in common with its wall. -/
def State.Defined (s : State) : Prop :=
  ∀ l ∈ s.store.layouts, l.DefinedIn s.wall ∧ l.size ≤ Word.uint64Max ∧
    ∀ f ∈ l.members, f.Within s.store.layouts l.size

theorem State.Defined.definedIn {s : State} (h : s.Defined) :
    ∀ l ∈ s.store.layouts, l.DefinedIn s.wall := by
  intro l hl
  obtain ⟨hdefined, -⟩ := h l hl
  exact hdefined

theorem defined_start (w : Wall) (cursor : Int64) : (State.start w cursor).Defined := by
  intro l hl
  simp [State.start, Store.empty] at hl

/-- A layout is added together with its definition. -/
theorem State.Defined.declareStruct {data : Data} {s s' : State} {line : Nat} {struct : String}
    {members : List Declaration} (hs : s.Defined) (hw : s.wall.Coherent)
    (h : declareStruct data s line struct members = .ok s') :
    s.wall.definitions <+: s'.wall.definitions ∧ s'.Defined := by
  obtain ⟨body, index, wall, hbody, hfound, rfl⟩ := declareStruct_eq_ok_iff.1 h
  obtain ⟨hgrow, -, d, hd, hname, hmembers, hsum⟩ := definitions_of_obtain hw hfound
  refine ⟨hgrow, ?_⟩
  intro l hl
  rcases List.mem_append.1 hl with hl | hl
  · obtain ⟨hdefined, hsize, hwithin⟩ := hs l hl
    exact ⟨hdefined.mono hgrow, hsize, fun f hf => (hwithin f hf).append _⟩
  · -- Both sizes are the sum of the members' bytes.
    obtain ⟨hsize, hle⟩ := size_of_layOut hbody
    rw [List.mem_singleton.1 hl]
    refine ⟨⟨d, hd, hname, ?_⟩, hle (Nat.zero_le _), ?_⟩
    · show d.size.toNat = body.size
      rw [hsum, Definition.membersSize, hmembers, hsize, Nat.zero_add]
      rfl
    · exact fun f hf => (within_of_layOut hbody f hf).append _

/-- A wall that takes a brick keeps its definitions. -/
theorem definitions_of_insertField {store : Store} {w w' : Wall} {line : Nat} {name : String}
    {e : Extent} {start : Int64} (h : insertField store w line name e start = .ok (.ok w')) :
    w'.definitions = w.definitions := by
  obtain ⟨b, hb⟩ := insert_of_insertField h
  obtain ⟨-, -, -, -, -, -, rfl⟩ := Wall.insert_eq_ok_iff.1 hb
  rfl

theorem State.Defined.placeField {data : Data} {s s' : State} {d : Declaration}
    (hs : s.Defined) (h : placeField data s d = .ok s') :
    s'.wall.definitions = s.wall.definitions ∧ s'.Defined := by
  obtain ⟨e, -, ⟨-, rfl⟩ | ⟨-, stop, answer, -, -, hanswer, rfl⟩⟩ := placeField_eq_ok_iff.1 h
  · exact ⟨rfl, hs⟩
  · cases answer with
    | error rejection => exact ⟨rfl, hs⟩
    | ok w' =>
      have hdefs := definitions_of_insertField hanswer
      refine ⟨hdefs, fun l hl => ?_⟩
      obtain ⟨⟨d, hd, hl'⟩, hrest⟩ := hs l hl
      refine ⟨⟨d, ?_, hl'⟩, hrest⟩
      rw [← hd]
      exact congrArg (·[l.definition]?) hdefs

/-- A step adds definitions behind those that are there, and keeps the layouts defined. -/
theorem State.Defined.step {data : Data} {s s' : State} {c : Command} (hs : s.Defined)
    (hw : s.wall.Coherent) (h : step data s c = .ok s') :
    s.wall.definitions <+: s'.wall.definitions ∧ s'.Defined := by
  cases c with
  | declare line struct members => exact hs.declareStruct hw h
  | place d =>
    obtain ⟨hdefs, hs'⟩ := hs.placeField h
    exact ⟨hdefs ▸ List.prefix_rfl, hs'⟩
  | evaluate e =>
    obtain ⟨value, -, rfl⟩ := noteValue_eq_ok_iff.1 h
    exact ⟨List.prefix_rfl, hs⟩

/-- What holds along every run: the wall keeps its invariant and its definitions, and the
    layouts are defined. -/
theorem run_keeps (data : Data) {s : State} (hs : s.Defined) (hw : s.wall.Coherent)
    (commands : List Command) :
    (run data s commands).1.wall.Coherent ∧ (run data s commands).1.Defined ∧
      s.wall.definitions <+: (run data s commands).1.wall.definitions := by
  refine run_induction (P := fun s' => s'.wall.Coherent ∧ s'.Defined ∧
    s.wall.definitions <+: s'.wall.definitions) ?_ ⟨hw, hs, List.prefix_rfl⟩
  intro t t' c _ hkept hstep
  obtain ⟨hw, ht, hfront⟩ := hkept
  obtain ⟨hgrow, ht'⟩ := ht.step hw hstep
  exact ⟨hw.step hstep, ht', hfront.trans hgrow⟩

/-- No definition is lost on the way, so a wall that has all its type codes at the end has had
    them before. -/
theorem coded_of_run {data : Data} {s : State} {commands : List Command} (hs : s.Defined)
    (hw : s.wall.Coherent) {last : State × Option Halt} (h : run data s commands = last)
    (hcoded : last.1.wall.Coded) : s.wall.Coded := by
  obtain ⟨-, -, hgrow⟩ := run_keeps data hs hw commands
  rw [h] at hgrow
  exact Nat.le_trans hgrow.length_le hcoded

/-! ### Fitting Members -/

/-- The wall knows the type of an element with its number of bytes. -/
theorem typeInfo?_of_code {w : Wall} (hw : w.Coherent) (hcoded : w.Coded) {layouts : List Layout}
    (hdefined : ∀ l ∈ layouts, l.DefinedIn w) {e : Element} {c : TypeCode} {n : Nat}
    (hc : e.code? layouts = some c) (hn : e.size? layouts = some n) :
    (∃ info, w.typeInfo? c = some info ∧ info.size = n) ∧
      Wall.mayContain w.definitions.length c = true := by
  cases e with
  | primitive t =>
    cases hc
    cases hn
    exact ⟨⟨_, hw.typeInfo?_ofPrimitive t, rfl⟩, Wall.mayContain_iff.2 (.inl ⟨t, rfl⟩)⟩
  | struct i =>
    obtain ⟨l, hl, rfl⟩ := Option.map_eq_some_iff.1 hc
    rw [Element.size?, hl] at hn
    cases hn
    obtain ⟨d, hd, -, hsize⟩ := hdefined l (List.mem_of_getElem? hl)
    have hlt : l.definition < w.definitions.length := (List.getElem?_eq_some_iff.1 hd).1
    -- The code of a definition is read back as its index.
    have hcount := hcoded.lt_structCount hlt
    refine ⟨⟨⟨d.name.text, d.size.toNat⟩, ?_, hsize⟩, Wall.mayContain_iff.2 (.inr ?_)⟩
    · rw [hw.typeInfo?_ofStruct hcount, hd]
      rfl
    · exact ⟨TypeCode.primitive?_ofStruct hcount, _, hlt, TypeCode.structIndex?_ofStruct hcount⟩

/-- Every member of a struct that was laid out fits into a new definition. -/
theorem fits_of_layOut {data : Data} {store : Store} {w : Wall} (hw : w.Coherent)
    (hcoded : w.Coded) (hdefined : ∀ l ∈ store.layouts, l.DefinedIn w) {struct : String}
    {offset : Nat} {ds : List Declaration} {body : Body}
    (h : layOut data store w struct offset ds = .ok body) : ∀ b ∈ body.bricks, w.Fits b := by
  induction ds generalizing offset body with
  | nil =>
    rw [layOut_nil_eq_ok_iff.1 h]
    simp
  | cons d ds ih =>
    intro b hb
    obtain ⟨e, start, bricks, tail, he, -, hbricks, -, htail, rfl⟩ := layOut_cons_eq_ok_iff.1 h
    rcases List.mem_append.1 hb with hb | hb
    · rcases memberBricks_eq_ok_iff.1 hbricks with ⟨-, rfl⟩ | ⟨hne, b', hb', rfl⟩
      · simp at hb
      · rw [List.mem_singleton.1 hb]
        obtain ⟨-, hcode, -, hbrick⟩ := memberBrick_eq_ok hb'
        obtain ⟨n, -, -, hn, hsize, hle⟩ := extent_eq_ok_iff.1 he
        obtain ⟨⟨info, hinfo, hbytes⟩, hmay⟩ :=
          typeInfo?_of_code hw hcoded hdefined hcode (elementSize_eq_ok_iff.1 hn)
        refine ⟨info, hinfo, hmay, ?_, ?_⟩
        · -- A member with a brick covers bytes, so its elements have some.
          intro hzero
          rw [hsize, ← hbytes, hzero, Nat.zero_mul] at hne
          exact hne rfl
        · rw [hbrick, UInt64.toNat_ofNat_of_lt' (Nat.lt_succ_of_le hle), hsize, hbytes]
          exact Nat.mul_mod_right _ _
    · exact ih htail b hb

/-- The wall takes all members of a struct that was laid out, so a definition for them is found
    or added. -/
theorem obtainDefinition_isOk {data : Data} {store : Store} {w : Wall} (hw : w.Coherent)
    (hcoded : w.Coded) (hdefined : ∀ l ∈ store.layouts, l.DefinedIn w) (line : Nat)
    {struct : String} {ds : List Declaration} {body : Body}
    (h : layOut data store w struct 0 ds = .ok body) :
    ∃ p, obtainDefinition w line struct body.bricks = .ok p := by
  have hfits := fits_of_layOut hw hcoded hdefined h
  obtain ⟨hsize, hle⟩ := size_of_layOut h
  unfold obtainDefinition
  cases reusable? w struct body.bricks with
  | some i => exact ⟨_, rfl⟩
  | none =>
    have hbytes : bytesOf body.bricks ≤ Word.uint64Max := by
      have := hle (Nat.zero_le _)
      omega
    obtain ⟨w', hw'⟩ := addDefinition_isSome hw struct hfits hbytes
    refine ⟨(w.definitions.length, w'), ?_⟩
    dsimp only
    rw [hw']
    rfl

end ByteBricks.Execution
