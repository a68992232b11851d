import ByteBricks.Proofs.Execution.Soundness

/-! # The Ledger of an Execution

  Where the fields of an execution lie and what becomes of their bricks. The fields
  lie one behind the other, each at the sum of the sizes in front of it; a brick is
  placed unless it overlaps one that was in the wall before the execution. Bricks of
  one execution never get in each other's way. -/

namespace ByteBricks.Execution

open Template (Declaration ElementType)

/-! ### Placements -/

/-- A declared field of a run. -/
structure Placement where
  /-- The declaration. -/
  declaration : Declaration
  /-- The type of the elements. -/
  element : Element
  /-- The number of bytes of one element. -/
  elementSize : Nat
  /-- The number of elements. -/
  count : Nat

/-- The number of bytes of all elements. -/
def Placement.bytes (p : Placement) : Nat := p.elementSize * p.count

/-- The number of bytes of all placements. -/
def total (ps : List Placement) : Nat := ps.foldr (·.bytes + ·) 0

/-- Each placement with its offset: the first one and the bytes in front of it. -/
def located (start : Int) (ps : List Placement) : List (Int × Placement) :=
  ps.mapIdx fun i p => (start + total (ps.take i), p)

/-- The placements that cover bytes, with their offsets. -/
def filled (start : Int) (ps : List Placement) : List (Int × Placement) :=
  (located start ps).filter (0 < ·.2.bytes)

/-- The declaration of a field that a command asks for. -/
def Command.declaration? : Command → Option Declaration
  | .place d => some d
  | .declare _ _ _ | .evaluate _ => none

/-- The placement that a command asks for in a state. -/
def placement? (data : Data) (s : State) : Command → Option Placement
  | .place d => do
    let e ← (extent data s.store d).toOption
    let size ← e.element.size? s.store.layouts
    pure ⟨d, e.element, size, e.count⟩
  | .declare _ _ _ | .evaluate _ => none

/-- The placements of a run. -/
def ledger (data : Data) (s : State) : List Command → List Placement
  | [] => []
  | c :: rest =>
    match step data s c with
    | .ok s' => (placement? data s c).toList ++ ledger data s' rest
    | .error _ => []

theorem total_append (a b : List Placement) : total (a ++ b) = total a + total b := by
  induction a with
  | nil => exact (Nat.zero_add _).symm
  | cons p a ih =>
    show p.bytes + total (a ++ b) = p.bytes + total a + total b
    rw [ih, Nat.add_assoc]

theorem located_append (start : Int) (a b : List Placement) :
    located start (a ++ b) = located start a ++ located (start + total a) b := by
  unfold located
  rw [List.mapIdx_append]
  congr 1
  · -- The placements in front of one of the first part are all of that part.
    refine List.mapIdx_eq_mapIdx_iff.2 fun i hi => ?_
    rw [List.take_append_of_le_length (Nat.le_of_lt hi)]
  · -- In front of one of the second part lies all of the first.
    refine List.mapIdx_eq_mapIdx_iff.2 fun i _ => ?_
    rw [Nat.add_comm i, List.take_length_add_append, total_append, Int.natCast_add, Int.add_assoc]

theorem filled_append (start : Int) (a b : List Placement) :
    filled start (a ++ b) = filled start a ++ filled (start + total a) b := by
  unfold filled
  rw [located_append, List.filter_append]

/-- A declaration has a placement with its extent. -/
theorem placement?_place {data : Data} {s : State} {d : Declaration} {e : Extent}
    (he : extent data s.store d = .ok e) :
    ∃ p, placement? data s (.place d) = some p ∧ p.declaration = d ∧
      e = ⟨p.element, p.count, p.bytes⟩ ∧
      p.element.size? s.store.layouts = some p.elementSize := by
  obtain ⟨n, -, -, hn, hsize, -⟩ := extent_eq_ok_iff.1 he
  have hn := elementSize_eq_ok_iff.1 hn
  refine ⟨⟨d, e.element, n, e.count⟩, ?_, rfl, ?_, hn⟩
  · simp [placement?, he, hn, Except.toOption]
  · show e = ⟨e.element, e.count, n * e.count⟩
    rw [← hsize]

theorem ledger_append {data : Data} {s s' : State} {done : List Command}
    (h : run data s done = (s', none)) (rest : List Command) :
    ledger data s (done ++ rest) = ledger data s done ++ ledger data s' rest := by
  induction done generalizing s with
  | nil =>
    have heq : s = s' := congrArg Prod.fst h
    rw [heq]
    rfl
  | cons c done ih =>
    obtain ⟨t, hstep, hdone⟩ := run_cons_eq_none h
    rw [List.cons_append, ledger, ledger, hstep]
    dsimp only
    rw [ih hdone, List.append_assoc]

theorem mem_of_mem_filled {start : Int} {ps : List Placement} {q : Int × Placement}
    (hq : q ∈ filled start ps) : q.2 ∈ ps := by
  obtain ⟨i, hi, rfl⟩ := List.mem_mapIdx.1 (List.mem_filter.1 hq).1
  exact List.getElem_mem hi

/-- Each declared field of a complete run is in the ledger. -/
theorem declarations_of_ledger {data : Data} {s s' : State} {commands : List Command}
    (h : run data s commands = (s', none)) :
    (ledger data s commands).map (·.declaration) = commands.filterMap Command.declaration? := by
  induction commands generalizing s with
  | nil => rfl
  | cons c rest ih =>
    obtain ⟨t, hstep, hrest⟩ := run_cons_eq_none h
    rw [ledger, hstep]
    dsimp only
    rw [List.map_append, ih hrest]
    cases c with
    | place d =>
      obtain ⟨e, he, -⟩ := placeField_eq_ok_iff.1 hstep
      obtain ⟨p, hp, rfl, -⟩ := placement?_place he
      rw [hp]
      rfl
    | declare line struct members => rfl
    | evaluate e => rfl

/-- The placement of a field is found in the ledger at the number of fields in front of
    it, and has the extent that the declaration asks for there. -/
theorem placement_of_split {data : Data} {s s' t : State} {done rest : List Command}
    {d : Declaration} (hdone : run data s done = (s', none))
    (h : run data s (done ++ .place d :: rest) = (t, none)) :
    ∃ p, (ledger data s (done ++ .place d :: rest))[(done.filterMap Command.declaration?).length]? =
        some p ∧ p.declaration = d ∧
      extent data s'.store d = .ok ⟨p.element, p.count, p.bytes⟩ ∧
      s'.store.elementSize p.element = .ok p.elementSize := by
  rw [run_append hdone] at h
  obtain ⟨u, hstep, -⟩ := run_cons_eq_none h
  obtain ⟨e, he, -⟩ := placeField_eq_ok_iff.1 hstep
  obtain ⟨p, hp, hd, rfl, hsize⟩ := placement?_place he
  refine ⟨p, ?_, hd, he, elementSize_eq_ok_iff.2 hsize⟩
  rw [ledger_append hdone, ← declarations_of_ledger hdone, List.length_map,
    List.getElem?_append_right (Nat.le_refl _), Nat.sub_self, ledger, hstep, hp]
  rfl

/-! ### Bricks -/

/-- What the wall answers to a brick that overlaps one of its own. -/
def refusal? (w : Wall) (b : Brick) : Option Rejection :=
  (w.bricks.find? (·.overlaps b)).map fun existing => .overlap b.name existing.name

/-- No brick of the wall is in the way of the brick. -/
def hasRoom (w : Wall) (b : Brick) : Bool := (refusal? w b).isNone

/-- A brick says what a placement at an offset is. -/
structure Describes (layouts : List Layout) (q : Int × Placement) (b : Brick) : Prop where
  /-- The brick has the cut name of the field. -/
  name : b.name = Label.ofString q.2.declaration.name.text
  /-- The brick starts at the offset. -/
  start : b.start.toInt = q.1
  /-- The brick covers the bytes of all elements. -/
  size : b.size.toNat = q.2.bytes
  /-- The brick ends behind them. -/
  stop : b.stop.toInt = q.1 + q.2.bytes
  /-- The brick has the type of the elements. -/
  type : q.2.element.code? layouts = some b.type

/-- The wall is asked to take the brick of a field. A wall with the same definitions is asked for
    the same brick, at the offset of the field there. -/
theorem insertField_eq_ok {data : Data} {store : Store} {w : Wall} {line : Nat} {name : String}
    {d : Declaration} {e : Extent} {start : Int64} {answer : Except Rejection Wall}
    (hdefined : ∀ l ∈ store.layouts, l.DefinedIn w) (he : extent data store d = .ok e)
    (h : insertField store w line name e start = .ok answer) :
    ∃ b, answer = w.insert b ∧ b.name = Label.ofString name ∧ b.start = start ∧
      b.size = UInt64.ofNat e.size ∧ e.element.code? store.layouts = some b.type ∧
      ∀ w' start', w'.definitions = w.definitions →
        insertField store w' line name e start' = .ok (w'.insert { b with start := start' }) := by
  obtain ⟨n, -, -, hn, hsize, hle⟩ := extent_eq_ok_iff.1 he
  have hn := elementSize_eq_ok_iff.1 hn
  unfold insertField at h
  cases helement : e.element with
  | primitive t =>
    simp only [helement] at h
    refine ⟨_, (Except.ok.inj h).symm, rfl, rfl, rfl, rfl, ?_⟩
    intro w' start' _
    unfold insertField
    rw [helement]
    rfl
  | struct i =>
    simp only [helement] at h
    split at h
    · next hcount =>
      simp only [bind_eq_ok, layout_eq_ok_iff, pure_eq_ok] at h
      obtain ⟨l, hl, rfl⟩ := h
      -- The wall multiplies with the size of its definition, which is that of the layout.
      obtain ⟨def', hd, -, hdsize⟩ := hdefined l (List.mem_of_getElem? hl)
      rw [helement, Element.size?, hl] at hn
      have hn : l.size = n := Option.some.inj hn
      have hbytes : def'.size.toNat * e.count = e.size := by rw [hsize, hdsize, hn]
      refine ⟨_, Wall.insertStruct_eq hd hcount (by omega) name start, rfl, rfl, ?_, ?_, ?_⟩
      · show UInt64.ofNat (def'.size.toNat * e.count) = _
        rw [hbytes]
      · rw [Element.code?, hl]
        rfl
      · intro w' start' hdefs
        rw [← hdefs] at hd
        unfold insertField
        rw [helement]
        dsimp only
        rw [if_pos hcount, layout_eq_ok_iff.2 hl]
        show Except.ok (w'.insertStruct name start' (Int32.ofNat e.count) l.definition) = _
        rw [Wall.insertStruct_eq hd hcount (by omega) name start']
    · simp at h

/-! ### Books -/

/-- What a part of a run does with its placements and their bricks. -/
structure Books (view : View) (s s' : State) (ps : List Placement) (bricks : List Brick) :
    Prop where
  /-- The cursor moves past all placements. -/
  cursor : s'.cursor.toInt = s.cursor.toInt + total ps
  /-- A placement that covers bytes lies within the data. -/
  inside : ∀ q ∈ filled s.cursor.toInt ps, 0 ≤ q.1 ∧ q.1 + q.2.bytes ≤ view.length
  /-- The elements have the type that the declaration names. -/
  typed : ∀ p ∈ ps, Denotes s'.store.layouts (.ofName p.declaration.typeName.text) p.element ∧
    p.element.size? s'.store.layouts = some p.elementSize
  /-- There is one brick for each placement that covers bytes. -/
  describes : List.Forall₂ (Describes s'.store.layouts) (filled s.cursor.toInt ps) bricks
  /-- The bricks lie between the cursors. -/
  between : ∀ b ∈ bricks, s.cursor ≤ b.start ∧ b.stop ≤ s'.cursor
  /-- A brick is refused if a brick of the first wall is in its way. -/
  rejected : s'.rejected = s.rejected ++ bricks.filterMap (refusal? s.wall)
  /-- The other bricks are counted. -/
  placed : s'.placed = s.placed + (bricks.filter (hasRoom s.wall)).length
  /-- The other bricks are placed. -/
  wall : s'.wall.bricks.Perm (s.wall.bricks ++ bricks.filter (hasRoom s.wall))
  /-- A search that meets none of the bricks finds what it found before. -/
  find : ∀ p : Brick → Bool, (∀ b ∈ bricks, p b = false) →
    s'.wall.bricks.find? p = s.wall.bricks.find? p
  /-- Layouts are added behind those that are there. -/
  layouts : s.store.layouts <+: s'.store.layouts

theorem Element.code?_grow {layouts layouts' : List Layout} {e : Element} {c : TypeCode}
    (hgrow : layouts <+: layouts') (h : e.code? layouts = some c) :
    e.code? layouts' = some c := by
  obtain ⟨more, rfl⟩ := hgrow
  exact Element.code?_append h more

theorem Describes.grow {layouts layouts' : List Layout} {q : Int × Placement} {b : Brick}
    (h : Describes layouts q b) (hgrow : layouts <+: layouts') : Describes layouts' q b :=
  ⟨h.name, h.start, h.size, h.stop, Element.code?_grow hgrow h.type⟩

namespace Books

variable {view : View} {s t u : State} {ps ps' : List Placement} {bs bs' : List Brick}

/-- Nothing is placed. -/
theorem idle (hcursor : t.cursor = s.cursor) (hrejected : t.rejected = s.rejected)
    (hplaced : t.placed = s.placed) (hbricks : t.wall.bricks = s.wall.bricks)
    (hlayouts : s.store.layouts <+: t.store.layouts) : Books view s t [] [] where
  cursor := by
    rw [hcursor]
    exact (Int.add_zero _).symm
  inside := by simp [filled, located]
  typed := by simp
  describes := .nil
  between := by simp
  rejected := by simp [hrejected]
  placed := by simp [hplaced]
  wall := by simp [hbricks]
  find := fun _ _ => by rw [hbricks]
  layouts := hlayouts

theorem refl (s : State) : Books view s s [] [] := .idle rfl rfl rfl rfl List.prefix_rfl

theorem cursor_le (h : Books view s t ps bs) : s.cursor ≤ t.cursor := by
  rw [Int64.le_iff_toInt_le, h.cursor]
  omega

/-- To a later brick the wall answers as it did before the earlier ones. -/
theorem refusal?_later (h : Books view s t ps bs) (h' : Books view t u ps' bs') {b : Brick}
    (hb : b ∈ bs') : refusal? t.wall b = refusal? s.wall b := by
  unfold refusal?
  rw [h.find]
  -- The cursor lies behind the earlier brick and in front of the later one.
  intro e he
  have hstop := (h.between e he).2
  have hstart := (h'.between b hb).1
  exact Brick.not_overlaps_iff.2 (.inr (Int64.le_trans hstop hstart))

theorem hasRoom_later (h : Books view s t ps bs) (h' : Books view t u ps' bs') {b : Brick}
    (hb : b ∈ bs') : hasRoom t.wall b = hasRoom s.wall b := by
  unfold hasRoom
  rw [h.refusal?_later h' hb]

/-- Two parts of a run, one after the other. -/
theorem trans (h : Books view s t ps bs) (h' : Books view t u ps' bs') :
    Books view s u (ps ++ ps') (bs ++ bs') := by
  have hfilled : filled s.cursor.toInt (ps ++ ps') =
      filled s.cursor.toInt ps ++ filled t.cursor.toInt ps' := by
    rw [filled_append, h.cursor]
  have hroom : bs'.filter (hasRoom t.wall) = bs'.filter (hasRoom s.wall) :=
    List.filter_congr fun b hb => h.hasRoom_later h' hb
  have hrefused : bs'.filterMap (refusal? t.wall) = bs'.filterMap (refusal? s.wall) :=
    List.filterMap_congr fun b hb => h.refusal?_later h' hb
  constructor
  case cursor =>
    rw [h'.cursor, h.cursor, total_append, Int.natCast_add, Int.add_assoc]
  case inside =>
    intro q hq
    rw [hfilled] at hq
    exact (List.mem_append.1 hq).elim (h.inside q) (h'.inside q)
  case typed =>
    intro p hp
    rcases List.mem_append.1 hp with hp | hp
    · -- The layouts of the second part come behind those that the type refers to.
      obtain ⟨hdenotes, hsize⟩ := h.typed p hp
      obtain ⟨more, hmore⟩ := h'.layouts
      rw [← hmore]
      exact ⟨hdenotes.append more, Element.size?_append hsize more⟩
    · exact h'.typed p hp
  case describes =>
    rw [hfilled]
    exact List.rel_append (h.describes.imp fun _ _ hd => hd.grow h'.layouts) h'.describes
  case between =>
    intro b hb
    rcases List.mem_append.1 hb with hb | hb
    · obtain ⟨hstart, hstop⟩ := h.between b hb
      exact ⟨hstart, Int64.le_trans hstop h'.cursor_le⟩
    · obtain ⟨hstart, hstop⟩ := h'.between b hb
      exact ⟨Int64.le_trans h.cursor_le hstart, hstop⟩
  case rejected =>
    rw [h'.rejected, h.rejected, List.filterMap_append, hrefused, List.append_assoc]
  case placed =>
    rw [h'.placed, h.placed, List.filter_append, List.length_append, hroom, Nat.add_assoc]
  case wall =>
    rw [List.filter_append, ← hroom, ← List.append_assoc]
    exact h'.wall.trans (h.wall.append_right _)
  case find =>
    intro p hp
    rw [h'.find p fun b hb => hp b (List.mem_append_right _ hb),
      h.find p fun b hb => hp b (List.mem_append_left _ hb)]
  case layouts => exact h.layouts.trans h'.layouts

end Books

/-! ### Steps -/

variable {data : Data} {s s' : State}

theorem filled_singleton (start : Int) (p : Placement) :
    filled start [p] = if 0 < p.bytes then [(start, p)] else [] := by
  simp [filled, located, total, List.filter_singleton]

/-- A field without bytes has no brick. -/
theorem Books.empty {view : View} {p : Placement} (hbytes : p.bytes = 0) {f : Field}
    (htyped : Denotes s.store.layouts (.ofName p.declaration.typeName.text) p.element ∧
      p.element.size? s.store.layouts = some p.elementSize) :
    Books view s (s.addField f) [p] [] := by
  have hfilled : filled s.cursor.toInt [p] = [] := by
    rw [filled_singleton, hbytes]
    rfl
  constructor
  case cursor => simp [State.addField, total, hbytes]
  case inside => simp [hfilled]
  case typed =>
    intro q hq
    rw [List.mem_singleton.1 hq]
    exact htyped
  case describes =>
    rw [hfilled]
    exact .nil
  case between => simp
  case rejected => simp [State.addField]
  case placed => rfl
  case wall => simp [State.addField]
  case find => exact fun _ _ => rfl
  case layouts => exact List.prefix_rfl

/-- The brick of a field is placed unless a brick of the wall is in its way. -/
theorem Books.single {view : View} {p : Placement} (hpos : 0 < p.bytes) {f : Field}
    (htyped : Denotes s.store.layouts (.ofName p.declaration.typeName.text) p.element ∧
      p.element.size? s.store.layouts = some p.elementSize)
    {b : Brick} (hb : Describes s.store.layouts (s.cursor.toInt, p) b) {stop : Int64}
    (hstop : stop.toInt = s.cursor.toInt + p.bytes) (hstart : 0 ≤ s.cursor.toInt)
    (hlength : stop.toInt ≤ view.length)
    (hinsert : s.wall.insert b = match s.wall.bricks.find? (·.overlaps b) with
      | some existing => .error (.overlap b.name existing.name)
      | none => .ok { s.wall with bricks := Wall.place s.wall.bricks b }) :
    Books view s { (s.addField f).note (s.wall.insert b) with cursor := stop } [p] [b] := by
  have hfilled : filled s.cursor.toInt [p] = [(s.cursor.toInt, p)] := by
    rw [filled_singleton, if_pos hpos]
  have hrefusal : refusal? s.wall b = (s.wall.bricks.find? (·.overlaps b)).map
      fun existing => .overlap b.name existing.name := rfl
  constructor
  case cursor => simpa [total] using hstop
  case inside =>
    intro q hq
    rw [hfilled] at hq
    rw [List.mem_singleton.1 hq]
    exact ⟨hstart, hstop ▸ hlength⟩
  case typed =>
    intro q hq
    rw [List.mem_singleton.1 hq, note_store]
    exact htyped
  case describes =>
    rw [hfilled, note_store]
    exact .cons hb .nil
  case between =>
    intro e he
    rw [List.mem_singleton.1 he, Int64.le_iff_toInt_le, Int64.le_iff_toInt_le, hb.start, hb.stop]
    exact ⟨Int.le_refl _, Int.le_of_eq hstop.symm⟩
  case layouts =>
    rw [note_store]
    exact List.prefix_rfl
  -- What is left depends on whether there is room for the brick.
  all_goals
    rw [hinsert]
    cases hfind : s.wall.bricks.find? (·.overlaps b) with
    | some existing =>
      rw [hfind] at hrefusal
      simp [State.note, State.addField, hasRoom, hrefusal]
    | none =>
      rw [hfind] at hrefusal
      simp +contextual [State.note, State.addField, hasRoom, hrefusal, Wall.place_perm,
        Wall.find?_place]

/-- The wall takes the brick of an element's type unless a brick is in its way. -/
theorem insert_of_code {w : Wall} (hw : w.Coherent) (hcoded : w.Coded) {layouts : List Layout}
    (hdefined : ∀ l ∈ layouts, l.DefinedIn w) {e : Element} {b : Brick} {n count : Nat}
    (hcode : e.code? layouts = some b.type) (hn : e.size? layouts = some n)
    (hsize : b.size.toNat = n * count) (hne : n * count ≠ 0) :
    w.insert b = match w.bricks.find? (·.overlaps b) with
      | some existing => .error (.overlap b.name existing.name)
      | none => .ok { w with bricks := Wall.place w.bricks b } := by
  obtain ⟨⟨info, hinfo, rfl⟩, -⟩ := typeInfo?_of_code hw hcoded hdefined hcode hn
  have hpos : b.size ≠ 0 := by
    intro hzero
    rw [hzero] at hsize
    exact hne hsize.symm
  apply Wall.insert_of_aligned hinfo hpos
  · intro hzero
    rw [hzero, Nat.zero_mul] at hne
    exact hne rfl
  · rw [hsize]
    exact Nat.mul_mod_right _ _

/-- The wall takes the brick of a field that ends within the data, unless one of its bricks is
    in the way. A wall with the same definitions is asked for the same brick. -/
theorem insertField_eq_find {store : Store} {w : Wall} {line : Nat} {name : String}
    {d : Declaration} {e : Extent} {start stop : Int64} {answer : Except Rejection Wall}
    (hw : w.Coherent) (hcoded : w.Coded) (hdefined : ∀ l ∈ store.layouts, l.DefinedIn w)
    (he : extent data store d = .ok e) (hne : e.size ≠ 0) (hstart : 0 ≤ start.toInt)
    (hstop : fieldStop start e.size = some stop)
    (h : insertField store w line name e start = .ok answer) :
    ∃ b, answer = w.insert b ∧ b.name = Label.ofString name ∧ b.start = start ∧
      b.size.toNat = e.size ∧ b.stop.toInt = start.toInt + e.size ∧
      e.element.code? store.layouts = some b.type ∧
      (∀ w' start', w'.definitions = w.definitions →
        insertField store w' line name e start' = .ok (w'.insert { b with start := start' })) ∧
      w.insert b = match w.bricks.find? (·.overlaps b) with
        | some existing => .error (.overlap b.name existing.name)
        | none => .ok { w with bricks := Wall.place w.bricks b } := by
  obtain ⟨n, -, -, hn, hsize, hmax⟩ := extent_eq_ok_iff.1 he
  obtain ⟨b, rfl, hname, rfl, hbsize, hcode, hagain⟩ := insertField_eq_ok hdefined he h
  have hbytes : b.size.toNat = e.size := by
    rw [hbsize]
    exact UInt64.toNat_ofNat_of_lt' (Nat.lt_succ_of_le hmax)
  refine ⟨b, rfl, hname, rfl, hbytes, ?_, hcode, hagain, ?_⟩
  · -- The cursor's next position fits, so the end of the brick is not cut off.
    obtain ⟨-, hstop⟩ := fieldStop_eq_some_iff.1 hstop
    obtain ⟨-, hfits, -⟩ := Word.int64?_eq_some_iff.1 hstop
    rw [← hbytes] at hfits ⊢
    exact Brick.toInt_stop_of_le hfits hstart
  · exact insert_of_code hw hcoded hdefined hcode (elementSize_eq_ok_iff.1 hn)
      (hbytes.trans hsize) (hsize ▸ hne)

theorem books_of_step (hs : s.Defined) (hw : s.wall.Coherent) (hcoded : s.wall.Coded)
    {c : Command} (h : step data s c = .ok s') :
    ∃ bs, Books data.view s s' (placement? data s c).toList bs := by
  cases c with
  | declare line struct members =>
    obtain ⟨body, index, wall, hbody, hfound, rfl⟩ := declareStruct_eq_ok_iff.1 h
    obtain ⟨-, hbricks, -⟩ := definitions_of_obtain hw hfound
    exact ⟨[], .idle rfl rfl rfl hbricks (List.prefix_append _ _)⟩
  | evaluate e =>
    obtain ⟨value, -, rfl⟩ := noteValue_eq_ok_iff.1 h
    exact ⟨[], .idle rfl rfl rfl rfl List.prefix_rfl⟩
  | place d =>
    obtain ⟨e, he, hcases⟩ := placeField_eq_ok_iff.1 h
    obtain ⟨p, hp, rfl, rfl, hsize⟩ := placement?_place he
    obtain ⟨n, hdenotes, -⟩ := extent_eq_ok_iff.1 he
    have htyped : Denotes s.store.layouts (.ofName p.declaration.typeName.text) p.element ∧
        p.element.size? s.store.layouts = some p.elementSize :=
      ⟨denotes_of_element hdenotes, hsize⟩
    rw [hp]
    rcases hcases with ⟨hzero, rfl⟩ | ⟨hne, stop, answer, hstop, hbounds, hanswer, rfl⟩
    · -- Nothing is asked of the wall for a field without bytes.
      exact ⟨[], .empty hzero htyped⟩
    · obtain ⟨hstart, -, hlength⟩ := checkBounds_eq_ok_iff.1 hbounds
      obtain ⟨b, rfl, hname, hbstart, hbytes, hbstop, hcode, -, hinsert⟩ :=
        insertField_eq_find hw hcoded hs.definedIn he hne hstart hstop hanswer
      have hb : Describes s.store.layouts (s.cursor.toInt, p) b :=
        ⟨hname, congrArg Int64.toInt hbstart, hbytes, hbstop, hcode⟩
      obtain ⟨-, hstop⟩ := fieldStop_eq_some_iff.1 hstop
      have hend := Word.toInt_of_int64? hstop
      exact ⟨[b], .single (Nat.pos_of_ne_zero hne) htyped hb hend hstart hlength hinsert⟩

/-- A complete run keeps the books of its ledger. -/
theorem books_of_run {commands : List Command} (hs : s.Defined) (hw : s.wall.Coherent)
    (h : run data s commands = (s', none)) (hcoded : s'.wall.Coded) :
    ∃ bs, Books data.view s s' (ledger data s commands) bs := by
  -- The books of the first command and of those behind it are put together by `Books.trans`.
  induction commands generalizing s with
  | nil =>
    cases h
    exact ⟨[], .refl _⟩
  | cons c rest ih =>
    have hnow : s.wall.Coded := coded_of_run hs hw h hcoded
    obtain ⟨t, hstep, hrest⟩ := run_cons_eq_none h
    obtain ⟨bs, hbs⟩ := books_of_step hs hw hnow hstep
    obtain ⟨bs', hbs'⟩ := ih (hs.step hw hstep).2 (hw.step hstep) hrest
    rw [ledger, hstep]
    exact ⟨bs ++ bs', hbs.trans hbs'⟩

/-! ### Executions -/

/-- The placements of the execution of a template. -/
def placementsOf (t : Template) (w : Wall) (view : View) (options : Options) : List Placement :=
  ledger ⟨view, options.order⟩ (.start w options.start) (commandsOf t.statements)

/-- The layouts that the execution of a template declares. -/
def layoutsOf (t : Template) (w : Wall) (view : View) (options : Options) : List Layout :=
  (t.runOn w view options).1.store.layouts

/-- The type that a name stands for, with the size of its values: a primitive type, or a
    layout of that name whose definition the wall has under the cut name. -/
def TypeNamed (layouts : List Layout) (w : Wall) (name : String) (size : Nat) (c : TypeCode) :
    Prop :=
  match Primitive.ofName? name with
  | some t => c = .ofPrimitive t ∧ size = t.size
  | none => ∃ l ∈ layouts, l.name = name ∧ c = .ofStruct l.definition ∧ l.size = size ∧
      l.DefinedIn w

/-- What a finished execution has done with the fields of its template. -/
structure Accounts (t : Template) (w : Wall) (view : View) (options : Options) (r : Report)
    (bricks : List Brick) : Prop where
  /-- The placements are those of all declared fields, in their order. -/
  declarations : (placementsOf t w view options).map (·.declaration) =
    (commandsOf t.statements).filterMap Command.declaration?
  /-- A placement has the type, the size of an element and the count that are evaluated in
      front of its declaration. -/
  evaluated : ∀ done d rest s, commandsOf t.statements = done ++ .place d :: rest →
    run ⟨view, options.order⟩ (.start w options.start) done = (s, none) →
    ∃ p, (placementsOf t w view options)[(done.filterMap Command.declaration?).length]? = some p ∧
      p.declaration = d ∧
      extent ⟨view, options.order⟩ s.store d = .ok ⟨p.element, p.count, p.bytes⟩ ∧
      s.store.elementSize p.element = .ok p.elementSize
  /-- The execution ends behind all bytes of its placements. -/
  stop : r.stop.toInt = options.start.toInt + total (placementsOf t w view options)
  /-- A placement that covers bytes lies within the data. -/
  inside : ∀ q ∈ filled options.start.toInt (placementsOf t w view options),
    0 ≤ q.1 ∧ q.1 + q.2.bytes ≤ view.length
  /-- Each of these has a brick with its cut name, its offset and its size. -/
  describes : List.Forall₂
    (fun q b => b.name = Label.ofString q.2.declaration.name.text ∧ b.start.toInt = q.1 ∧
      b.size.toNat = q.2.bytes ∧
      TypeNamed (layoutsOf t w view options) (t.execute w view options).wall
        q.2.declaration.typeName.text q.2.elementSize b.type)
    (filled options.start.toInt (placementsOf t w view options)) bricks
  /-- The layouts have names of their own. -/
  distinct : ((layoutsOf t w view options).map (·.name)).Nodup
  /-- A brick is in the wall afterwards, or it overlaps one of the wall before and is noted
      as rejected. -/
  settled : ∀ b ∈ bricks, b ∈ (t.execute w view options).wall.bricks ∨
    ∃ e ∈ w.bricks, e.overlaps b = true ∧ .overlap b.name e.name ∈ r.rejected
  /-- What is rejected is rejected in order, for the first brick that is in the way. -/
  rejected : r.rejected = bricks.filterMap (refusal? w)
  /-- Each brick is either placed or rejected. -/
  counted : r.placed + r.rejected.length =
    (filled options.start.toInt (placementsOf t w view options)).length
  /-- The wall has the bricks that it had, and those that were placed. -/
  wall : (t.execute w view options).wall.bricks.Perm (w.bricks ++ bricks.filter (hasRoom w))
  /-- The number of these is reported. -/
  placed : r.placed = (bricks.filter (hasRoom w)).length
  /-- The definitions of the wall come first among those afterwards. -/
  definitions : w.definitions <+: (t.execute w view options).wall.definitions

theorem typeNamed_of_denotes {layouts : List Layout} {w : Wall} {name : String} {e : Element}
    {size : Nat} {c : TypeCode} (hdefined : ∀ l ∈ layouts, l.DefinedIn w)
    (he : Denotes layouts (.ofName name) e) (hsize : e.size? layouts = some size)
    (hcode : e.code? layouts = some c) : TypeNamed layouts w name size c := by
  unfold TypeNamed
  unfold ElementType.ofName at he
  cases hprimitive : Primitive.ofName? name with
  | some t =>
    rw [hprimitive] at he
    rw [he.eq_primitive] at hsize hcode
    exact ⟨(Option.some.inj hcode).symm, (Option.some.inj hsize).symm⟩
  | none =>
    rw [hprimitive] at he
    obtain ⟨i, l, rfl, hl, hname⟩ := he.eq_struct
    have hmem := List.mem_of_getElem? hl
    rw [Element.size?, hl] at hsize
    rw [Element.code?, hl] at hcode
    exact ⟨l, hmem, hname, (Option.some.inj hcode).symm, Option.some.inj hsize, hdefined l hmem⟩

theorem length_filter_add_length_filterMap (w : Wall) (bricks : List Brick) :
    (bricks.filter (hasRoom w)).length + (bricks.filterMap (refusal? w)).length =
      bricks.length := by
  induction bricks with
  | nil => rfl
  | cons b bricks ih =>
    cases hb : refusal? w b with
    | some r =>
      have hroom : hasRoom w b = false := by simp [hasRoom, hb]
      rw [List.filter_cons_of_neg (by simp [hroom]), List.filterMap_cons_some hb,
        List.length_cons, List.length_cons]
      omega
    | none =>
      have hroom : hasRoom w b = true := by simp [hasRoom, hb]
      rw [List.filter_cons_of_pos hroom, List.filterMap_cons_none hb, List.length_cons,
        List.length_cons]
      omega

/-- **Main theorem.** A finished execution of a compiled template on a reachable wall has
    placed or rejected a brick for each declared field that covers bytes. -/
theorem accounts_of_execute {t : Template} (ht : t.IsCompiled) {w : Wall} (hw : w.Reachable)
    {view : View} {options : Options} {r : Report}
    (hr : (t.execute w view options).result = .ok r)
    (hsmall : (t.execute w view options).wall.Small) :
    ∃ bricks, Accounts t w view options r bricks := by
  obtain ⟨s, hrun, rfl, hwall⟩ := execute_eq_ok_iff.1 hr
  rw [hwall] at hsmall
  have hcoherent := hw.coherent
  have hdefined := defined_start w options.start
  obtain ⟨-, hs, hgrow⟩ := run_keeps ⟨view, options.order⟩ hdefined hcoherent
    (commandsOf t.statements)
  have hlast : run ⟨view, options.order⟩ (.start w options.start) (commandsOf t.statements) =
      (s, none) := hrun
  rw [hlast] at hs hgrow
  obtain ⟨bricks, hbooks⟩ := books_of_run hdefined hcoherent hlast hsmall.coded
  have hlayouts : layoutsOf t w view options = s.store.layouts := by
    unfold layoutsOf
    rw [hrun]
  have hrejected : s.rejected = bricks.filterMap (refusal? w) := hbooks.rejected
  have hplaced : s.placed = (bricks.filter (hasRoom w)).length :=
    hbooks.placed.trans (Nat.zero_add _)
  refine ⟨bricks, ?_⟩
  constructor
  case declarations => exact declarations_of_ledger hlast
  case evaluated =>
    intro done d rest s' hsplit hdone
    unfold placementsOf
    rw [hsplit] at hlast ⊢
    exact placement_of_split hdone hlast
  case stop => exact hbooks.cursor
  case inside => exact hbooks.inside
  case describes =>
    rw [hlayouts, hwall]
    have htyped : ∀ q ∈ filled options.start.toInt (placementsOf t w view options), _ :=
      fun q hq => hbooks.typed q.2 (mem_of_mem_filled hq)
    refine List.Forall₂.imp ?_ ((List.forall₂_and_left _ _).2 ⟨htyped, hbooks.describes⟩)
    intro q b h
    obtain ⟨⟨hdenotes, hsize⟩, hb⟩ := h
    exact ⟨hb.name, hb.start, hb.size,
      typeNamed_of_denotes hs.definedIn hdenotes hsize hb.type⟩
  case distinct =>
    -- The template declares no name twice, and the layouts agree with what it declares.
    obtain ⟨source, hsource⟩ := ht
    obtain ⟨htyped, -⟩ := Template.typed_of_compile hsource
    have htracks := (tracks_start hcoherent options.start ⟨view, options.order⟩).run htyped
    rw [hlast] at htracks
    rw [hlayouts]
    exact ((htracks hsmall.coded).2 rfl).agrees.distinct
  case settled =>
    intro b hb
    rw [hwall]
    cases hrefusal : refusal? w b with
    | none =>
      left
      have hroom : hasRoom w b = true := by simp [hasRoom, hrefusal]
      have hmem : b ∈ bricks.filter (hasRoom w) := List.mem_filter.2 ⟨hb, hroom⟩
      exact hbooks.wall.mem_iff.2 (List.mem_append_right _ hmem)
    | some rejection =>
      right
      obtain ⟨e, he, rfl⟩ := Option.map_eq_some_iff.1 hrefusal
      have hoverlaps : e.overlaps b = true := by simpa using List.find?_some he
      refine ⟨e, List.mem_of_find?_eq_some he, hoverlaps, ?_⟩
      show _ ∈ s.rejected
      rw [hrejected]
      exact List.mem_filterMap.2 ⟨b, hb, hrefusal⟩
  case rejected => exact hrejected
  case counted =>
    show s.placed + s.rejected.length = _
    rw [hplaced, hrejected, length_filter_add_length_filterMap]
    exact hbooks.describes.length_eq.symm
  case wall =>
    rw [hwall]
    exact hbooks.wall
  case placed => exact hplaced
  case definitions =>
    rw [hwall]
    exact hgrow

/-- A template for the crowded wall: there is room for the first field, and a brick in the
    way of both others that cover bytes. -/
def squeezed : Template :=
  .ofSource "struct Pixel \x7b uint8[2] rgb; \x7d uint8 a; uint8[0] none; Pixel p; uint16 q;"

theorem squeezed_accounts :
    squeezed.IsCompiled ∧ Wall.crowded.Reachable ∧
      (squeezed.execute .crowded (.bytes #[1, 2, 3, 4, 5]) .default).wall.Small ∧
      ∃ r, (squeezed.execute .crowded (.bytes #[1, 2, 3, 4, 5]) .default).result = .ok r ∧
        r.placed = 1 ∧ r.rejected.length = 2 ∧
        ∃ bricks, Accounts squeezed .crowded (.bytes #[1, 2, 3, 4, 5]) .default r bricks := by
  have hcompiled : squeezed.IsCompiled := Template.isCompiled_ofSource (by decide +kernel)
  have hsmall : (squeezed.execute .crowded (.bytes #[1, 2, 3, 4, 5]) .default).wall.Small := by
    decide +kernel
  have hcounts : ((squeezed.execute .crowded (.bytes #[1, 2, 3, 4, 5]) .default).result.toOption.map
      fun r => (r.placed, r.rejected.length)) = some (1, 2) := by decide +kernel
  obtain ⟨r, hr, hcounts⟩ := Option.map_eq_some_iff.1 hcounts
  have hr := Wall.toOption_eq_some_iff.1 hr
  obtain ⟨hplaced, hrejected⟩ := Prod.mk.inj hcounts
  exact ⟨hcompiled, Wall.crowded_reachable, hsmall, r, hr, hplaced, hrejected,
    accounts_of_execute hcompiled Wall.crowded_reachable hr hsmall⟩

end ByteBricks.Execution
