import ByteBricks.Proofs.Execution.Advance
import ByteBricks.Proofs.Execution.Exact
import ByteBricks.Proofs.Execution.Structs

/-! # Laying Fields One Behind the Other

  An execution that has met no bricks but its own lays each field at the cursor, behind all
  bricks, and only has to ask whether the data are long enough. So a list of field declarations
  has an exact outcome: a condition under which all of them succeed, and the bricks and the
  offset that they lead to then. Main statements: one rule for a field that holds a struct, and
  one for a field whose count is an integer that the data state. -/

namespace ByteBricks

/-! ### Spans -/

/-- A name and the bytes that it stands for. -/
structure Span where
  /-- The name. -/
  name : String
  /-- The offset of the first byte. -/
  start : Int
  /-- The offset behind the last byte. -/
  stop : Int
  deriving DecidableEq

/-- Whether there are any bytes. -/
def Span.isFilled (p : Span) : Bool := p.start < p.stop

/-- The name of a brick, and where it lies. -/
def Brick.span (b : Brick) : Span := ⟨b.name.text, b.start.toInt, b.start.toInt + b.size.toNat⟩

namespace Execution

open Template (Access Context Declaration Expr Mark)

variable {data data' : Data} {store : Store} {s s' t : State} {d : Declaration}

/-! ### Integers of an Expression -/

/-- The expression has the integer as its value. -/
def Yields (data : Data) (store : Store) (e : Expr) (i : Int) : Prop :=
  ∃ v : Int64, eval data store e = .ok (.int v) ∧ v.toInt = i

theorem yields_literal {v : Int64} {i : Int} (hv : v.toInt = i) (m : Mark) :
    Yields data store (.literal m v) i :=
  ⟨v, rfl, hv⟩

/-- A difference that fits is the difference of the integers. -/
theorem Yields.sub {a b : Expr} {i j : Int} (ha : Yields data store a i)
    (hb : Yields data store b j) (m : Mark) (type : Primitive)
    (hrange : Word.int64Min ≤ i - j ∧ i - j ≤ Word.int64Max) :
    Yields data store (.arith m type .sub a b) (i - j) := by
  obtain ⟨v, hv, rfl⟩ := ha
  obtain ⟨w, hw, rfl⟩ := hb
  have happly : Value.applyInt .sub v w = .ok (Int64.ofInt (v.toInt - w.toInt)) :=
    applyInt_of_fits rfl hrange
  refine ⟨_, (eval_arith m type .sub hv hw).1 _ happly, ?_⟩
  exact Word.toInt_of_int64? (if_pos hrange)

/-- The unsigned number of four bytes at an offset, the least significant byte first. -/
def uint32At (bytes : Array UInt8) (offset : Nat) : Nat :=
  ByteOrder.little.toNat (sliceOf bytes offset 4)

theorem uint32At_lt (bytes : Array UInt8) (offset : Nat) : uint32At bytes offset < 2 ^ 32 := by
  have hlt := ByteOrder.little.toNat_lt (sliceOf bytes offset 4)
  have hlength : (sliceOf bytes offset 4).length ≤ 4 := by
    unfold sliceOf
    rw [Array.length_toList, Array.size_extract]
    omega
  unfold uint32At
  -- There are at most four bytes, and as many numbers of them.
  generalize (sliceOf bytes offset 4).length = n at hlt hlength
  have hcount : ByteOrder.numberCount n ≤ 2 ^ 32 := by
    rcases n with _ | _ | _ | _ | _ | n
    all_goals first | omega | decide
  omega

theorem integer?_uint32 {bytes : Array UInt8} {n : Nat} (hinside : n + 4 ≤ bytes.size) :
    Data.integer? ⟨.bytes bytes, .little⟩ .uint32 n = some ↑(uint32At bytes n) := by
  have hlength := View.length_sliceOf hinside
  have hbytes : (View.bytes bytes).bytes? n 4 = some (sliceOf bytes n 4) := by
    have hall : ∀ k < (sliceOf bytes n 4).length,
        (sliceOf bytes n 4)[k]? = (View.bytes bytes).byte? (n + k) := by
      intro k hk
      exact View.getElem?_sliceOf bytes (hlength ▸ hk)
    have hslice := bytes?_eq_some hall
    rwa [hlength] at hslice
  show ((View.bytes bytes).bytes? n 4).bind _ = _
  rw [hbytes]
  rfl

/-- The value of a single number is read at its place. -/
theorem eval_of_locate {m : Mark} {type u : Primitive} {a : Access} {f : Field}
    (hf : store.locate m.line a = .ok f) (hu : f.element = .primitive u)
    (hsingle : f.isArray = false) :
    eval data store (.access m type a) = data.read m.line f.name u f.start := by
  have hprimitive : f.primitive m.line = .ok u := primitive_eq_ok_iff.2 hu
  simp only [eval, hf, bind, Except.bind, hprimitive, hsingle, Bool.false_eq_true, if_false]

/-- The struct at an index has a single number of the type at an offset. -/
def HasMember (layouts : List Layout) (i : Nat) (part : String) (offset : Int64)
    (type : Primitive) : Prop :=
  (layouts[i]?.bind fun l => l.members.find? (·.name == part)) =
    some ⟨part, offset, .primitive type, 1, false⟩

instance (layouts : List Layout) (i : Nat) (part : String) (offset : Int64) (type : Primitive) :
    Decidable (HasMember layouts i part offset type) :=
  inferInstanceAs (Decidable (_ = some _))

/-- A member of the type `uint32` is the number of its bytes. -/
theorem yields_member {bytes : Array UInt8} {m : Mark} {type : Primitive} {owner part : Name}
    {f : Field} {i n : Nat} {offset : Int64} (hf : store.field? owner.text = some f)
    (hi : f.element = .struct i) (hmember : HasMember store.layouts i part.text offset .uint32)
    (hstart : f.start.toInt + offset.toInt = n) (hinside : n + 4 ≤ bytes.size)
    (hmax : n + 4 ≤ Word.int64Max) :
    Yields ⟨.bytes bytes, .little⟩ store (.access m type (.member owner part))
      (uint32At bytes n) := by
  obtain ⟨l, hl, hg⟩ := Option.bind_eq_some_iff.1 hmember
  have hoffset : Word.int64? (f.start.toInt + offset.toInt) =
      some (Int64.ofInt (f.start.toInt + offset.toInt)) := by
    apply if_pos
    unfold Word.int64Min
    omega
  have hn : (Int64.ofInt (f.start.toInt + offset.toInt)).toInt = n :=
    (Word.toInt_of_int64? hoffset).trans hstart
  have hholds : Data.Holds ⟨.bytes bytes, .little⟩ .uint32
      (Int64.ofInt (f.start.toInt + offset.toInt)) := by
    constructor
    · omega
    · rw [hn]
      show (n : Int) + 4 ≤ bytes.size
      omega
    · rw [hn]
      exact hmax
  obtain ⟨j, hj, hlo, hread⟩ := read_integer (View.steady_bytes _) rfl hholds m.line
    (owner.text ++ "." ++ part.text)
  rw [hn, integer?_uint32 hinside] at hj
  cases hj
  -- A number of four bytes is always an offset.
  have hfits : (uint32At bytes n : Int) ≤ Word.int64Max := by
    have hlt := uint32At_lt bytes n
    unfold Word.int64Max
    omega
  rw [if_pos hfits] at hread
  have hlocate : store.locate m.line (.member owner part) = .ok _ :=
    locate_member_eq_ok_iff.2 ⟨f, i, l, _, _, hf, hi, hl, hg, hoffset, rfl⟩
  exact ⟨_, (eval_of_locate hlocate rfl rfl).trans hread,
    Word.toInt_of_int64? (if_pos ⟨hlo, hfits⟩)⟩

/-! ### Extents -/

/-- A count that is not negative is the number of elements. -/
theorem Yields.evalCount {e : Expr} {n : Nat} (h : Yields data store e n) (line : Nat) :
    Execution.evalCount data store line (some e) = .ok n := by
  obtain ⟨v, hv, hn⟩ := h
  rw [Execution.evalCount, hv]
  show (if v.toInt < 0 then _ else _) = _
  rw [if_neg (by omega), hn]
  rfl

theorem Yields.evalCount_of_neg {e : Expr} {i : Int} (h : Yields data store e i) (hi : i < 0)
    (line : Nat) : ∃ halt, Execution.evalCount data store line (some e) = .error halt := by
  obtain ⟨v, hv, rfl⟩ := h
  rw [Execution.evalCount, hv]
  show ∃ halt, (if v.toInt < 0 then _ else _) = _
  rw [if_pos hi]
  exact ⟨_, rfl⟩

/-- The extent of an array of bytes. -/
theorem extent_of_bytes {e : Expr} {n : Nat} (htype : d.typeName.text = "uint8")
    (hcount : d.count = some e) (h : Yields data store e n) (hmax : n ≤ Word.uint64Max) :
    extent data store d = .ok ⟨.primitive .uint8, n, n⟩ := by
  apply extent_eq_ok_iff.2
  refine ⟨1, ?_, ?_, rfl, (Nat.one_mul n).symm, hmax⟩
  · rw [htype]
    rfl
  · rw [hcount]
    exact h.evalCount _

/-- The newest struct of the name is at the index, and has so many bytes. -/
def HasStruct (layouts : List Layout) (name : String) (i size : Nat) : Prop :=
  Primitive.ofName? name = none ∧ lastIdx? (·.name == name) layouts = some i ∧
    layouts[i]?.map Layout.size = some size

instance (layouts : List Layout) (name : String) (i size : Nat) :
    Decidable (HasStruct layouts name i size) :=
  inferInstanceAs (Decidable (_ ∧ _ ∧ _))

/-- The extent of a single struct. -/
theorem extent_of_struct {i size : Nat} (hcount : d.count = none)
    (hstruct : HasStruct store.layouts d.typeName.text i size) (hmax : size ≤ Word.uint64Max) :
    extent data store d = .ok ⟨.struct i, 1, size⟩ := by
  obtain ⟨htype, hi, hsize⟩ := hstruct
  apply extent_eq_ok_iff.2
  refine ⟨size, ?_, ?_, ?_, (Nat.mul_one _).symm, hmax⟩
  · unfold Store.element
    rw [htype, hi]
    rfl
  · rw [hcount]
    rfl
  · exact elementSize_eq_ok_iff.2 hsize

/-! ### Free Ground -/

/-- What a state has laid so far. -/
structure Sketch where
  /-- The structs and fields. -/
  store : Store
  /-- Where the bricks of the wall lie. -/
  spans : List Span
  /-- The offset of the next field. -/
  cursor : Int

/-- The sketch of a state. -/
def State.sketch (s : State) : Sketch := ⟨s.store, s.wall.bricks.map Brick.span, s.cursor.toInt⟩

/-- The sketch with one more field, which has a brick if it covers bytes. -/
def Sketch.lay (g : Sketch) (d : Declaration) (e : Extent) : Sketch where
  store := ⟨g.store.layouts, e.field d (Int64.ofInt g.cursor) :: g.store.fields⟩
  spans := g.spans ++ [⟨d.name.text, g.cursor, g.cursor + e.size⟩].filter Span.isFilled
  cursor := g.cursor + e.size

/-- The sketch with other layouts. -/
def Sketch.withLayouts (g : Sketch) (layouts : List Layout) : Sketch :=
  ⟨⟨layouts, g.store.fields⟩, g.spans, g.cursor⟩

/-- All bricks lie in front of the cursor, and no brick has been refused. -/
structure Clean (data : Data) (rest : List Command) (s : State) : Prop where
  /-- The wall has what the layouts refer to, and room for what is still to come. -/
  ready : Ready rest s
  /-- The cursor does not lie in front of the data. -/
  start : 0 ≤ s.cursor.toInt
  /-- It lies within the data. -/
  inside : s.cursor.toInt ≤ data.view.length
  /-- The bricks lie in front of it. -/
  before : ∀ b ∈ s.wall.bricks, b.Before s.cursor.toInt
  /-- The wall has taken all bricks. -/
  rejected : s.rejected = []

/-- Any single struct and any number of primitive values may be asked for. -/
theorem insertField_isOk_of_extent {w : Wall} {e : Extent} (he : extent data store d = .ok e)
    (hcount : ∀ i, e.element = .struct i → e.count ≤ Word.int32Max) (line : Nat) (name : String)
    (start : Int64) : ∃ answer, insertField store w line name e start = .ok answer := by
  obtain ⟨n, -, -, hn, -⟩ := extent_eq_ok_iff.1 he
  unfold insertField
  cases helement : e.element with
  | primitive t => exact ⟨_, rfl⟩
  | struct i =>
    rw [helement] at hn
    obtain ⟨l, hl, -⟩ := bind_eq_ok.1 hn
    dsimp only
    rw [if_pos (hcount i helement), hl]
    exact ⟨_, rfl⟩

namespace Clean

variable {rest : List Command} {e : Extent}

/-- The wall takes the brick of a field behind all others. -/
theorem insertField (h : Clean data rest s) (he : extent data s.store d = .ok e)
    (hname : d.name.text.utf8ByteSize ≤ Label.maxSize)
    (hcount : ∀ i, e.element = .struct i → e.count ≤ Word.int32Max) (hne : e.size ≠ 0)
    {stop : Int64} (hstop : fieldStop s.cursor e.size = some stop) (line : Nat) :
    ∃ b, Execution.insertField s.store s.wall line d.name.text e s.cursor =
        .ok (.ok { s.wall with bricks := s.wall.bricks ++ [b] }) ∧
      b.Before stop.toInt ∧ b.span = ⟨d.name.text, s.cursor.toInt, stop.toInt⟩ := by
  have hstart := h.start
  have hend := Word.toInt_of_int64? (fieldStop_eq_some_iff.1 hstop).2
  have hlt : stop.toInt < 2 ^ 63 := stop.toInt_lt
  obtain ⟨answer, hanswer⟩ := insertField_isOk_of_extent (w := s.wall) he hcount line
    d.name.text s.cursor
  obtain ⟨b, rfl, hbname, hbstart, hbsize, hbstop, -, -, hinsert⟩ :=
    insertField_eq_find h.ready.coherent h.ready.coded h.ready.defined.definedIn he hne hstart
      hstop hanswer
  have hoffset : b.start.toInt = s.cursor.toInt := congrArg Int64.toInt hbstart
  -- All bricks end in front of the new one, so none overlaps it and it is the last one.
  have hbehind : ∀ x ∈ s.wall.bricks, x.stop ≤ b.start := by
    intro x hx
    apply (h.before x hx).stop_le_start
    · unfold Word.int64Max
      omega
    · exact Int.le_of_eq hoffset.symm
  have hnone : s.wall.bricks.find? (·.overlaps b) = none := by
    rw [List.find?_eq_none]
    intro x hx
    simpa using Brick.not_overlaps_iff.2 (.inr (hbehind x hx))
  have hcovers : b.start < b.stop := by
    rw [Int64.lt_iff_toInt_lt, hbstop, hoffset]
    omega
  rw [hnone] at hinsert
  dsimp only at hinsert
  rw [Wall.place_of_stop_le hcovers hbehind] at hinsert
  rw [hinsert] at hanswer
  refine ⟨b, hanswer, ⟨by omega, by omega⟩, ?_⟩
  unfold Brick.span
  rw [hbname, Label.text_ofString hname, hoffset, hbsize, hend]

/-- A field without bytes is only noted. -/
theorem place_nothing (h : Clean data (.place d :: rest) s) (he : extent data s.store d = .ok e)
    (hzero : e.size = 0) :
    ∃ s', step data s (.place d) = .ok s' ∧ Clean data rest s' ∧
      s'.sketch = s.sketch.lay d e := by
  have hcursor : Int64.ofInt s.cursor.toInt = s.cursor := Int64.ofInt_toInt s.cursor
  have hstep : step data s (.place d) = .ok (s.addField (e.field d s.cursor)) :=
    placeField_eq_ok_iff.2 ⟨e, he, .inl ⟨hzero, rfl⟩⟩
  refine ⟨_, hstep, ⟨h.ready.step hstep, h.start, h.inside, h.before, h.rejected⟩, ?_⟩
  unfold State.sketch Sketch.lay
  simp [State.addField, Span.isFilled, hzero, hcursor]

/-- A field that covers bytes of the data is laid at the cursor. -/
theorem place_bytes (h : Clean data (.place d :: rest) s) (he : extent data s.store d = .ok e)
    (hname : d.name.text.utf8ByteSize ≤ Label.maxSize)
    (hcount : ∀ i, e.element = .struct i → e.count ≤ Word.int32Max) (hne : e.size ≠ 0)
    {stop : Int64} (hstop : fieldStop s.cursor e.size = some stop)
    (hinside : stop.toInt ≤ data.view.length) :
    ∃ s', step data s (.place d) = .ok s' ∧ Clean data rest s' ∧
      s'.sketch = s.sketch.lay d e := by
  have hstart := h.start
  have hend := Word.toInt_of_int64? (fieldStop_eq_some_iff.1 hstop).2
  have hcursor : Int64.ofInt s.cursor.toInt = s.cursor := Int64.ofInt_toInt s.cursor
  obtain ⟨b, hanswer, hb, hspan⟩ := h.insertField he hname hcount hne hstop d.mark.line
  have hbounds : checkBounds data.view d.mark.line d.name.text s.cursor stop = .ok () :=
    checkBounds_eq_ok_iff.2 ⟨hstart, by omega, hinside⟩
  have hstep := placeField_eq_ok_iff.2 ⟨e, he, .inr ⟨hne, _, _, hstop, hbounds, hanswer, rfl⟩⟩
  refine ⟨_, hstep, ⟨h.ready.step hstep, ?_, hinside, ?_, h.rejected⟩, ?_⟩
  · show 0 ≤ stop.toInt
    omega
  · show ∀ x ∈ s.wall.bricks ++ [b], x.Before stop.toInt
    intro x hx
    rcases List.mem_append.1 hx with hx | hx
    · exact (h.before x hx).mono (by omega)
    · obtain rfl := List.mem_singleton.1 hx
      exact hb
  · have hlt : s.cursor.toInt < s.cursor.toInt + e.size := by omega
    unfold State.sketch Sketch.lay
    simp [State.addField, State.note, Span.isFilled, hcursor, hspan, hend, hlt]

/-- A field within the data is laid at the cursor. -/
theorem place (h : Clean data (.place d :: rest) s) (he : extent data s.store d = .ok e)
    (hname : d.name.text.utf8ByteSize ≤ Label.maxSize)
    (hcount : ∀ i, e.element = .struct i → e.count ≤ Word.int32Max)
    (hinside : s.cursor.toInt + e.size ≤ data.view.length)
    (hmax : s.cursor.toInt + e.size ≤ Word.int64Max) :
    ∃ s', step data s (.place d) = .ok s' ∧ Clean data rest s' ∧
      s'.sketch = s.sketch.lay d e := by
  have hstart := h.start
  by_cases hzero : e.size = 0
  · exact h.place_nothing he hzero
  · have hfits : Word.int64? (s.cursor.toInt + e.size) =
        some (Int64.ofInt (s.cursor.toInt + e.size)) := by
      apply if_pos
      unfold Word.int64Min
      omega
    have hstop := fieldStop_eq_some_iff.2 ⟨by omega, hfits⟩
    apply h.place_bytes he hname hcount hzero hstop
    rwa [Word.toInt_of_int64? hfits]

/-- A field is only laid within the data. -/
theorem inside_of_place (h : Clean data rest s) (he : extent data s.store d = .ok e)
    (hstep : step data s (.place d) = .ok s') :
    s.cursor.toInt + e.size ≤ data.view.length := by
  have hinside := h.inside
  obtain ⟨e', he', ⟨hzero, -⟩ | ⟨-, stop, answer, hstop, hbounds, -⟩⟩ :=
    placeField_eq_ok_iff.1 hstep
  · cases he.symm.trans he'
    omega
  · cases he.symm.trans he'
    obtain ⟨-, hfits⟩ := fieldStop_eq_some_iff.1 hstop
    rw [← Word.toInt_of_int64? hfits]
    exact (checkBounds_eq_ok_iff.1 hbounds).2.2

end Clean

/-! ### Outcomes -/

/-- The commands get to their end exactly under the condition. Then no brick has been refused,
    the bricks of the wall lie at the spans, and the cursor is at the offset. -/
structure Ends (data : Data) (s : State) (commands : List Command) (condition : Prop)
    (spans : List Span) (stop : Int) : Prop where
  /-- The commands get to their end exactly under the condition. -/
  finishes : (∃ t, run data s commands = (t, none)) ↔ condition
  /-- What they lead to. -/
  leads : ∀ t, run data s commands = (t, none) →
    t.rejected = [] ∧ t.wall.bricks.map Brick.span = spans ∧ t.cursor.toInt = stop

/-- The outcome of the commands on the bytes in every state of the sketch. -/
def Sketch.LeadsTo (bytes : Array UInt8) (g : Sketch) (commands : List Command)
    (condition : Prop) (spans : List Span) (stop : Int) : Prop :=
  ∀ s, Clean ⟨.bytes bytes, .little⟩ commands s → s.sketch = g →
    Ends ⟨.bytes bytes, .little⟩ s commands condition spans stop

namespace Sketch

variable {bytes : Array UInt8} {g : Sketch} {layouts : List Layout} {fields : List Field}
  {laid : List Span} {start : Int} {rest : List Command} {condition : Prop} {spans : List Span}
  {stop : Int}

/-- Nothing is left to do. -/
theorem leadsTo_nil (hcondition : condition) (hspans : g.spans = spans) (hstop : g.cursor = stop) :
    g.LeadsTo bytes [] condition spans stop := by
  rintro s h rfl
  refine ⟨iff_of_true ⟨s, rfl⟩ hcondition, ?_⟩
  intro t ht
  cases ht
  exact ⟨h.rejected, hspans, hstop⟩

/-- Nothing is led to where the next command fails. -/
theorem leadsTo_of_fails {c : Command} (hcondition : ¬condition)
    (hfails : ∀ s s', Clean ⟨.bytes bytes, .little⟩ (c :: rest) s → s.sketch = g →
      step ⟨.bytes bytes, .little⟩ s c ≠ .ok s') :
    g.LeadsTo bytes (c :: rest) condition spans stop := by
  intro s h hs
  have hstuck : ∀ t, run ⟨.bytes bytes, .little⟩ s (c :: rest) ≠ (t, none) := by
    intro t ht
    obtain ⟨s', hstep, -⟩ := run_cons_eq_none ht
    exact hfails s s' h hs hstep
  constructor
  · exact iff_of_false (fun ⟨t, ht⟩ => hstuck t ht) hcondition
  · intro t ht
    exact absurd ht (hstuck t)

/-- A field is laid if it lies within the data. -/
theorem leadsTo_place {e : Extent} (he : extent ⟨.bytes bytes, .little⟩ g.store d = .ok e)
    (hname : d.name.text.utf8ByteSize ≤ Label.maxSize)
    (hcount : ∀ i, e.element = .struct i → e.count ≤ Word.int32Max)
    (hmax : g.cursor + e.size < 2 ^ 63) (hinside : condition → g.cursor + e.size ≤ bytes.size)
    (hrest : g.cursor + e.size ≤ bytes.size →
      (g.lay d e).LeadsTo bytes rest condition spans stop) :
    g.LeadsTo bytes (.place d :: rest) condition spans stop := by
  by_cases hlength : g.cursor + e.size ≤ bytes.size
  · rintro s h rfl
    obtain ⟨s', hstep, hclean, hsketch⟩ :=
      h.place he hname hcount hlength (Int.le_of_lt_add_one hmax)
    have hends := hrest hlength s' hclean hsketch
    have hrun : run ⟨.bytes bytes, .little⟩ s (.place d :: rest) =
        run ⟨.bytes bytes, .little⟩ s' rest := run_cons_of_ok hstep
    exact ⟨hrun ▸ hends.finishes, hrun ▸ hends.leads⟩
  · apply leadsTo_of_fails fun hcondition => hlength (hinside hcondition)
    rintro s s' h rfl hstep
    exact hlength (h.inside_of_place he hstep)

/-- **Main theorem.** A single struct is laid if it lies within the data. -/
theorem leadsTo_struct {i size : Nat} (hcount : d.count = none)
    (hstruct : HasStruct layouts d.typeName.text i size)
    (hname : d.name.text.utf8ByteSize ≤ Label.maxSize) (hstart : 0 ≤ start)
    (hmax : start + size < 2 ^ 63) (hinside : condition → start + size ≤ bytes.size)
    (hrest : start + size ≤ bytes.size → Sketch.LeadsTo bytes
      ⟨⟨layouts, ⟨d.name.text, Int64.ofInt start, .struct i, 1, false⟩ :: fields⟩,
        laid ++ [⟨d.name.text, start, start + size⟩].filter Span.isFilled, start + size⟩
      rest condition spans stop) :
    Sketch.LeadsTo bytes ⟨⟨layouts, fields⟩, laid, start⟩ (.place d :: rest) condition spans
      stop := by
  have hsize : size ≤ Word.uint64Max := by
    unfold Word.uint64Max
    omega
  have hone : 1 ≤ Word.int32Max := by decide
  apply leadsTo_place (extent_of_struct hcount hstruct hsize) hname (fun _ _ => hone) hmax hinside
  unfold lay Extent.field
  rw [hcount]
  exact hrest

/-- **Main theorem.** An array of bytes is laid if its count is not negative and it lies within
    the data. -/
theorem leadsTo_bytes {count : Expr} {i : Int} (htype : d.typeName.text = "uint8")
    (hcount : d.count = some count)
    (hi : Yields ⟨.bytes bytes, .little⟩ ⟨layouts, fields⟩ count i)
    (hname : d.name.text.utf8ByteSize ≤ Label.maxSize) (hstart : 0 ≤ start)
    (hmax : start + i < 2 ^ 63) (hinside : condition → 0 ≤ i ∧ start + i ≤ bytes.size)
    (hrest : ∀ n : Nat, i = n → start + n ≤ bytes.size → Sketch.LeadsTo bytes
      ⟨⟨layouts, ⟨d.name.text, Int64.ofInt start, .primitive .uint8, n, true⟩ :: fields⟩,
        laid ++ [⟨d.name.text, start, start + n⟩].filter Span.isFilled, start + n⟩
      rest condition spans stop) :
    Sketch.LeadsTo bytes ⟨⟨layouts, fields⟩, laid, start⟩ (.place d :: rest) condition spans
      stop := by
  by_cases hneg : i < 0
  · -- The count of the array is what fails, before the data are looked at.
    apply leadsTo_of_fails
    · intro hcondition
      have hnot := (hinside hcondition).1
      omega
    rintro s s' h hs hstep
    obtain ⟨e, he, -⟩ := placeField_eq_ok_iff.1 hstep
    obtain ⟨n, -, hn, -⟩ := extent_eq_ok_iff.1 he
    have hstore : s.store = ⟨layouts, fields⟩ := congrArg Sketch.store hs
    obtain ⟨halt, hhalt⟩ := hi.evalCount_of_neg hneg d.mark.line
    rw [hcount, hstore] at hn
    cases hhalt.symm.trans hn
  · obtain ⟨n, rfl⟩ := Int.eq_ofNat_of_zero_le (Int.not_lt.1 hneg)
    have hn : n ≤ Word.uint64Max := by
      unfold Word.uint64Max
      omega
    have hrest := hrest n rfl
    apply leadsTo_place (extent_of_bytes htype hcount hi hn) hname _ hmax
    · exact fun hcondition => (hinside hcondition).2
    · unfold lay Extent.field
      rw [hcount]
      exact hrest
    · exact fun _ helement => by cases helement

end Sketch

/-! ### Structs in Front of Fields -/

/-- The command declares a struct, and the counts of its members are constant. -/
def Command.isConstant : Command → Bool
  | .declare _ _ members => members.all fun d => d.count.all Expr.isConstant
  | .place _ | .evaluate _ => false

/-- Such a struct is the same whatever the data are. -/
theorem step_of_isConstant {c : Command} (hc : c.isConstant = true) (data data' : Data)
    (s : State) : step data' s c = step data s c := by
  cases c with
  | place d => cases hc
  | evaluate e => cases hc
  | declare line struct members =>
    have hmembers : ∀ d ∈ members, d.Constant := by
      intro d hd e he
      have hall := List.all_eq_true.1 hc d hd
      rw [he] at hall
      exact hall
    have hsame : SameStructs s s := ⟨rfl, rfl, rfl⟩
    show declareStruct data' s line struct members = declareStruct data s line struct members
    unfold declareStruct
    rw [hsame.layOut struct 0 hmembers]

theorem run_of_isConstant {commands : List Command} (hc : ∀ c ∈ commands, c.isConstant = true)
    (data data' : Data) (s : State) : run data' s commands = run data s commands := by
  induction commands generalizing s with
  | nil => rfl
  | cons c rest ih =>
    obtain ⟨hfirst, hrest⟩ := List.forall_mem_cons.1 hc
    unfold run
    rw [step_of_isConstant hfirst data data']
    simp only [ih hrest]

/-- Structs change neither the fields nor the bricks. -/
theorem Clean.declare {c : Command} {rest : List Command} (h : Clean data (c :: rest) s)
    (hc : c.isConstant = true) (hstep : step data s c = .ok s') :
    Clean data rest s' ∧ s'.sketch = s.sketch.withLayouts s'.store.layouts := by
  have hready := h.ready.step hstep
  cases c with
  | place d => cases hc
  | evaluate e => cases hc
  | declare line struct members =>
    obtain ⟨body, index, wall, -, hfound, rfl⟩ := declareStruct_eq_ok_iff.1 hstep
    obtain ⟨-, hbricks, -⟩ := definitions_of_obtain h.ready.coherent hfound
    refine ⟨⟨hready, h.start, h.inside, ?_, h.rejected⟩, ?_⟩
    · show ∀ b ∈ wall.bricks, b.Before s.cursor.toInt
      rw [hbricks]
      exact h.before
    · unfold State.sketch
      rw [← hbricks]
      rfl

theorem Clean.declares {done rest : List Command} (h : Clean data (done ++ rest) s)
    (hc : ∀ c ∈ done, c.isConstant = true) (hrun : run data s done = (t, none)) :
    Clean data rest t ∧ t.sketch = s.sketch.withLayouts t.store.layouts := by
  induction done generalizing s with
  | nil =>
    cases hrun
    exact ⟨h, rfl⟩
  | cons c done ih =>
    obtain ⟨hfirst, hc⟩ := List.forall_mem_cons.1 hc
    obtain ⟨u, hstep, hrest⟩ := run_cons_eq_none hrun
    obtain ⟨hclean, hsketch⟩ := h.declare hfirst hstep
    obtain ⟨hlast, hlastSketch⟩ := ih hclean hc hrest
    refine ⟨hlast, ?_⟩
    rw [hlastSketch, hsketch]
    rfl

/-! ### Templates -/

theorem clean_start {template : Template} (ht : template.IsCompiled) (data : Data) :
    Clean data (commandsOf template.statements) (.start .empty 0) where
  ready := ready_start ht .empty 0
  start := Int.le_refl 0
  inside := Int.natCast_nonneg _
  before := by
    intro b hb
    cases hb
  rejected := rfl

/-- The template declares structs whose layouts have the property, and behind them exactly the
    fields. -/
def Prefaces (P : List Layout → Prop) (fields : List Command) (template : Template) : Prop :=
  ∃ structs s, commandsOf template.statements = structs ++ fields ∧
    (∀ c ∈ structs, c.isConstant = true) ∧
    run ⟨.bytes #[], .little⟩ (.start .empty 0) structs = (s, none) ∧ P s.store.layouts

/-- Whether the template is one whose fields have as many structs in front. -/
def prefaced (P : List Layout → Bool) (structs : Nat) (fields : List Command)
    (template : Template) : Bool :=
  let commands := commandsOf template.statements
  let front := run ⟨.bytes #[], .little⟩ (.start .empty 0) (commands.take structs)
  commands.drop structs = fields && (commands.take structs).all Command.isConstant &&
    front.2.isNone && P front.1.store.layouts

theorem prefaces_of_prefaced {P : List Layout → Prop} [DecidablePred P] {structs : Nat}
    {fields : List Command} {template : Template}
    (h : prefaced (fun layouts => decide (P layouts)) structs fields template = true) :
    Prefaces P fields template := by
  unfold prefaced at h
  dsimp only at h
  simp only [Bool.and_eq_true, decide_eq_true_eq, List.all_eq_true] at h
  obtain ⟨⟨⟨hfields, hconstant⟩, hrun⟩, hlayouts⟩ := h
  refine ⟨(commandsOf template.statements).take structs, _, ?_, hconstant, ?_, hlayouts⟩
  · rw [← hfields, List.take_append_drop]
  · exact Prod.ext rfl (Option.isNone_iff_eq_none.1 hrun)

theorem exists_prefaces {P : List Layout → Prop} [DecidablePred P] {structs : Nat}
    {fields : List Command} {source : String}
    (h : (Template.compile source).toOption.any
      (prefaced (fun layouts => decide (P layouts)) structs fields) = true) :
    ∃ t, Template.compile source = .ok t ∧ Prefaces P fields t := by
  obtain ⟨t, ht, hprefaced⟩ := (Option.any_eq_true _ _).1 h
  exact ⟨t, Wall.toOption_eq_some_iff.1 ht, prefaces_of_prefaced hprefaced⟩

/-- A source is compiled from its characters. -/
theorem compile_ofList (cs : List Char) : Template.compile (String.ofList cs) =
    Template.ofReading (Syntax.Script.readFrom 0 (Token.scanFrom cs 0 1)).2 := by
  unfold Template.compile Syntax.Script.ofSource Token.scan
  rw [String.toList_ofList]

/-- The template succeeds on the bytes exactly under the condition, when it is executed from
    their start on the empty wall with the least significant bytes first. Then no brick is
    refused, the bricks lie at the spans, and the execution ends at the offset. -/
structure Lays (template : Template) (bytes : Array UInt8) (condition : Prop) (spans : List Span)
    (stop : Int) : Prop where
  /-- The template succeeds exactly under the condition. -/
  succeeds : (∃ r, (template.execute .empty (.bytes bytes) ⟨0, .little⟩).result = .ok r) ↔ condition
  /-- No brick is refused. -/
  rejected : ∀ r, (template.execute .empty (.bytes bytes) ⟨0, .little⟩).result = .ok r →
    r.rejected = []
  /-- The bricks lie at the spans, in this order. -/
  bricks : ∀ r, (template.execute .empty (.bytes bytes) ⟨0, .little⟩).result = .ok r →
    (template.execute .empty (.bytes bytes) ⟨0, .little⟩).wall.bricks.map Brick.span = spans
  /-- The execution ends at the offset. -/
  stop : ∀ r, (template.execute .empty (.bytes bytes) ⟨0, .little⟩).result = .ok r →
    r.stop.toInt = stop

/-- A template that declares structs in front of fields has the outcome of the fields. -/
theorem Prefaces.lays {P : List Layout → Prop} {fields : List Command} {template : Template}
    {bytes : Array UInt8} {condition : Prop} {spans : List Span} {stop : Int}
    (hprefaces : Prefaces P fields template) (ht : template.IsCompiled)
    (hfields : ∀ layouts, P layouts →
      Sketch.LeadsTo bytes ⟨⟨layouts, []⟩, [], 0⟩ fields condition spans stop) :
    Lays template bytes condition spans stop := by
  obtain ⟨structs, s, hsplit, hconstant, hrun, hlayouts⟩ := hprefaces
  -- The structs were declared without any data, which makes no difference to them.
  rw [← run_of_isConstant hconstant _ ⟨.bytes bytes, .little⟩] at hrun
  have hstart := clean_start ht ⟨.bytes bytes, .little⟩
  rw [hsplit] at hstart
  obtain ⟨hclean, hsketch⟩ := hstart.declares hconstant hrun
  -- What is left of the template are the fields.
  have h := hfields s.store.layouts hlayouts s hclean hsketch
  have hall : template.runOn .empty (.bytes bytes) ⟨0, .little⟩ =
      run ⟨.bytes bytes, .little⟩ s fields := by
    unfold Template.runOn
    rw [hsplit]
    exact run_append hrun
  have hend {r : Report}
      (hr : (template.execute .empty (.bytes bytes) ⟨0, .little⟩).result = .ok r) :
      ∃ t, run ⟨.bytes bytes, .little⟩ s fields = (t, none) ∧ r = t.report ∧
        (template.execute .empty (.bytes bytes) ⟨0, .little⟩).wall = t.wall := by
    rw [← hall]
    exact execute_eq_ok_iff.1 hr
  constructor
  · rw [← h.finishes, ← hall]
    constructor
    · rintro ⟨r, hr⟩
      obtain ⟨t, ht, -⟩ := execute_eq_ok_iff.1 hr
      exact ⟨t, ht⟩
    · rintro ⟨t, ht⟩
      unfold Template.execute
      rw [ht]
      exact ⟨t.report, rfl⟩
  · intro r hr
    obtain ⟨t, ht, rfl, -⟩ := hend hr
    exact (h.leads t ht).1
  · intro r hr
    obtain ⟨t, ht, -, hwall⟩ := hend hr
    rw [hwall]
    exact (h.leads t ht).2.1
  · intro r hr
    obtain ⟨t, ht, rfl, -⟩ := hend hr
    exact (h.leads t ht).2.2

end Execution

end ByteBricks
