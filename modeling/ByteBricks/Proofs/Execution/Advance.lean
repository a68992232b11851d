import ByteBricks.Proofs.Execution.Footprint
import ByteBricks.Proofs.Execution.Pairs
import Mathlib.Algebra.GroupWithZero.Nat

/-! # Starting Further On

  An execution that starts behind the first bytes of its data, and one on the data without
  these bytes. All fields and bricks of the first one lie further on by the number of these
  bytes; the offsets of struct members count from their structs and stay as they are. Main
  statement: on a wall without bricks one execution succeeds exactly if the other one does,
  with the same structs, values and bricks. -/

namespace ByteBricks

/-! ### Views -/

namespace View

/-- The second view is the first one without its first bytes. -/
structure Drops (v : View) (k : Nat) (v' : View) : Prop where
  /-- The first view holds bytes. -/
  left : v.Steady
  /-- The second view holds bytes. -/
  right : v'.Steady
  /-- It is shorter by the number of these bytes. -/
  length : v.length = v'.length + k
  /-- It has the same bytes otherwise. -/
  bytes : ∀ i, v.byte? (i + k) = v'.byte? i

theorem drops_bytes {d : Array UInt8} {k : Nat} (hk : k ≤ d.size) :
    (bytes d).Drops k (bytes (d.drop k)) where
  left := steady_bytes d
  right := steady_bytes (d.drop k)
  length := by
    show d.size = (d.drop k).size + k
    rw [Array.size_extract]
    omega
  bytes := by
    intro i
    show d[i + k]? = (d.drop k)[i]?
    rw [Array.getElem?_extract, Nat.add_comm i]
    split
    · rfl
    · exact Array.getElem?_eq_none (by omega)

end View

/-! ### Bricks and Walls -/

/-- The same brick with as many bytes in front. -/
def Brick.advance (k : Nat) (b : Brick) : Brick := { b with start := ByteBricks.advance k b.start }

/-- The same wall with as many bytes in front of its bricks. -/
def Wall.advance (k : Nat) (w : Wall) : Wall := { w with bricks := w.bricks.map (Brick.advance k) }

/-- The brick covers no bytes but those from the first one up to an offset. -/
structure Brick.Before (b : Brick) (hi : Int) : Prop where
  /-- It does not start in front of them. -/
  start : 0 ≤ b.start.toInt
  /-- It ends within them. -/
  stop : b.start.toInt + b.size.toNat ≤ hi

namespace Brick.Before

variable {b : Brick} {hi : Int} {k : Nat}

theorem toInt_stop (h : b.Before hi) (hmax : hi ≤ Word.int64Max) :
    b.stop.toInt = b.start.toInt + b.size.toNat :=
  Brick.toInt_stop_of_le (Int.le_trans h.stop hmax) h.start

theorem mono {hi' : Int} (h : b.Before hi) (hle : hi ≤ hi') : b.Before hi' :=
  ⟨h.start, Int.le_trans h.stop hle⟩

theorem advance (h : b.Before hi) (hmax : hi + k ≤ Word.int64Max) :
    (b.advance k).Before (hi + k) := by
  obtain ⟨hstart, hstop⟩ := h
  have hoffset : (b.advance k).start.toInt = b.start.toInt + k := toInt_advance (by omega)
  have hsize : (b.advance k).size = b.size := rfl
  constructor
  · omega
  · rw [hoffset, hsize]
    omega

/-- A brick that starts at the offset or behind it is not in the way. -/
theorem stop_le_start {e : Brick} (h : e.Before hi) (hmax : hi ≤ Word.int64Max)
    (hstart : hi ≤ b.start.toInt) : e.stop ≤ b.start := by
  rw [Int64.le_iff_toInt_le, h.toInt_stop hmax]
  exact Int.le_trans h.stop hstart

end Brick.Before

/-- A brick behind all others comes last. -/
theorem Wall.place_of_stop_le {bricks : List Brick} {b : Brick} (hcovers : b.start < b.stop)
    (hbehind : ∀ e ∈ bricks, e.stop ≤ b.start) : Wall.place bricks b = bricks ++ [b] := by
  have hall : ∀ e ∈ bricks, decide (e.start < b.stop) = true := by
    intro e he
    have hle := Int64.le_trans e.start_le_stop (hbehind e he)
    exact decide_eq_true (Int64.lt_of_le_of_lt hle hcovers)
  unfold Wall.place
  rw [List.takeWhile_eq_self_iff.2 hall, List.dropWhile_eq_nil_iff.2 hall]

/-- A brick that a wall takes behind all others is taken with more bytes in front. -/
theorem Wall.insert_advance {w w' : Wall} {b : Brick} {hi : Int} {k : Nat}
    (hbefore : ∀ e ∈ w.bricks, e.Before hi) (hstart : b.start.toInt = hi) (hlo : 0 ≤ hi)
    (hmax : hi + b.size.toNat + k ≤ Word.int64Max) (h : w.insert b = .ok w') :
    w'.bricks = w.bricks ++ [b] ∧ (w.advance k).insert (b.advance k) = .ok (w'.advance k) := by
  obtain ⟨info, hinfo, hsize, hne, hmod, -, rfl⟩ := Wall.insert_eq_ok_iff.1 h
  have hpos : 0 < b.size.toNat := Nat.pos_of_ne_zero fun hzero => hsize (UInt64.toNat_inj.1 hzero)
  have hb : b.Before (hi + b.size.toNat) := ⟨by omega, by omega⟩
  have hb' : (b.advance k).Before (hi + b.size.toNat + k) := hb.advance hmax
  have hstart' : (b.advance k).start.toInt = hi + k := by
    rw [← hstart]
    exact toInt_advance (by omega)
  -- Neither here nor there is another brick in the way or behind.
  have hcovers : b.start < b.stop := by
    rw [Int64.lt_iff_toInt_lt, hb.toInt_stop (by omega)]
    omega
  have hcovers' : (b.advance k).start < (b.advance k).stop := by
    have hsize' : (b.advance k).size = b.size := rfl
    rw [Int64.lt_iff_toInt_lt, hb'.toInt_stop (by omega), hsize']
    omega
  have hbehind : ∀ e ∈ w.bricks, e.stop ≤ b.start := fun e he =>
    (hbefore e he).stop_le_start (by omega) (by omega)
  have hbehind' : ∀ e ∈ (w.advance k).bricks, e.stop ≤ (b.advance k).start := by
    intro e he
    obtain ⟨e', he', rfl⟩ := List.mem_map.1 he
    exact ((hbefore e' he').advance (by omega)).stop_le_start (by omega) (by omega)
  have hplace : Wall.place w.bricks b = w.bricks ++ [b] := Wall.place_of_stop_le hcovers hbehind
  refine ⟨hplace, Wall.insert_eq_ok_iff.2 ⟨info, hinfo, hsize, hne, hmod, ?_, ?_⟩⟩
  · exact fun e he => Brick.not_overlaps_iff.2 (.inr (hbehind' e he))
  · rw [Wall.place_of_stop_le hcovers' hbehind']
    unfold Wall.advance
    dsimp only
    rw [hplace, List.map_append]
    rfl

namespace Execution

open Template (Context Declaration CommandsTyped)

/-- The data without their first bytes. All bytes that there are have offsets. -/
structure Data.Drops (data : Data) (k : Nat) (data' : Data) : Prop where
  /-- The other data are the same but for these bytes. -/
  view : data.view.Drops k data'.view
  /-- Numbers have the same byte order. -/
  order : data.order = data'.order
  /-- The last byte has an offset. -/
  fits : data.view.length ≤ Word.int64Max

/-- The same state with as many bytes in front of its fields and its bricks. -/
def State.advance (k : Nat) (s : State) : State :=
  { s with
    store := s.store.advance k
    wall := s.wall.advance k
    cursor := ByteBricks.advance k s.cursor }

/-! ### Structs -/

/-- Members are laid out without regard to bricks. -/
theorem layOut_advance (data : Data) (store : Store) (k : Nat) (w : Wall) (struct : String)
    (offset : Nat) (ds : List Declaration) :
    layOut data store (w.advance k) struct offset ds = layOut data store w struct offset ds := by
  induction ds generalizing offset with
  | nil => rfl
  | cons d ds ih =>
    rw [layOut, layOut]
    simp only [ih]
    rfl

/-! ### Steps -/

/-- A state of an execution that has found no bricks in the wall but its own. -/
structure Clear (Γ : Context) (data : Data) (rest : List Command) (s : State) : Prop where
  /-- The wall has what the layouts refer to, and room for what is still to come. -/
  ready : Ready rest s
  /-- The commands that are still to come are well typed. -/
  typed : CommandsTyped Γ rest
  /-- The fields lie in front of the cursor. -/
  covers : Covers Γ s data 0
  /-- The cursor lies within the data. -/
  inside : s.cursor.toInt ≤ data.view.length
  /-- The bricks lie in front of the cursor. -/
  before : ∀ b ∈ s.wall.bricks, b.Before s.cursor.toInt
  /-- The wall has taken all bricks. -/
  rejected : s.rejected = []

variable {Γ : Context} {data data' : Data} {s s' : State} {k : Nat} {c : Command}
  {rest : List Command}

/-- What the commands to come read lies in front of the cursor. -/
theorem Clear.footprint (h : Clear Γ data rest s) (hdrops : data'.Drops k data) :
    Footprint Γ s.store data data' k 0 s.cursor.toInt where
  agrees := h.covers.agrees
  between := h.covers.between
  left := hdrops.view.right
  right := hdrops.view.left
  same := fun i _ _ => hdrops.view.bytes i
  length := by
    have hlength := hdrops.view.length
    have hinside := h.inside
    omega
  fits := by
    have hlength := hdrops.view.length
    have hinside := h.inside
    have hfits := hdrops.fits
    omega
  order := hdrops.order

/-- The wall takes the brick of a field behind all others, and so it does with more bytes in
    front. -/
theorem Clear.insertField (h : Clear Γ data rest s) {line : Nat} {name : String}
    {d : Declaration} {e : Extent} {stop : Int64} {answer : Except Rejection Wall}
    (he : extent data s.store d = .ok e) (hne : e.size ≠ 0)
    (hstop : fieldStop s.cursor e.size = some stop) (hmax : stop.toInt + k ≤ Word.int64Max)
    (hanswer : Execution.insertField s.store s.wall line name e s.cursor = .ok answer) :
    ∃ w b, answer = .ok w ∧ w.bricks = s.wall.bricks ++ [b] ∧ b.Before stop.toInt ∧
      Execution.insertField s.store (s.wall.advance k) line name e
        (ByteBricks.advance k s.cursor) = .ok (.ok (w.advance k)) := by
  have hstart := h.covers.start
  obtain ⟨b, rfl, -, hbstart, hbsize, hbstop, -, hagain, hinsert⟩ :=
    insertField_eq_find h.ready.coherent h.ready.coded h.ready.defined.definedIn he hne hstart
      hstop hanswer
  have hend := Word.toInt_of_int64? (fieldStop_eq_some_iff.1 hstop).2
  have hoffset : b.start.toInt = s.cursor.toInt := congrArg Int64.toInt hbstart
  have hnone : s.wall.bricks.find? (·.overlaps b) = none := by
    rw [List.find?_eq_none]
    intro x hx
    have hbehind : x.stop ≤ b.start := (h.before x hx).stop_le_start (by omega) (by omega)
    simpa using Brick.not_overlaps_iff.2 (.inr hbehind)
  rw [hnone] at hinsert
  obtain ⟨hbricks, hadvance⟩ :=
    Wall.insert_advance (k := k) h.before hoffset hstart (by omega) hinsert
  refine ⟨_, b, hinsert, hbricks, ⟨by omega, by omega⟩, ?_⟩
  rw [hagain (s.wall.advance k) (ByteBricks.advance k s.cursor) rfl, ← hbstart]
  exact congrArg Except.ok hadvance

theorem Clear.step (h : Clear Γ data (c :: rest) s) (hstep : step data s c = .ok s') :
    Clear (Γ.after c) data rest s' := by
  have hcovers := h.covers.step h.typed.1 hstep
  have hready := h.ready.step hstep
  have htyped := h.typed.2
  cases c with
  | declare line struct members =>
    obtain ⟨body, index, wall, -, hfound, rfl⟩ := declareStruct_eq_ok_iff.1 hstep
    obtain ⟨-, hbricks, -⟩ := definitions_of_obtain h.ready.coherent hfound
    refine ⟨hready, htyped, hcovers, h.inside, ?_, h.rejected⟩
    show ∀ b ∈ wall.bricks, b.Before s.cursor.toInt
    rw [hbricks]
    exact h.before
  | evaluate e =>
    obtain ⟨value, -, rfl⟩ := noteValue_eq_ok_iff.1 hstep
    exact ⟨hready, htyped, hcovers, h.inside, h.before, h.rejected⟩
  | place d =>
    obtain ⟨e, he, ⟨-, rfl⟩ | ⟨hne, stop, answer, hstop, hbounds, hanswer, rfl⟩⟩ :=
      placeField_eq_ok_iff.1 hstep
    · exact ⟨hready, htyped, hcovers, h.inside, h.before, h.rejected⟩
    · obtain ⟨-, -, hlength⟩ := checkBounds_eq_ok_iff.1 hbounds
      have hmax : stop.toInt + (0 : Nat) ≤ Word.int64Max := by
        have hlt : stop.toInt < 2 ^ 63 := stop.toInt_lt
        unfold Word.int64Max
        omega
      have hend := Word.toInt_of_int64? (fieldStop_eq_some_iff.1 hstop).2
      obtain ⟨w, b, rfl, hbricks, hb, -⟩ := h.insertField he hne hstop hmax hanswer
      refine ⟨hready, htyped, hcovers, hlength, ?_, h.rejected⟩
      show ∀ x ∈ w.bricks, x.Before stop.toInt
      rw [hbricks]
      intro x hx
      rcases List.mem_append.1 hx with hx | hx
      · exact (h.before x hx).mono (by omega)
      · rw [List.mem_singleton.1 hx]
        exact hb

theorem Clear.declareStruct_advance {line : Nat} {struct : String} {members : List Declaration}
    (h : Clear Γ data (.declare line struct members :: rest) s) (hdrops : data'.Drops k data) :
    declareStruct data' (s.advance k) line struct members =
      (declareStruct data s line struct members).map (State.advance k) := by
  obtain ⟨-, -, htyped, -⟩ := h.typed.1
  have hbody : layOut data' (s.advance k).store (s.advance k).wall struct 0 members =
      layOut data s.store s.wall struct 0 members :=
    (layOut_advance data' _ k s.wall struct 0 members).trans
      ((h.footprint hdrops).layOut s.wall struct 0 fun d hd => (htyped d hd).1)
  unfold declareStruct
  rw [hbody]
  cases layOut data s.store s.wall struct 0 members with
  | error halt => rfl
  | ok body =>
    have hobtain : obtainDefinition (s.advance k).wall line struct body.bricks = _ :=
      obtainDefinition_mapBricks (List.map (Brick.advance k)) s.wall line struct body.bricks
    simp only [bind, Except.bind, hobtain]
    cases obtainDefinition s.wall line struct body.bricks <;> rfl

theorem Clear.noteValue_advance {e : Template.Expr} (h : Clear Γ data (.evaluate e :: rest) s)
    (hdrops : data'.Drops k data) :
    noteValue data' (s.advance k) e = (noteValue data s e).map (State.advance k) := by
  have hvalue : eval data' (s.advance k).store e = eval data s.store e :=
    (h.footprint hdrops).eval h.typed.1
  unfold noteValue
  rw [hvalue]
  cases eval data s.store e <;> rfl

/-- A field that ends within the data does so with more bytes in front. -/
theorem fieldStop_advance {start stop : Int64} {size : Nat} (h : fieldStop start size = some stop)
    (hstart : start.toInt + k ≤ Word.int64Max) (hmax : stop.toInt + k ≤ Word.int64Max) :
    fieldStop (ByteBricks.advance k start) size = some (ByteBricks.advance k stop) := by
  obtain ⟨hsize, hstop⟩ := fieldStop_eq_some_iff.1 h
  have hend := Word.toInt_of_int64? hstop
  apply fieldStop_eq_some_iff.2
  refine ⟨hsize, ?_⟩
  rw [toInt_advance hstart, Int.add_right_comm]
  exact int64?_advance hstop (by omega)

/-- A field that has an end with more bytes in front has one without them. -/
theorem fieldStop_of_advance {start stop' : Int64} {size : Nat} (hlo : 0 ≤ start.toInt)
    (hstart : start.toInt + k ≤ Word.int64Max)
    (h : fieldStop (ByteBricks.advance k start) size = some stop') :
    ∃ stop, fieldStop start size = some stop ∧ stop'.toInt = stop.toInt + k := by
  obtain ⟨hsize, hstop'⟩ := fieldStop_eq_some_iff.1 h
  obtain ⟨-, hmax, -⟩ := Word.int64?_eq_some_iff.1 hstop'
  have hend' := Word.toInt_of_int64? hstop'
  rw [toInt_advance hstart] at hmax hend'
  have hmin : Word.int64Min ≤ 0 := by decide
  have hstop : Word.int64? (start.toInt + size) = some (Int64.ofInt (start.toInt + size)) :=
    if_pos ⟨by omega, by omega⟩
  refine ⟨_, fieldStop_eq_some_iff.2 ⟨hsize, hstop⟩, ?_⟩
  rw [hend', Word.toInt_of_int64? hstop]
  omega

theorem Clear.placeField_advance {d : Declaration} (h : Clear Γ data (.place d :: rest) s)
    (hdrops : data'.Drops k data) (hstep : placeField data s d = .ok s') :
    placeField data' (s.advance k) d = .ok (s'.advance k) := by
  have hfoot := h.footprint hdrops
  have hfits := hfoot.fits
  have hmoved : (ByteBricks.advance k s.cursor).toInt = s.cursor.toInt + k := toInt_advance hfits
  obtain ⟨e, he, hcases⟩ := placeField_eq_ok_iff.1 hstep
  refine placeField_eq_ok_iff.2 ⟨e, (hfoot.extent h.typed.1).trans he, ?_⟩
  rcases hcases with ⟨hzero, rfl⟩ | ⟨hne, stop, answer, hstop, hbounds, hanswer, rfl⟩
  · exact .inl ⟨hzero, rfl⟩
  · obtain ⟨hlo, hend, hlength⟩ := checkBounds_eq_ok_iff.1 hbounds
    have hlength' := hdrops.view.length
    have hview := hdrops.fits
    have hmax : stop.toInt + k ≤ Word.int64Max := by omega
    have hmoved' : (ByteBricks.advance k stop).toInt = stop.toInt + k := toInt_advance hmax
    obtain ⟨w, b, rfl, -, -, hanswer'⟩ := h.insertField he hne hstop hmax hanswer
    refine .inr ⟨hne, ByteBricks.advance k stop, .ok (w.advance k),
      fieldStop_advance hstop hfits hmax, checkBounds_eq_ok_iff.2 ?_, hanswer', rfl⟩
    show 0 ≤ (ByteBricks.advance k s.cursor).toInt ∧ _
    omega

theorem Clear.placeField_of_advance {d : Declaration} (h : Clear Γ data (.place d :: rest) s)
    (hdrops : data'.Drops k data) (hstep : placeField data' (s.advance k) d = .ok s') :
    ∃ t, placeField data s d = .ok t := by
  have hfoot := h.footprint hdrops
  have hstart := h.covers.start
  obtain ⟨e, he', hcases⟩ := placeField_eq_ok_iff.1 hstep
  have he : extent data s.store d = .ok e := (hfoot.extent h.typed.1).symm.trans he'
  rcases hcases with ⟨hzero, -⟩ | ⟨hne, stop', answer', hstop', hbounds', hanswer', -⟩
  · exact ⟨_, placeField_eq_ok_iff.2 ⟨e, he, .inl ⟨hzero, rfl⟩⟩⟩
  · obtain ⟨-, -, hlength'⟩ := checkBounds_eq_ok_iff.1 hbounds'
    have hlength := hdrops.view.length
    obtain ⟨stop, hstop, hend⟩ := fieldStop_of_advance hstart hfoot.fits hstop'
    have hsum := Word.toInt_of_int64? (fieldStop_eq_some_iff.1 hstop).2
    have hbounds : checkBounds data.view d.mark.line d.name.text s.cursor stop = .ok () :=
      checkBounds_eq_ok_iff.2 ⟨hstart, by omega, by omega⟩
    obtain ⟨answer, hanswer⟩ := insertField_isOk hanswer' s.wall s.cursor
    exact ⟨_, placeField_eq_ok_iff.2
      ⟨e, he, .inr ⟨hne, stop, answer, hstop, hbounds, hanswer, rfl⟩⟩⟩

theorem Clear.step_advance (h : Clear Γ data (c :: rest) s) (hdrops : data'.Drops k data) :
    Related (fun _ _ => True) (fun t t' => t' = t.advance k) (Execution.step data s c)
      (Execution.step data' (s.advance k) c) := by
  cases c with
  | declare line struct members => exact related_map (h.declareStruct_advance hdrops)
  | evaluate e => exact related_map (h.noteValue_advance hdrops)
  | place d =>
    exact related_of_ok (fun t ht => ⟨_, h.placeField_advance hdrops ht, rfl⟩)
      fun t' ht' => h.placeField_of_advance hdrops ht'

/-- A command succeeds exactly if it does so with more bytes in front, and leads to the same state
    but for these bytes. -/
theorem Clear.advance_step (hdrops : data'.Drops k data)
    (h : s' = s.advance k ∧ ∃ Γ, Clear Γ data (c :: rest) s) :
    Related (fun _ _ => True) (fun t t' => t' = t.advance k ∧ ∃ Γ, Clear Γ data rest t)
      (Execution.step data s c) (Execution.step data' s' c) := by
  obtain ⟨rfl, Γ, h⟩ := h
  exact (h.step_advance hdrops).imp fun t t' ht _ hadvance => ⟨hadvance, _, h.step ht⟩

/-! ### Executions -/

/-- A start further on has nothing in front of it that could have moved. -/
theorem start_advance (k : Nat) {w : Wall} (hempty : w.bricks = []) :
    State.start w (Int64.ofNat k) = (State.start w 0).advance k := by
  have hwall : w.advance k = w := by
    obtain ⟨bricks, definitions, types⟩ := w
    cases hempty
    rfl
  have hcursor : ByteBricks.advance k 0 = Int64.ofNat k := by
    unfold ByteBricks.advance
    rw [Int64.toInt_zero, Int.zero_add, Int64.ofInt_eq_ofNat]
  unfold State.advance State.start
  dsimp only
  rw [hwall, hcursor]
  rfl

theorem clear_start {template : Template} (ht : template.IsCompiled) {w : Wall}
    (hw : w.Reachable) (hempty : w.bricks = []) (data : Data) :
    Clear .empty data (commandsOf template.statements) (.start w 0) where
  ready := ready_start ht hw 0
  typed := by
    obtain ⟨source, hsource⟩ := ht
    exact (Template.typed_of_compile hsource).1
  covers := covers_start w 0 data
  inside := Int.natCast_nonneg _
  before := by
    intro b hb
    have hnil : b ∈ ([] : List Brick) := hempty ▸ hb
    cases hnil
  rejected := rfl

/-- What two executions have in common, of which the second one has a number of bytes in front. -/
structure Advanced (k : Nat) (o o' : Outcome) : Prop where
  /-- Both get to their ends, or none of them does. -/
  succeeds : (∃ r', o'.result = .ok r') ↔ ∃ r, o.result = .ok r
  /-- They place the same number of bricks, none of which is rejected, and declare the same
      number of structs. The second one ends as many bytes further on. -/
  reports : ∀ r r', o.result = .ok r → o'.result = .ok r' →
    r'.placed = r.placed ∧ r.rejected = [] ∧ r'.rejected = [] ∧ r'.defined = r.defined ∧
      r'.stop.toInt = r.stop.toInt + k
  /-- The expressions have the same values, in the same order. -/
  values : ∀ r, o.result = .ok r → o'.values = o.values
  /-- The walls have the same structs. -/
  definitions : ∀ r, o.result = .ok r → o'.wall.definitions = o.wall.definitions
  /-- The walls have the same bricks in the same order, but for their starts. -/
  bricks : ∀ r, o.result = .ok r → List.Forall₂
    (fun b b' : Brick => b'.start.toInt = b.start.toInt + k ∧ b' = { b with start := b'.start })
    o.wall.bricks o'.wall.bricks

/-- **Main theorem.** On a wall without bricks, an execution that starts behind the first bytes of
    its data does what the one on the data without these bytes does. -/
theorem execute_drop {template : Template} (ht : template.IsCompiled) {w : Wall}
    (hw : w.Reachable) (hempty : w.bricks = []) {d : Array UInt8} (hd : d.size < 2 ^ 63) {k : Nat}
    (hk : k ≤ d.size) (order : ByteOrder) :
    Advanced k (template.execute w (.bytes (d.drop k)) ⟨0, order⟩)
      (template.execute w (.bytes d) ⟨Int64.ofNat k, order⟩) := by
  have hdrops : Data.Drops ⟨.bytes d, order⟩ k ⟨.bytes (d.drop k), order⟩ := by
    refine ⟨View.drops_bytes hk, rfl, ?_⟩
    show (d.size : Int) ≤ Word.int64Max
    unfold Word.int64Max
    omega
  have hclear := clear_start ht hw hempty ⟨.bytes (d.drop k), order⟩
  rcases related_run (R := fun rest s s' => s' = s.advance k ∧ ∃ Γ, Clear Γ _ rest s)
      (fun c rest s s' => Clear.advance_step hdrops) ⟨start_advance k hempty, _, hclear⟩ with
    ⟨t, t', hrun, hrun', rfl, Γ, hclear⟩ | ⟨t, t', halt, halt', hrun, hrun', -⟩
  · have hleft : template.runOn w (.bytes (d.drop k)) ⟨0, order⟩ = (t, none) := hrun
    have hright : template.runOn w (.bytes d) ⟨Int64.ofNat k, order⟩ = (t.advance k, none) := hrun'
    unfold Template.execute
    rw [hleft, hright]
    constructor
    case succeeds => exact iff_of_true ⟨_, rfl⟩ ⟨_, rfl⟩
    case reports =>
      intro r r' hr hr'
      cases hr
      cases hr'
      exact ⟨rfl, hclear.rejected, hclear.rejected, rfl,
        toInt_advance (hclear.footprint hdrops).fits⟩
    case values => exact fun _ _ => rfl
    case definitions => exact fun _ _ => rfl
    case bricks =>
      intro r _
      show List.Forall₂ _ t.wall.bricks (t.wall.bricks.map (Brick.advance k))
      rw [List.forall₂_map_right_iff, List.forall₂_same]
      intro b hb
      have hstop := (hclear.before b hb).stop
      have hfits := (hclear.footprint hdrops).fits
      exact ⟨toInt_advance (by omega), rfl⟩
  · have hleft : template.runOn w (.bytes (d.drop k)) ⟨0, order⟩ = (t, some halt) := hrun
    have hright : template.runOn w (.bytes d) ⟨Int64.ofNat k, order⟩ = (t', some halt') := hrun'
    unfold Template.execute
    rw [hleft, hright]
    constructor <;> simp

/-- The front of the data may hold what it likes, on a wall that has structs but no bricks. -/
theorem windowed_drop :
    windowed.IsCompiled ∧ shadowed.Reachable ∧ shadowed.bricks = [] ∧
      (windowed.execute shadowed (.bytes #[9, 2, 1, 5, 6, 7]) ⟨1, .little⟩).result.isOk = true ∧
      Advanced 1
        (windowed.execute shadowed (.bytes (Array.drop #[9, 2, 1, 5, 6, 7] 1)) ⟨0, .little⟩)
        (windowed.execute shadowed (.bytes #[9, 2, 1, 5, 6, 7]) ⟨Int64.ofNat 1, .little⟩) := by
  have hcompiled : windowed.IsCompiled := Template.isCompiled_ofSource (by decide +kernel)
  have hempty : shadowed.bricks = [] := by decide +kernel
  refine ⟨hcompiled, shadowed_reachable, hempty, by decide +kernel, ?_⟩
  exact execute_drop hcompiled shadowed_reachable hempty (by decide) (by decide) .little

end Execution

end ByteBricks
