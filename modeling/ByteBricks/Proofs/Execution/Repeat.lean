import ByteBricks.Proofs.Execution.Ledger
import ByteBricks.Proofs.Execution.Reuse

/-! # Executing a Template Again

  What a second execution of a template does on the wall that the first one left, with
  the same data and options. It finds the definitions of the first execution, and each
  of its bricks meets the brick of the first execution or the one that kept that brick
  out. Main statement: the wall stays as it is, and all bricks are rejected.

  Struct names that are the same when cut to the size of a label hide each other's
  definitions, so they have to be told apart by their labels. -/

namespace ByteBricks

/-- The name of the struct that a command declares. -/
def Execution.Command.struct? : Command → Option String
  | .declare _ struct _ => some struct
  | .place _ | .evaluate _ => none

/-- The names of the structs that a template declares, in their order. -/
def Template.structNames (t : Template) : List String :=
  (Execution.commandsOf t.statements).filterMap Execution.Command.struct?

namespace Execution

open Template (Declaration)

variable {data : Data} {s t : State} {w w' : Wall} {store : Store}

/-! ### What a Run Adds to a Wall -/

/-- A command adds a definition under the label of the struct that it declares, or none. -/
theorem definitions_of_step {c : Command} (h : step data s c = .ok t) :
    ∃ ds, t.wall.definitions = s.wall.definitions ++ ds ∧
      (ds.map (·.name)).Sublist (c.struct?.toList.map Label.ofString) := by
  cases c with
  | declare line struct members =>
    obtain ⟨body, index, wall, -, hfound, rfl⟩ := declareStruct_eq_ok_iff.1 h
    rcases obtainDefinition_eq_ok_iff.1 hfound with ⟨-, rfl⟩ | ⟨-, -, hadd⟩
    · exact ⟨[], (List.append_nil _).symm, List.nil_sublist _⟩
    · obtain ⟨d, rfl, hname, -⟩ := addDefinition_eq_some hadd
      refine ⟨[d], rfl, ?_⟩
      show [d.name].Sublist [Label.ofString struct]
      rw [hname]
  | place d =>
    refine ⟨[], ?_, List.nil_sublist _⟩
    rw [List.append_nil]
    obtain ⟨e, -, ⟨-, rfl⟩ | ⟨-, stop, answer, -, -, hanswer, rfl⟩⟩ := placeField_eq_ok_iff.1 h
    · rfl
    · cases answer with
      | ok wall => exact definitions_of_insertField hanswer
      | error rejection => rfl
  | evaluate e =>
    obtain ⟨value, -, rfl⟩ := noteValue_eq_ok_iff.1 h
    exact ⟨[], (List.append_nil _).symm, List.nil_sublist _⟩

/-- A run adds definitions under labels of the structs that its commands declare, in their
    order, whether it gets to its end or not. -/
theorem definitions_of_run {commands : List Command} {last : State × Option Halt}
    (h : run data s commands = last) :
    ∃ ds, last.1.wall.definitions = s.wall.definitions ++ ds ∧
      (ds.map (·.name)).Sublist ((commands.filterMap Command.struct?).map Label.ofString) := by
  induction commands generalizing s with
  | nil =>
    cases h
    exact ⟨[], (List.append_nil _).symm, List.nil_sublist _⟩
  | cons c rest ih =>
    cases hstep : step data s c with
    | error halt =>
      rw [run_cons_of_error hstep] at h
      cases h
      exact ⟨[], (List.append_nil _).symm, List.nil_sublist _⟩
    | ok u =>
      rw [run_cons_of_ok hstep] at h
      obtain ⟨ds, hds, hnames⟩ := definitions_of_step hstep
      obtain ⟨ds', hds', hnames'⟩ := ih h
      refine ⟨ds ++ ds', ?_, ?_⟩
      · rw [hds', hds, List.append_assoc]
      · have hcommands : (c :: rest).filterMap Command.struct? =
            c.struct?.toList ++ rest.filterMap Command.struct? := by
          cases hstruct : c.struct? <;> simp [hstruct]
        rw [hcommands, List.map_append, List.map_append]
        exact hnames.append hnames'

/-- No command takes a brick from the wall. -/
theorem bricks_of_step (hw : s.wall.Coherent) {c : Command} (h : step data s c = .ok t) :
    ∀ b ∈ s.wall.bricks, b ∈ t.wall.bricks := by
  intro b hb
  cases c with
  | declare line struct members =>
    obtain ⟨body, index, wall, -, hfound, rfl⟩ := declareStruct_eq_ok_iff.1 h
    obtain ⟨-, hbricks, -⟩ := definitions_of_obtain hw hfound
    show b ∈ wall.bricks
    rw [hbricks]
    exact hb
  | place d =>
    obtain ⟨e, -, ⟨-, rfl⟩ | ⟨-, stop, answer, -, -, hanswer, rfl⟩⟩ := placeField_eq_ok_iff.1 h
    · exact hb
    · cases answer with
      | error rejection => exact hb
      | ok wall =>
        obtain ⟨b', hinsert⟩ := insert_of_insertField hanswer
        obtain ⟨-, -, -, -, -, -, rfl⟩ := Wall.insert_eq_ok_iff.1 hinsert
        exact Wall.mem_place.2 (.inr hb)
  | evaluate e =>
    obtain ⟨value, -, rfl⟩ := noteValue_eq_ok_iff.1 h
    exact hb

theorem bricks_of_run (hw : s.wall.Coherent) {commands : List Command}
    (h : run data s commands = (t, none)) : ∀ b ∈ s.wall.bricks, b ∈ t.wall.bricks := by
  induction commands generalizing s with
  | nil =>
    cases h
    exact fun b hb => hb
  | cons c rest ih =>
    obtain ⟨u, hstep, hrest⟩ := run_cons_eq_none h
    exact fun b hb => ih (hw.step hstep) hrest b (bricks_of_step hw hstep b hb)

/-! ### Structs -/

/-- The bricks of a struct's members only depend on the definitions that the layouts refer
    to. -/
theorem layOut_of_prefix (hdefined : ∀ l ∈ store.layouts, l.DefinedIn w)
    (hgrow : w.definitions <+: w'.definitions) {struct : String} {offset : Nat}
    {ds : List Declaration} {body : Body} (h : layOut data store w struct offset ds = .ok body) :
    layOut data store w' struct offset ds = .ok body := by
  have hbrick {name : String} {e : Extent} {start : Int64} :
      memberBrick store w' name e start = memberBrick store w name e start := by
    unfold memberBrick
    cases e.element with
    | primitive t => rfl
    | struct i =>
      dsimp only
      cases hl : store.layout i with
      | error halt => rfl
      | ok l =>
        -- The colour of a member is that of its definition, which both walls have.
        obtain ⟨d, hd, -⟩ := hdefined l (List.mem_of_getElem? (layout_eq_ok_iff.1 hl))
        have hd' := getElem?_of_prefix hgrow hd
        simp only [bind, Except.bind, hd, hd']
  have hbricks {name : String} {e : Extent} {start : Int64} :
      memberBricks store w' name e start = memberBricks store w name e start := by
    unfold memberBricks
    rw [hbrick]
  induction ds generalizing offset body with
  | nil => exact h
  | cons d ds ih =>
    obtain ⟨e, start, bricks, tail, he, hstart, hmember, hfits, htail, rfl⟩ :=
      layOut_cons_eq_ok_iff.1 h
    rw [← hbricks] at hmember
    exact layOut_cons_eq_ok_iff.2
      ⟨e, start, bricks, tail, he, hstart, hmember, hfits, ih htail, rfl⟩

/-- The definition that is obtained for a struct is the newest of its name afterwards. -/
theorem isNewest_of_obtain {line : Nat} {struct : String} {members : List Brick} {i : Nat}
    (h : obtainDefinition w line struct members = .ok (i, w')) : IsNewest w' i struct members := by
  rcases obtainDefinition_eq_ok_iff.1 h with ⟨hreuse, rfl⟩ | ⟨-, rfl, hadd⟩
  · exact reusable?_eq_some_iff_isNewest.1 hreuse
  · obtain ⟨d, rfl, hname, -, hmembers, -⟩ := addDefinition_eq_some hadd
    refine ⟨⟨d, by simp, hname, hmembers⟩, ?_⟩
    intro j d' hj hd'
    have hlt := (List.getElem?_eq_some_iff.1 hd').1
    simp only [Wall.redefine_definitions, List.length_append, List.length_singleton] at hlt
    omega

/-- It remains the newest while no definition of its name is added. -/
theorem IsNewest.append {struct : String} {members : List Brick} {i : Nat}
    (h : IsNewest w i struct members) {ds : List Definition}
    (hds : w'.definitions = w.definitions ++ ds)
    (hother : ∀ d ∈ ds, d.name ≠ Label.ofString struct) : IsNewest w' i struct members := by
  obtain ⟨⟨d, hd, hname, hmembers⟩, hlast⟩ := h
  have hlt := (List.getElem?_eq_some_iff.1 hd).1
  refine ⟨⟨d, ?_, hname, hmembers⟩, ?_⟩
  · rw [hds, List.getElem?_append_left hlt]
    exact hd
  · intro j d' hj hd'
    rw [hds] at hd'
    by_cases hin : j < w.definitions.length
    · rw [List.getElem?_append_left hin] at hd'
      exact hlast j d' hj hd'
    · rw [List.getElem?_append_right (Nat.le_of_not_lt hin)] at hd'
      exact hother d' (List.mem_of_getElem? hd')

/-! ### Fields -/

/-- Whether a brick can be asked for does not depend on the wall, nor on its offset. -/
theorem insertField_isOk {line : Nat} {name : String} {e : Extent} {start : Int64}
    {answer : Except Rejection Wall} (h : insertField store w line name e start = .ok answer)
    (w' : Wall) (start' : Int64) :
    ∃ answer', insertField store w' line name e start' = .ok answer' := by
  unfold insertField at *
  cases helement : e.element with
  | primitive t => exact ⟨_, rfl⟩
  | struct i =>
    simp only [helement] at h
    split at h
    · next hcount =>
      obtain ⟨l, hl, -⟩ := bind_eq_ok.1 h
      dsimp only
      rw [if_pos hcount, hl]
      exact ⟨_, rfl⟩
    · simp at h

/-- Whether two bricks overlap only depends on where they start and end. -/
theorem overlaps_congr {e b b' : Brick} (hstart : b'.start = b.start) (hsize : b'.size = b.size) :
    e.overlaps b' = e.overlaps b := by
  unfold Brick.overlaps Brick.stop
  rw [hstart, hsize]

/-- A wall refuses a brick where another wall has placed or refused one of the same extent,
    if it has all bricks that the other wall has afterwards. -/
theorem overlap_again {b b' : Brick} {answer : Except Rejection Wall}
    (hstart : b'.start = b.start) (hsize : b'.size = b.size) (hcovers : b.start < b.stop)
    (hanswer : answer = match w.bricks.find? (·.overlaps b) with
      | some existing => .error (.overlap b.name existing.name)
      | none => .ok { w with bricks := Wall.place w.bricks b })
    (hold : ∀ e ∈ w.bricks, e ∈ w'.bricks) (hnew : ∀ v, answer = .ok v → ∀ e ∈ v.bricks,
      e ∈ w'.bricks) : ∃ e, w'.bricks.find? (·.overlaps b') = some e := by
  have hmeets : ∃ e ∈ w'.bricks, e.overlaps b' = true := by
    cases hfind : w.bricks.find? (·.overlaps b) with
    | some e =>
      have hoverlaps : e.overlaps b = true := by simpa using List.find?_some hfind
      refine ⟨e, hold e (List.mem_of_find?_eq_some hfind), ?_⟩
      rw [overlaps_congr hstart hsize]
      exact hoverlaps
    | none =>
      -- The brick was placed, and one of the same extent meets it.
      rw [hfind] at hanswer
      refine ⟨b, hnew _ hanswer b (Wall.mem_place.2 (.inl rfl)), ?_⟩
      rw [overlaps_congr hstart hsize]
      simp [Brick.overlaps, hcovers]
  obtain ⟨e, he, hoverlaps⟩ := hmeets
  exact Option.isSome_iff_exists.1 (List.find?_isSome.2 ⟨e, he, hoverlaps⟩)

/-- A later wall refuses a field that was asked for before: its brick, or what kept it out,
    is in the way. -/
theorem insertField_again {line : Nat} {name : String} {d : Declaration} {e : Extent}
    {start stop : Int64} {answer : Except Rejection Wall} (hw : w.Coherent) (hcoded : w.Coded)
    (hw' : w'.Coherent) (hcoded' : w'.Coded) (hdefined : ∀ l ∈ store.layouts, l.DefinedIn w)
    (hgrow : w.definitions <+: w'.definitions) (he : extent data store d = .ok e)
    (hne : e.size ≠ 0) (hstart : 0 ≤ start.toInt) (hstop : fieldStop start e.size = some stop)
    (h : insertField store w line name e start = .ok answer)
    (hold : ∀ b ∈ w.bricks, b ∈ w'.bricks)
    (hnew : ∀ v, answer = .ok v → ∀ b ∈ v.bricks, b ∈ w'.bricks) :
    ∃ new existing,
      insertField store w' line name e start = .ok (.error (.overlap new existing)) := by
  obtain ⟨answer', h'⟩ := insertField_isOk h w' start
  obtain ⟨b, hb, -, hbstart, hbsize, hbstop, -, -, hinsert⟩ :=
    insertField_eq_find hw hcoded hdefined he hne hstart hstop h
  obtain ⟨b', hb', -, hbstart', hbsize', -, -, -, hinsert'⟩ :=
    insertField_eq_find hw' hcoded' (fun l hl => (hdefined l hl).mono hgrow) he hne hstart hstop h'
  have hcovers : b.start < b.stop := by
    rw [Int64.lt_iff_toInt_lt, hbstop, hbstart]
    omega
  have hsize : b'.size = b.size := UInt64.toNat_inj.1 (hbsize'.trans hbsize.symm)
  obtain ⟨existing, hfind⟩ :=
    overlap_again (hbstart'.trans hbstart.symm) hsize hcovers (hb.trans hinsert) hold hnew
  rw [hfind] at hinsert'
  exact ⟨_, _, h'.trans (congrArg Except.ok (hb'.trans hinsert'))⟩

/-! ### Steps -/

/-- The states of two executions at the same command, the second of which is on the wall
    that the first one leaves at its end. -/
structure Repeats (s s' : State) (final : Wall) : Prop where
  /-- The structs and fields are the same. -/
  store : s'.store = s.store
  /-- The next field is at the same offset. -/
  cursor : s'.cursor = s.cursor
  /-- The expressions have had the same values. -/
  values : s'.values = s.values
  /-- As many structs are declared. -/
  defined : s'.defined = s.defined
  /-- The wall is as it was at the start. -/
  wall : s'.wall = final
  /-- No brick is placed. -/
  placed : s'.placed = 0
  /-- As many bricks are rejected as the first execution has asked for. -/
  rejected : s'.rejected.length = s.placed + s.rejected.length
  /-- A brick is only rejected because it overlaps another one. -/
  overlaps : ∀ r ∈ s'.rejected, ∃ new existing, r = .overlap new existing

/-- What the first execution still does after a command. -/
structure Ahead (data : Data) (t : State) (rest : List Command) (final : Wall) : Prop where
  /-- It goes on to its end. -/
  run : ∃ u, Execution.run data t rest = (u, none) ∧ u.wall = final
  /-- The wall at the end is coherent. -/
  coherent : final.Coherent
  /-- It has a type code for each of its definitions. -/
  coded : final.Coded

variable {s' : State} {final : Wall} {rest : List Command}

theorem Repeats.declareStruct (h : Repeats s s' final) (hs : s.Defined) (hw : s.wall.Coherent)
    {line : Nat} {struct : String} {members : List Declaration}
    (hstep : declareStruct data s line struct members = .ok t) (hahead : Ahead data t rest final)
    (hfresh : Label.ofString struct ∉ (rest.filterMap Command.struct?).map Label.ofString) :
    ∃ t', declareStruct data s' line struct members = .ok t' ∧ Repeats t t' final := by
  obtain ⟨body, i, wall, hbody, hfound, rfl⟩ := declareStruct_eq_ok_iff.1 hstep
  obtain ⟨u, hrest, rfl⟩ := hahead.run
  obtain ⟨ds, hds, hnames⟩ := definitions_of_run hrest
  obtain ⟨hgrow, -, -⟩ := definitions_of_obtain hw hfound
  have hprefix : s.wall.definitions <+: u.wall.definitions := by
    rw [hds]
    exact hgrow.trans (List.prefix_append _ _)
  have hbody' := layOut_of_prefix hs.definedIn hprefix hbody
  -- No later command declares a struct of the same label.
  have hother : ∀ d ∈ ds, d.name ≠ Label.ofString struct := by
    intro d hd heq
    have hmem := hnames.subset (List.mem_map_of_mem (f := (·.name)) hd)
    rw [heq] at hmem
    exact hfresh hmem
  have hnewest := (isNewest_of_obtain hfound).append hds hother
  have hfound' : obtainDefinition u.wall line struct body.bricks = .ok (i, u.wall) :=
    obtainDefinition_eq_ok_iff.2 (.inl ⟨reusable?_eq_some_iff_isNewest.2 hnewest, rfl⟩)
  rw [← h.store, ← h.wall] at hbody'
  rw [← h.wall] at hfound'
  refine ⟨_, declareStruct_eq_ok_iff.2 ⟨body, i, _, hbody', hfound', rfl⟩, ?_⟩
  constructor
  case store =>
    show (⟨s'.store.layouts ++ _, s'.store.fields⟩ : Store) = ⟨s.store.layouts ++ _, s.store.fields⟩
    rw [h.store]
  case cursor => exact h.cursor
  case values => exact h.values
  case defined => exact congrArg (· + 1) h.defined
  case wall => exact h.wall
  case placed => exact h.placed
  case rejected => exact h.rejected
  case overlaps => exact h.overlaps

/-- The same field is added in both executions. -/
theorem Repeats.addField (h : Repeats s s' final) (f : Field) :
    Repeats (s.addField f) (s'.addField f) final where
  store := by
    show (⟨s'.store.layouts, f :: s'.store.fields⟩ : Store) = ⟨s.store.layouts, f :: s.store.fields⟩
    rw [h.store]
  cursor := h.cursor
  values := h.values
  defined := h.defined
  wall := h.wall
  placed := h.placed
  rejected := h.rejected
  overlaps := h.overlaps

/-- Whatever the first execution was answered, the second one notes that a brick is in the way. -/
theorem Repeats.note (h : Repeats s s' final) (answer : Except Rejection Wall)
    (new existing : Label) (stop : Int64) :
    Repeats { s.note answer with cursor := stop }
      { s'.note (.error (.overlap new existing)) with cursor := stop } final where
  store := by
    rw [note_store, note_store]
    exact h.store
  cursor := rfl
  values := by cases answer <;> exact h.values
  defined := by cases answer <;> exact h.defined
  wall := h.wall
  placed := h.placed
  rejected := by
    have hlength := h.rejected
    cases answer <;> simp [State.note] <;> omega
  overlaps := by
    intro r hr
    rcases List.mem_append.1 hr with hr | hr
    · exact h.overlaps r hr
    · exact ⟨_, _, List.mem_singleton.1 hr⟩

theorem Repeats.placeField (h : Repeats s s' final) (hs : s.Defined) (hw : s.wall.Coherent)
    (hcoded : s.wall.Coded) {d : Declaration} (hstep : placeField data s d = .ok t)
    (hahead : Ahead data t rest final) :
    ∃ t', placeField data s' d = .ok t' ∧ Repeats t t' final := by
  obtain ⟨e, he, hcases⟩ := placeField_eq_ok_iff.1 hstep
  have he' : extent data s'.store d = .ok e := by
    rw [h.store]
    exact he
  rcases hcases with ⟨hzero, rfl⟩ | ⟨hne, stop, answer, hstop, hbounds, hanswer, ht⟩
  · refine ⟨_, placeField_eq_ok_iff.2 ⟨e, he', .inl ⟨hzero, rfl⟩⟩, ?_⟩
    rw [h.cursor]
    exact h.addField _
  · have hgrow : s.wall.definitions <+: final.definitions := by
      obtain ⟨u, hrest, rfl⟩ := hahead.run
      obtain ⟨ds, hds, -⟩ := definitions_of_step (c := .place d) hstep
      obtain ⟨ds', hds', -⟩ := definitions_of_run hrest
      rw [hds', hds, List.append_assoc]
      exact List.prefix_append _ _
    have hkept : ∀ b ∈ t.wall.bricks, b ∈ final.bricks := by
      obtain ⟨u, hrest, rfl⟩ := hahead.run
      exact bricks_of_run (hw.step (c := .place d) hstep) hrest
    have hplaced : ∀ v, answer = .ok v → ∀ b ∈ v.bricks, b ∈ final.bricks := by
      intro v hv b hb
      refine hkept b ?_
      rw [ht, hv]
      exact hb
    obtain ⟨hstart, -, -⟩ := checkBounds_eq_ok_iff.1 hbounds
    obtain ⟨new, existing, hanswer'⟩ := insertField_again hw hcoded hahead.coherent hahead.coded
      hs.definedIn hgrow he hne hstart hstop hanswer
      (fun b hb => hkept b (bricks_of_step (c := .place d) hw hstep b hb)) hplaced
    rw [← h.store, ← h.wall, ← h.cursor] at hanswer'
    rw [← h.cursor] at hstop hbounds
    refine ⟨_, placeField_eq_ok_iff.2
      ⟨e, he', .inr ⟨hne, stop, _, hstop, hbounds, hanswer', rfl⟩⟩, ?_⟩
    rw [ht, h.cursor]
    exact (h.addField _).note answer new existing stop

theorem Repeats.step (h : Repeats s s' final) (hs : s.Defined) (hw : s.wall.Coherent)
    (hcoded : s.wall.Coded) {c : Command} (hstep : step data s c = .ok t)
    (hahead : Ahead data t rest final)
    (hfresh : ∀ struct, c.struct? = some struct →
      Label.ofString struct ∉ (rest.filterMap Command.struct?).map Label.ofString) :
    ∃ t', step data s' c = .ok t' ∧ Repeats t t' final := by
  cases c with
  | declare line struct members => exact h.declareStruct hs hw hstep hahead (hfresh struct rfl)
  | place d => exact h.placeField hs hw hcoded hstep hahead
  | evaluate e =>
    obtain ⟨value, hvalue, rfl⟩ := noteValue_eq_ok_iff.1 hstep
    rw [← h.store] at hvalue
    refine ⟨_, noteValue_eq_ok_iff.2 ⟨value, hvalue, rfl⟩, ?_⟩
    constructor
    case store => exact h.store
    case cursor => exact h.cursor
    case values => exact congrArg (· ++ [⟨e.mark.line, value⟩]) h.values
    case defined => exact h.defined
    case wall => exact h.wall
    case placed => exact h.placed
    case rejected => exact h.rejected
    case overlaps => exact h.overlaps

theorem Repeats.run {commands : List Command} (h : Repeats s s' t.wall) (hs : s.Defined)
    (hw : s.wall.Coherent) (hrun : run data s commands = (t, none)) (hcoded : t.wall.Coded)
    (hdistinct : ((commands.filterMap Command.struct?).map Label.ofString).Nodup) :
    ∃ t', Execution.run data s' commands = (t', none) ∧ Repeats t t' t.wall := by
  -- Both executions take the same command in states that repeat each other.
  induction commands generalizing s s' with
  | nil =>
    cases hrun
    exact ⟨s', rfl, h⟩
  | cons c rest ih =>
    obtain ⟨u, hstep, hrest⟩ := run_cons_eq_none hrun
    have hnow := coded_of_run hs hw hrun hcoded
    have hcoherent : t.wall.Coherent := by
      have hkeeps := (run_keeps data hs hw (c :: rest)).1
      rw [hrun] at hkeeps
      exact hkeeps
    have hahead : Ahead data u rest t.wall := ⟨⟨t, hrest, rfl⟩, hcoherent, hcoded⟩
    rw [List.filterMap_cons] at hdistinct
    obtain ⟨u', hstep', hu⟩ := h.step hs hw hnow hstep hahead (by
      intro struct hstruct
      rw [hstruct] at hdistinct
      exact (List.nodup_cons.1 hdistinct).1)
    have hdistinct : ((rest.filterMap Command.struct?).map Label.ofString).Nodup := by
      cases hstruct : c.struct? with
      | none => rwa [hstruct] at hdistinct
      | some struct =>
        rw [hstruct] at hdistinct
        exact (List.nodup_cons.1 hdistinct).2
    rw [run_cons_of_ok hstep']
    exact ih hu (hs.step hw hstep).2 (hw.step hstep) hrest hdistinct

/-! ### Executions -/

/-- **Main theorem.** If the labels of the structs that a template declares are distinct, a
    second execution on the wall of a finished one succeeds, leaves that wall as it is, and
    rejects what the first one has placed or rejected. -/
theorem execute_again {t : Template} (ht : (t.structNames.map Label.ofString).Nodup) {w : Wall}
    (hw : w.Reachable) {view : View} {options : Options} {r : Report}
    (hr : (t.execute w view options).result = .ok r)
    (hsmall : (t.execute w view options).wall.Small) :
    ∃ r', (t.execute (t.execute w view options).wall view options).result = .ok r' ∧
      (t.execute (t.execute w view options).wall view options).wall =
        (t.execute w view options).wall ∧
      r'.placed = 0 ∧
      r'.rejected.length = r.placed + r.rejected.length ∧
      (∀ rejection ∈ r'.rejected, ∃ new existing, rejection = .overlap new existing) ∧
      r'.defined = r.defined ∧
      r'.stop = r.stop ∧
      (t.execute (t.execute w view options).wall view options).values =
        (t.execute w view options).values := by
  obtain ⟨s, hrun, rfl, hwall⟩ := execute_eq_ok_iff.1 hr
  have hvalues : (t.execute w view options).values = s.values := by
    unfold Template.execute
    rw [hrun]
  rw [hwall] at hsmall
  rw [hvalues, hwall]
  have hstart : Repeats (.start w options.start) (.start s.wall options.start) s.wall := by
    constructor <;> simp [State.start]
  obtain ⟨s', hrun', h⟩ := hstart.run (defined_start w options.start) hw.coherent hrun hsmall.coded
    ht
  have hagain : t.runOn s.wall view options = (s', none) := hrun'
  unfold Template.execute
  rw [hagain]
  exact ⟨s'.report, rfl, h.wall, h.placed, h.rejected, h.overlaps, h.defined, h.cursor, h.values⟩

/-- A template for the crowded wall with one struct inside another. There is room for the
    first field and for the last one. -/
def nested : Template :=
  .ofSource "struct Pixel \x7b uint8[2] rgb; \x7d struct Line \x7b Pixel[2] ends; \x7d
    uint8 a; Line b; uint8[0] none; uint8[23] gap; Line[a] c; a + 2;"

theorem nested_execute_again :
    (nested.structNames.map Label.ofString).Nodup ∧ Wall.crowded.Reachable ∧
      (nested.execute .crowded (.bytes (.replicate 40 1)) .default).wall.Small ∧
      ∃ r, (nested.execute .crowded (.bytes (.replicate 40 1)) .default).result = .ok r ∧
        r.placed = 2 ∧ r.rejected.length = 2 ∧
        ∃ r', (nested.execute (nested.execute .crowded (.bytes (.replicate 40 1)) .default).wall
            (.bytes (.replicate 40 1)) .default).result = .ok r' ∧
          r'.placed = 0 ∧ r'.rejected.length = 4 := by
  obtain ⟨hdistinct, hsmall, hcounts⟩ : (nested.structNames.map Label.ofString).Nodup ∧
      (nested.execute .crowded (.bytes (.replicate 40 1)) .default).wall.Small ∧
      ((nested.execute .crowded (.bytes (.replicate 40 1)) .default).result.toOption.map
        fun r => (r.placed, r.rejected.length)) = some (2, 2) := by decide +kernel
  obtain ⟨r, hr, hcounts⟩ := Option.map_eq_some_iff.1 hcounts
  have hr := Wall.toOption_eq_some_iff.1 hr
  obtain ⟨hplaced, hrejected⟩ := Prod.mk.inj hcounts
  obtain ⟨r', hr', -, hplaced', hrejected', -⟩ :=
    execute_again hdistinct Wall.crowded_reachable hr hsmall
  rw [hplaced, hrejected] at hrejected'
  exact ⟨hdistinct, Wall.crowded_reachable, hsmall, r, hr, hplaced, hrejected, r', hr', hplaced',
    hrejected'⟩

end Execution

end ByteBricks
