import ByteBricks.Execution.Run
import ByteBricks.Proofs.Wall.Invariant

/-! # Steps and Runs

  What a command does when it succeeds, said once for each command, and what follows
  for the commands of a whole run. Later proofs use these statements and do not open
  the executor again. -/

namespace ByteBricks.Execution

open Template (Declaration Statement)

/-! ### Success -/

theorem bind_eq_ok {ε α β : Type} {x : Except ε α} {f : α → Except ε β} {b : β} :
    (x >>= f) = .ok b ↔ ∃ a, x = .ok a ∧ f a = .ok b := by
  cases x <;> simp [bind, Except.bind]

@[simp] theorem pure_eq_ok {ε α : Type} {a b : α} : (pure a : Except ε α) = .ok b ↔ a = b := by
  simp [pure, Except.pure]

@[simp] theorem fail_ne_ok {α : Type} {line : Nat} {fault : Fault} {a : α} :
    (fail line fault : Except Halt α) = .ok a ↔ False := by
  simp [fail]

@[simp] theorem require_eq_ok {α : Type} {line : Nat} {fault : Fault} {o : Option α} {a : α} :
    require line fault o = .ok a ↔ o = some a := by
  cases o <;> simp [require]

@[simp] theorem assured_eq_ok {α : Type} {breach : Breach} {o : Option α} {a : α} :
    assured breach o = .ok a ↔ o = some a := by
  cases o <;> simp [assured]

/-! ### References -/

theorem layout_eq_ok_iff {store : Store} {i : Nat} {l : Layout} :
    store.layout i = .ok l ↔ store.layouts[i]? = some l := by
  unfold Store.layout
  exact assured_eq_ok

theorem locate_field_eq_ok_iff {store : Store} {line : Nat} {name : Name} {f : Field} :
    store.locate line (.field name) = .ok f ↔ store.field? name.text = some f := by
  show require line _ _ = .ok f ↔ _
  exact require_eq_ok

/-- A member is looked up in the layout of its owner, and lies behind the owner's start. -/
theorem locate_member_eq_ok_iff {store : Store} {line : Nat} {owner part : Name} {f : Field} :
    store.locate line (.member owner part) = .ok f ↔
      ∃ parent i l m start, store.field? owner.text = some parent ∧ parent.element = .struct i ∧
        store.layouts[i]? = some l ∧ l.members.find? (·.name == part.text) = some m ∧
        Word.int64? (parent.start.toInt + m.start.toInt) = some start ∧
        f = { m with name := owner.text ++ "." ++ part.text, start := start } := by
  show (require line _ _ >>= _) = .ok f ↔ _
  simp only [bind_eq_ok, require_eq_ok]
  constructor
  · intro h
    obtain ⟨parent, hparent, h⟩ := h
    -- Only an owner that holds structs has members.
    cases helement : parent.element with
    | primitive t => simp [helement] at h
    | struct i =>
      simp only [helement, bind_eq_ok, layout_eq_ok_iff, require_eq_ok, assured_eq_ok,
        pure_eq_ok] at h
      obtain ⟨l, hl, m, hm, start, hstart, rfl⟩ := h
      exact ⟨parent, i, l, m, start, hparent, helement, hl, hm, hstart, rfl⟩
  · intro h
    obtain ⟨parent, i, l, m, start, hparent, helement, hl, hm, hstart, rfl⟩ := h
    refine ⟨parent, hparent, ?_⟩
    simp only [helement, bind_eq_ok, layout_eq_ok_iff, require_eq_ok, assured_eq_ok, pure_eq_ok]
    exact ⟨l, hl, m, hm, start, hstart, rfl⟩

/-! ### Declarations -/

/-- The extent of a declaration is made of the type that its name stands for and the
    count that is asked for. -/
theorem extent_eq_ok_iff {data : Data} {store : Store} {d : Declaration} {e : Extent} :
    extent data store d = .ok e ↔
      ∃ size, store.element d.mark.line d.typeName.text = .ok e.element ∧
        evalCount data store d.mark.line d.count = .ok e.count ∧
        store.elementSize e.element = .ok size ∧
        e.size = size * e.count ∧ e.size ≤ Word.uint64Max := by
  obtain ⟨element, count, total⟩ := e
  unfold extent
  simp only [bind_eq_ok]
  constructor
  · intro h
    obtain ⟨element', helement, count', hcount, size, hsize, h⟩ := h
    split at h
    · next hfits =>
      simp only [pure_eq_ok, Extent.mk.injEq] at h
      obtain ⟨rfl, rfl, rfl⟩ := h
      exact ⟨size, helement, hcount, hsize, rfl, hfits⟩
    · simp at h
  · intro h
    obtain ⟨size, helement, hcount, hsize, rfl, hfits⟩ := h
    refine ⟨element, helement, count, hcount, size, hsize, ?_⟩
    rw [if_pos hfits]
    rfl

theorem layOut_nil_eq_ok_iff {data : Data} {store : Store} {wall : Wall} {struct : String}
    {offset : Nat} {body : Body} :
    layOut data store wall struct offset [] = .ok body ↔ body = ⟨[], [], offset⟩ := by
  unfold layOut
  simp [eq_comm]

/-- The first member lies at the offset, the others behind it. -/
theorem layOut_cons_eq_ok_iff {data : Data} {store : Store} {wall : Wall} {struct : String}
    {offset : Nat} {d : Declaration} {rest : List Declaration} {body : Body} :
    layOut data store wall struct offset (d :: rest) = .ok body ↔
      ∃ e start bricks tail, extent data store d = .ok e ∧ Word.int64? offset = some start ∧
        memberBricks store wall d.name.text e start = .ok bricks ∧
        offset + e.size ≤ Word.uint64Max ∧
        layOut data store wall struct (offset + e.size) rest = .ok tail ∧
        body = ⟨e.field d start :: tail.fields, bricks ++ tail.bricks, tail.size⟩ := by
  rw [layOut]
  simp only [bind_eq_ok, require_eq_ok]
  constructor
  · intro h
    obtain ⟨e, he, start, hstart, bricks, hbricks, h⟩ := h
    split at h
    · next hfits =>
      simp only [bind_eq_ok, pure_eq_ok] at h
      obtain ⟨tail, htail, rfl⟩ := h
      exact ⟨e, start, bricks, tail, he, hstart, hbricks, hfits, htail, rfl⟩
    · simp at h
  · intro h
    obtain ⟨e, start, bricks, tail, he, hstart, hbricks, hfits, htail, rfl⟩ := h
    refine ⟨e, he, start, hstart, bricks, hbricks, ?_⟩
    rw [if_pos hfits]
    exact bind_eq_ok.2 ⟨tail, htail, rfl⟩

/-! ### Struct Declarations -/

/-- A definition is found in the wall or added to it. -/
theorem obtainDefinition_eq_ok_iff {w w' : Wall} {line : Nat} {struct : String}
    {members : List Brick} {index : Nat} :
    obtainDefinition w line struct members = .ok (index, w') ↔
      (reusable? w struct members = some index ∧ w' = w) ∨
        (reusable? w struct members = none ∧ index = w.definitions.length ∧
          addDefinition w struct members = some w') := by
  unfold obtainDefinition
  -- A reusable definition decides the matter: the wall is not asked to add one.
  cases reusable? w struct members with
  | some i => simp [eq_comm]
  | none =>
    simp only [bind_eq_ok, require_eq_ok, pure_eq_ok, Prod.mk.injEq, reduceCtorEq, false_and,
      false_or, true_and]
    constructor
    · intro h
      obtain ⟨extended, hadd, rfl, rfl⟩ := h
      exact ⟨rfl, hadd⟩
    · intro h
      obtain ⟨rfl, hadd⟩ := h
      exact ⟨w', hadd, rfl, rfl⟩

/-- A struct declaration lays out its members, obtains a definition for them, and
    leaves a layout that refers to it. -/
theorem declareStruct_eq_ok_iff {data : Data} {s s' : State} {line : Nat} {struct : String}
    {members : List Declaration} :
    declareStruct data s line struct members = .ok s' ↔
      ∃ body index wall, layOut data s.store s.wall struct 0 members = .ok body ∧
        obtainDefinition s.wall line struct body.bricks = .ok (index, wall) ∧
        s' = s.declared wall ⟨struct, index, body.size, body.fields⟩ := by
  unfold declareStruct
  simp only [bind_eq_ok, pure_eq_ok]
  constructor
  · intro h
    obtain ⟨body, hbody, ⟨index, wall⟩, hfound, rfl⟩ := h
    exact ⟨body, index, wall, hbody, hfound, rfl⟩
  · intro h
    obtain ⟨body, index, wall, hbody, hfound, rfl⟩ := h
    exact ⟨body, hbody, (index, wall), hfound, rfl⟩

/-- The newest definition of a struct's name is the only one that may be used again. -/
theorem reusable?_eq_some_iff {w : Wall} {struct : String} {members : List Brick} {i : Nat} :
    reusable? w struct members = some i ↔
      w.structIndex? (Label.ofString struct).text = some i ∧
        ∃ d, w.definitions[i]? = some d ∧ d.members = members := by
  unfold reusable?
  simp only [Option.bind_eq_bind, Option.bind_eq_some_iff]
  constructor
  · intro h
    obtain ⟨j, hj, d, hd, h⟩ := h
    split at h
    · next hmembers =>
      cases h
      exact ⟨hj, d, hd, hmembers⟩
    · simp at h
  · intro h
    obtain ⟨hi, d, hd, hmembers⟩ := h
    refine ⟨i, hi, d, hd, ?_⟩
    rw [if_pos hmembers]

/-! ### Field Declarations -/

/-- A declared field is known at the cursor. If it covers bytes, they are part of the
    data, the wall is asked to take its brick, and the cursor moves behind it. -/
theorem placeField_eq_ok_iff {data : Data} {s s' : State} {d : Declaration} :
    placeField data s d = .ok s' ↔
      ∃ e, extent data s.store d = .ok e ∧
        ((e.size = 0 ∧ s' = s.addField (e.field d s.cursor)) ∨
          (e.size ≠ 0 ∧ ∃ stop answer, fieldStop s.cursor e.size = some stop ∧
            checkBounds data.view d.mark.line d.name.text s.cursor stop = .ok () ∧
            insertField s.store s.wall d.mark.line d.name.text e s.cursor = .ok answer ∧
            s' = { (s.addField (e.field d s.cursor)).note answer with cursor := stop })) := by
  unfold placeField
  simp only [bind_eq_ok]
  constructor
  · intro h
    obtain ⟨e, he, h⟩ := h
    refine ⟨e, he, ?_⟩
    split at h
    · next hzero =>
      simp only [pure_eq_ok] at h
      exact .inl ⟨hzero, h.symm⟩
    · next hsize =>
      simp only [bind_eq_ok, require_eq_ok, pure_eq_ok] at h
      obtain ⟨stop, hstop, ⟨⟩, hbounds, answer, hanswer, rfl⟩ := h
      exact .inr ⟨hsize, stop, answer, hstop, hbounds, hanswer, rfl⟩
  · intro h
    obtain ⟨e, he, ⟨hzero, rfl⟩ | ⟨hsize, stop, answer, hstop, hbounds, hanswer, rfl⟩⟩ := h
    · refine ⟨e, he, ?_⟩
      rw [if_pos hzero]
      rfl
    · refine ⟨e, he, ?_⟩
      rw [if_neg hsize]
      simp only [bind_eq_ok, require_eq_ok, pure_eq_ok]
      exact ⟨stop, hstop, (), hbounds, answer, hanswer, rfl⟩

/-- A placed field ends where its size says, and that offset fits. -/
theorem fieldStop_eq_some_iff {start stop : Int64} {size : Nat} :
    fieldStop start size = some stop ↔
      (size : Int) ≤ Word.int64Max ∧ Word.int64? (start.toInt + size) = some stop := by
  unfold fieldStop
  split
  · next h => simp [h]
  · next h => simp [h]

theorem checkBounds_eq_ok_iff {view : View} {line : Nat} {name : String} {start stop : Int64} :
    checkBounds view line name start stop = .ok () ↔
      0 ≤ start.toInt ∧ 0 ≤ stop.toInt ∧ stop.toInt ≤ view.length := by
  unfold checkBounds
  split
  · next h => exact iff_of_true rfl h
  · next h => exact iff_of_false (by simp) h

theorem noteValue_eq_ok_iff {data : Data} {s s' : State} {e : Template.Expr} :
    noteValue data s e = .ok s' ↔
      ∃ value, eval data s.store e = .ok value ∧
        s' = { s with values := s.values ++ [⟨e.mark.line, value⟩] } := by
  unfold noteValue
  simp only [bind_eq_ok, pure_eq_ok]
  exact exists_congr fun value => and_congr_right fun _ => eq_comm

/-! ### Runs -/

@[simp] theorem commandsOf_append (a b : List Statement) :
    commandsOf (a ++ b) = commandsOf a ++ commandsOf b := by
  induction a with
  | nil => rfl
  | cons s a ih => rw [List.cons_append, commandsOf, ih, commandsOf, List.append_assoc]

theorem run_cons_of_ok {data : Data} {s s' : State} {c : Command} {rest : List Command}
    (h : step data s c = .ok s') : run data s (c :: rest) = run data s' rest := by
  rw [run, h]

theorem run_cons_of_error {data : Data} {s : State} {halt : Halt} {c : Command}
    {rest : List Command} (h : step data s c = .error halt) :
    run data s (c :: rest) = (s, some halt) := by
  rw [run, h]

/-- A run that gets past some commands goes on with the others from there. -/
theorem run_append {data : Data} {s s' : State} {done rest : List Command}
    (h : run data s done = (s', none)) : run data s (done ++ rest) = run data s' rest := by
  -- The first command changes the state, so the induction is for every state to start in.
  induction done generalizing s with
  | nil =>
    cases h
    rfl
  | cons c done ih =>
    cases hstep : step data s c with
    | ok t =>
      rw [run_cons_of_ok hstep] at h
      rw [List.cons_append, run_cons_of_ok hstep]
      exact ih h
    | error halt =>
      -- This run would have stopped here.
      rw [run_cons_of_error hstep] at h
      simp at h

/-- What holds at the start of a run and is kept by each of its steps holds of the last
    state that it leads to. -/
theorem run_induction {data : Data} {P : State → Prop} {commands : List Command}
    (hstep : ∀ s s' c, c ∈ commands → P s → step data s c = .ok s' → P s') {s : State}
    (h : P s) : P (run data s commands).1 := by
  induction commands generalizing s with
  | nil => exact h
  | cons c commands ih =>
    cases hc : step data s c with
    | ok t =>
      rw [run_cons_of_ok hc]
      have ht : P t := hstep s t c List.mem_cons_self h hc
      exact ih (fun s s' c hmem => hstep s s' c (List.mem_cons_of_mem _ hmem)) ht
    | error halt =>
      -- A step that stops leaves the state that it was taken in.
      rw [run_cons_of_error hc]
      exact h

/-- A run to the end of its commands takes all of them. -/
theorem run_cons_eq_none {data : Data} {s t : State} {c : Command} {rest : List Command}
    (h : run data s (c :: rest) = (t, none)) :
    ∃ s', step data s c = .ok s' ∧ run data s' rest = (t, none) := by
  cases hstep : step data s c with
  | ok s' =>
    rw [run_cons_of_ok hstep] at h
    exact ⟨s', rfl, h⟩
  | error halt =>
    rw [run_cons_of_error hstep] at h
    simp at h

/-- A run to the end of its commands gets past each part of them. -/
theorem run_append_eq_none {data : Data} {s t : State} {done rest : List Command}
    (h : run data s (done ++ rest) = (t, none)) :
    ∃ s', run data s done = (s', none) ∧ run data s' rest = (t, none) := by
  induction done generalizing s with
  | nil => exact ⟨s, rfl, h⟩
  | cons c done ih =>
    obtain ⟨u, hstep, hrest⟩ := run_cons_eq_none h
    obtain ⟨s', hdone, hrest⟩ := ih hrest
    refine ⟨s', ?_, hrest⟩
    rw [run_cons_of_ok hstep]
    exact hdone

/-- An execution that reports an end has run all commands, and its wall is the last one. -/
theorem execute_eq_ok_iff {t : Template} {w : Wall} {view : View} {options : Options}
    {r : Report} :
    (t.execute w view options).result = .ok r ↔
      ∃ s, t.runOn w view options = (s, none) ∧ r = s.report ∧
        (t.execute w view options).wall = s.wall := by
  unfold Template.execute
  rcases t.runOn w view options with ⟨s, _ | halt⟩
  · simp [eq_comm]
  · simp

/-- An execution that stops early leaves the wall as it was. -/
theorem execute_eq_error_iff {t : Template} {w : Wall} {view : View} {options : Options}
    {halt : Halt} :
    (t.execute w view options).result = .error halt ↔
      ∃ s, t.runOn w view options = (s, some halt) ∧
        (t.execute w view options).wall = w := by
  unfold Template.execute
  rcases t.runOn w view options with ⟨s, _ | halt'⟩
  · simp
  · simp

end ByteBricks.Execution
