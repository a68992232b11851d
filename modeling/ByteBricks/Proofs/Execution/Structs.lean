import ByteBricks.Proofs.Execution.Members
import ByteBricks.Proofs.Execution.Pairs

/-! # Structs without Data

  The counts in a struct are constant, so its layout does not depend on the data, and the wall
  finds or adds a definition without regard to its bricks. Two executions that have declared
  the same structs therefore agree on all layouts and definitions, whatever they read and
  wherever they place their fields.

  Main statement: all executions of a template that succeed on a wall leave the same definitions
  there, and one that fails at a struct fails in the same way on all data with which it gets
  there. -/

namespace ByteBricks.Execution

open Template (Context Declaration Expr CommandTyped CommandsTyped)

variable {Γ : Context} {data data' : Data} {store store' : Store} {s s' t t' : State}

/-! ### Constant Counts -/

/-- A constant expression has the same value, or the same fault, on all data. -/
theorem eval_of_isConstant {e : Expr} (he : e.isConstant = true) :
    eval data' store' e = eval data store e := by
  induction e with
  | literal m value => rfl
  | access m t a => cases he
  | element m t baseMark a index ih => cases he
  | arith m t op lhs rhs ihl ihr =>
    simp only [Expr.isConstant, Bool.and_eq_true] at he
    rw [eval, eval, ihl he.1, ihr he.2]

theorem evalCount_of_constant {d : Declaration} (hd : d.Constant) (line : Nat) :
    evalCount data' store' line d.count = evalCount data store line d.count := by
  cases hcount : d.count with
  | none => rfl
  | some e => rw [evalCount, evalCount, eval_of_isConstant (hd e hcount)]

/-- A fault that the definition of a struct may lead to. -/
def Fault.OfDefinition : Fault → Prop
  | negativeCount _ | sizeOverflow _ | overflow | divisionByZero => True
  | _ => False

theorem Fault.OfArithmetic.ofDefinition {fault : Fault} (h : fault.OfArithmetic) :
    fault.OfDefinition := by
  cases fault <;> first | exact h | exact h.elim

theorem Fault.OfSize.ofDefinition {fault : Fault} (h : fault.OfSize) : fault.OfDefinition := by
  cases fault <;> first | exact h | exact h.elim

/-- A constant expression can only fail at an operation. -/
theorem eval_meets_of_isConstant {e : Expr} (htyped : e.Typed Γ) (he : e.isConstant = true) :
    Meets Fault.OfArithmetic (·.HasType e.type) (eval data store e) := by
  induction e with
  | literal m value => exact rfl
  | access m t a => cases he
  | element m t baseMark a index ih => cases he
  | arith m t op lhs rhs ihl ihr =>
    obtain ⟨hl, hr, rfl⟩ := htyped
    simp only [Expr.isConstant, Bool.and_eq_true] at he
    rw [eval]
    refine (ihl hl he.1).bind fun a _ ha => (ihr hr he.2).bind fun b _ hb => ?_
    rcases apply_meets op ha hb with ⟨value, hvalue, htype⟩ | ⟨fault, hfault, hkind⟩
    · rw [hvalue]
      exact htype
    · rw [hfault]
      exact hkind

/-- A member can only fail at its count or its size. -/
theorem Agrees.extent_meets_of_constant (h : Agrees Γ store data.view) {d : Declaration}
    (hd : d.Typed Γ) (hconst : d.Constant) :
    Meets Fault.OfDefinition (fun e => Denotes store.layouts (.ofName d.typeName.text) e.element ∧
      (d.count = none → e.count = 1)) (Execution.extent data store d) := by
  refine h.extent_meets (fun _ => Fault.OfSize.ofDefinition) hd.1 fun e he => ?_
  obtain ⟨htyped, hint⟩ := hd.2 e he
  have heval : Meets Fault.OfArithmetic (·.HasType e.type) (Execution.eval data store e) :=
    eval_meets_of_isConstant htyped (hconst e he)
  exact ⟨hint, heval.mono fun _ => Fault.OfArithmetic.ofDefinition⟩

/-- What a wall does not refuse, it defines: a declared struct can only fail at its members. -/
theorem declareStruct_meets (h : Agrees Γ s.store data.view) (hs : s.Defined)
    (hw : s.wall.Coherent) (hcoded : s.wall.Coded) {line : Nat} {struct : String}
    {members : List Declaration} (hc : CommandTyped Γ (.declare line struct members)) :
    Meets Fault.OfDefinition (fun _ => True) (declareStruct data s line struct members) := by
  obtain ⟨-, -, htyped, -⟩ := hc
  have hbody := Agrees.layOut_meets (fun _ => Fault.OfSize.ofDefinition) s.wall struct 0
    fun d hd => h.extent_meets_of_constant (htyped d hd).1 (htyped d hd).2
  unfold declareStruct
  refine hbody.bind fun body hbody _ => ?_
  obtain ⟨p, hfound⟩ := obtainDefinition_isOk hw hcoded hs.definedIn line hbody
  rw [hfound]
  trivial

/-! ### The Same Structs -/

/-- The states have the same layouts, and their walls the same definitions. -/
structure SameStructs (s s' : State) : Prop where
  /-- The layouts are the same. -/
  layouts : s'.store.layouts = s.store.layouts
  /-- The definitions are the same. -/
  definitions : s'.wall.definitions = s.wall.definitions
  /-- The known types are the same. -/
  types : s'.wall.types = s.wall.types

theorem SameStructs.symm (h : SameStructs s s') : SameStructs s' s :=
  ⟨h.layouts.symm, h.definitions.symm, h.types.symm⟩

theorem SameStructs.trans (h : SameStructs s s') (h' : SameStructs s' t) : SameStructs s t :=
  ⟨h'.layouts.trans h.layouts, h'.definitions.trans h.definitions, h'.types.trans h.types⟩

/-- The walls differ in their bricks alone. -/
theorem SameStructs.wall_eq (h : SameStructs s s') :
    s'.wall = s.wall.mapBricks fun _ => s'.wall.bricks := by
  obtain ⟨-, hdefinitions, htypes⟩ := h
  unfold Wall.mapBricks
  rw [← hdefinitions, ← htypes]

/-- Of a store, the extent of a member depends on the layouts alone. -/
theorem extent_of_constant (hlayouts : store'.layouts = store.layouts) {d : Declaration}
    (hd : d.Constant) : extent data' store' d = extent data store d := by
  have helement : store'.element d.mark.line d.typeName.text =
      store.element d.mark.line d.typeName.text := by
    unfold Store.element
    rw [hlayouts]
  have hsize (e : Element) : store'.elementSize e = store.elementSize e := by
    cases e with
    | primitive t => rfl
    | struct i => rw [Store.elementSize, Store.elementSize, Store.layout, Store.layout, hlayouts]
  have hcount : evalCount data' store' d.mark.line d.count =
      evalCount data store d.mark.line d.count := evalCount_of_constant hd _
  unfold extent
  simp only [helement, hcount, hsize]

theorem memberBricks_of_sameStructs (h : SameStructs s s') (name : String) (e : Extent)
    (start : Int64) :
    memberBricks s'.store s'.wall name e start = memberBricks s.store s.wall name e start := by
  unfold memberBricks memberBrick
  simp only [Store.layout, h.layouts, h.definitions]

/-- The members of a struct are laid out in the same way. -/
theorem SameStructs.layOut (h : SameStructs s s') (struct : String) (offset : Nat)
    {ds : List Declaration} (hds : ∀ d ∈ ds, d.Constant) :
    layOut data' s'.store s'.wall struct offset ds = layOut data s.store s.wall struct offset ds := by
  induction ds generalizing offset with
  | nil => rfl
  | cons d ds ih =>
    have hextent : extent data' s'.store d = extent data s.store d :=
      extent_of_constant h.layouts (hds d List.mem_cons_self)
    have hrest := fun offset => ih offset fun d' hd' => hds d' (List.mem_cons_of_mem _ hd')
    rw [Execution.layOut, Execution.layOut, hextent]
    simp only [memberBricks_of_sameStructs h, hrest]

/-- A struct is declared in the same way, or fails in the same way. -/
theorem SameStructs.declare (h : SameStructs s s') (data data' : Data) {line : Nat}
    {struct : String} {members : List Declaration}
    (hc : CommandTyped Γ (.declare line struct members)) :
    Related (· = ·) SameStructs (Execution.step data s (.declare line struct members))
      (Execution.step data' s' (.declare line struct members)) := by
  obtain ⟨-, -, htyped, -⟩ := hc
  show Related _ _ (declareStruct data s line struct members)
    (declareStruct data' s' line struct members)
  unfold declareStruct
  refine related_bind_of_eq (h.layOut struct 0 fun d hd => (htyped d hd).2) fun body _ => ?_
  rw [h.wall_eq, obtainDefinition_mapBricks]
  cases obtainDefinition s.wall line struct body.bricks with
  | error halt => exact rfl
  | ok p => exact ⟨congrArg (· ++ _) h.layouts, rfl, rfl⟩

theorem SameStructs.declare_error (h : SameStructs s s') {line : Nat} {struct : String}
    {members : List Declaration} {halt : Halt}
    (hc : CommandTyped Γ (.declare line struct members))
    (hstep : Execution.step data s (.declare line struct members) = .error halt) :
    Execution.step data' s' (.declare line struct members) = .error halt := by
  have hrelated := h.declare data data' hc
  rw [hstep] at hrelated
  cases hstep' : Execution.step data' s' (.declare line struct members) with
  | ok t =>
    rw [hstep'] at hrelated
    exact hrelated.elim
  | error halt' =>
    rw [hstep'] at hrelated
    obtain rfl : halt = halt' := hrelated
    rfl

/-- A field changes nothing about the structs. -/
theorem sameStructs_of_placeField {d : Declaration} (h : placeField data s d = .ok s') :
    SameStructs s s' := by
  obtain ⟨e, -, ⟨-, rfl⟩ | ⟨-, stop, answer, -, -, hanswer, rfl⟩⟩ := placeField_eq_ok_iff.1 h
  · exact ⟨rfl, rfl, rfl⟩
  · cases answer with
    | error rejection => exact ⟨rfl, rfl, rfl⟩
    | ok w' =>
      obtain ⟨b, hb⟩ := insert_of_insertField hanswer
      obtain ⟨-, -, -, -, -, -, rfl⟩ := Wall.insert_eq_ok_iff.1 hb
      exact ⟨rfl, rfl, rfl⟩

theorem sameStructs_of_noteValue {e : Expr} (h : noteValue data s e = .ok s') :
    SameStructs s s' := by
  obtain ⟨value, -, rfl⟩ := noteValue_eq_ok_iff.1 h
  exact ⟨rfl, rfl, rfl⟩

/-- A command that succeeds on both sides keeps the structs the same. -/
theorem SameStructs.step (h : SameStructs s s') {c : Command} (hc : CommandTyped Γ c)
    (hstep : step data s c = .ok t) (hstep' : step data' s' c = .ok t') : SameStructs t t' := by
  cases c with
  | declare line struct members =>
    have hrelated := h.declare data data' hc
    rw [hstep, hstep'] at hrelated
    exact hrelated
  | place d =>
    have hleft := sameStructs_of_placeField hstep
    have hright := sameStructs_of_placeField hstep'
    exact hleft.symm.trans (h.trans hright)
  | evaluate e =>
    have hleft := sameStructs_of_noteValue hstep
    have hright := sameStructs_of_noteValue hstep'
    exact hleft.symm.trans (h.trans hright)

/-! ### Executions -/

/-- Two runs over the same commands keep the structs the same. -/
theorem SameStructs.run (h : SameStructs s s') {commands : List Command}
    (hc : CommandsTyped Γ commands) (hrun : run data s commands = (t, none))
    (hrun' : run data' s' commands = (t', none)) : SameStructs t t' := by
  induction commands generalizing Γ s s' with
  | nil =>
    cases hrun
    cases hrun'
    exact h
  | cons c rest ih =>
    obtain ⟨u, hstep, hrest⟩ := run_cons_eq_none hrun
    obtain ⟨u', hstep', hrest'⟩ := run_cons_eq_none hrun'
    exact ih (h.step hc.1 hstep hstep') hc.2 hrest hrest'

theorem sameStructs_start (w : Wall) (cursor cursor' : Int64) :
    SameStructs (.start w cursor) (.start w cursor') :=
  ⟨rfl, rfl, rfl⟩

/-- A run keeps what there is in front of the commands that are still to come. -/
theorem Ready.run {done rest : List Command} (h : Ready (done ++ rest) s)
    (hrun : run data s done = (t, none)) : Ready rest t := by
  induction done generalizing s with
  | nil =>
    cases hrun
    exact h
  | cons c done ih =>
    obtain ⟨u, hstep, hrest⟩ := run_cons_eq_none hrun
    exact ih (h.step hstep) hrest

/-- An execution that gets to a command that fails stops there. -/
theorem execute_of_failed_step {template : Template} {w : Wall} {view : View} {options : Options}
    {done rest : List Command} {c : Command} {halt : Halt}
    (hsplit : commandsOf template.statements = done ++ c :: rest)
    (hrun : Execution.run ⟨view, options.order⟩ (.start w options.start) done = (s, none))
    (hstep : Execution.step ⟨view, options.order⟩ s c = .error halt) :
    (template.execute w view options).result = .error halt := by
  have hstop : template.runOn w view options = (s, some halt) := by
    unfold Template.runOn
    rw [hsplit, run_append hrun, run_cons_of_error hstep]
  unfold Template.execute
  rw [hstop]

/-- Where the names are known and the wall has room, a struct can only fail at its members. -/
theorem Ready.failed_of_declare {rest : List Command} {line : Nat} {struct : String}
    {members : List Declaration} {halt : Halt} (h : Ready (.declare line struct members :: rest) s)
    (hagrees : Agrees Γ s.store data.view) (hc : CommandTyped Γ (.declare line struct members))
    (hstep : Execution.step data s (.declare line struct members) = .error halt) :
    ∃ place fault, halt = .failed ⟨place, fault⟩ ∧ fault.OfDefinition := by
  have hmeets := declareStruct_meets hagrees h.defined h.coherent h.coded hc
  have hfail : declareStruct data s line struct members = .error halt := hstep
  rw [hfail] at hmeets
  exact hmeets.failed

/-- **Main theorem.** Two executions of a compiled template that succeed on a reachable wall
    leave the same definitions there, whatever their data, first offsets and byte orders. What
    stops an execution at a struct is a fault of a count, a size or an operation, and stops all
    executions that get to the struct. -/
theorem structs_independent_of_data {template : Template} (ht : template.IsCompiled) {w : Wall}
    (hw : w.Reachable) :
    (∀ (view view' : View) (options options' : Options) (r r' : Report),
      (template.execute w view options).result = .ok r →
      (template.execute w view' options').result = .ok r' →
      (template.execute w view' options').wall.definitions =
          (template.execute w view options).wall.definitions ∧
        (template.execute w view' options').wall.types =
          (template.execute w view options).wall.types) ∧
    ∀ (done rest : List Command) (line : Nat) (struct : String) (members : List Declaration)
      (view : View) (options : Options) (s : State) (halt : Halt),
      commandsOf template.statements = done ++ .declare line struct members :: rest →
      run ⟨view, options.order⟩ (.start w options.start) done = (s, none) →
      step ⟨view, options.order⟩ s (.declare line struct members) = .error halt →
      (∃ place fault, halt = .failed ⟨place, fault⟩ ∧ fault.OfDefinition) ∧
        ∀ (view' : View) (options' : Options) (s' : State),
          run ⟨view', options'.order⟩ (.start w options'.start) done = (s', none) →
          (template.execute w view' options').result = .error halt := by
  have hready := ready_start ht hw
  obtain ⟨source, hsource⟩ := ht
  obtain ⟨htyped, -⟩ := Template.typed_of_compile hsource
  constructor
  · intro view view' options options' r r' hr hr'
    obtain ⟨t, hrun, -, hwall⟩ := execute_eq_ok_iff.1 hr
    obtain ⟨t', hrun', -, hwall'⟩ := execute_eq_ok_iff.1 hr'
    have hsame := (sameStructs_start w options.start options'.start).run htyped hrun hrun'
    rw [hwall, hwall']
    exact ⟨hsame.definitions, hsame.types⟩
  · intro done rest line struct members view options s halt hsplit hdone hstep
    rw [hsplit] at htyped
    obtain ⟨hbefore, hc, -⟩ := Template.commandsTyped_append.1 htyped
    have hfront : Ready (.declare line struct members :: rest) s :=
      Ready.run (hsplit ▸ hready options.start) hdone
    have hstart : Agrees .empty (State.start w options.start).store
        (Data.view ⟨view, options.order⟩) := agrees_empty view
    refine ⟨hfront.failed_of_declare (hstart.run hbefore hdone) hc hstep, ?_⟩
    intro view' options' s' hdone'
    have hsame := (sameStructs_start w options.start options'.start).run hbefore hdone hdone'
    exact execute_of_failed_step hsplit hdone' (hsame.declare_error hc hstep)

/-- A template with a struct behind a field of as many bytes as the data say. -/
def sized : Template :=
  .ofSource "uint8 n; uint8[n] body; struct Pair \x7b uint16[1 + 1] xs; \x7d Pair p;"

/-- The same with a struct that has a member of a negative count. -/
def negative : Template :=
  .ofSource "uint8 n; uint8[n] body; struct Bad \x7b uint8[2 - 3] xs; \x7d"

/-- The member of a negative count. -/
def negativeMember : Declaration :=
  ⟨⟨6, 1⟩, ⟨"uint8", 36⟩,
    some (.arith ⟨5, 1⟩ .int64 .sub (.literal ⟨3, 1⟩ 2) (.literal ⟨4, 1⟩ 3)), ⟨"xs", 45⟩⟩

/-- The state in front of the struct with this member. -/
def negativeState (data : Data) (cursor : Int64) : State :=
  (run data (.start .empty cursor) ((commandsOf negative.statements).take 2)).1

theorem step_of_run_singleton {c : Command} {halt : Halt}
    (h : (Execution.run data s [c]).2 = some halt) : Execution.step data s c = .error halt := by
  cases hstep : Execution.step data s c with
  | ok s' =>
    rw [run_cons_of_ok hstep] at h
    cases h
  | error halt' =>
    rw [run_cons_of_error hstep] at h
    rw [Option.some.inj h]

/-- Two executions leave the same definition, and two others stop at the same struct. -/
theorem sized_structs_independent_of_data :
    Wall.empty.Reachable ∧
      (sized.execute .empty (.bytes #[1, 5, 6, 7, 8, 9]) .default).wall.definitions.length = 1 ∧
      (sized.execute .empty (.bytes #[9, 0, 1, 2, 3, 4]) ⟨1, .big⟩).wall.definitions =
        (sized.execute .empty (.bytes #[1, 5, 6, 7, 8, 9]) .default).wall.definitions ∧
      (negative.execute .empty (.bytes #[1, 5]) .default).result =
        .error (.failed ⟨1, .negativeCount (-1)⟩) ∧
      (negative.execute .empty (.bytes #[7, 0]) ⟨1, .big⟩).result =
        .error (.failed ⟨1, .negativeCount (-1)⟩) := by
  have hsized : sized.IsCompiled := Template.isCompiled_ofSource (by decide +kernel)
  have hnegative : negative.IsCompiled := Template.isCompiled_ofSource (by decide +kernel)
  obtain ⟨hsame, -⟩ := structs_independent_of_data hsized .empty
  obtain ⟨-, hstops⟩ := structs_independent_of_data hnegative .empty
  have hend : (sized.execute .empty (.bytes #[1, 5, 6, 7, 8, 9])
      .default).result.toOption.isSome = true := by decide +kernel
  have hend' : (sized.execute .empty (.bytes #[9, 0, 1, 2, 3, 4])
      ⟨1, .big⟩).result.toOption.isSome = true := by decide +kernel
  obtain ⟨r, hr⟩ := Option.isSome_iff_exists.1 hend
  obtain ⟨r', hr'⟩ := Option.isSome_iff_exists.1 hend'
  obtain ⟨hdefinitions, -⟩ := hsame _ _ _ _ r r' (Wall.toOption_eq_some_iff.1 hr)
    (Wall.toOption_eq_some_iff.1 hr')
  have hsplit : commandsOf negative.statements = (commandsOf negative.statements).take 2 ++
      .declare 1 "Bad" [negativeMember] :: [] := by decide +kernel
  have hrun : run ⟨.bytes #[1, 5], .little⟩ (.start .empty 0)
      ((commandsOf negative.statements).take 2) = (negativeState _ 0, none) :=
    Prod.ext rfl (by decide +kernel)
  have hrun' : run ⟨.bytes #[7, 0], .big⟩ (.start .empty 1)
      ((commandsOf negative.statements).take 2) = (negativeState _ 1, none) :=
    Prod.ext rfl (by decide +kernel)
  have hstep : step ⟨.bytes #[1, 5], .little⟩ (negativeState ⟨.bytes #[1, 5], .little⟩ 0)
      (.declare 1 "Bad" [negativeMember]) = .error (.failed ⟨1, .negativeCount (-1)⟩) :=
    step_of_run_singleton (by decide +kernel)
  obtain ⟨-, hall⟩ := hstops _ _ _ _ _ (.bytes #[1, 5]) .default _ _ hsplit hrun hstep
  exact ⟨.empty, by decide +kernel, hdefinitions, hall _ .default _ hrun, hall _ ⟨1, .big⟩ _ hrun'⟩

end ByteBricks.Execution
