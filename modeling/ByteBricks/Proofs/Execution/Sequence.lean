import ByteBricks.Proofs.Execution.Lines
import ByteBricks.Proofs.Execution.Soundness
import ByteBricks.Proofs.Template.Sequence

/-! # Executing Two Templates as One

  Commands that are typed on their own do behind others what they do when they are
  executed alone, from the offset and the wall that the others leave. They find their
  own structs and fields first, so the ones in front are never looked at. -/

namespace ByteBricks

namespace Execution

open Template (Access Context Declaration Expr CommandTyped CommandsTyped MembersTyped)

/-! ### Moved Commands -/

/-- The same command with other statements in front. -/
def Command.shift (d : Template.Shift) : Command → Command
  | .declare line struct members =>
    .declare (line + d.lines) struct (members.map (Declaration.shift d))
  | .place x => .place (x.shift d)
  | .evaluate e => .evaluate (e.shift d)

/-- The same halt with other lines in front. -/
def Halt.shift (lines : Nat) : Halt → Halt
  | .failed e => .failed { e with line := e.line + lines }
  | .broken breach => .broken breach

/-- What is computed, or what stops the computation, with other lines in front. -/
def moved {α β : Type} (lines : Nat) (f : α → β) : Except Halt α → Except Halt β
  | .ok a => .ok (f a)
  | .error halt => .error (halt.shift lines)

/-- The same type of elements with other layouts in front. -/
def Element.shift (layouts : Nat) : Element → Element
  | .primitive t => .primitive t
  | .struct index => .struct (layouts + index)

/-- The same field with other layouts in front. -/
def Field.shift (layouts : Nat) (f : Field) : Field :=
  { f with element := f.element.shift layouts }

/-- The same layout with other layouts in front. -/
def Layout.shift (layouts : Nat) (l : Layout) : Layout :=
  { l with members := l.members.map (Field.shift layouts) }

/-- The store with the structs and fields of another one in front. -/
def Store.behind (s front : Store) : Store where
  layouts := front.layouts ++ s.layouts.map (Layout.shift front.layouts.length)
  fields := s.fields.map (Field.shift front.layouts.length) ++ front.fields

/-- The same value of an expression with other lines in front. -/
def Evaluation.shift (lines : Nat) (e : Evaluation) : Evaluation :=
  { e with line := e.line + lines }

/-- The state with what was done in front of it. -/
def State.behind (lines : Nat) (s front : State) : State where
  store := s.store.behind front.store
  wall := s.wall
  cursor := s.cursor
  placed := front.placed + s.placed
  rejected := front.rejected ++ s.rejected
  defined := front.defined + s.defined
  values := front.values ++ s.values.map (Evaluation.shift lines)

/-- The same extent with other layouts in front. -/
def Extent.shift (layouts : Nat) (e : Extent) : Extent :=
  { e with element := e.element.shift layouts }

/-- The same body of a struct with other layouts in front. -/
def Body.shift (layouts : Nat) (b : Body) : Body :=
  { b with fields := b.fields.map (Field.shift layouts) }

variable {α β γ δ : Type} {lines : Nat} {d : Template.Shift}

theorem moved_bind {f : α → β} {g : γ → δ} {x : Except Halt α} {y : Except Halt β}
    {k : α → Except Halt γ} {k' : β → Except Halt δ} (hx : y = moved lines f x)
    (hk : ∀ a, x = .ok a → k' (f a) = moved lines g (k a)) :
    (y >>= k') = moved lines g (x >>= k) := by
  subst hx
  cases x with
  | ok a => exact hk a rfl
  | error halt => rfl

theorem moved_require {f : α → β} {line : Nat} {fault : Fault} {o : Option α} {o' : Option β}
    (h : o' = o.map f) :
    require (line + lines) fault o' = moved lines f (require line fault o) := by
  subst h
  cases o <;> rfl

/-! ### Expressions -/

/-- To have other lines in front is a change of the lines. -/
theorem moved_eq (lines : Nat) (f : α → β) : moved lines f = relined (· + lines) f := by
  funext x
  rcases x with halt | a
  · cases halt <;> rfl
  · rfl

theorem checkBounds_moved {view : View} {line : Nat} {name : String} {start stop : Int64} :
    checkBounds view (line + lines) name start stop =
      moved lines id (checkBounds view line name start stop) := by
  rw [moved_eq]
  exact checkBounds_relined (· + lines) view line name start stop

theorem read_moved (data : Data) (line : Nat) (name : String) (t : Primitive) (offset : Int64) :
    data.read (line + lines) name t offset = moved lines id (data.read line name t offset) := by
  rw [moved_eq]
  exact read_relined (· + lines) data line name t offset

theorem elementOffset_moved (f : Field) (line : Nat) (t : Primitive) (index : Int64) :
    f.elementOffset (line + lines) t index = moved lines id (f.elementOffset line t index) := by
  rw [moved_eq]
  exact elementOffset_relined (· + lines) f line t index

theorem primitive_moved (f : Field) (line : Nat) :
    f.primitive (line + lines) = moved lines id (f.primitive line) := by
  rw [moved_eq]
  exact primitive_relined (· + lines) f line

theorem integer_moved (line : Nat) (v : Value) :
    v.integer (line + lines) = moved lines id (v.integer line) := by
  rw [moved_eq]
  exact integer_relined (· + lines) line v

section Store

variable {s front : Store}

theorem field?_behind {name : String} {f : Field} (h : s.field? name = some f) :
    (s.behind front).field? name = some (f.shift front.layouts.length) := by
  unfold Store.field? Store.behind at *
  dsimp only
  -- The fields of the store come first, so those in front of it are not found.
  have hname : (fun f : Field => f.name == name) ∘ Field.shift front.layouts.length =
      fun f => f.name == name := rfl
  rw [List.find?_append, List.find?_map, hname, h]
  rfl

theorem layouts_behind (i : Nat) :
    (s.behind front).layouts[front.layouts.length + i]? =
      s.layouts[i]?.map (Layout.shift front.layouts.length) := by
  show (front.layouts ++ s.layouts.map _)[_]? = _
  rw [List.getElem?_append_right (Nat.le_add_right _ _), Nat.add_sub_cancel_left,
    List.getElem?_map]

/-- A reference to a number that is found in the store is found behind others too. -/
theorem locate_behind {line line' : Nat} {a : Access} {f : Field} {t : Primitive}
    (h : s.locate line a = .ok f) (ht : f.element = .primitive t) :
    (s.behind front).locate line' (a.shift d) = .ok f := by
  have hshift : f.shift front.layouts.length = f := by
    unfold Field.shift
    rw [ht, Element.shift, ← ht]
  cases a with
  | field name =>
    rw [locate_field_eq_ok_iff] at h
    refine locate_field_eq_ok_iff.2 ((field?_behind h).trans ?_)
    rw [hshift]
  | member owner part =>
    obtain ⟨parent, i, l, m, start, hparent, hi, hl, hm, hstart, rfl⟩ :=
      locate_member_eq_ok_iff.1 h
    refine locate_member_eq_ok_iff.2 ⟨_, front.layouts.length + i, l.shift front.layouts.length,
      m.shift front.layouts.length, start, field?_behind hparent, ?_, ?_, ?_, hstart, ?_⟩
    · show parent.element.shift _ = _
      rw [hi]
      rfl
    · rw [layouts_behind, hl]
      rfl
    · have hname : (fun f : Field => f.name == part.text) ∘ Field.shift front.layouts.length =
          fun f => f.name == part.text := rfl
      show (l.members.map _).find? (fun f : Field => f.name == part.text) = _
      rw [List.find?_map, hname, hm]
      rfl
    · exact hshift.symm

end Store

theorem eval_behind {Γ : Context} {s : Store} {data : Data} (h : Agrees Γ s data.view)
    (front : Store) {e : Expr} (he : e.Typed Γ) :
    eval data (s.behind front) (e.shift d) = moved d.lines id (eval data s e) := by
  -- The agreement finds each reference, so nothing in front is looked at.
  induction e with
  | literal m value => rfl
  | access m t a =>
    obtain ⟨b, hb, -, ht⟩ := he
    obtain ⟨f, hf, helement, -⟩ := h.locate m.line hb ht
    rw [Expr.shift, eval, eval, hf, locate_behind hf helement]
    refine moved_bind (f := id) rfl fun f _ => ?_
    refine moved_bind (primitive_moved f m.line) fun t _ => ?_
    dsimp only [id]
    split
    · rfl
    · exact read_moved data m.line _ t _
  | element m t baseMark a index ih =>
    obtain ⟨⟨b, hb, -, ht⟩, hindex, -⟩ := he
    obtain ⟨f, hf, helement, -⟩ := h.locate baseMark.line hb ht
    rw [Expr.shift, eval, eval, hf, locate_behind hf helement]
    refine moved_bind (f := id) rfl fun f _ => ?_
    refine moved_bind (primitive_moved f m.line) fun t _ => ?_
    refine moved_bind (ih hindex) fun v _ => ?_
    refine moved_bind (integer_moved m.line v) fun i _ => ?_
    refine moved_bind (elementOffset_moved f m.line t i) fun offset _ => ?_
    exact read_moved data m.line f.name t offset
  | arith m t op lhs rhs ihl ihr =>
    obtain ⟨hl, hr, -⟩ := he
    rw [Expr.shift, eval, eval]
    refine moved_bind (ihl hl) fun a _ => ?_
    refine moved_bind (ihr hr) fun b _ => ?_
    dsimp only [id]
    cases Value.apply op a b <;> rfl

/-! ### Declarations -/

section Declarations

variable {Γ : Context} {s front : Store} {data : Data}

theorem layout_behind (i : Nat) :
    (s.behind front).layout (front.layouts.length + i) =
      moved lines (Layout.shift front.layouts.length) (s.layout i) := by
  unfold Store.layout
  rw [layouts_behind]
  cases s.layouts[i]? <;> rfl

theorem elementSize_behind (e : Element) :
    (s.behind front).elementSize (e.shift front.layouts.length) =
      moved lines id (s.elementSize e) := by
  cases e with
  | primitive t => rfl
  | struct i => exact moved_bind (layout_behind i) fun l _ => rfl

/-- A type that is found in the store is found behind others too. -/
theorem element_behind {line line' : Nat} {name : String} {e : Element}
    (h : s.element line name = .ok e) :
    (s.behind front).element line' name = .ok (e.shift front.layouts.length) := by
  unfold Store.element at *
  cases hprimitive : Primitive.ofName? name with
  | some t =>
    simp only [hprimitive, Except.ok.injEq] at h
    subst h
    rfl
  | none =>
    simp only [hprimitive, bind_eq_ok, require_eq_ok, pure_eq_ok] at h ⊢
    obtain ⟨i, hi, rfl⟩ := h
    refine ⟨front.layouts.length + i, lastIdx?_append_of_some ?_ _, rfl⟩
    rw [lastIdx?_map]
    exact hi

theorem evalCount_behind (h : Agrees Γ s data.view) {line : Nat} {count : Option Expr}
    (hcount : ∀ e, count = some e → e.Typed Γ) :
    evalCount data (s.behind front) (line + d.lines) (count.map (Expr.shift d)) =
      moved d.lines id (evalCount data s line count) := by
  cases count with
  | none => rfl
  | some e =>
    refine moved_bind (eval_behind h front (hcount e rfl)) fun v _ => ?_
    refine moved_bind (integer_moved line v) fun i _ => ?_
    dsimp only [id]
    split <;> rfl

theorem field_behind (e : Extent) (x : Declaration) (start : Int64) (layouts : Nat) :
    (e.shift layouts).field (x.shift d) start = (e.field x start).shift layouts := by
  unfold Extent.field Declaration.shift
  rw [Option.isSome_map]
  rfl

theorem extent_behind (h : Agrees Γ s data.view) {x : Declaration} (hx : x.Typed Γ) :
    extent data (s.behind front) (x.shift d) =
      moved d.lines (Extent.shift front.layouts.length) (extent data s x) := by
  obtain ⟨element, helement, -⟩ := h.element x.mark.line hx.1
  unfold extent
  refine moved_bind (f := Element.shift front.layouts.length) ?_ fun element _ => ?_
  · rw [helement]
    exact element_behind helement
  refine moved_bind (evalCount_behind h fun e he => (hx.2 e he).1) fun count _ => ?_
  refine moved_bind (elementSize_behind element) fun size _ => ?_
  dsimp only [id]
  split <;> rfl

theorem memberBricks_behind (w : Wall) (name : String) (e : Extent) (start : Int64) :
    memberBricks (s.behind front) w name (e.shift front.layouts.length) start =
      moved lines id (memberBricks s w name e start) := by
  have hbrick : memberBrick (s.behind front) w name (e.shift front.layouts.length) start =
      moved lines id (memberBrick s w name e start) := by
    unfold memberBrick Extent.shift
    cases e.element with
    | primitive t => rfl
    | struct i => exact moved_bind (layout_behind i) fun l _ => rfl
  unfold memberBricks
  show (if e.size = 0 then _ else _) = moved lines id (if e.size = 0 then _ else _)
  split
  · rfl
  · exact moved_bind hbrick fun b _ => rfl

theorem layOut_behind (h : Agrees Γ s data.view) (w : Wall) (struct : String) (offset : Nat)
    {xs : List Declaration} (hxs : ∀ x ∈ xs, x.Typed Γ) :
    layOut data (s.behind front) w struct offset (xs.map (Declaration.shift d)) =
      moved d.lines (Body.shift front.layouts.length) (layOut data s w struct offset xs) := by
  induction xs generalizing offset with
  | nil => rfl
  | cons x xs ih =>
    rw [List.map_cons, layOut, layOut]
    refine moved_bind (extent_behind h (hxs x List.mem_cons_self)) fun e _ => ?_
    refine moved_bind (f := id) (moved_require (by simp)) fun start _ => ?_
    refine moved_bind (memberBricks_behind w x.name.text e start) fun bricks _ => ?_
    have hsize : (e.shift front.layouts.length).size = e.size := rfl
    rw [hsize]
    split
    · refine moved_bind (ih _ fun y hy => hxs y (List.mem_cons_of_mem _ hy)) fun body _ => ?_
      rw [field_behind]
      rfl
    · rfl

theorem insertField_behind (w : Wall) (line : Nat) (name : String) (e : Extent) (start : Int64) :
    insertField (s.behind front) w (line + lines) name (e.shift front.layouts.length) start =
      moved lines id (insertField s w line name e start) := by
  unfold insertField Extent.shift
  cases e.element with
  | primitive t => rfl
  | struct i =>
    dsimp only [Element.shift]
    split
    · exact moved_bind (layout_behind i) fun l _ => rfl
    · rfl

theorem obtainDefinition_moved (w : Wall) (line : Nat) (struct : String) (members : List Brick) :
    obtainDefinition w (line + lines) struct members =
      moved lines id (obtainDefinition w line struct members) := by
  rw [moved_eq]
  exact obtainDefinition_relined (· + lines) w line struct members

end Declarations

/-! ### Steps -/

variable {Γ : Context} {s front : State} {data : Data}

/-- A typed command does the same behind others. -/
theorem step_behind (h : Agrees Γ s.store data.view) {c : Command} (hc : CommandTyped Γ c) :
    step data (s.behind d.lines front) (c.shift d) =
      moved d.lines (State.behind d.lines · front) (step data s c) := by
  cases c with
  | declare line struct members =>
    obtain ⟨-, -, htyped, -⟩ := hc
    show declareStruct _ _ _ _ _ = moved _ _ (declareStruct _ _ _ _ _)
    unfold declareStruct
    refine moved_bind (layOut_behind h s.wall struct 0 fun x hx => (htyped x hx).1) fun body _ => ?_
    refine moved_bind (obtainDefinition_moved s.wall line struct body.bricks) fun p _ => ?_
    refine congrArg Except.ok ?_
    simp [State.declared, State.behind, Store.behind, Body.shift, Layout.shift, Nat.add_assoc]
  | place x =>
    show placeField _ _ _ = moved _ _ (placeField _ _ _)
    unfold placeField
    refine moved_bind (extent_behind h hc) fun e _ => ?_
    have hsize : (e.shift front.store.layouts.length).size = e.size := rfl
    -- The new field is moved like all others, but its bytes are at the same offset.
    have hadded : (s.behind d.lines front).addField ((e.shift front.store.layouts.length).field
        (x.shift d) (s.behind d.lines front).cursor) =
        (s.addField (e.field x s.cursor)).behind d.lines front := by
      rw [field_behind]
      rfl
    rw [hsize, hadded]
    split
    · rfl
    · refine moved_bind (f := id) (moved_require (by simp [State.behind])) fun stop _ => ?_
      refine moved_bind checkBounds_moved fun _ _ => ?_
      refine moved_bind (insertField_behind s.wall x.mark.line x.name.text e s.cursor)
        fun answer _ => ?_
      refine congrArg Except.ok ?_
      cases answer <;> simp [State.note, State.behind, State.addField, Nat.add_assoc]
  | evaluate e =>
    show noteValue _ _ _ = moved _ _ (noteValue _ _ _)
    unfold noteValue
    refine moved_bind (eval_behind h front.store hc) fun v _ => ?_
    refine congrArg Except.ok ?_
    have hline : (e.shift d).mark.line = e.mark.line + d.lines := by cases e <;> rfl
    simp [State.behind, Evaluation.shift, hline]

/-- Typed commands do the same behind others. -/
theorem run_behind (h : Agrees Γ s.store data.view) {commands : List Command}
    (hc : CommandsTyped Γ commands) :
    run data (s.behind d.lines front) (commands.map (Command.shift d)) =
      (((run data s commands).1).behind d.lines front,
        (run data s commands).2.map (Halt.shift d.lines)) := by
  induction commands generalizing Γ s with
  | nil => rfl
  | cons c rest ih =>
    obtain ⟨hc, hrest⟩ := hc
    have hbehind : step data (s.behind d.lines front) (c.shift d) = _ := step_behind h hc
    rw [List.map_cons]
    cases hstep : step data s c with
    | ok t =>
      rw [hstep] at hbehind
      rw [run_cons_of_ok hstep, run_cons_of_ok hbehind]
      exact ih (h.step hc hstep) hrest
    | error halt =>
      rw [hstep] at hbehind
      rw [run_cons_of_error hstep, run_cons_of_error hbehind]
      rfl

/-! ### Executions -/

mutual

theorem commands_shift (x : Template.Statement) :
    commands (x.shift d) = (commands x).map (Command.shift d) := by
  cases x with
  | struct m name members => rfl
  | field x => rfl
  | block m body => exact commandsOf_shiftAll body
  | expression e => rfl
  | scriptEnd m => rfl

theorem commandsOf_shiftAll : ∀ xs : List Template.Statement,
    commandsOf (Template.Statement.shiftAll d xs) = (commandsOf xs).map (Command.shift d)
  | [] => rfl
  | x :: xs => by
    rw [Template.Statement.shiftAll, commandsOf, commands_shift x, commandsOf_shiftAll xs,
      commandsOf, List.map_append]

end

/-- An execution does what one template does and then what another one does from there. -/
structure Composes (t ta tb : Template) (w : Wall) (view : View) (options : Options) : Prop where
  /-- It succeeds if both do. -/
  succeeds : (∃ r, (t.execute w view options).result = .ok r) ↔
    ∃ ra, (ta.execute w view options).result = .ok ra ∧
      ∃ rb, (tb.execute (ta.execute w view options).wall view
        { options with start := ra.stop }).result = .ok rb
  /-- The wall is that of the second one, and the reports are put together. -/
  reports : ∀ r ra rb, (t.execute w view options).result = .ok r →
    (ta.execute w view options).result = .ok ra →
    (tb.execute (ta.execute w view options).wall view
      { options with start := ra.stop }).result = .ok rb →
    (t.execute w view options).wall = (tb.execute (ta.execute w view options).wall view
      { options with start := ra.stop }).wall ∧
    r.placed = ra.placed + rb.placed ∧
    r.rejected = ra.rejected ++ rb.rejected ∧
    r.defined = ra.defined + rb.defined ∧
    r.stop = rb.stop ∧
    (t.execute w view options).values.map (·.value) =
      (ta.execute w view options).values.map (·.value) ++
        (tb.execute (ta.execute w view options).wall view
          { options with start := ra.stop }).values.map (·.value)

/-- A state is behind itself what the start at its offset and wall is. -/
theorem behind_start (u : State) : (State.start u.wall u.cursor).behind d.lines u = u := by
  simp [State.behind, State.start, Store.behind, Store.empty]

theorem execute_of_runOn {t : Template} {w : Wall} {view : View} {options : Options} {s : State}
    (h : t.runOn w view options = (s, none)) :
    t.execute w view options = ⟨s.wall, s.values, .ok s.report⟩ := by
  unfold Template.execute
  rw [h]

/-- Behind the commands of one template, those of another one do what they do alone from the
    state that the first ones lead to. -/
theorem composes_of_statements {t ta tb : Template} {before : List Template.Statement}
    {m : Template.Mark} (htyped : CommandsTyped .empty (commandsOf tb.statements))
    (ha : ta.statements = before ++ [.scriptEnd m])
    (ht : t.statements = before ++ Template.Statement.shiftAll d tb.statements) (w : Wall)
    (view : View) (options : Options) : Composes t ta tb w view options := by
  let data : Data := ⟨view, options.order⟩
  have hta : ta.runOn w view options =
      run data (.start w options.start) (commandsOf before) := by
    unfold Template.runOn
    rw [ha, commandsOf_append]
    exact congrArg _ (List.append_nil _)
  have ht : t.runOn w view options = run data (.start w options.start)
      (commandsOf before ++ (commandsOf tb.statements).map (Command.shift d)) := by
    unfold Template.runOn
    rw [ht, commandsOf_append, commandsOf_shiftAll]
  -- The second template starts with nothing in its store, which the empty context agrees with.
  have hbehind (u : State) : run data u ((commandsOf tb.statements).map (Command.shift d)) =
      ((tb.runOn u.wall view { options with start := u.cursor }).1.behind d.lines u,
        (tb.runOn u.wall view { options with start := u.cursor }).2.map (Halt.shift d.lines)) := by
    have hrun : run data ((State.start u.wall u.cursor).behind d.lines u) _ = _ :=
      run_behind (agrees_empty data.view) htyped
    rw [behind_start] at hrun
    exact hrun
  have hcomposed {u v : State} (hu : ta.runOn w view options = (u, none))
      (hv : tb.runOn u.wall view { options with start := u.cursor } = (v, none)) :
      t.runOn w view options = (v.behind d.lines u, none) := by
    rw [ht, run_append (hta.symm.trans hu), hbehind, hv]
    rfl
  constructor
  case succeeds =>
    constructor
    · intro h
      obtain ⟨r, hr⟩ := h
      obtain ⟨s, hs, -⟩ := execute_eq_ok_iff.1 hr
      obtain ⟨u, hu, hrest⟩ := run_append_eq_none (ht.symm.trans hs)
      have hua := execute_of_runOn (hta.trans hu)
      rw [hbehind] at hrest
      have hnone := Option.map_eq_none_iff.1 (Prod.mk.inj hrest).2
      have hv := execute_of_runOn (Prod.ext rfl hnone : tb.runOn u.wall view
        { options with start := u.cursor } = (_, none))
      rw [hua]
      exact ⟨u.report, rfl, _, congrArg Outcome.result hv⟩
    · intro h
      obtain ⟨ra, hra, rb, hrb⟩ := h
      obtain ⟨u, hu, rfl, hwall⟩ := execute_eq_ok_iff.1 hra
      rw [hwall] at hrb
      obtain ⟨v, hv, -⟩ := execute_eq_ok_iff.1 hrb
      exact ⟨_, congrArg Outcome.result (execute_of_runOn (hcomposed hu hv))⟩
  case reports =>
    intro r ra rb hr hra hrb
    obtain ⟨u, hu, rfl, hwall⟩ := execute_eq_ok_iff.1 hra
    rw [hwall] at hrb ⊢
    obtain ⟨v, hv, rfl, -⟩ := execute_eq_ok_iff.1 hrb
    have hexecute := execute_of_runOn (hcomposed hu hv)
    rw [hexecute] at hr ⊢
    rw [execute_of_runOn hu, execute_of_runOn hv]
    cases hr
    refine ⟨rfl, rfl, rfl, rfl, rfl, ?_⟩
    simp [State.behind, Evaluation.shift]

end Execution

/-- **Main theorem.** If the end of one source makes a chain of its own, and another source
    declares other structs, both with a line feed between them are compiled. The statements
    of the second source come behind those of the first one, and an execution does what both
    do, one after the other. -/
theorem Template.execute_append {a b : String} {ta tb : Template} {sa : Syntax.Script}
    {o : Syntax.Origin} (hsize : a.utf8ByteSize + b.utf8ByteSize < 2 ^ 28)
    (ha : compile a = .ok ta) (hb : compile b = .ok tb) (hsa : Syntax.Script.ofSource a = .ok sa)
    (hend : sa.statements.getLast? = some [.scriptEnd o])
    (hstructs : ∀ name ∈ ta.structNames, name ∉ tb.structNames) :
    ∃ t d, compile (a ++ "\n" ++ b) = .ok t ∧
      t.statements = ta.statements.dropLast ++ Statement.shiftAll d tb.statements ∧
      ∀ w view options, Execution.Composes t ta tb w view options := by
  obtain ⟨t, d, before, m, ht, hbefore, hstatements⟩ :=
    compile_append hsize ha hb hsa hend hstructs
  refine ⟨t, d, ht, ?_, ?_⟩
  · rw [hstatements, hbefore, List.dropLast_concat]
  · exact Execution.composes_of_statements (typed_of_compile hb).1 hbefore hstatements

/-- Whether a chain is the end of a script. -/
def Syntax.Node.endsScript : List Syntax.Node → Bool
  | [.scriptEnd _] => true
  | _ => false

theorem Syntax.Node.endsScript_iff {ns : List Syntax.Node} :
    endsScript ns = true ↔ ∃ o, ns = [.scriptEnd o] := by
  constructor
  · intro h
    unfold endsScript at h
    split at h
    · exact ⟨_, rfl⟩
    · simp at h
  · rintro ⟨o, rfl⟩
    rfl

/-- A source with a struct and a field of it. -/
def headSource : String := "struct Head \x7b uint8 n; \x7d Head h; h.n;"

/-- A source with another struct and a field that has the name of the first one. -/
def tailSource : String := "struct Pair \x7b uint8[2] v; \x7d Pair h; h.v[0] + h.v[1];"

theorem Template.head_execute_tail :
    ∃ ta tb, compile headSource = .ok ta ∧ compile tailSource = .ok tb ∧
      ∃ t d, compile (headSource ++ "\n" ++ tailSource) = .ok t ∧
        t.statements = ta.statements.dropLast ++ Statement.shiftAll d tb.statements ∧
        ∀ w view options, Execution.Composes t ta tb w view options := by
  have hnames : ((compile headSource).toOption.any fun ta =>
      (compile tailSource).toOption.any fun tb =>
        ta.structNames.all (! tb.structNames.contains ·)) = true := by decide +kernel
  have hchains : ((Syntax.Script.ofSource headSource).toOption.any fun sa =>
      sa.statements.getLast?.any Syntax.Node.endsScript) = true := by decide +kernel
  obtain ⟨ta, ha, hnames⟩ := (Option.any_eq_true _ _).1 hnames
  obtain ⟨tb, hb, hnames⟩ := (Option.any_eq_true _ _).1 hnames
  obtain ⟨sa, hsa, hchains⟩ := (Option.any_eq_true _ _).1 hchains
  obtain ⟨chain, hlast, hend⟩ := (Option.any_eq_true _ _).1 hchains
  obtain ⟨o, rfl⟩ := Syntax.Node.endsScript_iff.1 hend
  have ha := Wall.toOption_eq_some_iff.1 ha
  have hb := Wall.toOption_eq_some_iff.1 hb
  have hsa := Wall.toOption_eq_some_iff.1 hsa
  exact ⟨ta, tb, ha, hb, execute_append (by decide +kernel) ha hb hsa hlast
    (by simpa using hnames)⟩

end ByteBricks
