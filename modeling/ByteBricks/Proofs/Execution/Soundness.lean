import ByteBricks.Proofs.Execution.Agreement
import ByteBricks.Proofs.Template.Resolve
import ByteBricks.Proofs.Wall.Reachable
import Mathlib.Data.List.Forall2

/-! # Soundness of Execution

  The execution of a compiled template only stops for reasons that lie in the data, or
  at a file that cannot be read: every name that it looks up is there, every type fits,
  and no broken state is reached. Each command keeps the agreement of the context that the
  template is typed in with the store of its execution. -/

namespace ByteBricks.Execution

open Template (Context Declaration ElementType Expr CommandTyped CommandsTyped MembersTyped)

/-! ### Declarations -/

namespace Agrees

variable {Γ : Context} {s : Store} {data : Data} {kind : Fault → Prop}

/-- A count is an integer, and may be negative. -/
theorem evalCount_meets (hkind : ∀ fault, fault.OfSize → kind fault) (line : Nat)
    {count : Option Expr} (hcount : ∀ e, count = some e → e.type.isInteger = true ∧
      Meets kind (·.HasType e.type) (Execution.eval data s e)) :
    Meets kind (fun n => count = none → n = 1) (evalCount data s line count) := by
  cases count with
  | none => exact fun _ => rfl
  | some e =>
    obtain ⟨hint, heval⟩ := hcount e rfl
    refine heval.bind fun value _ hvalue => ?_
    cases value with
    | float x =>
      have hfloat : e.type.isFloat = true := hvalue
      simp [Primitive.isInteger, hfloat] at hint
    | int i =>
      show Meets _ _ (if i.toInt < 0 then _ else _)
      split
      · exact hkind (.negativeCount i) trivial
      · -- There is a count, so nothing is said about its absence.
        intro hnone
        simp at hnone

/-- A declaration of a known type asks for elements of that type. -/
theorem extent_meets (h : Agrees Γ s data.view) (hkind : ∀ fault, fault.OfSize → kind fault)
    {d : Declaration} (hknows : Γ.Knows (.ofName d.typeName.text))
    (hcount : ∀ e, d.count = some e → e.type.isInteger = true ∧
      Meets kind (·.HasType e.type) (Execution.eval data s e)) :
    Meets kind (fun e => Denotes s.layouts (.ofName d.typeName.text) e.element ∧
      (d.count = none → e.count = 1)) (extent data s d) := by
  obtain ⟨element, helement, hdenotes⟩ := h.element d.mark.line hknows
  obtain ⟨n, hn⟩ := hdenotes.size?_isSome
  unfold Execution.extent
  rw [helement]
  refine Meets.bind (P := (· = element)) rfl fun element' _ heq => ?_
  rw [heq]
  refine (evalCount_meets hkind d.mark.line hcount).bind fun count _ hcount => ?_
  rw [elementSize_eq_ok_iff.2 hn]
  refine Meets.bind (P := (· = n)) rfl fun n' _ _ => ?_
  dsimp only
  split
  · exact ⟨hdenotes, hcount⟩
  · exact hkind (.sizeOverflow d.name.text) trivial

/-- A typed declaration asks for elements of its type. -/
theorem extent (h : Agrees Γ s data.view) {d : Declaration} (hd : d.Typed Γ) :
    Meets (Fault.In data.view Fault.OfData)
      (fun e => Denotes s.layouts (.ofName d.typeName.text) e.element ∧
        (d.count = none → e.count = 1)) (extent data s d) := by
  refine h.extent_meets (fun _ h => .inl h.ofData) hd.1 fun e he => ?_
  obtain ⟨htyped, hint⟩ := hd.2 e he
  exact ⟨hint, (h.eval htyped).mono fun _ h => h.mono fun _ => Fault.OfValues.ofData⟩

/-- The field of a declaration is what the declaration says. -/
theorem stands_field {layouts : List Layout} {d : Declaration} {e : Extent}
    (he : Denotes layouts (.ofName d.typeName.text) e.element)
    (hcount : d.count = none → e.count = 1) (start : Int64) :
    Stands layouts d.entry (e.field d start) where
  element := he
  isArray := rfl
  single := by
    intro harray
    cases hd : d.count with
    | none => exact hcount hd
    | some size => simp [Declaration.entry, hd] at harray

theorem memberBricks (w : Wall) (name : String) {e : Extent} (start : Int64) {t : ElementType}
    (he : Denotes s.layouts t e.element) :
    Meets kind (fun _ => True) (memberBricks s w name e start) := by
  unfold Execution.memberBricks memberBrick
  split
  · trivial
  · cases helement : e.element with
    | primitive t' => trivial
    | struct i =>
      rw [helement] at he
      obtain ⟨l, hl⟩ := he.layout_isSome
      dsimp only
      rw [layout_eq_ok_iff.2 hl]
      trivial

/-- The members of a struct are laid out as they are declared. -/
theorem layOut_meets (hkind : ∀ fault, fault.OfSize → kind fault) (w : Wall) (struct : String)
    (offset : Nat) {ds : List Declaration}
    (hds : ∀ d ∈ ds, Meets kind (fun e => Denotes s.layouts (.ofName d.typeName.text) e.element ∧
      (d.count = none → e.count = 1)) (Execution.extent data s d)) :
    Meets kind (fun body => List.Forall₂ (fun d f => f.name = d.name.text ∧
      Stands s.layouts d.entry f) ds body.fields) (layOut data s w struct offset ds) := by
  -- The members share the store, and each starts behind the ones before it.
  induction ds generalizing offset with
  | nil => exact .nil
  | cons d ds ih =>
    have hoverflow : kind (.sizeOverflow struct) := hkind _ trivial
    rw [Execution.layOut]
    refine (hds d List.mem_cons_self).bind fun e _ he => ?_
    obtain ⟨hdenotes, hcount⟩ := he
    refine (meets_require (P := fun _ => True) hoverflow fun _ _ => trivial).bind
      fun start _ _ => ?_
    refine (memberBricks w d.name.text start hdenotes).bind fun bricks _ _ => ?_
    split
    · refine (ih _ fun d' hd' => hds d' (List.mem_cons_of_mem _ hd')).bind fun body _ hbody => ?_
      exact .cons ⟨rfl, stands_field hdenotes hcount start⟩ hbody
    · exact hoverflow

/-- The members of a struct are laid out if they are typed. -/
theorem layOut (h : Agrees Γ s data.view) (w : Wall) (struct : String) (offset : Nat)
    {ds : List Declaration} (hds : ∀ d ∈ ds, d.Typed Γ) :
    Meets (Fault.In data.view Fault.OfData)
      (fun body => List.Forall₂ (fun d f => f.name = d.name.text ∧
        Stands s.layouts d.entry f) ds body.fields) (layOut data s w struct offset ds) :=
  layOut_meets (fun _ h => .inl h.ofData) w struct offset fun d hd => h.extent (hds d hd)

/-- A member of a struct is found among its fields. -/
theorem find_member {layouts : List Layout} {ds : List Declaration} {fields : List Field}
    (hall : List.Forall₂ (fun d f => f.name = d.name.text ∧ Stands layouts d.entry f) ds fields)
    (hdistinct : (ds.map (·.name.text)).Nodup) {d : Declaration} (hd : d ∈ ds) :
    ∃ f, fields.find? (·.name == d.name.text) = some f ∧ Stands layouts d.entry f := by
  induction hall with
  | nil => simp at hd
  | @cons d' f' ds fields hhead htail ih =>
    obtain ⟨hname, hstands⟩ := hhead
    obtain ⟨hfresh, hdistinct⟩ := List.nodup_cons.1 hdistinct
    rcases List.mem_cons.1 hd with rfl | hd
    · exact ⟨f', by simp [hname], hstands⟩
    · have hne : f'.name ≠ d.name.text := by
        rw [hname]
        intro heq
        exact hfresh (List.mem_map.2 ⟨d, hd, heq.symm⟩)
      obtain ⟨f, hf, hstands⟩ := ih hdistinct hd
      refine ⟨f, ?_, hstands⟩
      rw [List.find?_cons_of_neg (by simpa using hne)]
      exact hf

/-- A declared struct is known to both sides. -/
theorem declared (h : Agrees Γ s data.view) {line : Nat} {struct : String}
    {ds : List Declaration} (hnew : Γ.struct? struct = none)
    (hdistinct : (ds.map (·.name.text)).Nodup) {l : Layout} (hname : l.name = struct)
    (hmembers : List.Forall₂ (fun d f => f.name = d.name.text ∧ Stands s.layouts d.entry f) ds
      l.members)
    (hwithin : ∀ f ∈ l.members, f.Within s.layouts l.size) :
    Agrees (Γ.after (.declare line struct ds)) { s with layouts := s.layouts ++ [l] }
      data.view where
  structs := by
    intro name e he
    rw [Context.struct?_after_declare] at he
    rw [lastIdx?_append_singleton]
    by_cases heq : struct = name
    · exact ⟨_, if_pos (by simpa [hname] using heq)⟩
    · rw [if_neg heq] at he
      obtain ⟨i, hi⟩ := h.structs name e he
      refine ⟨i, ?_⟩
      rw [if_neg (by simpa [hname] using heq)]
      exact hi
  layouts := by
    intro l' hl'
    rw [Context.struct?_after_declare]
    rcases List.mem_append.1 hl' with hl' | hl'
    · -- The name is new, so it hides none of the structs that have layouts.
      obtain ⟨e, he, hmember⟩ := h.layouts l' hl'
      have hne : struct ≠ l'.name := by
        intro heq
        rw [← heq, hnew] at he
        simp at he
      rw [if_neg hne]
      refine ⟨e, he, fun name b hb => ?_⟩
      obtain ⟨f, hf, hstands⟩ := hmember name b hb
      exact ⟨f, hf, hstands.append _⟩
    · rw [List.mem_singleton.1 hl']
      refine ⟨_, if_pos hname.symm, fun name b hb => ?_⟩
      -- The context lists the members backwards, the layout as they are declared.
      have hmem : b ∈ ds.map Declaration.entry := List.mem_reverse.1 (List.mem_of_find?_eq_some hb)
      obtain ⟨d, hd, rfl⟩ := List.mem_map.1 hmem
      have hname : d.name.text = name := by simpa [Declaration.entry] using List.find?_some hb
      obtain ⟨f, hf, hstands⟩ := find_member hmembers hdistinct hd
      rw [hname] at hf
      exact ⟨f, hf, hstands.append _⟩
  distinct := by
    have hfresh : l.name ∉ s.layouts.map (·.name) := by
      intro hmem
      obtain ⟨l', hl', heq⟩ := List.mem_map.1 hmem
      obtain ⟨e, he, -⟩ := h.layouts l' hl'
      rw [heq, hname, hnew] at he
      simp at he
    rw [List.map_append]
    refine List.nodup_append.2 ⟨h.distinct, by simp, ?_⟩
    intro a ha b hb heq
    rw [heq, List.mem_singleton.1 hb] at ha
    exact hfresh ha
  within := by
    intro l' hl' f hf
    rcases List.mem_append.1 hl' with hl' | hl'
    · exact (h.within l' hl' f hf).append _
    · rw [List.mem_singleton.1 hl'] at hf ⊢
      exact (hwithin f hf).append _
  fields := by
    intro name b hb
    obtain ⟨f, hf, hstands, hcovered⟩ := h.fields name b hb
    exact ⟨f, hf, hstands.append _, hcovered.append _⟩

/-- A placed field is known to both sides. -/
theorem placed (h : Agrees Γ s data.view) {d : Declaration} {f : Field}
    (hname : f.name = d.name.text) (hstands : Stands s.layouts d.entry f)
    (hcovered : f.Covered s.layouts data.view) :
    Agrees (Γ.after (.place d)) { s with fields := f :: s.fields } data.view where
  structs := h.structs
  layouts := h.layouts
  distinct := h.distinct
  within := h.within
  fields := by
    intro name b hb
    rw [Context.field?_after_place] at hb
    unfold Store.field?
    by_cases heq : d.name.text = name
    · rw [if_pos heq] at hb
      cases hb
      exact ⟨f, List.find?_cons_of_pos (by simpa [hname] using heq), hstands, hcovered⟩
    · rw [if_neg heq] at hb
      rw [List.find?_cons_of_neg (by simpa [hname] using heq)]
      exact h.fields name b hb

end Agrees

/-! ### Commands -/

/-- What every command of a typed template keeps. -/
structure Tracks (Γ : Context) (s : State) (data : Data) : Prop where
  agrees : Agrees Γ s.store data.view
  defined : s.Defined
  coherent : s.wall.Coherent

variable {Γ : Context} {s : State} {data : Data}

theorem Tracks.declareStruct (h : Tracks Γ s data) (hcoded : s.wall.Coded) {line : Nat}
    {struct : String} {members : List Declaration}
    (hc : CommandTyped Γ (.declare line struct members)) :
    Meets (Fault.In data.view Fault.OfData)
      (fun s' => Agrees (Γ.after (.declare line struct members)) s'.store data.view)
      (declareStruct data s line struct members) := by
  obtain ⟨-, hnew, htyped, hdistinct⟩ := hc
  have hlayout := h.agrees.layOut s.wall struct 0 fun d hd => (htyped d hd).1
  unfold Execution.declareStruct
  refine hlayout.bind fun body hbody hmembers => ?_
  obtain ⟨⟨index, wall⟩, hfound⟩ :=
    obtainDefinition_isOk h.coherent hcoded h.defined.definedIn line hbody
  rw [hfound]
  exact h.agrees.declared hnew hdistinct rfl hmembers (within_of_layOut hbody)

@[simp] theorem note_store (s : State) (answer : Except Rejection Wall) :
    (s.note answer).store = s.store := by
  cases answer <;> rfl

/-- A field that was placed within the data is covered by it. -/
theorem covered_of_stop {view : View} {layouts : List Layout} {d : Declaration} {e : Extent}
    {n line : Nat} {name : String} {start stop : Int64}
    (hn : e.element.size? layouts = some n) (hsize : e.size = n * e.count)
    (hstop : fieldStop start e.size = some stop)
    (hbounds : checkBounds view line name start stop = .ok ()) :
    (e.field d start).Covered layouts view := by
  obtain ⟨hlo, -, hhi⟩ := checkBounds_eq_ok_iff.1 hbounds
  obtain ⟨-, hstop⟩ := fieldStop_eq_some_iff.1 hstop
  have hend := Word.toInt_of_int64? hstop
  obtain ⟨-, hmax, -⟩ := Word.int64?_eq_some_iff.1 hstop
  rw [hsize] at hend hmax
  rw [hend] at hhi
  exact ⟨n, hn, .inr ⟨hlo, hhi, hmax⟩⟩

/-- A command that succeeds keeps the agreement. -/
theorem Agrees.step {s' : State} (h : Agrees Γ s.store data.view) {c : Command}
    (hc : CommandTyped Γ c) (hstep : step data s c = .ok s') :
    Agrees (Γ.after c) s'.store data.view := by
  cases c with
  | declare line struct members =>
    obtain ⟨-, hnew, htyped, hdistinct⟩ := hc
    obtain ⟨body, index, wall, hbody, -, rfl⟩ := declareStruct_eq_ok_iff.1 hstep
    have hmembers := h.layOut s.wall struct 0 fun d hd => (htyped d hd).1
    rw [hbody] at hmembers
    exact h.declared hnew hdistinct rfl hmembers (within_of_layOut hbody)
  | place d =>
    obtain ⟨e, he, hcases⟩ := placeField_eq_ok_iff.1 hstep
    have hextent := h.extent (d := d) hc
    rw [he] at hextent
    obtain ⟨hdenotes, hcount⟩ := hextent
    obtain ⟨n, -, -, hn, hsize, -⟩ := extent_eq_ok_iff.1 he
    have hn := elementSize_eq_ok_iff.1 hn
    have hstands := stands_field hdenotes hcount s.cursor
    rcases hcases with ⟨hzero, rfl⟩ | ⟨-, stop, answer, hstop, hbounds, -, rfl⟩
    · rw [hsize] at hzero
      exact h.placed rfl hstands ⟨n, hn, .inl hzero⟩
    · show Agrees _ ((s.addField (e.field d s.cursor)).note answer).store data.view
      rw [note_store]
      exact h.placed rfl hstands (covered_of_stop hn hsize hstop hbounds)
  | evaluate e =>
    obtain ⟨value, -, rfl⟩ := noteValue_eq_ok_iff.1 hstep
    exact h

/-- The wall is asked to take the brick of a field unless it is an array of too many
    structs. -/
theorem insertField_meets {line : Nat} (name : String) {e : Extent}
    (start : Int64) {t : ElementType} (he : Denotes s.store.layouts t e.element) :
    Meets (Fault.In data.view Fault.OfData) (fun _ => True)
      (insertField s.store s.wall line name e start) := by
  unfold insertField
  cases helement : e.element with
  | primitive t' => trivial
  | struct i =>
    rw [helement] at he
    obtain ⟨l, hl⟩ := he.layout_isSome
    dsimp only
    rw [layout_eq_ok_iff.2 hl]
    split
    · trivial
    · exact .inl trivial

theorem checkBounds_meets {view : View} {line : Nat} {name : String} {start stop : Int64} :
    Meets (Fault.In view Fault.OfData) (fun _ => True) (checkBounds view line name start stop) := by
  unfold checkBounds
  split
  · trivial
  · exact .inl trivial

theorem Tracks.placeField (h : Tracks Γ s data) {d : Declaration} (hd : d.Typed Γ) :
    Meets (Fault.In data.view Fault.OfData)
      (fun s' => Agrees (Γ.after (.place d)) s'.store data.view) (placeField data s d) := by
  unfold Execution.placeField
  refine (h.agrees.extent hd).bind fun e he hextent => ?_
  obtain ⟨hdenotes, hcount⟩ := hextent
  obtain ⟨n, -, -, hn, hsize, -⟩ := extent_eq_ok_iff.1 he
  have hstands := Agrees.stands_field hdenotes hcount s.cursor
  split
  · next hzero =>
    rw [hsize] at hzero
    exact h.agrees.placed rfl hstands ⟨n, elementSize_eq_ok_iff.1 hn, .inl hzero⟩
  · refine (meets_require (P := fun stop => fieldStop s.cursor e.size = some stop) (.inl trivial)
      fun _ hstop => hstop).bind fun stop _ hstop => ?_
    refine checkBounds_meets.bind fun _ hbounds _ => ?_
    refine (insertField_meets d.name.text s.cursor hdenotes).bind fun answer _ _ => ?_
    -- The checked end is that of all elements, which are therefore part of the data.
    have hcovered := covered_of_stop (d := d) (elementSize_eq_ok_iff.1 hn) hsize hstop hbounds
    show Agrees _ ((s.addField (e.field d s.cursor)).note answer).store data.view
    rw [note_store]
    exact h.agrees.placed rfl hstands hcovered

theorem Tracks.step (h : Tracks Γ s data) (hcoded : s.wall.Coded) {c : Command}
    (hc : CommandTyped Γ c) :
    Meets (Fault.In data.view Fault.OfData) (fun s' => Tracks (Γ.after c) s' data)
      (Execution.step data s c) := by
  have hagrees : Meets (Fault.In data.view Fault.OfData)
      (fun s' => Agrees (Γ.after c) s'.store data.view) (Execution.step data s c) := by
    cases c with
    | declare line struct members => exact h.declareStruct hcoded hc
    | place d => exact h.placeField hc
    | evaluate e =>
      have heval := (h.agrees.eval hc).mono fun _ hfault =>
        hfault.mono fun _ => Fault.OfValues.ofData
      exact heval.bind fun _ _ _ => h.agrees
  cases hstep : Execution.step data s c with
  | ok s' =>
    rw [hstep] at hagrees
    exact ⟨hagrees, (h.defined.step h.coherent hstep).2, h.coherent.step hstep⟩
  | error halt =>
    rw [hstep] at hagrees
    exact hagrees

/-! ### Runs -/

/-- A run keeps the agreement up to where it gets, and only stops for reasons that lie in
    the data. -/
theorem Tracks.run (h : Tracks Γ s data) {commands : List Command}
    (hc : CommandsTyped Γ commands) (hcoded : (run data s commands).1.wall.Coded) :
    (∀ halt, (Execution.run data s commands).2 = some halt →
        halt.Of (Fault.In data.view Fault.OfData)) ∧
      ((Execution.run data s commands).2 = none →
        Tracks (Γ.afterAll commands) (Execution.run data s commands).1 data) := by
  induction commands generalizing Γ s with
  | nil => exact ⟨fun _ hhalt => (nomatch hhalt), fun _ => h⟩
  | cons c rest ih =>
    obtain ⟨hc, hrest⟩ := hc
    have hmeets := h.step (coded_of_run h.defined h.coherent rfl hcoded) hc
    cases hstep : Execution.step data s c with
    | ok s' =>
      rw [hstep] at hmeets
      rw [run_cons_of_ok hstep] at hcoded ⊢
      exact ih hmeets hrest hcoded
    | error halt =>
      rw [hstep] at hmeets
      rw [run_cons_of_error hstep]
      constructor
      · intro halt' hhalt
        cases hhalt
        exact hmeets
      · intro hnone
        simp at hnone

theorem agrees_empty (view : View) : Agrees .empty .empty view where
  structs := fun _ _ he => nomatch he
  layouts := fun _ hl => nomatch hl
  distinct := .nil
  within := fun _ hl => nomatch hl
  fields := fun _ _ hb => nomatch hb

theorem tracks_start {w : Wall} (hw : w.Coherent) (cursor : Int64) (data : Data) :
    Tracks .empty (.start w cursor) data where
  agrees := agrees_empty data.view
  defined := defined_start w cursor
  coherent := hw

/-- The expressions that a command evaluates, with all their parts. -/
def Command.nodes : Command → List Expr
  | .declare _ _ members => members.flatMap Declaration.nodes
  | .place d => d.nodes
  | .evaluate e => e.nodes

theorem typed_of_mem_nodes {c : Command} (hc : CommandTyped Γ c) {e : Expr}
    (he : e ∈ c.nodes) : e.Typed Γ := by
  cases c with
  | declare line struct members =>
    obtain ⟨d, hd, he⟩ := List.mem_flatMap.1 he
    exact (hc.2.2.1 d hd).1.of_mem_nodes he
  | place d => exact Declaration.Typed.of_mem_nodes hc he
  | evaluate e' => exact Expr.Typed.of_mem_nodes hc he

/-- A failure is an error on a line, of the kind. -/
theorem Halt.Of.failed {kind : Fault → Prop} {halt : Halt} (h : halt.Of kind) :
    ∃ line fault, halt = .failed ⟨line, fault⟩ ∧ kind fault := by
  cases halt with
  | failed error => exact ⟨error.line, error.fault, rfl, h⟩
  | broken breach => exact h.elim

/-- What evaluating an expression gives: an integer for an integer type, a float for a
    float type, or a fault of the values that it is computed from. Only a file that does not
    keep its bytes leads to another fault. -/
structure Evaluates (view : View) (e : Expr) (result : Except Halt Value) : Prop where
  /-- An integer type gives an integer. -/
  int : ∀ value, result = .ok value → e.type.isInteger = true → ∃ i, value = .int i
  /-- A float type gives a float. -/
  float : ∀ value, result = .ok value → e.type.isFloat = true → ∃ x, value = .float x
  /-- A failure is one of arithmetic or an index out of range. -/
  fault : ∀ halt, result = .error halt →
    ∃ line fault, halt = .failed ⟨line, fault⟩ ∧ fault.In view Fault.OfValues

theorem Agrees.evaluates {Γ : Context} {s : Store} {data : Data} (h : Agrees Γ s data.view)
    {e : Expr} (he : e.Typed Γ) : Evaluates data.view e (Execution.eval data s e) := by
  have hmeets := h.eval he
  constructor
  case int =>
    intro value hvalue hint
    rw [hvalue] at hmeets
    cases value with
    | int i => exact ⟨i, rfl⟩
    | float x =>
      have hfloat : e.type.isFloat = true := hmeets
      simp [Primitive.isInteger, hfloat] at hint
  case float =>
    intro value hvalue hfloat
    rw [hvalue] at hmeets
    cases value with
    | float x => exact ⟨x, rfl⟩
    | int i =>
      have hint : e.type.isInteger = true := hmeets
      simp [Primitive.isInteger, hfloat] at hint
  case fault =>
    intro halt hhalt
    rw [hhalt] at hmeets
    exact hmeets.failed

/-! ### Compiled Templates -/

/-- What a user of a template may rely on when it is executed. -/
structure SoundOn (t : Template) (w : Wall) (view : View) (options : Options) : Prop where
  /-- Its nodes and names are found where its statements say. -/
  linked : t.IsLinked
  /-- It gets to its end, or stops for a reason that lies in the data. Only a file that does not
      keep its bytes leads to another fault. -/
  result : (∃ report, (t.execute w view options).result = .ok report) ∨
    ∃ line fault, (t.execute w view options).result = .error (.failed ⟨line, fault⟩) ∧
      fault.In view Fault.OfData
  /-- At every command that it gets to, each expression evaluates to what it is typed as. -/
  evaluations : ∀ done c rest s, commandsOf t.statements = done ++ c :: rest →
    run ⟨view, options.order⟩ (.start w options.start) done = (s, none) →
    ∀ e ∈ c.nodes, Evaluates view e (eval ⟨view, options.order⟩ s.store e)

/-- Views of memory keep their bytes: nothing but the data stops an execution on them. -/
theorem SoundOn.result_of_memory {t : Template} {w : Wall} {view : View} {options : Options}
    (h : SoundOn t w view options) {d : Array UInt8}
    (hview : view = .bytes d ∨ view = .input (.memory d)) :
    (∃ report, (t.execute w view options).result = .ok report) ∨
      ∃ line fault, (t.execute w view options).result = .error (.failed ⟨line, fault⟩) ∧
        fault.OfData := by
  have hsteady : view.Steady := by
    rcases hview with rfl | rfl
    · exact View.steady_bytes d
    · exact View.steady_memory d
  refine h.result.imp_right fun hfailed => ?_
  obtain ⟨line, fault, hresult, hfault⟩ := hfailed
  exact ⟨line, fault, hresult, hfault.of_steady hsteady⟩

/-- **Main theorem.** Compiled templates are sound on reachable walls. -/
theorem soundOn_of_compiled {t : Template} (ht : t.IsCompiled) {w : Wall} (hw : w.Reachable)
    (view : View) (options : Options) (hsmall : (t.runOn w view options).1.wall.Small) :
    SoundOn t w view options := by
  obtain ⟨source, hsource⟩ := ht
  obtain ⟨htyped, hlinked⟩ := Template.typed_of_compile hsource
  have hstart := tracks_start hw.coherent options.start ⟨view, options.order⟩
  obtain ⟨hhalts, -⟩ := hstart.run htyped hsmall.coded
  constructor
  case linked => exact hlinked
  case result =>
    cases hresult : (t.execute w view options).result with
    | ok report => exact .inl ⟨report, rfl⟩
    | error halt =>
      obtain ⟨s, hrun, -⟩ := execute_eq_error_iff.1 hresult
      obtain ⟨line, fault, rfl, hfault⟩ := (hhalts halt (congrArg Prod.snd hrun)).failed
      exact .inr ⟨line, fault, rfl, hfault⟩
  case evaluations =>
    intro done c rest s hsplit hdone e he
    rw [hsplit, Template.commandsTyped_append] at htyped
    obtain ⟨hbefore, hc, -⟩ := htyped
    have hnow : (run ⟨view, options.order⟩ (.start w options.start) done).1.wall.Coded := by
      have hkeep := run_keeps ⟨view, options.order⟩ hstart.defined hstart.coherent done
      rw [hdone] at hkeep ⊢
      obtain ⟨hcoherent, hdefined, -⟩ := hkeep
      unfold Template.runOn at hsmall
      rw [hsplit, run_append hdone] at hsmall
      exact coded_of_run hdefined hcoherent rfl hsmall.coded
    have htracks := (hstart.run hbefore hnow).2 (congrArg Prod.snd hdone)
    rw [hdone] at htracks
    exact htracks.agrees.evaluates (typed_of_mem_nodes hc he)

/-- A template with a struct, whose members give the count and the last index of an array
    behind it. -/
def counted : Template :=
  .ofSource "struct Head \x7b uint8 n; uint8[2] pad; \x7d \x7b Head h; \x7d uint8[h.n] body; body[h.n - 1];"

theorem counted_soundOn :
    counted.IsCompiled ∧ Wall.crowded.Reachable ∧
      (counted.runOn .crowded (.bytes #[2, 0, 0, 7, 9]) .default).1.wall.Small ∧
      SoundOn counted .crowded (.bytes #[2, 0, 0, 7, 9]) .default :=
  have hcompiled : counted.IsCompiled := Template.isCompiled_ofSource (by decide +kernel)
  have hsmall : (counted.runOn .crowded (.bytes #[2, 0, 0, 7, 9]) .default).1.wall.Small := by
    decide +kernel
  ⟨hcompiled, Wall.crowded_reachable, hsmall,
    soundOn_of_compiled hcompiled Wall.crowded_reachable _ _ hsmall⟩

end ByteBricks.Execution
