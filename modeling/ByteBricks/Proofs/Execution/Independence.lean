import ByteBricks.Proofs.Execution.Pairs

/-! # Independence of the Wall

  What an execution takes from the wall that it runs on. A struct may be found in the wall
  or added to it, so its definition has another index on another wall, and the colours of
  its members differ. Nothing that decides how the execution goes on depends on them: the
  fields, the values of expressions and the first error are the same on all walls. Main
  statement: two walls differ in the bricks that they refuse, and in nothing else. -/

namespace ByteBricks

/-- The name, the offset and the size of a brick. -/
def Brick.outline (b : Brick) : Label × Int64 × UInt64 := (b.name, b.start, b.size)

namespace Execution

open Template (Access Declaration Expr)

/-! ### Stores without Definitions -/

/-- The layout without the index of its definition. -/
def Layout.bare (l : Layout) : Layout := { l with definition := 0 }

/-- The store without the indices of definitions. -/
def Store.bare (s : Store) : Store := { s with layouts := s.layouts.map Layout.bare }

section Bare

variable (data : Data)

theorem bare_eq_iff {store store' : Store} :
    store'.bare = store.bare ↔
      store'.layouts.map Layout.bare = store.layouts.map Layout.bare ∧
        store'.fields = store.fields := by
  unfold Store.bare
  rw [Store.mk.injEq]

theorem layout_bare (store : Store) (i : Nat) :
    store.bare.layout i = (store.layout i).map Layout.bare := by
  show assured _ (store.layouts.map Layout.bare)[i]? = (assured _ store.layouts[i]?).map _
  rw [List.getElem?_map]
  cases store.layouts[i]? <;> rfl

theorem elementSize_bare (store : Store) (e : Element) :
    store.bare.elementSize e = store.elementSize e := by
  cases e with
  | primitive t => rfl
  | struct i =>
    rw [Store.elementSize, Store.elementSize, layout_bare]
    cases store.layout i <;> rfl

theorem locate_bare (store : Store) (line : Nat) (a : Access) :
    store.bare.locate line a = store.locate line a := by
  cases a with
  | field name => rfl
  | member owner part =>
    have hfield : store.bare.field? owner.text = store.field? owner.text := rfl
    rw [Store.locate, Store.locate, hfield]
    cases store.field? owner.text with
    | none => rfl
    | some parent =>
      have hrequire : require line (.unknownField owner.text) (some parent) = .ok parent := rfl
      rw [hrequire]
      dsimp only [bind, Except.bind]
      cases parent.element with
      | primitive t => rfl
      | struct i =>
        -- The members of a layout are those of its bare form.
        dsimp only
        rw [layout_bare]
        cases store.layout i <;> rfl

/-- No expression depends on the indices of definitions. -/
theorem eval_bare (store : Store) (e : Expr) : eval data store.bare e = eval data store e := by
  induction e with
  | literal m value => rfl
  | access m t field => rw [eval, eval, locate_bare]
  | element m t baseMark field index ih => rw [eval, eval, locate_bare, ih]
  | arith m t op lhs rhs ihl ihr => rw [eval, eval, ihl, ihr]

theorem element_bare (store : Store) (line : Nat) (name : String) :
    store.bare.element line name = store.element line name := by
  have hindex : lastIdx? (·.name == name) store.bare.layouts =
      lastIdx? (·.name == name) store.layouts := lastIdx?_map _ _ _
  unfold Store.element
  rw [hindex]

theorem evalCount_bare (store : Store) (line : Nat) (count : Option Expr) :
    evalCount data store.bare line count = evalCount data store line count := by
  cases count with
  | none => rfl
  | some e => rw [evalCount, evalCount, eval_bare]

theorem extent_bare (store : Store) (d : Declaration) :
    extent data store.bare d = extent data store d := by
  unfold extent
  simp only [element_bare, evalCount_bare, elementSize_bare]

theorem size?_bare (layouts : List Layout) (e : Element) :
    e.size? (layouts.map Layout.bare) = e.size? layouts := by
  cases e with
  | primitive t => rfl
  | struct i =>
    rw [Element.size?, Element.size?, List.getElem?_map, Option.map_map]
    rfl

end Bare

/-! ### Steps -/

section Steps

variable {data : Data} {store store' : Store}

theorem extent_congr (h : store'.bare = store.bare) (d : Declaration) :
    extent data store' d = extent data store d := by
  rw [← extent_bare, h, extent_bare]

theorem layout_related (h : store'.bare = store.bare) (i : Nat) :
    Related (· = ·) (fun l l' => l'.bare = l.bare) (store.layout i) (store'.layout i) := by
  have hlayout : (store'.layout i).map Layout.bare = (store.layout i).map Layout.bare := by
    rw [← layout_bare, h, layout_bare]
  cases hleft : store.layout i with
  | ok l =>
    cases hright : store'.layout i with
    | ok l' =>
      rw [hleft, hright] at hlayout
      exact Except.ok.inj hlayout
    | error halt =>
      rw [hleft, hright] at hlayout
      exact nomatch hlayout
  | error halt =>
    cases hright : store'.layout i with
    | ok l' =>
      rw [hleft, hright] at hlayout
      exact nomatch hlayout
    | error halt' =>
      rw [hleft, hright] at hlayout
      exact (Except.error.inj hlayout).symm

/-- Whether a member has a brick does not depend on the wall. -/
theorem memberBricks_related (h : store'.bare = store.bare) (w w' : Wall) (name : String)
    (e : Extent) (start : Int64) :
    Related (· = ·) (fun _ _ => True) (memberBricks store w name e start)
      (memberBricks store' w' name e start) := by
  unfold memberBricks memberBrick
  split
  · trivial
  · cases e.element with
    | primitive t => trivial
    | struct i =>
      refine Related.bind (R := fun _ _ => True) ?_ fun _ _ _ _ _ => trivial
      exact (layout_related h i).bind fun _ _ _ _ _ => trivial

/-- The members of a struct lie at the same offsets on all walls. -/
theorem layOut_related (h : store'.bare = store.bare) (w w' : Wall) (struct : String)
    (offset : Nat) (ds : List Declaration) :
    Related (· = ·) (fun body body' => body'.fields = body.fields ∧ body'.size = body.size)
      (layOut data store w struct offset ds) (layOut data store' w' struct offset ds) := by
  induction ds generalizing offset with
  | nil => exact ⟨rfl, rfl⟩
  | cons d ds ih =>
    rw [layOut, layOut]
    refine related_bind_of_eq (extent_congr h d) fun e _ => ?_
    refine related_bind_of_eq rfl fun start _ => ?_
    refine (memberBricks_related h w w' d.name.text e start).bind fun bricks bricks' _ _ _ => ?_
    split
    · refine (ih (offset + e.size)).bind fun body body' _ _ hbody => ?_
      obtain ⟨hfields, hsize⟩ := hbody
      exact ⟨congrArg (e.field d start :: ·) hfields, hsize⟩
    · exact rfl

/-- Whether a wall is asked for a brick does not depend on the wall. -/
theorem insertField_related (h : store'.bare = store.bare) (w w' : Wall) (line : Nat)
    (name : String) (e : Extent) (start : Int64) :
    Related (· = ·) (fun _ _ => True) (insertField store w line name e start)
      (insertField store' w' line name e start) := by
  unfold insertField
  cases e.element with
  | primitive t => trivial
  | struct i =>
    dsimp only
    split
    · exact (layout_related h i).bind fun _ _ _ _ _ => trivial
    · exact rfl

end Steps

/-- Two states that only differ in what comes from the wall. -/
structure Alike (s s' : State) : Prop where
  /-- The structs and fields are the same, but for the indices of definitions. -/
  store : s'.store.bare = s.store.bare
  /-- The next field is at the same offset. -/
  cursor : s'.cursor = s.cursor
  /-- The expressions have had the same values. -/
  values : s'.values = s.values
  /-- As many structs are declared. -/
  defined : s'.defined = s.defined
  /-- The walls have been asked for as many bricks. -/
  asked : s'.placed + s'.rejected.length = s.placed + s.rejected.length

variable {data : Data} {s s' : State} {rest : List Command}

theorem Alike.addField (h : Alike s s') (f : Field) : Alike (s.addField f) (s'.addField f) where
  store := by
    obtain ⟨hlayouts, hfields⟩ := bare_eq_iff.1 h.store
    exact bare_eq_iff.2 ⟨hlayouts, congrArg (f :: ·) hfields⟩
  cursor := h.cursor
  values := h.values
  defined := h.defined
  asked := h.asked

/-- Whatever the walls answer, it is noted once. -/
theorem Alike.note (h : Alike s s') (answer answer' : Except Rejection Wall) (stop : Int64) :
    Alike { s.note answer with cursor := stop } { s'.note answer' with cursor := stop } where
  store := by
    rw [note_store, note_store]
    exact h.store
  cursor := rfl
  values := by cases answer <;> cases answer' <;> exact h.values
  defined := by cases answer <;> cases answer' <;> exact h.defined
  asked := by
    have hasked := h.asked
    cases answer <;> cases answer' <;> simp [State.note] <;> omega

/-- A struct is declared on both walls, found on one and added to the other it may be. -/
theorem Alike.declareStruct (h : Alike s s') (hs : Ready rest s) (hs' : Ready rest s')
    (line : Nat) (struct : String) (members : List Declaration) :
    Related (· = ·) Alike (declareStruct data s line struct members)
      (declareStruct data s' line struct members) := by
  unfold Execution.declareStruct
  refine (layOut_related h.store s.wall s'.wall struct 0 members).bind ?_
  intro body body' hbody hbody' hsame
  obtain ⟨hfields, hsize⟩ := hsame
  obtain ⟨⟨i, wall⟩, hfound⟩ :=
    obtainDefinition_isOk hs.coherent hs.coded hs.defined.definedIn line hbody
  obtain ⟨⟨i', wall'⟩, hfound'⟩ :=
    obtainDefinition_isOk hs'.coherent hs'.coded hs'.defined.definedIn line hbody'
  rw [hfound, hfound']
  show Alike (s.declared _ _) (s'.declared _ _)
  constructor
  case store =>
    obtain ⟨hlayouts, hknown⟩ := bare_eq_iff.1 h.store
    refine bare_eq_iff.2 ⟨?_, hknown⟩
    show (s'.store.layouts ++ [_]).map _ = (s.store.layouts ++ [_]).map _
    rw [List.map_append, List.map_append, hlayouts]
    simp [Layout.bare, hfields, hsize]
  case cursor => exact h.cursor
  case values => exact h.values
  case defined => exact congrArg (· + 1) h.defined
  case asked => exact h.asked

theorem Alike.placeField (h : Alike s s') (d : Declaration) :
    Related (· = ·) Alike (placeField data s d) (placeField data s' d) := by
  unfold Execution.placeField
  refine related_bind_of_eq (extent_congr h.store d) fun e _ => ?_
  rw [h.cursor]
  dsimp only
  split
  · exact h.addField _
  · refine related_bind_of_eq rfl fun stop _ => ?_
    refine related_bind_of_eq rfl fun _ _ => ?_
    refine (insertField_related h.store s.wall s'.wall _ _ e s.cursor).bind ?_
    intro answer answer' _ _ _
    exact (h.addField _).note answer answer' stop

/-- A command goes the same way on both walls. -/
theorem Alike.step (h : Alike s s') (hs : Ready rest s) (hs' : Ready rest s') (c : Command) :
    Related (· = ·) Alike (step data s c) (step data s' c) := by
  cases c with
  | declare line struct members => exact h.declareStruct hs hs' line struct members
  | place d => exact h.placeField d
  | evaluate e =>
    have heval : eval data s'.store e = eval data s.store e := by
      rw [← eval_bare, h.store, eval_bare]
    refine related_bind_of_eq heval fun value _ => ?_
    exact ⟨h.store, h.cursor, congrArg (· ++ [⟨e.mark.line, value⟩]) h.values, h.defined, h.asked⟩

/-! ### Runs -/

/-- Two states that only differ in what comes from the wall, in front of the same commands. -/
structure Twins (rest : List Command) (s s' : State) : Prop where
  /-- The states are alike. -/
  alike : Alike s s'
  /-- The first wall is ready for the commands. -/
  left : Ready rest s
  /-- So is the second one. -/
  right : Ready rest s'

theorem Twins.step {c : Command} (h : Twins (c :: rest) s s') :
    Related (· = ·) (Twins rest) (step data s c) (step data s' c) := by
  refine (h.alike.step h.left h.right c).imp fun t t' ht ht' halike => ?_
  exact ⟨halike, h.left.step ht, h.right.step ht'⟩

/-- Both runs get to their ends as twins, or both stop for the same reason. -/
theorem Twins.run {commands : List Command} (h : Twins commands s s') :
    (∃ t t', run data s commands = (t, none) ∧ run data s' commands = (t', none) ∧
        Twins [] t t') ∨
      ∃ t t' halt halt', run data s commands = (t, some halt) ∧
        run data s' commands = (t', some halt') ∧ halt = halt' :=
  related_run (fun _ _ _ _ h => h.step) h

/-- Both runs place the same fields. -/
theorem Twins.ledger {commands : List Command} (h : Twins commands s s') :
    ledger data s' commands = ledger data s commands := by
  induction commands generalizing s s' with
  | nil => rfl
  | cons c rest ih =>
    have hplacement : placement? data s' c = placement? data s c := by
      cases c with
      | declare line struct members => rfl
      | evaluate e => rfl
      | place d =>
        have hsize (e : Element) : e.size? s'.store.layouts = e.size? s.store.layouts := by
          rw [← size?_bare, (bare_eq_iff.1 h.alike.store).1, size?_bare]
        simp only [placement?, extent_congr h.alike.store, hsize]
    rw [Execution.ledger, Execution.ledger, hplacement]
    rcases h.step.cases with ⟨t, t', hleft, hright, ht⟩ | ⟨halt, halt', hleft, hright, -⟩
    · rw [hleft, hright]
      dsimp only
      rw [ih ht]
    · rw [hleft, hright]

/-! ### Bricks -/

/-- Bricks that describe the same placements have the same outlines. -/
theorem outlines_of_describes {layouts layouts' : List Layout} {qs : List (Int × Placement)}
    {bs bs' : List Brick} (h : List.Forall₂ (Describes layouts) qs bs)
    (h' : List.Forall₂ (Describes layouts') qs bs') :
    List.Forall₂ (fun b b' : Brick => b'.outline = b.outline) bs bs' := by
  induction h generalizing bs' with
  | nil =>
    cases h'
    exact .nil
  | cons hb hbs ih =>
    cases h' with
    | cons hb' hbs' =>
      refine .cons ?_ (ih hbs')
      have hname := hb'.name.trans hb.name.symm
      have hstart := Int64.toInt_inj.1 (hb'.start.trans hb.start.symm)
      have hsize := UInt64.toNat_inj.1 (hb'.size.trans hb.size.symm)
      unfold Brick.outline
      rw [hname, hstart, hsize]

theorem hasRoom_of_outline {w : Wall} {b b' : Brick} (h : b'.outline = b.outline) :
    hasRoom w b' = hasRoom w b := by
  obtain ⟨-, hextent⟩ := Prod.mk.inj h
  obtain ⟨hstart, hsize⟩ := Prod.mk.inj hextent
  unfold hasRoom refusal?
  rw [Option.isNone_map, Option.isNone_map]
  simp only [overlaps_congr hstart hsize]

/-- Of bricks with the same outlines, those that there is room for have the same ones. -/
theorem outlines_filter {w : Wall} {bs bs' : List Brick}
    (h : List.Forall₂ (fun b b' : Brick => b'.outline = b.outline) bs bs') :
    (bs'.filter (hasRoom w)).map Brick.outline = (bs.filter (hasRoom w)).map Brick.outline := by
  induction h with
  | nil => rfl
  | cons hb hbs ih =>
    rw [List.filter_cons, List.filter_cons, hasRoom_of_outline hb]
    split
    · rw [List.map_cons, List.map_cons, hb, ih]
    · exact ih

/-! ### Executions -/

variable {template : Template} {w w' : Wall}

theorem twins_start (ht : template.IsCompiled) (hw : w.Reachable) (hw' : w'.Reachable)
    (cursor : Int64) :
    Twins (commandsOf template.statements) (.start w cursor) (.start w' cursor) where
  alike := ⟨rfl, rfl, rfl, rfl, rfl⟩
  left := ready_start ht hw cursor
  right := ready_start ht hw' cursor

/-- What two executions have in common on different walls. -/
structure Coincide (o o' : Outcome) : Prop where
  /-- Both stop for the same reason, on the same line, or none of them does. -/
  halts : ∀ halt, o.result = .error halt ↔ o'.result = .error halt
  /-- Both reports have the same end and the same number of structs, and account for the
      same number of bricks. -/
  reports : ∀ r r', o.result = .ok r → o'.result = .ok r' →
    r'.stop = r.stop ∧ r'.defined = r.defined ∧
      r'.placed + r'.rejected.length = r.placed + r.rejected.length
  /-- The expressions have the same values, in the same order. -/
  values : ∀ r, o.result = .ok r → o'.values = o.values

/-- The bricks that an execution adds to the wall have the outlines of those that it places
    on an empty wall, less those that overlap a brick of the wall. -/
def PlacesFree (template : Template) (w : Wall) (view : View) (options : Options) : Prop :=
  ∃ new, (template.execute w view options).wall.bricks.Perm (w.bricks ++ new) ∧
    (new.map Brick.outline).Perm
      (((template.execute .empty view options).wall.bricks.filter (hasRoom w)).map Brick.outline)

theorem coincide_of_compiled (ht : template.IsCompiled) (hw : w.Reachable) (hw' : w'.Reachable)
    (view : View) (options : Options) :
    Coincide (template.execute w view options) (template.execute w' view options) := by
  have hstart := twins_start ht hw hw' options.start
  rcases hstart.run with
    ⟨s, s', hrun, hrun', h⟩ | ⟨s, s', halt, halt', hrun, hrun', rfl⟩
  · have hleft : template.runOn w view options = (s, none) := hrun
    have hright : template.runOn w' view options = (s', none) := hrun'
    unfold Template.execute
    rw [hleft, hright]
    constructor
    case halts => simp
    case reports =>
      intro r r' hr hr'
      cases hr
      cases hr'
      exact ⟨h.alike.cursor, h.alike.defined, h.alike.asked⟩
    case values => exact fun _ _ => h.alike.values
  · have hleft : template.runOn w view options = (s, some halt) := hrun
    have hright : template.runOn w' view options = (s', some halt) := hrun'
    unfold Template.execute
    rw [hleft, hright]
    constructor <;> simp

theorem placesFree_of_compiled (ht : template.IsCompiled) (hw : w.Reachable) (view : View)
    (options : Options) : PlacesFree template w view options := by
  have hstart := twins_start ht .empty hw options.start
  rcases hstart.run with
    ⟨s, s', hrun, hrun', h⟩ | ⟨s, s', halt, halt', hrun, hrun', -⟩
  · have hleft : template.runOn .empty view options = (s, none) := hrun
    have hright : template.runOn w view options = (s', none) := hrun'
    unfold PlacesFree Template.execute
    rw [hleft, hright]
    obtain ⟨bs, hbooks⟩ :=
      books_of_run hstart.left.defined hstart.left.coherent hrun h.left.coded
    obtain ⟨bs', hbooks'⟩ :=
      books_of_run hstart.right.defined hstart.right.coherent hrun' h.right.coded
    -- The placements are the same, so the bricks that are asked for have the same outlines.
    have hdescribes := hbooks'.describes
    rw [hstart.ledger] at hdescribes
    have houtlines := outlines_of_describes hbooks.describes hdescribes
    refine ⟨bs'.filter (hasRoom w), hbooks'.wall, ?_⟩
    rw [outlines_filter houtlines]
    -- On the empty wall there is room for all of them.
    have hall : bs.filter (hasRoom .empty) = bs := List.filter_eq_self.2 fun _ _ => rfl
    have hwall : s.wall.bricks.Perm ([] ++ bs.filter (hasRoom .empty)) := hbooks.wall
    rw [hall, List.nil_append] at hwall
    exact ((hwall.filter _).map _).symm
  · have hleft : template.runOn .empty view options = (s, some halt) := hrun
    have hright : template.runOn w view options = (s', some halt') := hrun'
    unfold PlacesFree Template.execute
    rw [hleft, hright]
    -- Neither of the walls has changed.
    exact ⟨[], by simp, .nil⟩

/-- **Main theorem.** An execution of a compiled template goes the same way on all reachable
    walls, and each of them gets the bricks that it has room for. -/
theorem execute_independent (ht : template.IsCompiled) (hw : w.Reachable) (hw' : w'.Reachable)
    (view : View) (options : Options) :
    Coincide (template.execute w view options) (template.execute w' view options) ∧
      PlacesFree template w view options ∧ PlacesFree template w' view options :=
  ⟨coincide_of_compiled ht hw hw' view options, placesFree_of_compiled ht hw view options,
    placesFree_of_compiled ht hw' view options⟩

/-- One wall has the struct already and refuses two bricks, the other one gets the struct and
    refuses none. -/
theorem squeezed_independent :
    squeezed.IsCompiled ∧ Wall.crowded.Reachable ∧ shadowed.Reachable ∧
      (squeezed.execute .crowded (.bytes #[1, 2, 3, 4, 5]) .default).wall.definitions.length =
        Wall.crowded.definitions.length ∧
      (squeezed.execute shadowed (.bytes #[1, 2, 3, 4, 5]) .default).wall.definitions.length =
        shadowed.definitions.length + 1 ∧
      Coincide (squeezed.execute .crowded (.bytes #[1, 2, 3, 4, 5]) .default)
        (squeezed.execute shadowed (.bytes #[1, 2, 3, 4, 5]) .default) ∧
      PlacesFree squeezed .crowded (.bytes #[1, 2, 3, 4, 5]) .default ∧
      PlacesFree squeezed shadowed (.bytes #[1, 2, 3, 4, 5]) .default := by
  have hcompiled : squeezed.IsCompiled := Template.isCompiled_ofSource (by decide +kernel)
  refine ⟨hcompiled, Wall.crowded_reachable, shadowed_reachable, by decide +kernel,
    by decide +kernel, ?_⟩
  exact execute_independent hcompiled Wall.crowded_reachable shadowed_reachable _ _

end Execution

end ByteBricks
