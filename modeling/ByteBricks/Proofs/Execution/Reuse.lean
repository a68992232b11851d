import ByteBricks.Proofs.Wall.Reachable

/-! # Definitions Used Again

  When the declaration of a struct uses a definition that the wall already has. Only
  the newest definition of the cut name counts: an identical one that a later
  definition of the name hides is not found, and a further one is added. -/

namespace ByteBricks.Execution

open Template (Declaration)

/-! ### Definitions of a Name -/

/-- The definition at an index has the cut name and the given members. -/
def IsAt (w : Wall) (i : Nat) (struct : String) (members : List Brick) : Prop :=
  ∃ d, w.definitions[i]? = some d ∧ d.name = Label.ofString struct ∧ d.members = members

/-- The definition at an index has the cut name and the given members, and no later one
    has the name. -/
def IsNewest (w : Wall) (i : Nat) (struct : String) (members : List Brick) : Prop :=
  IsAt w i struct members ∧
    ∀ j d, i < j → w.definitions[j]? = some d → d.name ≠ Label.ofString struct

/-- A declaration uses a definition of the wall. -/
structure Reuses (s s' : State) (struct : String) (members : List Brick) : Prop where
  /-- The wall stays as it is. -/
  wall : s'.wall = s.wall
  /-- The new layout refers to a definition of the wall. -/
  layout : ∃ l, s'.store.layouts = s.store.layouts ++ [l] ∧ l.name = struct ∧
    IsAt s.wall l.definition struct members

/-- A declaration adds a definition to the wall. -/
structure Adds (s s' : State) (struct : String) (members : List Brick) : Prop where
  /-- The wall has one more definition. -/
  wall : ∃ d, s'.wall = s.wall.redefine (s.wall.definitions ++ [d]) ∧
    d.name = Label.ofString struct ∧ d.members = members
  /-- The new layout refers to it. -/
  layout : ∃ l, s'.store.layouts = s.store.layouts ++ [l] ∧ l.name = struct ∧
    l.definition = s.wall.definitions.length

variable {data : Data} {s s' : State} {line : Nat} {struct : String}

theorem Adds.not_reuses {members : List Brick} (h : Adds s s' struct members) :
    ¬ Reuses s s' struct members := by
  intro hreuses
  -- A further definition makes the list of definitions longer.
  obtain ⟨d, hwall, -⟩ := h.wall
  have hlength := congrArg (fun w : Wall => w.definitions.length) (hwall.symm.trans hreuses.wall)
  simp at hlength

/-- The definition that may be used again is the newest of its name. -/
theorem reusable?_eq_some_iff_isNewest {w : Wall} {members : List Brick} {i : Nat} :
    reusable? w struct members = some i ↔ IsNewest w i struct members := by
  have hname (d : Definition) :
      (d.name.text == (Label.ofString struct).text) = true ↔ d.name = Label.ofString struct :=
    beq_iff_eq.trans Label.ext_iff.symm
  have hother (d : Definition) :
      (d.name.text == (Label.ofString struct).text) = false ↔ d.name ≠ Label.ofString struct := by
    rw [← Bool.not_eq_true, hname]
  rw [reusable?_eq_some_iff, Wall.structIndex?, lastIdx?_eq_some_iff]
  simp only [hname, hother]
  constructor
  · intro h
    obtain ⟨⟨⟨d, hd, hlabel⟩, hlast⟩, d', hd', hmembers⟩ := h
    rw [hd] at hd'
    cases hd'
    exact ⟨⟨d, hd, hlabel, hmembers⟩, hlast⟩
  · intro h
    obtain ⟨⟨d, hd, hlabel, hmembers⟩, hlast⟩ := h
    exact ⟨⟨⟨d, hd, hlabel⟩, hlast⟩, d, hd, hmembers⟩

/-- A declaration uses the newest definition of its name if that is identical, and adds a
    definition otherwise. -/
theorem reuses_or_adds {members : List Declaration}
    (h : declareStruct data s line struct members = .ok s') :
    ∃ body, layOut data s.store s.wall struct 0 members = .ok body ∧
      ((Reuses s s' struct body.bricks ∧ ∃ i, IsNewest s.wall i struct body.bricks) ∨
        (Adds s s' struct body.bricks ∧ ¬ ∃ i, IsNewest s.wall i struct body.bricks)) := by
  obtain ⟨body, index, wall, hbody, hfound, rfl⟩ := declareStruct_eq_ok_iff.1 h
  refine ⟨body, hbody, ?_⟩
  rcases obtainDefinition_eq_ok_iff.1 hfound with ⟨hreuse, rfl⟩ | ⟨hnone, rfl, hadd⟩
  · left
    have hnewest := reusable?_eq_some_iff_isNewest.1 hreuse
    exact ⟨⟨rfl, _, rfl, rfl, hnewest.1⟩, index, hnewest⟩
  · right
    obtain ⟨d, rfl, hname, -, hmembers, -⟩ := addDefinition_eq_some hadd
    refine ⟨⟨⟨d, rfl, hname, hmembers⟩, _, rfl, rfl, rfl⟩, ?_⟩
    -- The lookup would have found the newest definition.
    intro hnewest
    obtain ⟨i, hi⟩ := hnewest
    rw [reusable?_eq_some_iff_isNewest.2 hi] at hnone
    exact nomatch hnone

/-- **Main theorem.** Each struct declaration of a finished execution uses a definition of
    the wall exactly if the newest of its name has its members, and adds one otherwise. -/
theorem reuses_iff_isNewest {t : Template} {w : Wall} {view : View} {options : Options}
    {r : Report} (hr : (t.execute w view options).result = .ok r) {done rest : List Command}
    {members : List Declaration}
    (hsplit : commandsOf t.statements = done ++ .declare line struct members :: rest) :
    ∃ s body s', run ⟨view, options.order⟩ (.start w options.start) done = (s, none) ∧
      layOut ⟨view, options.order⟩ s.store s.wall struct 0 members = .ok body ∧
      step ⟨view, options.order⟩ s (.declare line struct members) = .ok s' ∧
      (Reuses s s' struct body.bricks ↔ ∃ i, IsNewest s.wall i struct body.bricks) ∧
      (¬ Reuses s s' struct body.bricks → Adds s s' struct body.bricks) := by
  obtain ⟨final, hrun, -⟩ := execute_eq_ok_iff.1 hr
  unfold Template.runOn at hrun
  rw [hsplit] at hrun
  -- A finished execution has got past the declaration.
  obtain ⟨s, hdone, hrest⟩ := run_append_eq_none hrun
  obtain ⟨s', hstep, -⟩ := run_cons_eq_none hrest
  obtain ⟨body, hbody, hcases⟩ := reuses_or_adds hstep
  refine ⟨s, body, s', hdone, hbody, hstep, ?_⟩
  rcases hcases with ⟨hreuses, hnewest⟩ | ⟨hadds, hnone⟩
  · exact ⟨iff_of_true hreuses hnewest, fun hnot => absurd hreuses hnot⟩
  · exact ⟨iff_of_false hadds.not_reuses hnone, fun _ => hadds⟩

/-! ### A Shadowed Definition -/

/-- Declares a struct with a member of one byte. -/
def narrow : Template := .ofSource "struct S \x7b uint8 x; \x7d"

/-- Declares a struct of the same name with a member of two bytes. -/
def wide : Template := .ofSource "struct S \x7b uint16 x; \x7d"

theorem narrow_isCompiled : narrow.IsCompiled := Template.isCompiled_ofSource (by decide +kernel)

theorem wide_isCompiled : wide.IsCompiled := Template.isCompiled_ofSource (by decide +kernel)

/-- The wall after both. -/
def shadowed : Wall :=
  ((Wall.empty.perform (.execute narrow narrow_isCompiled (.bytes #[]) .default)).1.perform
    (.execute wide wide_isCompiled (.bytes #[]) .default)).1

theorem shadowed_reachable : shadowed.Reachable :=
  .perform _ (.perform _ .empty (by decide +kernel)) (by decide +kernel)

/-- The declarations of the first template's members. -/
def narrowMembers : List Declaration := [⟨⟨0, 1⟩, ⟨"uint8", 0⟩, none, ⟨"x", 9⟩⟩]

/-- The command of the first template. -/
def narrowCommand : Command := .declare 1 "S" narrowMembers

/-- What the members are laid out to. -/
def narrowBody : Body where
  fields := [⟨"x", 0, .primitive .uint8, 1, false⟩]
  bricks := [.plain "x" (.ofPrimitive .uint8) 0 1 Primitive.uint8.color]
  size := 1

theorem commandsOf_narrow : commandsOf narrow.statements = [narrowCommand] := by decide +kernel

/-- The first template ends on the wall after both, which then has three definitions. -/
theorem execute_narrow_shadowed :
    ∃ r, (narrow.execute shadowed (.bytes #[]) .default).result = .ok r ∧
      (narrow.execute shadowed (.bytes #[]) .default).wall.definitions.length = 3 := by
  have hlength : (narrow.execute shadowed (.bytes #[]) .default).wall.definitions.length = 3 := by
    decide +kernel
  cases hresult : (narrow.execute shadowed (.bytes #[]) .default).result with
  | ok r => exact ⟨r, rfl, hlength⟩
  | error halt =>
    obtain ⟨s, -, hwall⟩ := execute_eq_error_iff.1 hresult
    rw [hwall] at hlength
    exact absurd hlength (by decide +kernel)

theorem narrow_reuses_iff :
    ∃ r, (narrow.execute shadowed (.bytes #[]) .default).result = .ok r ∧
      commandsOf narrow.statements = [] ++ narrowCommand :: [] ∧
      ∃ s body s', run ⟨.bytes #[], .little⟩ (.start shadowed 0) [] = (s, none) ∧
        layOut ⟨.bytes #[], .little⟩ s.store s.wall "S" 0 narrowMembers = .ok body ∧
        step ⟨.bytes #[], .little⟩ s narrowCommand = .ok s' ∧
        (Reuses s s' "S" body.bricks ↔ ∃ i, IsNewest s.wall i "S" body.bricks) ∧
        (¬ Reuses s s' "S" body.bricks → Adds s s' "S" body.bricks) := by
  obtain ⟨r, hr, -⟩ := execute_narrow_shadowed
  exact ⟨r, hr, commandsOf_narrow, reuses_iff_isNewest hr commandsOf_narrow⟩

/-- The wall has a definition that is identical to the declared one, but another definition
    of its name was made since, and the declaration adds a further one. -/
theorem identical_not_reused :
    shadowed.Reachable ∧ narrow.IsCompiled ∧
      (∃ r, (narrow.execute shadowed (.bytes #[]) .default).result = .ok r) ∧
      commandsOf narrow.statements = [narrowCommand] ∧
      layOut ⟨.bytes #[], .little⟩ .empty shadowed "S" 0 narrowMembers = .ok narrowBody ∧
      IsAt shadowed 0 "S" narrowBody.bricks ∧
      ∃ s', step ⟨.bytes #[], .little⟩ (.start shadowed 0) narrowCommand = .ok s' ∧
        ¬ Reuses (.start shadowed 0) s' "S" narrowBody.bricks ∧
        Adds (.start shadowed 0) s' "S" narrowBody.bricks := by
  have hbody : layOut ⟨.bytes #[], .little⟩ .empty shadowed "S" 0 narrowMembers =
      .ok narrowBody := by decide +kernel
  have hat : IsAt shadowed 0 "S" narrowBody.bricks :=
    ⟨⟨Label.ofString "S", Color.ofPalette 0, 1, narrowBody.bricks⟩, by decide +kernel, rfl, rfl⟩
  obtain ⟨r, hr, hlength⟩ := execute_narrow_shadowed
  obtain ⟨final, hrun, -, hwall⟩ := execute_eq_ok_iff.1 hr
  unfold Template.runOn at hrun
  rw [commandsOf_narrow] at hrun
  obtain ⟨s', hstep, hrest⟩ := run_cons_eq_none hrun
  obtain rfl : s' = final := congrArg Prod.fst hrest
  obtain ⟨body, hbody', hcases⟩ := reuses_or_adds hstep
  cases hbody.symm.trans hbody'
  have hadds : Adds (.start shadowed 0) s' "S" narrowBody.bricks := by
    rcases hcases with ⟨hreuses, -⟩ | ⟨hadds, -⟩
    · -- The wall would have kept its two definitions.
      rw [hwall, hreuses.wall] at hlength
      exact absurd hlength (by decide +kernel)
    · exact hadds
  exact ⟨shadowed_reachable, narrow_isCompiled, ⟨r, hr⟩, commandsOf_narrow, hbody, hat, s', hstep,
    hadds.not_reuses, hadds⟩

end ByteBricks.Execution
