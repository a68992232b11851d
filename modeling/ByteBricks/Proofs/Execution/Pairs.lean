import ByteBricks.Proofs.Template.Sequence

/-! # Two Executions Side by Side

  Statements that compare two executions are proved for both at once: a relation between
  their states that holds at the start and is kept by each command that both take holds at
  the end, and neither of them stops before the other one does. What each execution keeps
  by itself comes first. -/

namespace ByteBricks.Execution

open Template (Declaration)

variable {data data' : Data} {s s' t : State}

/-! ### A Single Execution -/

/-- What a state keeps up in front of the commands that are still to come: its layouts are
    defined, and the wall has type codes left for all structs that may be declared. -/
structure Ready (rest : List Command) (s : State) : Prop where
  /-- The layouts refer to definitions of the wall. -/
  defined : s.Defined
  /-- The wall keeps its invariant. -/
  coherent : s.wall.Coherent
  /-- There are type codes for all definitions that may be added. -/
  room : s.wall.definitions.length + (rest.filterMap Command.struct?).length ≤
    TypeCode.structCount

theorem Ready.coded {rest : List Command} (h : Ready rest s) : s.wall.Coded :=
  Nat.le_trans (Nat.le_add_right _ _) h.room

theorem Ready.step {c : Command} {rest : List Command} (h : Ready (c :: rest) s)
    (hstep : step data s c = .ok s') : Ready rest s' where
  defined := (h.defined.step h.coherent hstep).2
  coherent := h.coherent.step hstep
  room := by
    have hroom := h.room
    obtain ⟨ds, hds, hnames⟩ := definitions_of_step hstep
    -- A definition is only added for the struct that the command declares.
    have hlength := hnames.length_le
    rw [List.length_map, List.length_map] at hlength
    rw [hds, List.length_append]
    cases hstruct : c.struct? with
    | none =>
      rw [List.filterMap_cons_none hstruct] at hroom
      rw [hstruct] at hlength
      have hnone : ds.length ≤ 0 := hlength
      omega
    | some struct =>
      rw [List.filterMap_cons_some hstruct, List.length_cons] at hroom
      rw [hstruct] at hlength
      have hone : ds.length ≤ 1 := hlength
      omega

/-- A template does not declare so many structs that a reachable wall would run out of type
    codes. -/
theorem ready_start {template : Template} (ht : template.IsCompiled) {w : Wall}
    (hw : w.Reachable) (cursor : Int64) :
    Ready (commandsOf template.statements) (.start w cursor) where
  defined := defined_start w cursor
  coherent := hw.coherent
  room := by
    obtain ⟨source, hsource⟩ := ht
    have hstructs := Template.length_structNames_of_compile hsource
    have hsmall : w.definitions.length < Wall.definitionLimit := hw.small
    unfold Template.structNames NameTable.lengthSize NameTable.maxSize at hstructs
    unfold Wall.definitionLimit at hsmall
    unfold TypeCode.structCount TypeCode.structBase
    show w.definitions.length + _ ≤ _
    omega

/-! ### Two Computations -/

section Related

variable {α β γ δ : Type} {E : Halt → Halt → Prop} {R : α → β → Prop} {S : γ → δ → Prop}

/-- Both computations give values in a relation, or both stop for reasons in a relation. -/
def Related (E : Halt → Halt → Prop) (R : α → β → Prop) : Except Halt α → Except Halt β → Prop
  | .ok a, .ok b => R a b
  | .error halt, .error halt' => E halt halt'
  | .ok _, .error _ | .error _, .ok _ => False

theorem Related.cases {x : Except Halt α} {y : Except Halt β} (h : Related E R x y) :
    (∃ a b, x = .ok a ∧ y = .ok b ∧ R a b) ∨
      ∃ halt halt', x = .error halt ∧ y = .error halt' ∧ E halt halt' := by
  cases x with
  | ok a =>
    cases y with
    | ok b => exact .inl ⟨a, b, rfl, rfl, h⟩
    | error halt => exact h.elim
  | error halt =>
    cases y with
    | ok b => exact h.elim
    | error halt' => exact .inr ⟨halt, halt', rfl, rfl, h⟩

/-- Of reasons to stop nothing is said. -/
theorem related_of_ok {x : Except Halt α} {y : Except Halt β}
    (hleft : ∀ a, x = .ok a → ∃ b, y = .ok b ∧ R a b) (hright : ∀ b, y = .ok b → ∃ a, x = .ok a) :
    Related (fun _ _ => True) R x y := by
  cases hx : x with
  | ok a =>
    obtain ⟨b, rfl, hab⟩ := hleft a hx
    exact hab
  | error halt =>
    cases hy : y with
    | ok b =>
      obtain ⟨a, ha⟩ := hright b hy
      rw [hx] at ha
      cases ha
    | error halt' => exact trivial

/-- The second computation does with the value what a function does. -/
theorem related_map {x : Except Halt α} {y : Except Halt β} {f : α → β} (h : y = x.map f) :
    Related (fun _ _ => True) (fun a b => b = f a) x y := by
  subst h
  cases x with
  | ok a => exact rfl
  | error halt => exact trivial

theorem Related.bind {x : Except Halt α} {y : Except Halt β} {f : α → Except Halt γ}
    {g : β → Except Halt δ} (h : Related E R x y)
    (hfg : ∀ a b, x = .ok a → y = .ok b → R a b → Related E S (f a) (g b)) :
    Related E S (x >>= f) (y >>= g) := by
  rcases h.cases with ⟨a, b, rfl, rfl, hab⟩ | ⟨halt, halt', rfl, rfl, hhalt⟩
  · exact hfg a b rfl rfl hab
  · exact hhalt

/-- The relation between the values may be weakened to what follows from it. -/
theorem Related.imp {R' : α → β → Prop} {x : Except Halt α} {y : Except Halt β}
    (h : Related E R x y) (hR : ∀ a b, x = .ok a → y = .ok b → R a b → R' a b) :
    Related E R' x y := by
  rcases h.cases with ⟨a, b, rfl, rfl, hab⟩ | ⟨halt, halt', rfl, rfl, hhalt⟩
  · exact hR a b rfl rfl hab
  · exact hhalt

theorem related_self {R : α → α → Prop} (x : Except Halt α) (hR : ∀ a, x = .ok a → R a a) :
    Related (· = ·) R x x := by
  cases x with
  | ok a => exact hR a rfl
  | error halt => exact rfl

/-- Equal computations go on with the same value. -/
theorem related_bind_of_eq {x y : Except Halt α} {f : α → Except Halt γ} {g : α → Except Halt δ}
    (h : y = x) (hfg : ∀ a, x = .ok a → Related (· = ·) S (f a) (g a)) :
    Related (· = ·) S (x >>= f) (y >>= g) := by
  subst h
  refine (related_self (R := (· = ·)) y fun _ _ => rfl).bind fun a b ha _ hab => ?_
  subst hab
  exact hfg a ha

end Related

/-! ### Two Runs -/

/-- A relation that both steps of a command keep holds at the end of both runs, or both stop
    at the same command. -/
theorem related_run {E : Halt → Halt → Prop} {R : List Command → State → State → Prop}
    (hstep : ∀ c rest s s', R (c :: rest) s s' →
      Related E (R rest) (step data s c) (step data' s' c)) {commands : List Command}
    (h : R commands s s') :
    (∃ t t', run data s commands = (t, none) ∧ run data' s' commands = (t', none) ∧ R [] t t') ∨
      ∃ t t' halt halt', run data s commands = (t, some halt) ∧
        run data' s' commands = (t', some halt') ∧ E halt halt' := by
  induction commands generalizing s s' with
  | nil => exact .inl ⟨s, s', rfl, rfl, h⟩
  | cons c rest ih =>
    rcases (hstep c rest s s' h).cases with
      ⟨t, t', hleft, hright, ht⟩ | ⟨halt, halt', hleft, hright, hhalt⟩
    · rw [run_cons_of_ok hleft, run_cons_of_ok hright]
      exact ih ht
    · rw [run_cons_of_error hleft, run_cons_of_error hright]
      exact .inr ⟨s, s', halt, halt', rfl, rfl, hhalt⟩

end ByteBricks.Execution
