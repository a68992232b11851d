import ByteBricks.Proofs.Execution.Lines
import ByteBricks.Proofs.Template.Places

/-! # Blanks and Comments

  White space and comments separate tokens and are forgotten. Main statement: two sources
  with the same tokens, of which the same equals signs touch, are the same to the reader,
  to the compiler and to every execution, but for lines. -/

namespace ByteBricks

namespace Execution

open Template (Declaration Expr Statement)

/-! ### Commands without Lines -/

/-- The command without lines. -/
def Command.unlined : Command → Command
  | .declare _ struct members => .declare 0 struct (members.map Declaration.unlined)
  | .place d => .place d.unlined
  | .evaluate e => .evaluate e.unlined

/-- The line that stands for all lines. -/
abbrev noLine (_ : Nat) : Nat := 0

/-- The halt without its line. -/
def Halt.unlined : Halt → Halt := Halt.relined noLine

/-- The value of an expression without the line of the statement. -/
def Evaluation.unlined (e : Evaluation) : Evaluation := { e with line := 0 }

/-- The state without lines. -/
def State.unlined (s : State) : State := { s with values := s.values.map Evaluation.unlined }

/-- The outcome without lines. -/
def Outcome.unlined (o : Outcome) : Outcome where
  wall := o.wall
  values := o.values.map Evaluation.unlined
  result := bimap Halt.unlined id o.result

/-! ### Expressions -/

theorem eval_unlined (data : Data) (s : Store) (e : Expr) :
    eval data s e.unlined = relined noLine id (eval data s e) := by
  induction e with
  | literal m value => rfl
  | access m t a =>
    rw [Expr.unlined, eval, eval]
    refine relined_bind (locate_relined noLine s m.line a) fun f => ?_
    refine relined_bind (primitive_relined noLine f m.line) fun t => ?_
    dsimp only [id]
    split
    · rfl
    · exact read_relined noLine data m.line _ t _
  | element m t baseMark a index ih =>
    rw [Expr.unlined, eval, eval]
    refine relined_bind (locate_relined noLine s baseMark.line a) fun f => ?_
    refine relined_bind (primitive_relined noLine f m.line) fun t => ?_
    refine relined_bind ih fun v => ?_
    refine relined_bind (integer_relined noLine m.line v) fun i => ?_
    refine relined_bind (elementOffset_relined noLine f m.line t i) fun offset => ?_
    exact read_relined noLine data m.line f.name t offset
  | arith m t op lhs rhs ihl ihr =>
    rw [Expr.unlined, eval, eval]
    refine relined_bind ihl fun a => ?_
    refine relined_bind ihr fun b => ?_
    dsimp only [id]
    cases Value.apply op a b <;> rfl

/-! ### Declarations -/

theorem evalCount_unlined (data : Data) (s : Store) (line : Nat) (count : Option Expr) :
    evalCount data s 0 (count.map Expr.unlined) =
      relined noLine id (evalCount data s line count) := by
  cases count with
  | none => rfl
  | some e =>
    refine relined_bind (eval_unlined data s e) fun v => ?_
    refine relined_bind (integer_relined noLine line v) fun i => ?_
    dsimp only [id]
    split <;> rfl

theorem extent_unlined (data : Data) (s : Store) (d : Declaration) :
    extent data s d.unlined = relined noLine id (extent data s d) := by
  unfold extent
  refine relined_bind (element_relined noLine s d.mark.line _) fun element => ?_
  refine relined_bind (evalCount_unlined data s d.mark.line d.count) fun count => ?_
  refine relined_bind (elementSize_relined noLine s element) fun size => ?_
  dsimp only [id]
  split <;> rfl

theorem field_unlined (e : Extent) (d : Declaration) (start : Int64) :
    e.field d.unlined start = e.field d start := by
  unfold Extent.field Declaration.unlined
  rw [Option.isSome_map]

theorem layOut_unlined (data : Data) (s : Store) (w : Wall) (struct : String) (offset : Nat)
    (ds : List Declaration) : layOut data s w struct offset (ds.map Declaration.unlined) =
      relined noLine id (layOut data s w struct offset ds) := by
  induction ds generalizing offset with
  | nil => rfl
  | cons d ds ih =>
    rw [List.map_cons, layOut, layOut]
    refine relined_bind (extent_unlined data s d) fun e => ?_
    refine relined_bind (relined_require noLine d.mark.line _ _) fun start => ?_
    refine relined_bind (memberBricks_relined noLine s w d.name.text e start) fun bricks => ?_
    dsimp only [id]
    split
    · refine relined_bind (ih _) fun body => ?_
      rw [field_unlined]
      rfl
    · rfl

/-! ### Commands -/

theorem declareStruct_unlined (data : Data) (s : State) (line : Nat) (struct : String)
    (members : List Declaration) :
    declareStruct data s.unlined 0 struct (members.map Declaration.unlined) =
      relined noLine State.unlined (declareStruct data s line struct members) := by
  unfold declareStruct
  refine relined_bind (layOut_unlined data s.store s.wall struct 0 members) fun body => ?_
  refine relined_bind (obtainDefinition_relined noLine s.wall line struct body.bricks) fun p => ?_
  rfl

theorem placeField_unlined (data : Data) (s : State) (d : Declaration) :
    placeField data s.unlined d.unlined = relined noLine State.unlined (placeField data s d) := by
  unfold placeField
  refine relined_bind (extent_unlined data s.store d) fun e => ?_
  dsimp only [id]
  rw [field_unlined]
  split
  · rfl
  · refine relined_bind (relined_require noLine d.mark.line _ _) fun stop => ?_
    refine relined_bind (checkBounds_relined noLine data.view d.mark.line _ _ _) fun u => ?_
    refine relined_bind (insertField_relined noLine s.store s.wall d.mark.line _ e _)
      fun answer => ?_
    cases answer <;> rfl

theorem noteValue_unlined (data : Data) (s : State) (e : Expr) :
    noteValue data s.unlined e.unlined = relined noLine State.unlined (noteValue data s e) := by
  have hline : e.unlined.mark.line = 0 := by cases e <;> rfl
  unfold noteValue
  rw [hline]
  refine relined_bind (eval_unlined data s.store e) fun v => ?_
  show Except.ok _ = Except.ok _
  unfold State.unlined
  rw [List.map_append]
  rfl

theorem step_unlined (data : Data) (s : State) (c : Command) :
    step data s.unlined c.unlined = relined noLine State.unlined (step data s c) := by
  cases c with
  | declare line struct members => exact declareStruct_unlined data s line struct members
  | place d => exact placeField_unlined data s d
  | evaluate e => exact noteValue_unlined data s e

/-- Commands without lines do what they do with lines. -/
theorem run_unlined (data : Data) (s : State) (commands : List Command) :
    run data s.unlined (commands.map Command.unlined) =
      Prod.map State.unlined (Option.map Halt.unlined) (run data s commands) := by
  induction commands generalizing s with
  | nil => rfl
  | cons c rest ih =>
    rw [List.map_cons, run, run, step_unlined]
    cases step data s c with
    | ok t => exact ih t
    | error halt => rfl

/-! ### Executions -/

mutual

theorem commands_unlined : ∀ x : Statement,
    commands x.unlined = (commands x).map Command.unlined
  | .struct m name members => by
    rw [Statement.unlined, commands, commands]
    rfl
  | .field d => by
    rw [Statement.unlined, commands, commands]
    rfl
  | .block m body => by
    rw [Statement.unlined, commands, commandsOf_unlinedAll body, commands]
  | .expression e => by
    rw [Statement.unlined, commands, commands]
    rfl
  | .scriptEnd m => by
    rw [Statement.unlined, commands, commands]
    rfl

theorem commandsOf_unlinedAll : ∀ xs : List Statement,
    commandsOf (Statement.unlinedAll xs) = (commandsOf xs).map Command.unlined
  | [] => by
    rw [Statement.unlinedAll, commandsOf]
    rfl
  | x :: rest => by
    rw [Statement.unlinedAll, commandsOf, commandsOf, commands_unlined x,
      commandsOf_unlinedAll rest, List.map_append]

end

theorem execute_unlined (t : Template) (w : Wall) (view : View) (options : Options) :
    t.unlined.execute w view options = (t.execute w view options).unlined := by
  have hrun : t.unlined.runOn w view options =
      Prod.map State.unlined (Option.map Halt.unlined) (t.runOn w view options) := by
    unfold Template.runOn
    rw [← run_unlined, ← commandsOf_unlinedAll]
    rfl
  unfold Template.execute
  rw [hrun]
  rcases t.runOn w view options with ⟨s, _ | halt⟩ <;> rfl

/-! ### Sources -/

open Syntax (Failure Script)
open Template (CompileError compile)

theorem render_alike {a b : String} (ha : (Token.scan a).failure = none)
    (hb : (Token.scan b).failure = none)
    (h : Token.Alike (Token.scan a).tokens (Token.scan b).tokens) :
    bimap Failure.unlined Script.render (Script.ofSource a) =
      bimap Failure.unlined Script.render (Script.ofSource b) := by
  have hscript := Script.ofSource_alike ha hb h
  cases hleft : Script.ofSource a with
  | error e =>
    cases hright : Script.ofSource b with
    | error e' =>
      rw [hleft, hright] at hscript
      injection hscript with herror
      exact congrArg Except.error herror
    | ok s' => simp [hleft, hright, bimap] at hscript
  | ok s =>
    cases hright : Script.ofSource b with
    | error e' => simp [hleft, hright, bimap] at hscript
    | ok s' =>
      rw [hleft, hright] at hscript
      injection hscript with hsame
      show Except.ok s.render = Except.ok s'.render
      rw [← Script.render_unplaced s, hsame, Script.render_unplaced]

/-- **Main theorem.** Two sources with tokens of the same kinds and texts, of which the same
    equals signs touch, are read and compiled alike: they fail for the same reason, or their
    statements are rendered alike and their templates are equal but for lines. Both templates
    have the same text, and they do the same on every wall and all data. -/
theorem indifferent_to_blanks {a b : String} (ha : (Token.scan a).failure = none)
    (hb : (Token.scan b).failure = none)
    (h : Token.Alike (Token.scan a).tokens (Token.scan b).tokens) :
    bimap Failure.unlined Script.render (Script.ofSource a) =
        bimap Failure.unlined Script.render (Script.ofSource b) ∧
      bimap CompileError.unlined Template.unlined (compile a) =
        bimap CompileError.unlined Template.unlined (compile b) ∧
      ∀ t t', compile a = .ok t → compile b = .ok t' → t.text = t'.text ∧
        ∀ w view options,
          (t.execute w view options).unlined = (t'.execute w view options).unlined := by
  have hcompile := Template.compile_alike ha hb h
  refine ⟨render_alike ha hb h, hcompile, ?_⟩
  intro t t' ht ht'
  rw [ht, ht'] at hcompile
  injection hcompile with hsame
  refine ⟨?_, ?_⟩
  · rw [← Template.text_unlined t, hsame, Template.text_unlined]
  · intro w view options
    rw [← execute_unlined, hsame, execute_unlined]

/-- A source with few blanks. -/
def dense : String := "uint8 n;uint8[n+1]xs;xs[n]*n;"

/-- The same source with more blanks and a comment. -/
def spaced : String := "uint8 n; // the count\n\nuint8 [n + 1] xs;\n\txs[n] * n ;\n"

theorem spaced_alike :
    Token.Alike (Token.scan dense).tokens (Token.scan spaced).tokens ∧
      (compile dense).toBool = true ∧ (compile spaced).toBool = true ∧
      bimap Failure.unlined Script.render (Script.ofSource dense) =
        bimap Failure.unlined Script.render (Script.ofSource spaced) ∧
      bimap CompileError.unlined Template.unlined (compile dense) =
        bimap CompileError.unlined Template.unlined (compile spaced) ∧
      ∀ t t', compile dense = .ok t → compile spaced = .ok t' → t.text = t'.text ∧
        ∀ w view options,
          (t.execute w view options).unlined = (t'.execute w view options).unlined := by
  have halike : Token.Alike (Token.scan dense).tokens (Token.scan spaced).tokens :=
    ⟨by decide +kernel, by decide +kernel⟩
  exact ⟨halike, by decide +kernel, by decide +kernel,
    indifferent_to_blanks (by decide +kernel) (by decide +kernel) halike⟩

end Execution

end ByteBricks
