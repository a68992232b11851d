import ByteBricks.Proofs.Syntax.Places
import ByteBricks.Proofs.Template.RoundTrip

/-! # Resolving without Places

  A statement has the same meaning wherever its tokens stand: the places of the tokens only
  show in the lines of the nodes and of the error. Main statement: two sources whose tokens
  are alike are compiled to the same template but for the lines, or fail for the same
  reason. -/

namespace ByteBricks.Template

open Syntax (Node Origin Script)
open Token (Alike)

/-- The error without its line. -/
def Error.unlined (e : Error) : Error := { e with line := 0 }

/-- The error without lines. -/
def CompileError.unlined : CompileError → CompileError
  | .character e => .character { e with line := 0 }
  | .grammar e => .grammar e.unlined
  | .meaning e => .meaning e.unlined

namespace Resolve

/-! ### Steps -/

section Unlines

variable {α β γ δ : Type} {f : α → β} {g : γ → δ}

/-- In every scope, the second computation does what the first one does, but for the lines. -/
def Unlines (f : α → β) (r : Resolve α) (r' : Resolve β) : Prop :=
  ∀ s, r' s = bimap Error.unlined (Prod.map f id) (r s)

theorem Unlines.pure {a : α} {b : β} (h : f a = b) :
    Unlines f (Pure.pure a) (Pure.pure b) := by
  intro s
  rw [← h]
  rfl

theorem Unlines.bind {r : Resolve α} {r' : Resolve β} {k : α → Resolve γ} {k' : β → Resolve δ}
    (hr : Unlines f r r') (hk : ∀ a, Unlines g (k a) (k' (f a))) :
    Unlines g (r >>= k) (r' >>= k') := by
  intro s
  show (r' s >>= fun p => k' p.1 p.2) = bimap _ _ (r s >>= fun p => k p.1 p.2)
  exact bimap_bind (hr s) fun p => hk p.1 p.2

theorem Unlines.get {k : Scope → Resolve γ} {k' : Scope → Resolve δ}
    (hk : ∀ s, Unlines g (k s) (k' s)) :
    Unlines g (MonadState.get >>= k) (MonadState.get >>= k') :=
  fun s => hk s s

theorem Unlines.set (s : Scope) : Unlines id (MonadState.set s) (MonadState.set s) :=
  fun _ => rfl

theorem Unlines.update (change : Scope → Scope) :
    Unlines id (modify change : Resolve PUnit) (modify change) :=
  fun _ => rfl

theorem Unlines.fail {line : Nat} {fault : Fault} :
    Unlines f (Resolve.fail line fault) (Resolve.fail 0 fault) :=
  fun _ => rfl

theorem Unlines.fail_bind {line : Nat} {fault : Fault} {k : γ → Resolve α}
    {k' : δ → Resolve β} :
    Unlines f (Resolve.fail line fault >>= k) (Resolve.fail 0 fault >>= k') :=
  fun _ => rfl

theorem Unlines.require {line : Nat} {fault : Fault} {o : Option α} :
    Unlines id (Resolve.require line fault o) (Resolve.require 0 fault o) := by
  intro s
  cases o <;> rfl

theorem Unlines.check {line : Nat} {fault : Fault} {condition : Bool} :
    Unlines id (Resolve.check line fault condition) (Resolve.check 0 fault condition) := by
  intro s
  cases condition <;> rfl

theorem Unlines.mark {line : Nat} :
    Unlines Mark.unlined (Resolve.mark line) (Resolve.mark 0) :=
  fun _ => rfl

theorem Unlines.intern (t : Token) :
    Unlines id (Resolve.intern t) (Resolve.intern t.unplaced) := by
  intro s
  unfold Resolve.intern
  have htext : t.unplaced.text = t.text := rfl
  rw [htext]
  cases s.names.intern? t.text <;> rfl

end Unlines

/-! ### References -/

/-- A reference without its line, followed by what is known of the field. -/
def unlinedAccess {α : Type} (p : Mark × Access × α) : Mark × Access × α := (p.1.unlined, p.2)

theorem unlines_fieldAccess (t : Token) :
    Unlines unlinedAccess (fieldAccess t) (fieldAccess t.unplaced) := by
  unfold fieldAccess
  refine .get fun s => ?_
  refine .bind .require fun b => ?_
  refine .bind (.intern t) fun name => ?_
  refine .bind .mark fun m => ?_
  exact .pure rfl

theorem unlines_numberType {line : Nat} (b : Entry) :
    Unlines id (numberType line b) (numberType 0 b) := by
  unfold numberType
  cases b.type with
  | primitive t => exact .pure rfl
  | struct name => exact .fail

theorem unlines_scalarType {line : Nat} (b : Entry) :
    Unlines id (scalarType line b) (scalarType 0 b) :=
  .bind .check fun _ => unlines_numberType b

theorem unlines_memberAccess (o : Origin) (lhs rhs : Node) :
    Unlines unlinedAccess (memberAccess o lhs rhs)
      (memberAccess (o.relabel .unplaced) (lhs.relabel .unplaced) (rhs.relabel .unplaced)) := by
  -- Anything but two names is malformed, with places or without.
  cases lhs
  case name owner =>
    cases rhs
    case name part =>
      simp only [Node.relabel, memberAccess]
      refine .get fun s => ?_
      refine .bind .require fun b => ?_
      refine .bind .check fun u => ?_
      dsimp only [id]
      cases b.type with
      | primitive t => exact .fail_bind
      | struct name =>
        refine .bind (f := id) (.pure rfl) fun struct => ?_
        refine .get fun s => ?_
        refine .bind .require fun m => ?_
        refine .bind (.intern _) fun ownerName => ?_
        refine .bind (.intern _) fun memberName => ?_
        refine .bind .mark fun mark => ?_
        exact .pure rfl
    all_goals exact .fail
  all_goals exact .fail

theorem unlines_indexed (base : Node) :
    Unlines unlinedAccess (indexed base) (indexed (base.relabel .unplaced)) := by
  cases base
  case name o => exact unlines_fieldAccess o.token
  case binary o op lhs rhs =>
    rw [Node.relabel]
    cases op
    case member => exact unlines_memberAccess o lhs rhs
    all_goals exact .fail
  all_goals exact .fail

theorem line_unplaced (n : Node) : (n.relabel .unplaced).line = 0 := by
  unfold Node.line
  rw [Node.token_relabel]
  rfl

theorem unlines_arrayAccess (base : Node) :
    Unlines unlinedAccess (arrayAccess base) (arrayAccess (base.relabel .unplaced)) := by
  unfold arrayAccess
  rw [line_unplaced]
  refine .bind (unlines_indexed base) fun p => ?_
  refine .bind .check fun u => ?_
  refine .bind (unlines_numberType _) fun t => ?_
  exact .pure rfl

/-! ### Expressions -/

theorem chainLine_unplaced (index : List Node) :
    chainLine 0 (Node.relabelAll .unplaced index) = 0 := by
  cases index with
  | nil => rfl
  | cons n rest => exact line_unplaced n

theorem unlines_arith {o : Origin} {op : ArithOp} {x y x' y' : Resolve Expr}
    (hx : Unlines Expr.unlined x x') (hy : Unlines Expr.unlined y y') :
    Unlines Expr.unlined (do let l ← x; let r ← y; arith o op l r)
      (do let l ← x'; let r ← y'; arith (o.relabel .unplaced) op l r) := by
  refine .bind hx fun l => ?_
  refine .bind hy fun r => ?_
  refine .bind .mark fun m => .pure ?_
  rw [Expr.unlined, Expr.type_unlined, Expr.type_unlined]

mutual

/-- An expression has the same meaning without places. -/
theorem unlines_expr : ∀ n : Node, Unlines Expr.unlined (expr n) (expr (n.relabel .unplaced))
  | .name o => by
    rw [Node.relabel, expr, expr]
    refine .bind (unlines_fieldAccess _) fun p => ?_
    refine .bind (unlines_scalarType _) fun t => ?_
    exact .pure rfl
  | .integer o => by
    rw [Node.relabel, expr, expr]
    refine .bind .require fun value => ?_
    refine .bind .mark fun m => ?_
    exact .pure rfl
  | .paren o inner => by
    rw [Node.relabel, expr, expr]
    exact unlines_single _ inner
  | .element o base index => by
    rw [Node.relabel, expr, expr]
    refine .bind (unlines_arrayAccess base) fun p => ?_
    refine .bind (unlines_single _ index) fun i => ?_
    have hline : chainLine (o.relabel .unplaced).token.line (Node.relabelAll .unplaced index) = 0 :=
      chainLine_unplaced index
    rw [hline, Expr.type_unlined]
    refine .bind .check fun u => ?_
    refine .bind .mark fun m => ?_
    exact .pure rfl
  | .binary o .member lhs rhs => by
    rw [Node.relabel, expr, expr]
    refine .bind (unlines_memberAccess o lhs rhs) fun p => ?_
    refine .bind (unlines_scalarType _) fun t => ?_
    exact .pure rfl
  | .binary o .plus lhs rhs | .binary o .minus lhs rhs | .binary o .times lhs rhs
  | .binary o .divide lhs rhs => by
    rw [Node.relabel, expr, expr]
    exact unlines_arith (unlines_expr lhs) (unlines_expr rhs)
  | .binary o .assign lhs rhs | .binary o .compare lhs rhs | .structHead o _ | .block o _
  | .scriptEnd o | .control o _ => by
    rw [Node.relabel, expr, expr]
    exact .fail

theorem unlines_single : ∀ (line : Nat) (ns : List Node),
    Unlines Expr.unlined (single line ns) (single 0 (Node.relabelAll .unplaced ns))
  | line, [] => by
    rw [single, Node.relabelAll, single]
    exact .fail
  | line, [n] => by
    rw [Node.relabelAll, Node.relabelAll, single, single]
    exact unlines_expr n
  | line, n :: _ :: _ => by
    rw [Node.relabelAll, Node.relabelAll, single, single, line_unplaced]
    exact .fail

end

/-! ### Declarations -/

theorem unlines_count (inStruct : Bool) (o : Origin) (index : List Node) :
    Unlines Expr.unlined (count inStruct o index)
      (count inStruct (o.relabel .unplaced) (Node.relabelAll .unplaced index)) := by
  unfold count
  have hline : chainLine (o.relabel .unplaced).token.line (Node.relabelAll .unplaced index) = 0 :=
    chainLine_unplaced index
  rw [hline]
  refine .bind (unlines_single _ index) fun e => ?_
  rw [Expr.type_unlined, Expr.isConstant_unlined]
  refine .bind .check fun u => ?_
  refine .bind .check fun u => ?_
  exact .pure rfl

theorem unlines_bracketCount (inStruct : Bool) (bracket : Option (Origin × List Node)) :
    Unlines (Option.map Expr.unlined) (bracketCount inStruct bracket)
      (bracketCount inStruct (bracket.map (relabelBracket .unplaced))) := by
  cases bracket with
  | none => exact .pure rfl
  | some p => exact .bind (unlines_count inStruct p.1 p.2) fun e => .pure rfl

theorem unlines_declare (inStruct : Bool) {line : Nat} (b : Entry) :
    Unlines id (declare inStruct line b) (declare inStruct 0 b) := by
  unfold declare
  refine .get fun s => ?_
  cases inStruct with
  | true => exact .bind .check fun u => .set _
  | false => exact .set _

theorem unlines_declaration (inStruct : Bool) (type : Origin)
    (bracket : Option (Origin × List Node)) (name : Origin) :
    Unlines Declaration.unlined (declaration inStruct type bracket name)
      (declaration inStruct (type.relabel .unplaced) (bracket.map (relabelBracket .unplaced))
        (name.relabel .unplaced)) := by
  unfold declaration
  refine .get fun s => ?_
  refine .bind .require fun t => ?_
  refine .bind (unlines_bracketCount inStruct bracket) fun size => ?_
  refine .bind (.intern _) fun typeName => ?_
  refine .bind (.intern _) fun fieldName => ?_
  rw [Option.isSome_map]
  refine .bind (unlines_declare inStruct _) fun u => ?_
  refine .bind .mark fun m => ?_
  exact .pure rfl

theorem eq_name_of_relabel {n : Node} {o : Origin} (h : n.relabel .unplaced = .name o) :
    ∃ o', n = .name o' := by
  cases n <;> simp [Node.relabel] at h ⊢

theorem eq_cons_of_relabelAll {ns rest : List Node} {n : Node}
    (h : Node.relabelAll .unplaced ns = n :: rest) :
    ∃ n' rest', ns = n' :: rest' ∧ n'.relabel .unplaced = n := by
  cases ns with
  | nil => simp [Node.relabelAll] at h
  | cons n' rest' =>
    rw [Node.relabelAll] at h
    injection h with hn
    exact ⟨n', rest', rfl, hn⟩

theorem unlines_members (body : List Node) :
    Unlines (List.map Declaration.unlined) (members body)
      (members (Node.relabelAll .unplaced body)) := by
  fun_induction members body with
  | case1 => exact .pure rfl
  | case2 type name rest ih =>
    rw [Node.relabelAll, Node.relabelAll, Node.relabel, Node.relabel, members]
    refine .bind (unlines_declaration true type none name) fun d => ?_
    exact .bind ih fun ds => .pure rfl
  | case3 o type index name rest ih =>
    rw [Node.relabelAll, Node.relabelAll, Node.relabel, Node.relabel, Node.relabel, members]
    refine .bind (unlines_declaration true type (some (o, index)) name) fun d => ?_
    exact .bind ih fun ds => .pure rfl
  | case4 n rest hfield harray =>
    -- Without places, the trees are no declaration either.
    rw [Node.relabelAll, members, line_unplaced]
    · exact .fail
    · intro type name rest' hn hrest
      obtain ⟨type', rfl⟩ := eq_name_of_relabel hn
      obtain ⟨n', rest'', rfl, hn'⟩ := eq_cons_of_relabelAll hrest
      obtain ⟨name', rfl⟩ := eq_name_of_relabel hn'
      exact hfield _ _ _ rfl rfl
    · intro o type index name rest' hn hrest
      cases n <;> simp [Node.relabel] at hn
      obtain ⟨n', rest'', rfl, hn'⟩ := eq_cons_of_relabelAll hrest
      obtain ⟨name', rfl⟩ := eq_name_of_relabel hn'
      obtain ⟨-, hbase, -⟩ := hn
      obtain ⟨type', rfl⟩ := eq_name_of_relabel hbase
      exact harray _ _ _ _ _ rfl rfl

theorem unlines_struct (o name : Origin) (body : List Node) :
    Unlines Statement.unlined (struct o name body)
      (struct (o.relabel .unplaced) (name.relabel .unplaced) (Node.relabelAll .unplaced body)) := by
  unfold struct
  refine .bind .check fun u => ?_
  refine .get fun s => ?_
  refine .bind .check fun u => ?_
  refine .bind (.update _) fun u => ?_
  refine .bind (unlines_members body) fun ds => ?_
  refine .bind (.intern _) fun structName => ?_
  refine .bind .mark fun m => ?_
  refine .bind (.update _) fun u => ?_
  exact .pure rfl

/-! ### Statements -/

/-- Statements have the same meaning without places. -/
theorem unlines_statements (ns : List Node) :
    Unlines Statement.unlinedAll (statements ns) (statements (Node.relabelAll .unplaced ns)) := by
  refine (statement.mutual_induct
    (fun n => Unlines Statement.unlined (statement n) (statement (n.relabel .unplaced)))
    (fun ns => Unlines Statement.unlinedAll (statements ns)
      (statements (Node.relabelAll .unplaced ns)))
    ?structHead ?block ?scriptEnd ?expression ?nil ?field ?array ?struct ?other).2 ns
  case structHead =>
    intro o name
    rw [Node.relabel, statement, statement]
    exact .fail
  case block =>
    intro o body ih
    rw [Node.relabel, statement, statement]
    refine .bind ih fun inner => ?_
    exact .bind .mark fun m => .pure rfl
  case scriptEnd =>
    intro o
    rw [Node.relabel, statement, statement]
    exact .bind .mark fun m => .pure rfl
  case expression =>
    intro n hhead hblock hend
    rw [statement, statement_relabel hhead hblock hend]
    · exact .bind (unlines_expr n) fun e => .pure rfl
    · exact hhead
    · exact hblock
    · exact hend
  case nil => exact .pure rfl
  case field =>
    intro type name rest ih
    rw [Node.relabelAll, Node.relabelAll, Node.relabel, Node.relabel, statements, statements]
    refine .bind (unlines_declaration false type none name) fun d => ?_
    exact .bind ih fun xs => .pure rfl
  case array =>
    intro o type index name rest ih
    rw [Node.relabelAll, Node.relabelAll, Node.relabel, Node.relabel, Node.relabel,
      statements, statements]
    refine .bind (unlines_declaration false type (some (o, index)) name) fun d => ?_
    exact .bind ih fun xs => .pure rfl
  case struct =>
    intro o name o' body rest ih
    rw [Node.relabelAll, Node.relabelAll, Node.relabel, Node.relabel, statements, statements]
    refine .bind (unlines_struct o name body) fun x => ?_
    exact .bind ih fun xs => .pure rfl
  case other =>
    intro n rest hfield harray hstruct ihn ih
    have hbegins := beginsDeclaration_eq_false hfield harray hstruct
    have hunplaced := hbegins
    rw [← beginsDeclaration_relabel (f := .unplaced)] at hunplaced
    rw [Node.relabelAll, statements_cons hbegins, statements_cons hunplaced]
    refine .bind ihn fun x => ?_
    exact .bind ih fun xs => .pure rfl

theorem unlines_chains (chs : List (List Node)) :
    Unlines Statement.unlinedAll (chains chs) (chains (chs.map (Node.relabelAll .unplaced))) := by
  induction chs with
  | nil => exact .pure rfl
  | cons chain rest ih =>
    rw [List.map_cons, chains, chains]
    refine .bind (unlines_statements chain) fun xs => ?_
    exact .bind ih fun ys => .pure (Statement.unlinedAll_append _ _)

end Resolve

/-! ### Templates -/

theorem ofScript_unplaced (script : Script) :
    ofScript script.unplaced = bimap Error.unlined unlined (ofScript script) := by
  unfold ofScript
  exact bimap_bind (Resolve.unlines_chains script.statements .empty) fun p => rfl

/-- The meaning of a reading, without lines, is that of the reading without places. -/
theorem ofReading_unplaced (reading : Except Syntax.Failure Script) :
    ofReading (bimap Syntax.Failure.unlined Script.unplaced reading) =
      bimap CompileError.unlined unlined (ofReading reading) := by
  cases reading with
  | error failure => cases failure <;> rfl
  | ok script =>
    show (ofScript script.unplaced).mapError CompileError.meaning =
      bimap _ _ ((ofScript script).mapError CompileError.meaning)
    rw [ofScript_unplaced]
    cases ofScript script <;> rfl

/-- **Main theorem.** Two sources whose tokens are alike are compiled to the same template but
    for the lines, or fail for the same reason. -/
theorem compile_alike {a b : String} (ha : (Token.scan a).failure = none)
    (hb : (Token.scan b).failure = none)
    (h : Alike (Token.scan a).tokens (Token.scan b).tokens) :
    bimap CompileError.unlined unlined (compile a) =
      bimap CompileError.unlined unlined (compile b) := by
  have hcompile (source : String) : bimap CompileError.unlined unlined (compile source) =
      ofReading (bimap Syntax.Failure.unlined Script.unplaced (Script.ofSource source)) :=
    (ofReading_unplaced (Script.ofSource source)).symm
  rw [hcompile, hcompile, Script.ofSource_alike ha hb h]

theorem text_unlined (t : Template) : t.unlined.text = t.text := by
  unfold text
  show String.intercalate "\n" (Statement.texts (Statement.unlinedAll t.statements)) = _
  rw [Statement.texts_unlinedAll]

end ByteBricks.Template
