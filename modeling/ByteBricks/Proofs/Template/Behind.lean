import ByteBricks.Proofs.Syntax.Reading
import ByteBricks.Proofs.Template.Resolve

/-! # Resolving Statements Behind Others

  Statements that have a meaning at the start of a source have the same meaning behind
  other statements, but for the numbers of the nodes, the lines and the offsets of the
  names: the declarations in front are hidden by those that the statements refer to.
  It takes that no struct is declared twice and that there is room for all names. -/

namespace ByteBricks

/-! ### Moved Statements -/

/-- How far the parts of a template move when other statements are put in front of it. -/
structure Template.Shift where
  /-- The number of lines in front. -/
  lines : Nat
  /-- The number of nodes in front. -/
  nodes : Nat
  /-- The number of bytes of the names in front. -/
  names : Nat

/-- The same name with other names in front. -/
def Name.shift (d : Template.Shift) (n : Name) : Name := ⟨n.text, d.names + n.offset⟩

namespace Template

/-- The mark of the same node with other statements in front. -/
def Mark.shift (d : Shift) (m : Mark) : Mark := ⟨d.nodes + m.id, m.line + d.lines⟩

/-- The same reference with other statements in front. -/
def Access.shift (d : Shift) : Access → Access
  | .field name => .field (name.shift d)
  | .member owner part => .member (owner.shift d) (part.shift d)

/-- The same expression with other statements in front. -/
def Expr.shift (d : Shift) : Expr → Expr
  | .literal m value => .literal (m.shift d) value
  | .access m t field => .access (m.shift d) t (field.shift d)
  | .element m t baseMark field index =>
    .element (m.shift d) t (baseMark.shift d) (field.shift d) (index.shift d)
  | .arith m t op lhs rhs => .arith (m.shift d) t op (lhs.shift d) (rhs.shift d)

/-- The same declaration with other statements in front. -/
def Declaration.shift (d : Shift) (x : Declaration) : Declaration :=
  ⟨x.mark.shift d, x.typeName.shift d, x.count.map (Expr.shift d), x.name.shift d⟩

mutual

/-- The same statement with other statements in front. -/
def Statement.shift (d : Shift) : Statement → Statement
  | .struct m name members => .struct (m.shift d) (name.shift d) (members.map (Declaration.shift d))
  | .field x => .field (x.shift d)
  | .block m body => .block (m.shift d) (Statement.shiftAll d body)
  | .expression e => .expression (e.shift d)
  | .scriptEnd m => .scriptEnd (m.shift d)

/-- The same statements with other statements in front. -/
def Statement.shiftAll (d : Shift) : List Statement → List Statement
  | [] => []
  | s :: rest => s.shift d :: Statement.shiftAll d rest

end

/-- The scope with the declarations, names and nodes of another one in front. -/
def Scope.behind (s front : Scope) : Scope where
  structs := s.structs ++ front.structs
  fields := s.fields ++ front.fields
  members := s.members
  names := ⟨front.names.bytes ++ s.names.bytes⟩
  count := front.count + s.count

/-- How far statements move behind the statements that lead to a scope. -/
def Scope.shift (front : Scope) (lines : Nat) : Shift := ⟨lines, front.count, front.names.size⟩

/-- There is room for the names of both scopes, and they declare different structs. -/
structure Scope.FitsBehind (s front : Scope) : Prop where
  names : front.names.size + s.names.size ≤ NameTable.maxSize
  structs : ∀ e ∈ s.structs, ∀ e' ∈ front.structs, e'.name ≠ e.name

variable {d : Shift}

@[simp] theorem Expr.type_shift (e : Expr) : (e.shift d).type = e.type := by
  cases e <;> rfl

@[simp] theorem Expr.isConstant_shift (e : Expr) : (e.shift d).isConstant = e.isConstant := by
  induction e with
  | literal m value => rfl
  | access m t field => rfl
  | element m t baseMark field index ih => rfl
  | arith m t op lhs rhs ihl ihr => rw [shift, isConstant, ihl, ihr, isConstant]

theorem Statement.shiftAll_append (a b : List Statement) :
    Statement.shiftAll d (a ++ b) = Statement.shiftAll d a ++ Statement.shiftAll d b := by
  induction a with
  | nil => rfl
  | cons s a ih => rw [List.cons_append, shiftAll, ih, shiftAll, List.cons_append]

/-! ### Looking up Names -/

section Scope

variable {front s : Scope} {name : String}

theorem Scope.field?_behind {b : Entry} (h : s.field? name = some b) :
    (s.behind front).field? name = some b := by
  unfold field? behind at *
  dsimp only
  rw [← List.append_assoc, List.find?_append, h]
  rfl

theorem Scope.struct?_behind {e : StructEntry} (h : s.struct? name = some e) :
    (s.behind front).struct? name = some e := by
  unfold struct? behind at *
  dsimp only
  rw [List.find?_append, h]
  rfl

theorem Scope.member?_behind {part : String} {b : Entry} (h : s.member? name part = some b) :
    (s.behind front).member? name part = some b := by
  obtain ⟨e, he, hb⟩ := Option.bind_eq_some_iff.1 h
  exact Option.bind_eq_some_iff.2 ⟨e, struct?_behind he, hb⟩

theorem Scope.type?_behind {t : ElementType} (h : s.type? name = some t) :
    (s.behind front).type? name = some t := by
  unfold type? at *
  cases hname : Primitive.ofName? name with
  | some p => simpa [hname] using h
  | none =>
    simp only [hname] at h ⊢
    cases he : s.struct? name with
    | none => simp [he] at h
    | some e =>
      rw [he] at h
      rw [struct?_behind he]
      exact h

/-- A struct is new behind others if none of them has its name. -/
theorem Scope.struct?_behind_eq_none (h : s.struct? name = none)
    (hfront : ∀ e ∈ front.structs, e.name ≠ name) : (s.behind front).struct? name = none := by
  unfold struct? behind at *
  dsimp only
  rw [List.find?_append, h, Option.none_or, List.find?_eq_none]
  intro e he
  simpa using hfront e he

end Scope

namespace Resolve

/-! ### Steps -/

section Follows

variable {α β γ δ : Type} {front s : Scope} {f : α → β} {g : γ → δ}

/-- What succeeds in a scope succeeds behind another one too, if there is room. The
    result and the scope afterwards correspond. -/
def Follows (front : Scope) (f : α → β) (s : Scope) (r : Resolve α) (r' : Resolve β) : Prop :=
  ∀ a t, r s = .ok (a, t) → t.FitsBehind front →
    s.FitsBehind front ∧ r' (s.behind front) = .ok (f a, t.behind front)

theorem Follows.pure {a : α} {b : β} (h : f a = b) :
    Follows front f s (Pure.pure a) (Pure.pure b) := by
  intro a' t ha ht
  obtain ⟨rfl, rfl⟩ := pure_eq_ok.1 ha
  exact ⟨ht, pure_eq_ok.2 ⟨h, rfl⟩⟩

theorem Follows.bind {r : Resolve α} {r' : Resolve β} {k : α → Resolve γ} {k' : β → Resolve δ}
    (hr : Follows front f s r r') (hk : ∀ a t, Follows front g t (k a) (k' (f a))) :
    Follows front g s (r >>= k) (r' >>= k') := by
  intro c u h hu
  obtain ⟨a, t, ha, hc⟩ := bind_eq_ok.1 h
  obtain ⟨ht, hc'⟩ := hk a t c u hc hu
  obtain ⟨hs, ha'⟩ := hr a t ha ht
  exact ⟨hs, bind_eq_ok.2 ⟨f a, _, ha', hc'⟩⟩

theorem Follows.get {k : Scope → Resolve γ} {k' : Scope → Resolve δ}
    (hk : Follows front g s (k s) (k' (s.behind front))) :
    Follows front g s (MonadState.get >>= k) (MonadState.get >>= k') := hk

theorem Follows.fail {line : Nat} {fault : Fault} {r' : Resolve β} :
    Follows front f s (Resolve.fail line fault) r' := by
  intro a t h
  simp at h

theorem Follows.require {line line' : Nat} {fault fault' : Fault} {o : Option α}
    {o' : Option β} (h : ∀ a, o = some a → o' = some (f a)) :
    Follows front f s (Resolve.require line fault o) (Resolve.require line' fault' o') := by
  intro a t ha ht
  obtain ⟨hsome, rfl⟩ := require_eq_ok.1 ha
  exact ⟨ht, require_eq_ok.2 ⟨h a hsome, rfl⟩⟩

theorem Follows.check {line line' : Nat} {fault fault' : Fault} {condition condition' : Bool}
    (h : condition = true → condition' = true) :
    Follows front id s (Resolve.check line fault condition)
      (Resolve.check line' fault' condition') := by
  intro u t hu ht
  obtain ⟨hcondition, rfl⟩ := check_eq_ok.1 hu
  exact ⟨ht, check_eq_ok.2 ⟨h hcondition, rfl⟩⟩

theorem Follows.mark {line : Nat} {d : ByteBricks.Shift} :
    Follows front (Mark.shift (front.shift d.lines)) s (Resolve.mark line)
      (Resolve.mark (line + d.lines)) := by
  intro m t hm ht
  cases hm
  exact ⟨⟨ht.names, ht.structs⟩, rfl⟩

/-- The names stored so far are below the bound if those stored afterwards are. -/
theorem Follows.intern {t : Token} {d : ByteBricks.Shift} :
    Follows front (Name.shift (front.shift d.lines)) s (Resolve.intern t)
      (Resolve.intern (t.shift d)) := by
  intro n u h hu
  unfold Resolve.intern at h
  cases hstored : s.names.intern? t.text with
  | none => simp [hstored] at h
  | some p =>
    obtain ⟨offset, names⟩ := p
    rw [hstored] at h
    cases h
    obtain ⟨-, rfl, rfl⟩ := NameTable.intern?_eq_some_iff.1 hstored
    have hnames := hu.names
    rw [NameTable.size_append_name] at hnames
    refine ⟨⟨by omega, hu.structs⟩, ?_⟩
    have hbehind : (s.behind front).names.intern? t.text = some (front.names.size + s.names.size,
        ⟨front.names.bytes ++ (s.names.bytes ++
          ⟨(NameTable.lengthBytes t.text.utf8ByteSize).toArray⟩ ++ t.text.toByteArray)⟩) := by
      refine NameTable.intern?_eq_some_iff.2 ⟨?_, ?_, ?_⟩
      · show NameTable.size ⟨front.names.bytes ++ s.names.bytes⟩ + _ + _ ≤ _
        rw [NameTable.size_append]
        omega
      · exact (NameTable.size_append _ _).symm
      · simp [Scope.behind, ByteArray.append_assoc]
    unfold Resolve.intern
    rw [Token.shift_text, hbehind]
    rfl

end Follows

/-! ### Relabelled Trees -/

section Relabel

open Syntax (Node Origin Relabelling)

variable {f : Relabelling}

/-- The bracket of the relabelled tokens. -/
def relabelBracket (f : Relabelling) (p : Origin × List Node) : Origin × List Node :=
  (p.1.relabel f, Node.relabelAll f p.2)

theorem beginsDeclaration_relabel (n : Node) (rest : List Node) :
    beginsDeclaration (n.relabel f) (Node.relabelAll f rest) = beginsDeclaration n rest := by
  have hname : beginsWithName (Node.relabelAll f rest) = beginsWithName rest := by
    cases rest with
    | nil => rfl
    | cons m rest => cases m <;> rfl
  have hblock : beginsWithBlock (Node.relabelAll f rest) = beginsWithBlock rest := by
    cases rest with
    | nil => rfl
    | cons m rest => cases m <;> rfl
  cases n with
  | name o => exact hname
  | structHead o name => exact hblock
  | element o base index =>
    cases base with
    | name o => exact hname
    | _ => rfl
  | _ => rfl

/-- A tree that is a statement because it is an expression stays one. -/
theorem statement_relabel {n : Node} (hhead : ∀ o name, n = .structHead o name → False)
    (hblock : ∀ o body, n = .block o body → False) (hend : ∀ o, n = .scriptEnd o → False) :
    statement (n.relabel f) = (do let e ← expr (n.relabel f); pure (.expression e)) := by
  cases n with
  | structHead o name => exact (hhead o name rfl).elim
  | block o body => exact (hblock o body rfl).elim
  | scriptEnd o => exact (hend o rfl).elim
  | _ => simp only [Node.relabel, statement]

end Relabel

/-! ### References -/

open Syntax (Node Origin)

variable {d : ByteBricks.Shift} {front s : Scope}

/-- A reference that is followed by what is known of the field. -/
def shiftAccess {α : Type} (d : Shift) (p : Mark × Access × α) : Mark × Access × α :=
  (p.1.shift d, p.2.1.shift d, p.2.2)

theorem follows_fieldAccess (t : Token) :
    Follows front (shiftAccess (front.shift d.lines)) s (fieldAccess t)
      (fieldAccess (t.shift d)) := by
  unfold fieldAccess
  refine .get ?_
  refine .bind (f := id) (.require fun b => Scope.field?_behind) fun b s => ?_
  refine .bind .intern fun name s => ?_
  refine .bind .mark fun m s => ?_
  exact .pure rfl

theorem follows_memberAccess (o : Origin) (lhs rhs : Node) :
    Follows front (shiftAccess (front.shift d.lines)) s (memberAccess o lhs rhs)
      (memberAccess (o.relabel (.moved d)) (lhs.relabel (.moved d)) (rhs.relabel (.moved d))) := by
  unfold memberAccess
  split
  · next owner part =>
    simp only [Node.relabel]
    refine .get ?_
    refine .bind (f := id) (.require fun b => Scope.field?_behind) fun b s => ?_
    refine .bind (.check id) fun u s => ?_
    dsimp only [id]
    cases b.type with
    | primitive t =>
      intro a t h
      simp [bind_eq_ok] at h
    | struct name =>
      refine .bind (f := id) (.pure rfl) fun struct s => ?_
      refine .get ?_
      refine .bind (f := id) (.require fun m => Scope.member?_behind) fun m s => ?_
      refine .bind .intern fun ownerName s => ?_
      refine .bind .intern fun memberName s => ?_
      refine .bind .mark fun mark s => ?_
      exact .pure rfl
  · exact .fail

theorem follows_numberType {line line' : Nat} (b : Entry) :
    Follows front id s (numberType line b) (numberType line' b) := by
  unfold numberType
  cases b.type with
  | primitive t => exact .pure rfl
  | struct name => exact .fail

theorem follows_scalarType {line line' : Nat} (b : Entry) :
    Follows front id s (scalarType line b) (scalarType line' b) :=
  .bind (.check id) fun _ _ => follows_numberType b

theorem follows_indexed (base : Node) :
    Follows front (shiftAccess (front.shift d.lines)) s (indexed base)
      (indexed (base.relabel (.moved d))) := by
  unfold indexed
  split
  · exact follows_fieldAccess _
  · exact follows_memberAccess _ _ _
  · exact .fail

theorem follows_arrayAccess (base : Node) :
    Follows front (shiftAccess (front.shift d.lines)) s (arrayAccess base)
      (arrayAccess (base.relabel (.moved d))) := by
  unfold arrayAccess
  refine .bind (follows_indexed base) fun p s => ?_
  refine .bind (.check id) fun u s => ?_
  refine .bind (follows_numberType _) fun t s => ?_
  exact .pure rfl

/-! ### Expressions -/

theorem follows_arith {o : Origin} {op : ArithOp} {x y x' y' : Resolve Expr}
    (hx : ∀ s, Follows front (Expr.shift (front.shift d.lines)) s x x')
    (hy : ∀ s, Follows front (Expr.shift (front.shift d.lines)) s y y') :
    Follows front (Expr.shift (front.shift d.lines)) s (do let l ← x; let r ← y; arith o op l r)
      (do let l ← x'; let r ← y'; arith (o.relabel (.moved d)) op l r) := by
  refine .bind (hx s) fun l s => .bind (hy s) fun r s => ?_
  refine .bind .mark fun m s => .pure ?_
  rw [Expr.shift, Expr.type_shift, Expr.type_shift]

mutual

/-- An expression has the same meaning behind other statements. -/
theorem follows_expr : ∀ (n : Node) (s : Scope),
    Follows front (Expr.shift (front.shift d.lines)) s (expr n) (expr (n.relabel (.moved d)))
  | .name o, s => by
    rw [Node.relabel, expr, expr]
    refine .bind (follows_fieldAccess _) fun p s => ?_
    exact .bind (follows_scalarType _) fun t s => .pure rfl
  | .integer o, s => by
    rw [Node.relabel, expr, expr]
    refine .bind (f := id) (.require fun _ => id) fun value s => ?_
    exact .bind .mark fun m s => .pure rfl
  | .control o word, s => by
    rw [expr]
    exact .fail
  | .paren o inner, s => by
    rw [Node.relabel, expr, expr]
    exact follows_single _ _ inner s
  | .element o base index, s => by
    rw [Node.relabel, expr, expr]
    refine .bind (follows_arrayAccess _) fun p s => ?_
    refine .bind (follows_single _ _ index s) fun i s => ?_
    refine .bind (.check (by rw [Expr.type_shift]; exact id)) fun u s => ?_
    exact .bind .mark fun m s => .pure rfl
  | .binary o .member lhs rhs, s => by
    rw [Node.relabel, expr, expr]
    refine .bind (follows_memberAccess _ _ _) fun p s => ?_
    exact .bind (follows_scalarType _) fun t s => .pure rfl
  | .binary o .plus lhs rhs, s | .binary o .minus lhs rhs, s | .binary o .times lhs rhs, s
  | .binary o .divide lhs rhs, s => by
    rw [Node.relabel, expr, expr]
    exact follows_arith (follows_expr lhs) (follows_expr rhs)
  | .binary o .assign lhs rhs, s | .binary o .compare lhs rhs, s | .structHead o _, s
  | .block o _, s | .scriptEnd o, s => by
    rw [expr]
    exact .fail

theorem follows_single : ∀ (line line' : Nat) (ns : List Node) (s : Scope),
    Follows front (Expr.shift (front.shift d.lines)) s (single line ns)
      (single line' (Node.relabelAll (.moved d) ns))
  | line, line', [], s => by
    rw [single]
    exact .fail
  | line, line', [n], s => by
    rw [Node.relabelAll, Node.relabelAll, single, single]
    exact follows_expr n s
  | line, line', n :: _ :: _, s => by
    rw [single]
    exact .fail

end

/-! ### Declarations -/

theorem follows_count (inStruct : Bool) (o : Origin) (index : List Node) :
    Follows front (Expr.shift (front.shift d.lines)) s (count inStruct o index)
      (count inStruct (o.relabel (.moved d)) (Node.relabelAll (.moved d) index)) := by
  unfold count
  refine .bind (follows_single _ _ index s) fun e s => ?_
  rw [Expr.type_shift, Expr.isConstant_shift]
  refine .bind (.check id) fun u s => ?_
  refine .bind (.check id) fun u s => ?_
  exact .pure rfl

theorem follows_bracketCount (inStruct : Bool) (bracket : Option (Origin × List Node)) :
    Follows front (Option.map (Expr.shift (front.shift d.lines))) s (bracketCount inStruct bracket)
      (bracketCount inStruct (bracket.map (relabelBracket (.moved d)))) := by
  cases bracket with
  | none => exact .pure rfl
  | some p => exact .bind (follows_count inStruct p.1 p.2) fun e s => .pure rfl

theorem follows_declare (inStruct : Bool) {line line' : Nat} (b : Entry) :
    Follows front id s (declare inStruct line b) (declare inStruct line' b) := by
  intro u t h ht
  rcases declare_eq_ok_iff.1 h with ⟨rfl, hfresh, rfl⟩ | ⟨rfl, rfl⟩
  · exact ⟨⟨ht.names, ht.structs⟩, declare_eq_ok_iff.2 (.inl ⟨rfl, hfresh, rfl⟩)⟩
  · exact ⟨⟨ht.names, ht.structs⟩, declare_eq_ok_iff.2 (.inr ⟨rfl, rfl⟩)⟩

theorem follows_declaration (inStruct : Bool) (type : Origin)
    (bracket : Option (Origin × List Node)) (name : Origin) :
    Follows front (Declaration.shift (front.shift d.lines)) s
      (declaration inStruct type bracket name)
      (declaration inStruct (type.relabel (.moved d))
        (bracket.map (relabelBracket (.moved d))) (name.relabel (.moved d))) := by
  unfold declaration
  refine .get ?_
  refine .bind (f := id) (.require fun t => Scope.type?_behind) fun t s => ?_
  refine .bind (follows_bracketCount inStruct bracket) fun size s => ?_
  refine .bind .intern fun typeName s => ?_
  refine .bind .intern fun fieldName s => ?_
  rw [Option.isSome_map]
  refine .bind (follows_declare inStruct _) fun u s => ?_
  refine .bind .mark fun m s => ?_
  exact .pure rfl

theorem follows_members (body : List Node) (s : Scope) :
    Follows front (List.map (Declaration.shift (front.shift d.lines))) s (members body)
      (members (Node.relabelAll (.moved d) body)) := by
  fun_induction members body generalizing s with
  | case1 => exact .pure rfl
  | case2 type name rest ih =>
    rw [Node.relabelAll, Node.relabelAll, Node.relabel, Node.relabel, members]
    refine .bind (follows_declaration true type none name) fun x s => ?_
    exact .bind (ih s) fun xs s => .pure rfl
  | case3 o type index name rest ih =>
    rw [Node.relabelAll, Node.relabelAll, Node.relabel, Node.relabel, Node.relabel, members]
    refine .bind (follows_declaration true type (some (o, index)) name) fun x s => ?_
    exact .bind (ih s) fun xs s => .pure rfl
  | case4 n rest => exact .fail

/-- A struct is declared once, as none of those in front has its name. -/
theorem follows_struct (o name : Origin) (body : List Node) :
    Follows front (Statement.shift (front.shift d.lines)) s (struct o name body)
      (struct (o.relabel (.moved d)) (name.relabel (.moved d))
        (Node.relabelAll (.moved d) body)) := by
  intro x t h ht
  obtain ⟨ds, s₁, structName, s₂, m, s₃, hprimitive, hnew, hds, hname, hm, rfl, rfl⟩ :=
    struct_eq_ok_iff.1 h
  -- A scope fits if the scope behind a step does, so the steps are taken from the last one.
  have hfits : s₃.FitsBehind front :=
    ⟨ht.names, fun e he => ht.structs e (List.mem_cons_of_mem _ he)⟩
  obtain ⟨hfits, hm'⟩ := Follows.mark (d := d) m s₃ hm hfits
  obtain ⟨hfits, hname'⟩ := Follows.intern (d := d) structName s₂ hname hfits
  obtain ⟨hfits, hds'⟩ := follows_members (d := d) body _ ds s₁ hds hfits
  refine ⟨⟨hfits.names, hfits.structs⟩, struct_eq_ok_iff.2
    ⟨_, _, _, _, _, _, hprimitive, ?_, hds', hname', hm', rfl, rfl⟩⟩
  exact Scope.struct?_behind_eq_none hnew (ht.structs _ List.mem_cons_self)

/-! ### Statements -/

/-- Statements have the same meaning behind others. -/
theorem follows_statements (ns : List Node) (s : Scope) :
    Follows front (Statement.shiftAll (front.shift d.lines)) s (statements ns)
      (statements (Node.relabelAll (.moved d) ns)) := by
  refine (statement.mutual_induct
    (fun n => ∀ s, Follows front (Statement.shift (front.shift d.lines)) s (statement n)
      (statement (n.relabel (.moved d))))
    (fun ns => ∀ s, Follows front (Statement.shiftAll (front.shift d.lines)) s (statements ns)
      (statements (Node.relabelAll (.moved d) ns)))
    ?structHead ?block ?scriptEnd ?expression ?nil ?field ?array ?struct ?other).2 ns s
  case structHead =>
    intro o name s
    rw [statement]
    exact .fail
  case block =>
    intro o body ih s
    rw [Node.relabel, statement, statement]
    refine .bind (ih s) fun inner s => ?_
    exact .bind .mark fun m s => .pure rfl
  case scriptEnd =>
    intro o s
    rw [Node.relabel, statement, statement]
    exact .bind .mark fun m s => .pure rfl
  case expression =>
    intro n hhead hblock hend s
    rw [statement, statement_relabel hhead hblock hend]
    · exact .bind (follows_expr n s) fun e s => .pure rfl
    · exact hhead
    · exact hblock
    · exact hend
  case nil => exact fun s => .pure rfl
  case field =>
    intro type name rest ih s
    rw [Node.relabelAll, Node.relabelAll, Node.relabel, Node.relabel, statements, statements]
    refine .bind (follows_declaration false type none name) fun x s => ?_
    exact .bind (ih s) fun xs s => .pure rfl
  case array =>
    intro o type index name rest ih s
    rw [Node.relabelAll, Node.relabelAll, Node.relabel, Node.relabel, Node.relabel, statements,
      statements]
    refine .bind (follows_declaration false type (some (o, index)) name) fun x s => ?_
    exact .bind (ih s) fun xs s => .pure rfl
  case struct =>
    intro o name o' body rest ih s
    rw [Node.relabelAll, Node.relabelAll, Node.relabel, Node.relabel, statements, statements]
    refine .bind (follows_struct o name body) fun x s => ?_
    exact .bind (ih s) fun xs s => .pure rfl
  case other =>
    intro n rest hfield harray hstruct ihn ih s
    have hbegins := beginsDeclaration_eq_false hfield harray hstruct
    have hmoved := hbegins
    rw [← beginsDeclaration_relabel (f := .moved d)] at hmoved
    rw [Node.relabelAll, statements_cons hbegins, statements_cons hmoved]
    exact .bind (ihn s) fun x s => .bind (ih s) fun xs s => .pure rfl

theorem follows_chains (chs : List (List Node)) (s : Scope) :
    Follows front (Statement.shiftAll (front.shift d.lines)) s (chains chs)
      (chains (chs.map (Node.relabelAll (.moved d)))) := by
  induction chs generalizing s with
  | nil => exact .pure rfl
  | cons chain rest ih =>
    rw [List.map_cons, chains, chains]
    refine .bind (follows_statements chain s) fun xs s => ?_
    exact .bind (ih s) fun ys s => .pure (Statement.shiftAll_append _ _)

end Resolve

end Template

end ByteBricks
