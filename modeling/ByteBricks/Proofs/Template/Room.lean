import ByteBricks.Proofs.Syntax.Names
import ByteBricks.Proofs.Template.Behind

/-! # The Size of the Name Table

  A name of a tree is stored at most once, behind four bytes for its length. As a name
  has at least one byte, a template stores at most five bytes for each byte of its
  source. -/

namespace ByteBricks.Template

open Syntax (Node Origin)

/-- The number of bytes that the text of a token takes up as a name. -/
def nameCost (t : Token) : Nat := NameTable.lengthSize + t.text.utf8ByteSize

namespace Resolve

/-! ### Steps -/

/-- Whenever the step succeeds, it stores at most so many bytes. -/
def Spends {α : Type} (bytes : Nat) (r : Resolve α) : Prop :=
  ∀ a s t, r s = .ok (a, t) → t.names.size ≤ s.names.size + bytes

section Spends

variable {α β : Type} {k l : Nat}

theorem Spends.mono {r : Resolve α} (h : Spends k r) (hkl : k ≤ l) : Spends l r := by
  intro a s t hr
  have := h a s t hr
  omega

theorem Spends.pure {a : α} : Spends k (Pure.pure a : Resolve α) := by
  intro b s t h
  obtain ⟨-, rfl⟩ := pure_eq_ok.1 h
  exact Nat.le_add_right _ _

theorem Spends.bind {r : Resolve α} {f : α → Resolve β} (hr : Spends k r)
    (hf : ∀ a, Spends l (f a)) : Spends (k + l) (r >>= f) := by
  intro b s u h
  obtain ⟨a, t, ha, hb⟩ := bind_eq_ok.1 h
  have hle := hr a s t ha
  have hle' := hf a b t u hb
  omega

/-- A step that only looks at the scope stores nothing. -/
theorem Spends.free {r : Resolve α} {f : α → Resolve β}
    (hr : ∀ a s t, r s = .ok (a, t) → t.names = s.names) (hf : ∀ a, Spends l (f a)) :
    Spends l (r >>= f) := by
  intro b s u h
  obtain ⟨a, t, ha, hb⟩ := bind_eq_ok.1 h
  rw [← hr a s t ha]
  exact hf a b t u hb

theorem Spends.fail {line : Nat} {fault : Fault} :
    Spends k (Resolve.fail line fault : Resolve α) := by
  intro a s t h
  simp at h

theorem Spends.intern (t : Token) : Spends (nameCost t) (Resolve.intern t) := by
  intro n s u h
  rw [size_of_intern h, nameCost, Nat.add_assoc]

theorem names_get {s t u : Scope} (h : (get : Resolve Scope) s = .ok (t, u)) :
    u.names = s.names := by
  rw [(get_eq_ok.1 h).2]

theorem names_require {line : Nat} {fault : Fault} {o : Option α} {a : α} {s t : Scope}
    (h : require line fault o s = .ok (a, t)) : t.names = s.names := by
  rw [(require_eq_ok.1 h).2]

theorem names_check {line : Nat} {fault : Fault} {condition : Bool} {u : Unit} {s t : Scope}
    (h : check line fault condition s = .ok (u, t)) : t.names = s.names := by
  rw [(check_eq_ok.1 h).2]

theorem names_mark {line : Nat} {m : Mark} {s t : Scope} (h : mark line s = .ok (m, t)) :
    t.names = s.names := by
  cases h
  rfl

theorem names_declare {inStruct : Bool} {line : Nat} {b : Entry} {u : Unit} {s t : Scope}
    (h : declare inStruct line b s = .ok (u, t)) : t.names = s.names := by
  rcases declare_eq_ok_iff.1 h with ⟨-, -, rfl⟩ | ⟨-, rfl⟩ <;> rfl

theorem names_scalarType {line : Nat} {b : Entry} {p : Primitive} {s t : Scope}
    (h : scalarType line b s = .ok (p, t)) : t.names = s.names := by
  rw [(scalarType_eq_ok.1 h).2.2]

theorem names_numberType {line : Nat} {b : Entry} {p : Primitive} {s t : Scope}
    (h : numberType line b s = .ok (p, t)) : t.names = s.names := by
  rw [(numberType_eq_ok.1 h).2]

end Spends

/-! ### References and Expressions -/

theorem spends_fieldAccess (t : Token) : Spends (nameCost t) (fieldAccess t) := by
  unfold fieldAccess
  refine .free (fun _ _ _ => names_get) fun s => .free (fun _ _ _ => names_require) fun b => ?_
  exact .bind (l := 0) (.intern t) fun name => .free (fun _ _ _ => names_mark) fun m => .pure

theorem spends_memberAccess (o : Origin) (lhs rhs : Node) :
    Spends (lhs.weight nameCost + rhs.weight nameCost) (memberAccess o lhs rhs) := by
  unfold memberAccess
  split
  · next owner part =>
    refine .free (fun _ _ _ => names_get) fun s => .free (fun _ _ _ => names_require) fun b => ?_
    refine .free (fun _ _ _ => names_check) fun u => ?_
    cases b.type with
    | primitive t =>
      intro a s t h
      simp [bind_eq_ok] at h
    | struct name =>
      refine .free (fun _ _ _ h => by rw [(pure_eq_ok.1 h).2]) fun struct => ?_
      refine .free (fun _ _ _ => names_get) fun s => .free (fun _ _ _ => names_require) fun m => ?_
      rw [Node.weight, Node.weight]
      refine .bind (.intern _) fun ownerName => .bind (l := 0) (.intern _) fun memberName => ?_
      exact .free (fun _ _ _ => names_mark) fun mark => .pure
  · exact .fail

theorem spends_indexed (base : Node) : Spends (base.weight nameCost) (indexed base) := by
  unfold indexed
  split
  · rw [Node.weight]
    exact spends_fieldAccess _
  · rw [Node.weight]
    exact spends_memberAccess _ _ _
  · exact .fail

theorem spends_arrayAccess (base : Node) : Spends (base.weight nameCost) (arrayAccess base) := by
  unfold arrayAccess
  refine .bind (l := 0) (spends_indexed base) fun p => .free (fun _ _ _ => names_check) fun u => ?_
  exact .free (fun _ _ _ => names_numberType) fun t => .pure

theorem spends_arith {o : Origin} {op : ArithOp} {x y : Resolve Expr} {k l : Nat}
    (hx : Spends k x) (hy : Spends l y) :
    Spends (k + l) (do let l ← x; let r ← y; arith o op l r) := by
  refine .bind hx fun l => .bind (l := 0) hy fun r => ?_
  exact .free (fun _ _ _ => names_mark) fun m => .pure

mutual

/-- An expression stores the names of its tree. -/
theorem spends_expr : ∀ n : Node, Spends (n.weight nameCost) (expr n)
  | .name o => by
    rw [Node.weight, expr]
    refine .bind (l := 0) (spends_fieldAccess _) fun p => ?_
    exact .free (fun _ _ _ => names_scalarType) fun t => .pure
  | .integer o => by
    rw [expr, integer]
    refine .free (fun _ _ _ => names_require) fun value => ?_
    exact .free (fun _ _ _ => names_mark) fun m => .pure
  | .paren o inner => by
    rw [Node.weight, expr]
    exact spends_single _ inner
  | .element o base index => by
    rw [Node.weight, expr]
    refine .bind (spends_arrayAccess base) fun p => ?_
    refine .bind (l := 0) (spends_single _ index) fun i => ?_
    refine .free (fun _ _ _ => names_check) fun u => ?_
    exact .free (fun _ _ _ => names_mark) fun m => .pure
  | .binary o .member lhs rhs => by
    rw [Node.weight, expr]
    refine .bind (l := 0) (spends_memberAccess _ _ _) fun p => ?_
    exact .free (fun _ _ _ => names_scalarType) fun t => .pure
  | .binary o .plus lhs rhs | .binary o .minus lhs rhs | .binary o .times lhs rhs
  | .binary o .divide lhs rhs => by
    rw [Node.weight, expr]
    exact spends_arith (spends_expr lhs) (spends_expr rhs)
  | .control o _ | .binary o .assign _ _ | .binary o .compare _ _ | .structHead o _
  | .block o _ | .scriptEnd o => by
    rw [expr]
    exact .fail

theorem spends_single : ∀ (line : Nat) (ns : List Node),
    Spends (Node.weightAll nameCost ns) (single line ns)
  | line, [] => by
    rw [single]
    exact .fail
  | line, [n] => by
    rw [Node.weightAll, single]
    exact (spends_expr n).mono (Nat.le_add_right _ _)
  | line, n :: _ :: _ => by
    rw [single]
    exact .fail

end

/-! ### Statements -/

/-- What the names in the brackets of a declaration cost. -/
def bracketCost : Option (Origin × List Node) → Nat
  | none => 0
  | some p => Node.weightAll nameCost p.2

theorem spends_bracketCount (inStruct : Bool) (bracket : Option (Origin × List Node)) :
    Spends (bracketCost bracket) (bracketCount inStruct bracket) := by
  cases bracket with
  | none => exact .pure
  | some p =>
    refine .bind (l := 0) (.bind (l := 0) (spends_single _ p.2) fun e => ?_) fun e => .pure
    refine .free (fun _ _ _ => names_check) fun u => ?_
    exact .free (fun _ _ _ => names_check) fun u => .pure

theorem spends_declaration (inStruct : Bool) (type : Origin)
    (bracket : Option (Origin × List Node)) (name : Origin) :
    Spends (bracketCost bracket + (nameCost type.token + nameCost name.token))
      (declaration inStruct type bracket name) := by
  unfold declaration
  refine .free (fun _ _ _ => names_get) fun s => .free (fun _ _ _ => names_require) fun t => ?_
  refine .bind (spends_bracketCount inStruct bracket) fun size => .bind (.intern _) fun typeName => ?_
  refine .bind (l := 0) (.intern _) fun fieldName => .free (fun _ _ _ => names_declare) fun u => ?_
  exact .free (fun _ _ _ => names_mark) fun m => .pure

theorem spends_members (body : List Node) :
    Spends (Node.weightAll nameCost body) (members body) := by
  fun_induction members body with
  | case1 => exact .pure
  | case2 type name rest ih =>
    refine (Spends.bind (spends_declaration true type none name)
      fun d => .bind (l := 0) ih fun ds => .pure).mono ?_
    simp only [Node.weightAll, Node.weight, bracketCost]
    omega
  | case3 o type index name rest ih =>
    refine (Spends.bind (spends_declaration true type (some (o, index)) name)
      fun d => .bind (l := 0) ih fun ds => .pure).mono ?_
    simp only [Node.weightAll, Node.weight, bracketCost]
    omega
  | case4 n rest => exact .fail

theorem spends_struct (o name : Origin) (body : List Node) :
    Spends (Node.weightAll nameCost body + nameCost name.token) (struct o name body) := by
  unfold struct
  refine .free (fun _ _ _ => names_check) fun u => .free (fun _ _ _ => names_get) fun s => ?_
  refine .free (fun _ _ _ => names_check) fun u => ?_
  refine .free (fun _ _ _ h => by rw [modify_eq_ok.1 h]) fun u => ?_
  refine .bind (spends_members body) fun ds => .bind (l := 0) (.intern _) fun structName => ?_
  refine .free (fun _ _ _ => names_mark) fun m => ?_
  exact .free (fun _ _ _ h => by rw [modify_eq_ok.1 h]) fun u => .pure

/-- Statements store the names of their trees. -/
theorem spends_statements (ns : List Node) :
    Spends (Node.weightAll nameCost ns) (statements ns) := by
  refine (statement.mutual_induct_unfolding
    (fun n r => Spends (n.weight nameCost) r)
    (fun ns r => Spends (Node.weightAll nameCost ns) r)
    ?structHead ?block ?scriptEnd ?expression ?nil ?field ?array ?struct ?other).2 ns
  case structHead => exact fun o name => .fail
  case block =>
    intro o body ih
    rw [Node.weight]
    exact .bind (l := 0) ih fun inner => .free (fun _ _ _ => names_mark) fun m => .pure
  case scriptEnd => exact fun o => .free (fun _ _ _ => names_mark) fun m => .pure
  case expression => exact fun n _ _ _ => .bind (l := 0) (spends_expr n) fun e => .pure
  case nil => exact .pure
  case field =>
    intro type name rest ih
    refine (Spends.bind (spends_declaration false type none name)
      fun d => .bind (l := 0) ih fun xs => .pure).mono ?_
    simp only [Node.weightAll, Node.weight, bracketCost]
    omega
  case array =>
    intro o type index name rest ih
    refine (Spends.bind (spends_declaration false type (some (o, index)) name)
      fun d => .bind (l := 0) ih fun xs => .pure).mono ?_
    simp only [Node.weightAll, Node.weight, bracketCost]
    omega
  case struct =>
    intro o name o' body rest ih
    refine (Spends.bind (spends_struct o name body)
      fun x => .bind (l := 0) ih fun xs => .pure).mono ?_
    simp only [Node.weightAll, Node.weight]
    omega
  case other =>
    intro n rest _ _ _ ihn ih
    rw [Node.weightAll]
    exact .bind ihn fun x => .bind (l := 0) ih fun xs => .pure

theorem spends_chains (chs : List (List Node)) :
    Spends (chs.map (Node.weightAll nameCost)).sum (chains chs) := by
  induction chs with
  | nil => exact .pure
  | cons chain rest ih =>
    rw [List.map_cons, List.sum_cons, chains]
    exact .bind (spends_statements chain) fun xs => .bind (l := 0) ih fun ys => .pure

end Resolve

/-! ### Sources -/

/-- The names among the tokens of a text cost at most five bytes for each byte of it. -/
theorem sum_nameCost_le (cs : List Char) (offset line : Nat) :
    ((Token.scanFrom cs offset line).tokens.map (Syntax.tokenWeight nameCost)).sum ≤
      5 * (String.ofList cs).utf8ByteSize := by
  fun_induction Token.scanFrom cs offset line with
  | case1 offset line => simp [Syntax.tokenWeight]
  | case2 offset line c rest hl => simp
  | case3 offset line c rest l hl hlt text htrivia ih =>
    have hsize := Token.utf8ByteSize_of_lexeme hl
    omega
  | case4 offset line c rest l hl hlt text htrivia ih =>
    have hsize : (String.ofList (c :: rest)).utf8ByteSize =
        text.utf8ByteSize + (String.ofList l.rest).utf8ByteSize := Token.utf8ByteSize_of_lexeme hl
    have hpos : 0 < text.utf8ByteSize := Token.utf8ByteSize_pos_of_lexeme hl
    -- A name costs four bytes more than its text, which has at least one.
    have hcost : Syntax.tokenWeight nameCost ⟨l.kind, offset, text, line⟩ ≤
        5 * text.utf8ByteSize := by
      unfold Syntax.tokenWeight nameCost NameTable.lengthSize
      split
      · dsimp only
        omega
      · exact Nat.zero_le _
    show (List.map _ (_ :: _)).sum ≤ _
    rw [List.map_cons, List.sum_cons]
    omega

/-- The statements of a source store at most five bytes for each byte of it. -/
theorem size_names_le {source : String} {script : Syntax.Script}
    (h : Syntax.Script.ofSource source = .ok script) {xs : List Statement} {s : Scope}
    (hs : Resolve.chains script.statements .empty = .ok (xs, s)) :
    s.names.size ≤ 5 * source.utf8ByteSize := by
  have hspent := Resolve.spends_chains script.statements xs .empty s hs
  have hweight := Syntax.Script.weight_of_ofSource (w := nameCost) h
  have hcost := sum_nameCost_le source.toList 0 1
  rw [String.ofList_toList] at hcost
  have hempty : Scope.empty.names.size = 0 := rfl
  have htokens : ((Token.scan source).tokens.map (Syntax.tokenWeight nameCost)).sum ≤
    5 * source.utf8ByteSize := hcost
  omega

end ByteBricks.Template
