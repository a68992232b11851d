import ByteBricks.Proofs.Template.Meaning
import ByteBricks.Proofs.Template.Room

/-! # The Static Meaning of Trees

  Rules for the trees that stand for fields and for values, without any reference to
  how they are resolved. A tree is resolved to an expression exactly if the rules give
  it a type and there is room for its names. -/

namespace ByteBricks.Template

open Syntax (Node Origin)

/-! ### Rules -/

/-- The tree refers to a declaration: to the newest field of a name, or to a member of
    the newest field of a name that holds a single struct. -/
inductive RefersTo (Γ : Context) : Node → Entry → Prop where
  /-- A field is referred to by its name. -/
  | field {o : Origin} {b : Entry} (newest : Γ.field? o.token.text = some b) :
    RefersTo Γ (.name o) b
  /-- A member is referred to through its owner. -/
  | member {o owner part : Origin} {parent b : Entry} {struct : String} {declared : StructEntry}
    (newest : Γ.field? owner.token.text = some parent) (single : parent.isArray = false)
    (type : parent.type = .struct struct) (known : Γ.struct? struct = some declared)
    (found : declared.members.find? (·.name == part.token.text) = some b) :
    RefersTo Γ (.binary o .member (.name owner) (.name part)) b

/-- The tree stands for a number of the type. -/
inductive Denotes (Γ : Context) : Node → Primitive → Prop where
  /-- A literal is a signed 64-bit integer. -/
  | literal {o : Origin} (small : Nat.ofDigitChars 10 o.token.text.toList 0 < 2 ^ 63) :
    Denotes Γ (.integer o) .int64
  /-- A field or a member may hold a single number. -/
  | scalar {n : Node} {b : Entry} {t : Primitive} (field : RefersTo Γ n b)
    (single : b.isArray = false) (number : b.type = .primitive t) : Denotes Γ n t
  /-- An array of numbers has elements at integers. -/
  | element {o : Origin} {base n : Node} {b : Entry} {t i : Primitive} (field : RefersTo Γ base b)
    (array : b.isArray = true) (number : b.type = .primitive t) (place : Denotes Γ n i)
    (integer : i.isInteger = true) : Denotes Γ (.element o base [n]) t
  /-- Parentheses stand around a single tree. -/
  | paren {o : Origin} {n : Node} {t : Primitive} (inner : Denotes Γ n t) :
    Denotes Γ (.paren o [n]) t
  /-- An operation has two operands. -/
  | arith {o : Origin} {op : ArithOp} {l r : Node} {s t : Primitive} (left : Denotes Γ l s)
    (right : Denotes Γ r t) : Denotes Γ (.binary o op.binary l r) (Resolve.resultType s t)

/-- The tree is built from literals, operations and parentheses alone. -/
inductive IsConstant : Node → Prop where
  /-- A literal. -/
  | literal (o : Origin) : IsConstant (.integer o)
  /-- A single tree in parentheses. -/
  | paren {o : Origin} {n : Node} (inner : IsConstant n) : IsConstant (.paren o [n])
  /-- An operation. -/
  | arith {o : Origin} {op : ArithOp} {l r : Node} (left : IsConstant l) (right : IsConstant r) :
    IsConstant (.binary o op.binary l r)

theorem isConstant_paren_iff {o : Origin} {n : Node} :
    IsConstant (.paren o [n]) ↔ IsConstant n := by
  constructor
  · intro h
    cases h with
    | paren inner => exact inner
  · exact .paren

theorem isConstant_arith_iff {o : Origin} {op : ArithOp} {l r : Node} :
    IsConstant (.binary o op.binary l r) ↔ IsConstant l ∧ IsConstant r := by
  constructor
  · intro h
    generalize op.binary = kind at h
    cases h with
    | arith left right => exact ⟨left, right⟩
  · intro h
    exact .arith h.1 h.2

theorem RefersTo.not_isConstant {Γ : Context} {n : Node} {b : Entry} (h : RefersTo Γ n b) :
    ¬ IsConstant n := by
  intro hn
  cases h with
  | field => cases hn
  | member =>
    generalize hkind : Syntax.BinaryOp.member = kind at hn
    cases hn with
    | @arith _ op => cases op <;> simp [ArithOp.binary] at hkind

/-- A tree without references means the same everywhere. -/
theorem Denotes.of_isConstant {Γ Δ : Context} {n : Node} {t : Primitive} (h : Denotes Γ n t)
    (hn : IsConstant n) : Denotes Δ n t := by
  induction h with
  | literal small => exact .literal small
  | scalar field => exact absurd hn field.not_isConstant
  | element => cases hn
  | paren _ ih => exact .paren (ih (isConstant_paren_iff.1 hn))
  | arith _ _ ihl ihr =>
    obtain ⟨hl, hr⟩ := isConstant_arith_iff.1 hn
    exact .arith (ihl hl) (ihr hr)

/-! ### Room -/

/-- There is room for so many more bytes of names. -/
def Scope.HasRoom (s : Scope) (bytes : Nat) : Prop := s.names.size + bytes ≤ NameTable.maxSize

namespace Scope.HasRoom

variable {s : Scope} {k l : Nat}

theorem mono (h : s.HasRoom l) (hkl : k ≤ l) : s.HasRoom k := Nat.le_trans (by omega) h

theorem left (h : s.HasRoom (k + l)) : s.HasRoom k := h.mono (Nat.le_add_right k l)

/-- What a step does not use up is left for the next one. -/
theorem after {α : Type} {r : Resolve α} {a : α} {t : Scope} (h : s.HasRoom (k + l))
    (hr : Resolve.Spends k r) (ha : r s = .ok (a, t)) : t.HasRoom l := by
  have hspent := hr a s t ha
  unfold HasRoom at *
  omega

end Scope.HasRoom

namespace Resolve

theorem intern_isOk {t : Token} {s : Scope} (h : s.HasRoom (nameCost t)) :
    ∃ n u, intern t s = .ok (n, u) := by
  unfold Scope.HasRoom nameCost at h
  have hstored : s.names.intern? t.text = some _ :=
    NameTable.intern?_eq_some_iff.2 ⟨by omega, rfl, rfl⟩
  unfold intern
  rw [hstored]
  exact ⟨_, _, rfl⟩

theorem mark_isOk (line : Nat) (s : Scope) : ∃ m u, mark line s = .ok (m, u) := ⟨_, _, rfl⟩

/-! ### References -/

/-- Only a reference can be indexed. -/
theorem refersTo_of_indexed {n : Node} {m : Mark} {a : Access} {b : Entry} {s s' : Scope}
    (h : indexed n s = .ok ((m, a, b), s')) : RefersTo s.context n b := by
  unfold indexed at h
  split at h
  · next o =>
    obtain ⟨name, u, hb, -⟩ := fieldAccess_eq_ok_iff.1 h
    exact .field hb
  · next o lhs rhs =>
    obtain ⟨owner, part, parent, struct, ownerName, u, partName, v, rfl, rfl, hparent, hsingle,
      htype, hb, -⟩ := memberAccess_eq_ok_iff.1 h
    obtain ⟨declared, hdeclared, hfound⟩ := Option.bind_eq_some_iff.1 hb
    exact .member hparent hsingle htype hdeclared hfound
  · simp at h

/-- A reference can be indexed if there is room for its names. -/
theorem indexed_of_refersTo {n : Node} {b : Entry} {s : Scope} (h : RefersTo s.context n b)
    (hs : s.HasRoom (n.weight nameCost)) : ∃ m a s', indexed n s = .ok ((m, a, b), s') := by
  cases h with
  | @field o _ newest =>
    rw [Node.weight] at hs
    obtain ⟨name, u, hname⟩ := intern_isOk hs
    obtain ⟨m, s', hm⟩ := mark_isOk o.token.line u
    exact ⟨m, .field name, s', fieldAccess_eq_ok_iff.2 ⟨name, u, newest, hname, hm, rfl⟩⟩
  | @member o owner part parent _ struct declared newest single type known found =>
    rw [Node.weight, Node.weight, Node.weight] at hs
    obtain ⟨ownerName, u, howner⟩ := intern_isOk hs.left
    obtain ⟨partName, v, hpart⟩ := intern_isOk (hs.after (.intern owner.token) howner)
    obtain ⟨m, s', hm⟩ := mark_isOk o.token.line v
    have hmember : s.member? struct part.token.text = some b :=
      Option.bind_eq_some_iff.2 ⟨declared, known, found⟩
    exact ⟨m, .member ownerName partName, s', memberAccess_eq_ok_iff.2 ⟨owner, part, parent, struct,
      ownerName, u, partName, v, rfl, rfl, newest, single, type, hmember, howner, hpart, hm, rfl⟩⟩

/-- The value of a tree that refers to something is read through its reference. -/
theorem expr_of_refersTo {Γ : Context} {n : Node} {b : Entry} (h : RefersTo Γ n b) :
    expr n = (do
      let (m, field, b) ← indexed n
      pure (.access m (← scalarType n.line b) field)) := by
  cases h with
  | field => rw [expr]; rfl
  | member => rw [expr]; rfl

/-! ### Expressions -/

/-- What an expression tells of the tree that it was resolved from. -/
structure Describes (Γ : Context) (n : Node) (e : Expr) : Prop where
  denotes : Denotes Γ n e.type
  constant : e.isConstant = true ↔ IsConstant n

theorem single_eq_ok_iff {line : Nat} {ns : List Node} {e : Expr} {s s' : Scope} :
    single line ns s = .ok (e, s') ↔ ∃ n, ns = [n] ∧ expr n s = .ok (e, s') := by
  rcases ns with _ | ⟨n, _ | ⟨n', rest⟩⟩
  · simp [single]
  · simp [single]
  · simp [single]

theorem Describes.access {n : Node} {line : Nat} {m m' : Mark} {a : Access} {b : Entry}
    {t : Primitive} {s s' s'' : Scope} (h : indexed n s = .ok ((m, a, b), s'))
    (ht : scalarType line b s' = .ok (t, s'')) : Describes s.context n (.access m' t a) := by
  have hrefers := refersTo_of_indexed h
  obtain ⟨hsingle, hnumber, -⟩ := scalarType_eq_ok.1 ht
  refine ⟨.scalar hrefers hsingle hnumber, ?_⟩
  simp [Expr.isConstant, hrefers.not_isConstant]

theorem Describes.literal {o : Origin} {e : Expr} {s s' : Scope}
    (h : integer o.token s = .ok (e, s')) : Describes s.context (.integer o) e := by
  unfold integer at h
  simp only [bind_eq_ok, require_eq_ok, pure_eq_ok, and_assoc, exists_and_left,
    exists_eq_left] at h
  obtain ⟨value, hvalue, m, s₁, -, rfl, -⟩ := h
  obtain ⟨-, hsmall, -⟩ := Word.int64?_eq_some_iff.1 hvalue
  unfold Word.int64Max at hsmall
  exact ⟨.literal (by omega), iff_of_true rfl (.literal o)⟩

theorem Describes.element {o : Origin} {base n : Node} {m m' : Mark} {a : Access} {t : Primitive}
    {i : Expr} {s s₁ : Scope} (ha : arrayAccess base s = .ok ((m, a, t), s₁))
    (hi : Describes s.context n i) (hint : i.type.isInteger = true) :
    Describes s.context (.element o base [n]) (.element m' t m a i) := by
  obtain ⟨b, haccess, harray, hnumber⟩ := arrayAccess_eq_ok_iff.1 ha
  refine ⟨.element (refersTo_of_indexed haccess) harray hnumber hi.denotes hint, ?_⟩
  constructor
  · exact fun h => nomatch h
  · exact fun h => nomatch h

theorem Describes.paren {Γ : Context} {o : Origin} {n : Node} {e : Expr} (h : Describes Γ n e) :
    Describes Γ (.paren o [n]) e :=
  ⟨.paren h.denotes, h.constant.trans isConstant_paren_iff.symm⟩

/-- An operation is described by its operands. The right one is resolved in the context of
    the left one, since nothing is declared in between. -/
theorem Describes.arith {o : Origin} (op : ArithOp) {l r : Node} {e : Expr} {s s' : Scope}
    (hl : ∀ x t, expr l s = .ok (x, t) → Describes s.context l x)
    (hr : ∀ y t u, expr r t = .ok (y, u) → Describes t.context r y)
    (h : (do let x ← expr l; let y ← expr r; arith o op x y) s = .ok (e, s')) :
    Describes s.context (.binary o op.binary l r) e := by
  unfold Resolve.arith at h
  simp only [bind_eq_ok, pure_eq_ok] at h
  obtain ⟨x, t, hx, y, u, hy, m, v, -, rfl, -⟩ := h
  have hleft := hl x t hx
  have hright := hr y t u hy
  rw [(expr_eq_ok hx).grows.context] at hright
  refine ⟨.arith hleft.denotes hright.denotes, ?_⟩
  rw [isConstant_arith_iff, ← hleft.constant, ← hright.constant, Expr.isConstant,
    Bool.and_eq_true]

/-- What is resolved to an expression has a meaning by the rules. -/
theorem describes_of_expr : ∀ {n : Node} {e : Expr} {s s' : Scope}, expr n s = .ok (e, s') →
    Describes s.context n e
  | .name o, e, s, s', h => by
    rw [expr] at h
    simp only [bind_eq_ok, pure_eq_ok] at h
    obtain ⟨⟨m, a, b⟩, s₁, haccess, t, s₂, ht, rfl, -⟩ := h
    exact .access (n := .name o) haccess ht
  | .integer o, e, s, s', h => .literal h
  | .paren o inner, e, s, s', h => by
    rw [expr] at h
    obtain ⟨n, rfl, hn⟩ := single_eq_ok_iff.1 h
    exact (describes_of_expr hn).paren
  | .element o base index, e, s, s', h => by
    rw [expr] at h
    simp only [bind_eq_ok, check_eq_ok, pure_eq_ok, and_assoc, exists_and_left,
      exists_eq_left] at h
    obtain ⟨⟨m, a, t⟩, s₁, haccess, i, s₂, hi, hint, -, m', s₃, -, rfl, -⟩ := h
    obtain ⟨n, rfl, hn⟩ := single_eq_ok_iff.1 hi
    have hindex := describes_of_expr hn
    rw [(arrayAccess_eq_ok haccess).1.context] at hindex
    exact .element haccess hindex hint
  | .binary o .member lhs rhs, e, s, s', h => by
    rw [expr] at h
    simp only [bind_eq_ok, pure_eq_ok] at h
    obtain ⟨⟨m, a, b⟩, s₁, haccess, t, s₂, ht, rfl, -⟩ := h
    exact .access (n := .binary o .member lhs rhs) haccess ht
  | .binary o .plus l r, e, s, s', h => by
    rw [expr] at h
    exact .arith .add (fun x t => describes_of_expr) (fun y t u => describes_of_expr) h
  | .binary o .minus l r, e, s, s', h => by
    rw [expr] at h
    exact .arith .sub (fun x t => describes_of_expr) (fun y t u => describes_of_expr) h
  | .binary o .times l r, e, s, s', h => by
    rw [expr] at h
    exact .arith .mul (fun x t => describes_of_expr) (fun y t u => describes_of_expr) h
  | .binary o .divide l r, e, s, s', h => by
    rw [expr] at h
    exact .arith .div (fun x t => describes_of_expr) (fun y t u => describes_of_expr) h
  | .control o _, e, s, s', h | .binary o .assign _ _, e, s, s', h
  | .binary o .compare _ _, e, s, s', h | .structHead o _, e, s, s', h | .block o _, e, s, s', h
  | .scriptEnd o, e, s, s', h => by
    simp [expr] at h

/-- What has a meaning by the rules is resolved to an expression of its type. -/
theorem expr_of_denotes {Γ : Context} {n : Node} {t : Primitive} (h : Denotes Γ n t) {s : Scope}
    (hs : s.context = Γ) (hroom : s.HasRoom (n.weight nameCost)) :
    ∃ e s', expr n s = .ok (e, s') ∧ e.type = t := by
  induction h generalizing s with
  | @literal o small =>
    have hvalue : Word.int64? (Nat.ofDigitChars 10 o.token.text.toList 0) = some _ :=
      Word.int64?_eq_some_iff.2 ⟨by unfold Word.int64Min; omega, by unfold Word.int64Max; omega, rfl⟩
    obtain ⟨m, s', hm⟩ := mark_isOk o.token.line s
    rw [expr, integer]
    simp only [bind_eq_ok, require_eq_ok, pure_eq_ok, and_assoc, exists_and_left, exists_eq_left]
    exact ⟨_, s', ⟨_, hvalue, m, s', hm, rfl, rfl⟩, rfl⟩
  | @scalar n b t field single number =>
    rw [← hs] at field
    obtain ⟨m, a, s', haccess⟩ := indexed_of_refersTo field hroom
    rw [expr_of_refersTo field]
    simp only [bind_eq_ok, pure_eq_ok]
    exact ⟨.access m t a, s', ⟨(m, a, b), s', haccess, t, s',
      scalarType_eq_ok.2 ⟨single, number, rfl⟩, rfl, rfl⟩, rfl⟩
  | @element o base n b t i field array number place integer ih =>
    rw [← hs] at field
    rw [Node.weight, Node.weightAll, Node.weightAll, Nat.add_zero] at hroom
    obtain ⟨m, a, s₁, haccess⟩ := indexed_of_refersTo field hroom.left
    have haccess := arrayAccess_eq_ok_iff.2 ⟨b, haccess, array, number⟩
    have hcontext := (arrayAccess_eq_ok haccess).1.context
    obtain ⟨e, s₂, he, rfl⟩ := ih (hcontext.trans hs)
      (hroom.after (spends_arrayAccess base) haccess)
    obtain ⟨m', s₃, hm⟩ := mark_isOk o.token.line s₂
    rw [expr]
    simp only [bind_eq_ok, check_eq_ok, pure_eq_ok, and_assoc, exists_and_left, exists_eq_left]
    exact ⟨.element m' t m a e, s₃, ⟨(m, a, t), s₁, haccess, e, s₂,
      single_eq_ok_iff.2 ⟨n, rfl, he⟩, integer, (), m', s₃, hm, rfl, rfl⟩, rfl⟩
  | @paren o n t inner ih =>
    rw [Node.weight, Node.weightAll, Node.weightAll, Nat.add_zero] at hroom
    obtain ⟨e, s', he, htype⟩ := ih hs hroom
    rw [expr]
    exact ⟨e, s', single_eq_ok_iff.2 ⟨n, rfl, he⟩, htype⟩
  | @arith o op l r p q left right ihl ihr =>
    rw [Node.weight] at hroom
    obtain ⟨x, s₁, hx, rfl⟩ := ihl hs hroom.left
    have hcontext := (expr_eq_ok hx).grows.context
    obtain ⟨y, s₂, hy, rfl⟩ := ihr (hcontext.trans hs) (hroom.after (spends_expr l) hx)
    obtain ⟨m, s₃, hm⟩ := mark_isOk o.token.line s₂
    rw [expr_arith]
    unfold Resolve.arith
    simp only [bind_eq_ok, pure_eq_ok]
    exact ⟨.arith m (resultType x.type y.type) op x y, s₃,
      ⟨x, s₁, hx, y, s₂, hy, m, s₃, hm, rfl, rfl⟩, rfl⟩

end Resolve

end ByteBricks.Template
