import Mathlib.Algebra.Order.Group.Multiset
import ByteBricks.Proofs.BlockStore.Contents
import ByteBricks.Proofs.Template.Cells
import ByteBricks.Template.Lowering

/-! # Lowering is Resolving

  The lowering and the resolving of a script go the same way. The lowering stores as cells
  what the resolving gives as trees: it knows the same names and types, adds the cells of the
  trees to its store and links each chain as it grows, or it stops with the same fault. -/

namespace ByteBricks.Template

open BlockStore (Contains)
open Resolve (chainLine check require)
open Syntax (Node Origin Strand)

/-! ### Scopes -/

/-- The type of the elements that a cell of the type declares. -/
def CellType.element : CellType → ElementType
  | primitive t => .primitive t
  | struct name => .struct name.text

theorem CellType.element_ofName (name : Name) :
    (ofName (Primitive.ofName? name.text) name).element = ElementType.ofName name.text := by
  unfold ofName ElementType.ofName
  cases Primitive.ofName? name.text <;> rfl

/-- What a scope knows of a field. -/
def Binding.entry (b : Binding) : Entry := ⟨b.name, b.type.element, b.isArray⟩

/-- What a scope knows of a struct. -/
def StructBinding.entry (b : StructBinding) : StructEntry := ⟨b.name, b.members.map Binding.entry⟩

namespace Lowering

/-- What is known at a point of the lowering. -/
def scope (s : Lowering) : Scope where
  structs := s.structs.map StructBinding.entry
  fields := s.fields.map Binding.entry
  members := (s.members.getD []).map Binding.entry
  names := s.names
  count := s.cells.size

variable {s t u : Lowering}

theorem field?_scope (s : Lowering) (name : String) :
    s.scope.field? name = (s.field? name).map Binding.entry := by
  unfold Scope.field? field?
  rw [scope, ← List.map_append, List.find?_map]
  rfl

theorem struct?_scope (s : Lowering) (name : String) :
    s.scope.struct? name = (s.struct? name).map StructBinding.entry := by
  unfold Scope.struct? struct?
  rw [scope, List.find?_map]
  rfl

theorem member?_scope (s : Lowering) (struct member : String) :
    s.scope.member? struct member = (s.member? struct member).map Binding.entry := by
  unfold Scope.member? member?
  rw [struct?_scope]
  cases s.struct? struct with
  | none => rfl
  | some b =>
    show (b.members.map Binding.entry).find? _ = (b.members.find? _).map Binding.entry
    rw [List.find?_map]
    rfl

/-! ### Changes of the Store -/

/-- The cells of `old` are changed to those of `new`, and no others. -/
structure Rewrites (s t : Lowering) (old new : List Placed) : Prop where
  /-- What is stored besides is kept. -/
  cells : ∀ m, s.cells.Contains (old + m) → t.cells.Contains (new + m)
  /-- A struct is being declared if one was. -/
  members : t.members.isSome = s.members.isSome
  /-- No statement is finished. -/
  first : t.first = s.first
  last : t.last = s.last

/-- The cells of `new` are added. -/
abbrev Adds (s t : Lowering) (new : List Placed) : Prop := s.Rewrites t [] new

namespace Rewrites

variable {a b c : List Placed}

theorem refl (s : Lowering) (a : List Placed) : s.Rewrites s a a := ⟨fun _ => id, rfl, rfl, rfl⟩

theorem trans (h : s.Rewrites t a b) (h' : t.Rewrites u b c) : s.Rewrites u a c where
  cells m hm := h'.cells m (h.cells m hm)
  members := h'.members.trans h.members
  first := h'.first.trans h.first
  last := h'.last.trans h.last

/-- Cells in front of the changed ones are kept. -/
theorem prepend (h : s.Rewrites t a b) (c : List Placed) : s.Rewrites t (c ++ a) (c ++ b) where
  cells m hm := by
    have hswap (a : List Placed) : (↑(c ++ a) + m : Multiset Placed) = ↑a + (↑c + m) := by
      rw [← Multiset.coe_add, add_assoc, add_left_comm]
    exact (h.cells _ (hm.of_eq (hswap a).symm)).of_eq (hswap b)
  members := h.members
  first := h.first
  last := h.last

/-- The types of new cells are found. -/
theorem type?_eq (h : s.Rewrites t a b) (hs : ∃ m, s.cells.Contains (a + m)) {p : Placed}
    (hp : p ∈ b) : t.cells.type? p.1 = p.2.type := by
  obtain ⟨m, hm⟩ := hs
  have hget := (h.cells m hm).has p (Multiset.mem_add.2 (.inl (Multiset.mem_coe.2 hp)))
  unfold Cells.type?
  rw [hget]
  rfl

end Rewrites

/-- What is added can be added to any sound store. -/
theorem Adds.trans {a b : List Placed} (h : s.Adds t a) (h' : t.Adds u b) :
    s.Adds u (a ++ b) := by
  have hback := Rewrites.prepend h' a
  rw [List.append_nil] at hback
  exact Rewrites.trans h hback

theorem Adds.sound {a : List Placed} (h : s.Adds t a) (hs : s.cells.Sound) : t.cells.Sound := by
  obtain ⟨m, hm⟩ := hs.exists_contains
  exact (h.cells m (hm.of_eq (zero_add m))).sound

theorem Adds.type?_eq {a : List Placed} (h : s.Adds t a) (hs : s.cells.Sound) {p : Placed}
    (hp : p ∈ a) : t.cells.type? p.1 = p.2.type := by
  obtain ⟨m, hm⟩ := hs.exists_contains
  exact Rewrites.type?_eq h ⟨m, hm.of_eq (zero_add m)⟩ hp

end Lowering

open Lowering (Adds Rewrites)

/-! ### Steps -/

/-- The lowering goes on as the resolving does, with the same knowledge afterwards, or both
    stop with the same fault. -/
inductive Matches {α β : Type} (R : α → β → Lowering → Prop) :
    Except Lowering.Halt (α × Lowering) → Except Error (β × Scope) → Prop
  | ok {a : α} {b : β} {t : Lowering} : R a b t → Matches R (.ok (a, t)) (.ok (b, t.scope))
  | error (e : Error) : Matches R (.error (.failed (.meaning e))) (.error e)

/-- From a state, the step does what the resolving does from its scope. -/
def Tracks {α β : Type} (R : α → β → Lowering → Prop) (s : Lowering) (x : Lower α)
    (y : Resolve β) : Prop :=
  Matches R (x s) (y s.scope)

namespace Tracks

variable {α β γ δ : Type} {R : α → β → Lowering → Prop} {R' : γ → δ → Lowering → Prop}
  {s : Lowering}

theorem bind {x : Lower α} {y : Resolve β} {f : α → Lower γ} {g : β → Resolve δ}
    (h : Tracks R s x y) (hnext : ∀ a b t, R a b t → Tracks R' t (f a) (g b)) :
    Tracks R' s (x >>= f) (y >>= g) := by
  show Matches R' (x s >>= fun p => f p.1 p.2) (y s.scope >>= fun p => g p.1 p.2)
  unfold Tracks at h
  generalize x s = x at h
  generalize y s.scope = y at h
  cases h with
  | ok h => exact hnext _ _ _ h
  | error e => exact .error e

theorem pure {a : α} {b : β} (h : R a b s) : Tracks R s (Pure.pure a) (Pure.pure b) := .ok h

theorem fail {line : Nat} {fault : Fault} :
    Tracks R s (Lower.fail line fault) (Resolve.fail line fault) := .error _

theorem mono {R' : α → β → Lowering → Prop} {x : Lower α} {y : Resolve β} (h : Tracks R s x y)
    (himp : ∀ a b t, R a b t → R' a b t) : Tracks R' s x y := by
  unfold Tracks at *
  generalize x s = x at *
  generalize y s.scope = y at *
  cases h with
  | ok h => exact .ok (himp _ _ _ h)
  | error e => exact .error e

theorem get {f : Lowering → Lower α} {g : Scope → Resolve β} (h : Tracks R s (f s) (g s.scope)) :
    Tracks R s (MonadState.get >>= f) (MonadState.get >>= g) := h

theorem modify {f : Lowering → Lowering} {g : Scope → Scope} (h : (f s).scope = g s.scope) :
    Tracks (fun _ _ t => t = f s) s (modifyThe Lowering f) (modifyThe Scope g) := by
  show Matches _ (.ok ((), f s)) (.ok ((), g s.scope))
  rw [← h]
  exact .ok rfl

/-- The lowering may look at its state alone. -/
theorem read {f : Lowering → Lower α} {y : Resolve β} (h : Tracks R s (f s) y) :
    Tracks R s (MonadState.get >>= f) y := h

/-- The resolving may look at its scope alone. -/
theorem look {x : Lower α} {g : Scope → Resolve β} (h : Tracks R s x (g s.scope)) :
    Tracks R s x (MonadState.get >>= g) := h

theorem require {line : Nat} {fault : Fault} {f : α → β} {a : Option α} {b : Option β}
    (h : b = a.map f) :
    Tracks (fun a' b' t => a = some a' ∧ b' = f a' ∧ t = s) s
      (Lower.require line fault a) (Resolve.require line fault b) := by
  subst h
  cases a with
  | none => exact fail
  | some a => exact pure ⟨rfl, rfl, rfl⟩

theorem check {line : Nat} {fault : Fault} {c c' : Bool} (h : c' = c) :
    Tracks (fun _ _ t => c = true ∧ t = s) s (Lower.check line fault c)
      (Resolve.check line fault c') := by
  subst h
  cases c' with
  | false => exact fail
  | true => exact pure ⟨rfl, rfl⟩

/-- The lowering may change what the scope does not know. -/
theorem silent {f : Lowering → Lowering} {x : Lower α} {y : Resolve β}
    (hf : (f s).scope = s.scope) (h : Tracks R (f s) x y) :
    Tracks R s (do modifyThe Lowering f; x) y := by
  unfold Tracks at h
  rw [hf] at h
  exact h

/-- The lowering may check what the resolving need not. -/
theorem checked {check : Lower Unit} {x : Lower α} {y : Resolve β} (hcheck : check = Pure.pure ())
    (h : Tracks R s x y) : Tracks R s (do check; x) y := by
  subst hcheck
  exact h

/-- The lowering may require what the resolving need not. -/
theorem required {line : Nat} {fault : Fault} {o : Option γ} {c : γ} {x : γ → Lower α}
    {y : Resolve β} (ho : o = some c) (h : Tracks R s (x c) y) :
    Tracks R s (do x (← Lower.require line fault o)) y := by
  subst ho
  exact h

end Tracks

variable {s : Lowering}

/-- A cell is stored when its node is finished. -/
theorem tracks_alloc (line : Nat) (content : Content) (type : Option CellType) :
    Tracks (fun h m t => h = m.handle ∧ s.Adds t [(m.handle, ⟨content, type, none, m.line⟩)]) s
      (Lower.alloc line content type) (Resolve.mark line) := by
  refine .ok (t := { s with cells := (s.cells.push ⟨content, type, none, line⟩).2 }) ?_
  refine ⟨rfl, fun m hm => ?_, rfl, rfl, rfl⟩
  exact (hm.push _).of_eq (by rw [Multiset.coe_nil, zero_add]; rfl)

theorem tracks_intern (t : Token) :
    Tracks (fun name name' u => name' = name ∧ name.text = t.text ∧ s.Adds u []) s
      (Lower.intern t) (Resolve.intern t) := by
  unfold Tracks Lower.intern Resolve.intern
  rw [Lowering.scope]
  cases s.names.intern? t.text with
  | none => exact .error _
  | some p => exact .ok (t := { s with names := p.2 }) ⟨rfl, rfl, fun _ => id, rfl, rfl, rfl⟩

/-! ### References -/

/-- The cell of a reference. -/
def accessCell (m : Mark) (a : Access) (type : CellType) : Placed :=
  (m.handle, ⟨.access a, some type, none, m.line⟩)

/-- A reference is stored, and its declaration is known. -/
def StoresAccess (s : Lowering) (p : Handle × Binding) (q : Mark × Access × Entry) (t : Lowering) :
    Prop :=
  p.1 = q.1.handle ∧ q.2.2 = p.2.entry ∧ s.Adds t [accessCell q.1 q.2.1 p.2.type]

theorem tracks_fieldAccess (t : Token) :
    Tracks (StoresAccess s) s (Lower.fieldAccess t) (Resolve.fieldAccess t) := by
  unfold Lower.fieldAccess Resolve.fieldAccess
  refine .get (.bind (.require (s.field?_scope t.text)) fun b b' u h => ?_)
  obtain ⟨-, rfl, rfl⟩ := h
  refine .bind (tracks_intern t) fun name name' v h => ?_
  obtain ⟨rfl, -, hnames⟩ := h
  refine .bind (tracks_alloc t.line _ (some b.type)) fun h m w hm => ?_
  obtain ⟨rfl, hcell⟩ := hm
  exact .pure ⟨rfl, rfl, hnames.trans hcell⟩

theorem tracks_memberAccess (o : Origin) (lhs rhs : Node) :
    Tracks (StoresAccess s) s (Lower.memberAccess o lhs rhs) (Resolve.memberAccess o lhs rhs) := by
  -- Anything but two names is malformed.
  cases lhs
  case name owner =>
    cases rhs
    case name part =>
      rw [Lower.memberAccess, Resolve.memberAccess]
      refine .get (.bind (.require (s.field?_scope owner.token.text)) fun b b' u h => ?_)
      obtain ⟨-, rfl, rfl⟩ := h
      refine .bind (.check rfl) fun _ _ u h => ?_
      obtain ⟨-, rfl⟩ := h
      obtain ⟨name, type, isArray⟩ := b
      cases type with
      | primitive t => exact .bind (R := fun _ _ _ => False) .fail fun _ _ _ => False.elim
      | struct struct =>
        -- The struct is known by the text of its name.
        refine .bind (.pure (R := fun n n' v => n = struct.text ∧ n' = n ∧ v = u) ⟨rfl, rfl, rfl⟩)
          fun n n' v h => ?_
        obtain ⟨rfl, rfl, rfl⟩ := h
        refine .get (.bind (.require (Lowering.member?_scope _ struct.text part.token.text))
          fun c c' w h => ?_)
        obtain ⟨-, rfl, rfl⟩ := h
        refine .bind (tracks_intern owner.token) fun ownerName name' v h => ?_
        obtain ⟨rfl, -, hnames⟩ := h
        refine .bind (tracks_intern part.token) fun partName name' w h => ?_
        obtain ⟨rfl, -, hnames'⟩ := h
        refine .bind (tracks_alloc o.token.line _ (some c.type)) fun h m w hm => ?_
        obtain ⟨rfl, hcell⟩ := hm
        exact .pure ⟨rfl, rfl, (hnames.trans hnames').trans hcell⟩
    all_goals exact .fail
  all_goals exact .fail

theorem tracks_indexed (base : Node) :
    Tracks (StoresAccess s) s (Lower.indexed base) (Resolve.indexed base) := by
  cases base
  case name o => exact tracks_fieldAccess o.token
  case binary o op lhs rhs =>
    cases op
    case member => exact tracks_memberAccess o lhs rhs
    all_goals exact .fail
  all_goals exact .fail

/-- A field of numbers is one of a primitive type. -/
theorem tracks_numberType (line : Nat) (b : Binding) :
    Tracks (fun _ t u => b.type = .primitive t ∧ u = s) s
      (Lower.check line (.notNumber b.name) b.type.isNumber)
      (Resolve.numberType line b.entry) := by
  unfold Resolve.numberType Binding.entry
  cases htype : b.type with
  | struct name => exact .fail
  | primitive t =>
    have hnumber : (CellType.primitive t).isNumber = true := by cases t <;> rfl
    rw [hnumber]
    exact .pure ⟨rfl, rfl⟩

theorem tracks_scalarType (line : Nat) (b : Binding) :
    Tracks (fun _ t u => b.type = .primitive t ∧ u = s) s
      (Lower.checkScalar line b) (Resolve.scalarType line b.entry) := by
  unfold Lower.checkScalar Resolve.scalarType
  refine .bind (.check rfl) fun _ _ u h => ?_
  obtain ⟨-, rfl⟩ := h
  exact tracks_numberType line b

theorem tracks_arrayAccess (base : Node) :
    Tracks (fun p q t => p.1 = q.1.handle ∧ p.2.type = .primitive q.2.2 ∧
      s.Adds t [accessCell q.1 q.2.1 (.primitive q.2.2)]) s
      (Lower.arrayAccess base) (Resolve.arrayAccess base) := by
  unfold Lower.arrayAccess Resolve.arrayAccess
  refine .bind (tracks_indexed base) fun p q t h => ?_
  obtain ⟨h, b⟩ := p
  obtain ⟨m, a, e⟩ := q
  obtain ⟨hhandle, hentry, hcell⟩ := h
  have hentry : e = b.entry := hentry
  subst hentry
  refine .bind (.check rfl) fun _ _ u h => ?_
  obtain ⟨-, rfl⟩ := h
  refine .bind (tracks_numberType base.line b) fun _ type u h => ?_
  obtain ⟨htype, rfl⟩ := h
  simp only [htype] at hcell
  exact .pure ⟨hhandle, htype, hcell⟩

/-! ### Expressions -/

/-- The cells of a tree are stored. -/
def Stores {α : Type} [HasCells α] (s : Lowering) (h : Handle) (x : α) (t : Lowering) : Prop :=
  h = handleOf x ∧ s.Adds t (treeCells x none)

theorem mem_treeCells {α : Type} [HasCells α] (x : α) (next : Option Handle) :
    rootCell x next ∈ treeCells x next :=
  List.mem_append_right _ (List.mem_singleton_self _)

theorem tracks_integer (t : Token) : Tracks (Stores s) s (Lower.integer t) (Resolve.integer t) := by
  unfold Lower.integer Resolve.integer
  refine .bind (.require (f := id) Option.map_id_apply.symm) fun value value' u h => ?_
  obtain ⟨-, rfl, rfl⟩ := h
  rw [← bind_pure (Lower.alloc _ _ _)]
  refine .bind (tracks_alloc t.line _ _) fun h m v hm => ?_
  obtain ⟨rfl, hcell⟩ := hm
  exact .pure ⟨rfl, hcell⟩

/-- The type of an expression is read off its cell. -/
theorem type?_of_adds {t : Lowering} {cells : List Placed} (h : s.Adds t cells)
    (hs : s.cells.Sound) {e : Expr} (he : treeCells e none ⊆ cells) :
    t.cells.type? (handleOf e) = some (.primitive e.type) :=
  h.type?_eq hs (he (mem_treeCells e none))

theorem tracks_arith {o : Origin} {op : ArithOp} {x y : Lower Handle} {x' y' : Resolve Expr}
    (hs : s.cells.Sound) (hx : ∀ s, s.cells.Sound → Tracks (Stores s) s x x')
    (hy : ∀ s, s.cells.Sound → Tracks (Stores s) s y y') :
    Tracks (Stores s) s (do let l ← x; let r ← y; Lower.arith o op l r)
      (do let l ← x'; let r ← y'; Resolve.arith o op l r) := by
  refine .bind (hx s hs) fun h l t hl => ?_
  obtain ⟨rfl, hl⟩ := hl
  refine .bind (hy t (hl.sound hs)) fun h r u hr => ?_
  obtain ⟨rfl, hr⟩ := hr
  have hoperands := hl.trans hr
  have htype := type?_of_adds hoperands hs (List.subset_append_left _ _)
  have htype' := type?_of_adds hoperands hs (List.subset_append_right _ _)
  refine .read (.read (.checked (if_pos ?_) ?_))
  · rw [htype, htype']
    cases l.type <;> cases r.type <;> rfl
  · rw [htype, htype', ← bind_pure (Lower.alloc _ _ _)]
    refine .bind (tracks_alloc o.token.line _ _) fun h m v hm => ?_
    obtain ⟨rfl, hcell⟩ := hm
    rw [treeCells, List.append_assoc] at hoperands
    exact .pure ⟨rfl, hoperands.trans hcell⟩

/-- An expression that is only a reference. -/
theorem tracks_reference {x : Lower (Handle × Binding)} {y : Resolve (Mark × Access × Entry)}
    (line : Nat) (h : Tracks (StoresAccess s) s x y) :
    Tracks (Stores s) s
      (do
        let (h, b) ← x
        Lower.checkScalar line b
        pure h)
      (do
        let (m, field, b) ← y
        pure (Expr.access m (← Resolve.scalarType line b) field)) := by
  refine .bind h fun p q t h => ?_
  obtain ⟨h, b⟩ := p
  obtain ⟨m, a, e⟩ := q
  obtain ⟨hhandle, hentry, hcell⟩ := h
  have hentry : e = b.entry := hentry
  subst hentry
  refine .bind (tracks_scalarType line b) fun _ type u h => ?_
  obtain ⟨htype, rfl⟩ := h
  simp only [htype] at hcell
  exact .pure ⟨hhandle, hcell⟩

theorem tracks_checkInteger {t : Lowering} {cells : List Placed} (h : s.Adds t cells)
    (hs : s.cells.Sound) {e : Expr} (he : treeCells e none ⊆ cells) (line : Nat) (fault : Fault) :
    Tracks (fun _ _ u => e.type.isInteger = true ∧ u = t) t
      (Lower.checkInteger line fault (handleOf e)) (check line fault e.type.isInteger) := by
  refine .read ?_
  rw [type?_of_adds h hs he]
  exact .check rfl

mutual

/-- The cells of an expression are stored from its leaves to its root. -/
theorem tracks_expr : ∀ (n : Node) {s : Lowering}, s.cells.Sound →
    Tracks (Stores s) s (Lower.expr n) (Resolve.expr n)
  | .name o, s, hs => by
    rw [Lower.expr, Resolve.expr]
    exact tracks_reference o.token.line (tracks_fieldAccess o.token)
  | .integer o, s, hs => by
    rw [Lower.expr, Resolve.expr]
    exact tracks_integer o.token
  | .paren o inner, s, hs => by
    rw [Lower.expr, Resolve.expr]
    exact tracks_single o.token.line inner hs
  | .element o base index, s, hs => by
    rw [Lower.expr, Resolve.expr]
    refine .bind (tracks_arrayAccess base) fun p q t h => ?_
    obtain ⟨h, b⟩ := p
    obtain ⟨m, a, type⟩ := q
    obtain ⟨hhandle, htype, hbase⟩ := h
    refine .bind (tracks_single o.token.line index (hbase.sound hs)) fun h i u hi => ?_
    obtain ⟨rfl, hi⟩ := hi
    have hparts := hbase.trans hi
    refine .bind (tracks_checkInteger hparts hs (List.subset_append_right _ _) _ _)
      fun _ _ v h => ?_
    obtain ⟨-, rfl⟩ := h
    have hhandle : h = m.handle := hhandle
    have htype : b.type = .primitive type := htype
    rw [hhandle, htype, ← bind_pure (Lower.alloc _ _ _)]
    refine .bind (tracks_alloc o.token.line _ _) fun h m' w hm => ?_
    obtain ⟨rfl, hcell⟩ := hm
    exact .pure ⟨rfl, hparts.trans hcell⟩
  | .binary o .member lhs rhs, s, hs => by
    rw [Lower.expr, Resolve.expr]
    exact tracks_reference o.token.line (tracks_memberAccess o lhs rhs)
  | .binary o .plus l r, s, hs | .binary o .minus l r, s, hs | .binary o .times l r, s, hs
  | .binary o .divide l r, s, hs => by
    rw [Lower.expr, Resolve.expr]
    exact tracks_arith hs (fun _ => tracks_expr l) (fun _ => tracks_expr r)
  | .control o _, s, _ | .binary o .assign _ _, s, _ | .binary o .compare _ _, s, _
  | .structHead o _, s, _ | .block o _, s, _ | .scriptEnd o, s, _ => by
    rw [Lower.expr, Resolve.expr]
    exact .fail

theorem tracks_single : ∀ (line : Nat) (ns : List Node) {s : Lowering}, s.cells.Sound →
    Tracks (Stores s) s (Lower.single line ns) (Resolve.single line ns)
  | line, [], s, _ => by
    rw [Lower.single, Resolve.single]
    exact .fail
  | line, [n], s, hs => by
    rw [Lower.single, Resolve.single]
    exact tracks_expr n hs
  | line, n :: _ :: _, s, _ => by
    rw [Lower.single, Resolve.single]
    exact .fail

end

/-! ### Constants -/

theorem treeCells_arith (m : Mark) (t : Primitive) (op : ArithOp) (lhs rhs : Expr)
    (next : Option Handle) :
    treeCells (Expr.arith m t op lhs rhs) next =
      treeCells lhs none ++ treeCells rhs none ++ [rootCell (Expr.arith m t op lhs rhs) next] := by
  rw [treeCells, treeCells.eq_1 lhs, List.append_assoc (HasCells.inner lhs)]
  rfl

/-- An expression is constant if its cell is found to be. No expression is deeper than it has
    cells. -/
theorem isConstant_of_has {cells : Cells} {e : Expr} (h : cells.Has (treeCells e none))
    {limit : Nat} (hlimit : (treeCells e none).length ≤ limit) :
    cells.isConstant limit (handleOf e) = e.isConstant := by
  induction e generalizing limit with
  | literal m value | access m t field | element m t baseMark field index ih =>
    have hroot := h _ (Multiset.mem_coe.2 (mem_treeCells _ none))
    cases limit with
    | zero => simp [treeCells] at hlimit
    | succ limit =>
      rw [Cells.isConstant, show cells.get? (handleOf _) = _ from hroot]
      rfl
  | arith m t op lhs rhs ihl ihr =>
    rw [treeCells_arith] at h hlimit
    have hroot := h (rootCell (Expr.arith m t op lhs rhs) none) (by simp)
    rw [← Multiset.coe_add, ← Multiset.coe_add, BlockStore.has_add, BlockStore.has_add] at h
    obtain ⟨⟨hlhs, hrhs⟩, -⟩ := h
    simp only [List.length_append, List.length_singleton] at hlimit
    cases limit with
    | zero => omega
    | succ limit =>
      rw [Cells.isConstant, show cells.get? (handleOf _) = _ from hroot]
      show (cells.isConstant limit (handleOf lhs) && cells.isConstant limit (handleOf rhs)) = _
      rw [ihl hlhs (by omega), ihr hrhs (by omega)]
      rfl

/-- The store has as many cells as a walk over an expression takes at most. -/
theorem isConstant_of_adds {s t : Lowering} {e : Expr} (h : s.Adds t (treeCells e none))
    (hs : s.cells.Sound) : t.cells.isConstant t.cells.size (handleOf e) = e.isConstant := by
  obtain ⟨m, hm⟩ := hs.exists_contains
  have hcells := h.cells m (hm.of_eq (zero_add m))
  refine isConstant_of_has (BlockStore.has_add.1 hcells.has).1 ?_
  rw [← hcells.card, Multiset.card_add, Multiset.coe_card]
  exact Nat.le_add_right _ _

/-! ### Declarations -/

theorem tracks_type (t : Token) :
    Tracks (fun type elements u => u = s ∧ type = Primitive.ofName? t.text ∧
      elements = ElementType.ofName t.text) s (Lower.primitive? t)
      (require t.line (.unknownType t.text) (s.scope.type? t.text)) := by
  unfold Lower.primitive? Scope.type? ElementType.ofName
  cases Primitive.ofName? t.text with
  | some type => exact .pure ⟨rfl, rfl, rfl⟩
  | none =>
    rw [s.struct?_scope, Option.isSome_map]
    refine .read ?_
    cases (s.struct? t.text).isSome with
    | true => exact .pure ⟨rfl, rfl, rfl⟩
    | false => exact .fail

theorem tracks_bracketCount {inStruct : Bool} (hs : s.cells.Sound)
    (hin : s.members.isSome = inStruct) (bracket : Option (Origin × List Node)) :
    Tracks (fun size size' t => size = headOf? size'.toList ∧
      s.Adds t (chainCells size'.toList)) s
      (Lower.bracketCount bracket) (Resolve.bracketCount inStruct bracket) := by
  cases bracket with
  | none => exact .pure ⟨rfl, .refl s []⟩
  | some p =>
    obtain ⟨o, index⟩ := p
    -- The count is stored, and its cell tells whether it is an integer and a constant.
    have hcount : Tracks (Stores s) s (Lower.count o index) (Resolve.count inStruct o index) := by
      unfold Lower.count Resolve.count
      refine .bind (tracks_single o.token.line index hs) fun h e t he => ?_
      obtain ⟨rfl, he⟩ := he
      refine .bind (tracks_checkInteger he hs (List.Subset.refl _) _ _) fun _ _ u h => ?_
      obtain ⟨-, rfl⟩ := h
      refine .read (.bind (.check ?_) fun _ _ v h => ?_)
      · rw [isConstant_of_adds he hs, ← hin, ← he.members]
        cases u.members <;> rfl
      · obtain ⟨-, rfl⟩ := h
        exact .pure ⟨rfl, he⟩
    refine .bind hcount fun h e t he => ?_
    obtain ⟨rfl, he⟩ := he
    refine .pure ⟨rfl, ?_⟩
    show s.Adds t (treeCells e none ++ [])
    rwa [List.append_nil]

theorem tracks_declare {inStruct : Bool} (hin : s.members.isSome = inStruct) (line : Nat)
    (b : Binding) :
    Tracks (fun _ _ t => s.Adds t []) s (Lower.declare line b)
      (Resolve.declare inStruct line b.entry) := by
  subst hin
  obtain ⟨cells, names, structs, fields, members, first, last⟩ := s
  unfold Lower.declare Resolve.declare
  refine .get ?_
  cases members with
  | none =>
    exact .ok (t := ⟨cells, names, structs, b :: fields, none, first, last⟩)
      ⟨fun _ => id, rfl, rfl, rfl⟩
  | some members =>
    refine .bind (.check ?_) fun _ _ u h => ?_
    · exact List.all_map
    · obtain ⟨-, rfl⟩ := h
      exact .ok (t := ⟨cells, names, structs, fields, some (b :: members), first, last⟩)
        ⟨fun _ => id, rfl, rfl, rfl⟩

theorem tracks_declaration {inStruct : Bool} (hs : s.cells.Sound)
    (hin : s.members.isSome = inStruct) (type : Origin) (bracket : Option (Origin × List Node))
    (name : Origin) :
    Tracks (Stores s) s
      (Lower.declaration type bracket name) (Resolve.declaration inStruct type bracket name) := by
  unfold Lower.declaration Resolve.declaration
  refine .look (.bind (tracks_type type.token) fun elements elementType t h => ?_)
  obtain ⟨rfl, rfl, rfl⟩ := h
  refine .bind (tracks_bracketCount hs hin bracket) fun size size' t h => ?_
  obtain ⟨rfl, hsize⟩ := h
  refine .bind (tracks_intern type.token) fun typeName typeName' u h => ?_
  obtain ⟨rfl, htypeName, htype⟩ := h
  refine .bind (tracks_intern name.token) fun fieldName fieldName' v h => ?_
  obtain ⟨rfl, -, hname⟩ := h
  have hnames := (hsize.trans htype).trans hname
  rw [← htypeName, ← CellType.element_ofName]
  have hin : v.members.isSome = inStruct := hnames.members.trans hin
  have harray : size'.isSome = (headOf? size'.toList).isSome := by cases size' <;> rfl
  rw [harray]
  refine .bind (tracks_declare hin name.token.line ⟨_, _, _⟩) fun _ _ w hdeclared => ?_
  rw [← bind_pure (Lower.alloc _ _ _)]
  refine .bind (tracks_alloc type.token.line _ _) fun h m x hm => ?_
  obtain ⟨rfl, hcell⟩ := hm
  have hcells := (hnames.trans hdeclared).trans hcell
  rw [List.append_nil, List.append_nil, List.append_nil] at hcells
  exact .pure ⟨rfl, hcells⟩

end ByteBricks.Template
