import ByteBricks.Proofs.Execution.Steps
import ByteBricks.Proofs.Template.Typing
import ByteBricks.Template.Compile

/-! # What Resolving Gives

  Every part of a tree that gets a meaning is well typed in what the scope knows at
  that point, and what it declares is what the scope knows afterwards. The statements
  here are about one reading function each; the functions that read expressions leave
  the declarations of the scope alone. -/

namespace ByteBricks.Template

open Syntax (Node Origin)
open Execution (Command commands commandsOf)

/-! ### Scopes -/

/-- What the scope knows. The members of the struct that is being declared hide the
    fields. -/
def Scope.context (s : Scope) : Context := ⟨s.structs, s.members ++ s.fields⟩

/-- Marks and names that belong to a scope. -/
def Scope.Links (s : Scope) (marks : List Mark) (names : List Name) : Prop :=
  Linked s.names s.count marks names

/-- Names were stored and nodes finished, but nothing was declared. -/
structure Scope.Grows (s s' : Scope) : Prop where
  structs : s'.structs = s.structs
  fields : s'.fields = s.fields
  members : s'.members = s.members
  names : s'.names.Extends s.names
  count : s.count ≤ s'.count

namespace Scope.Grows

theorem refl (s : Scope) : s.Grows s := ⟨rfl, rfl, rfl, .refl _, Nat.le_refl _⟩

theorem trans {s t u : Scope} (h : s.Grows t) (h' : t.Grows u) : s.Grows u where
  structs := h'.structs.trans h.structs
  fields := h'.fields.trans h.fields
  members := h'.members.trans h.members
  names := h'.names.trans h.names
  count := Nat.le_trans h.count h'.count

theorem context {s t : Scope} (h : s.Grows t) : t.context = s.context := by
  unfold Scope.context
  rw [h.structs, h.fields, h.members]

theorem links {s t : Scope} (h : s.Grows t) {marks : List Mark} {names : List Name}
    (hl : s.Links marks names) : t.Links marks names :=
  hl.mono h.names h.count

end Scope.Grows

/-- A member or a field was declared, besides names stored and nodes finished. -/
structure Scope.Adds (inStruct : Bool) (b : Entry) (s s' : Scope) : Prop where
  structs : s'.structs = s.structs
  names : s'.names.Extends s.names
  count : s.count ≤ s'.count
  member : inStruct = true → s'.members = b :: s.members ∧ s'.fields = s.fields ∧
    ∀ m ∈ s.members, m.name ≠ b.name
  field : inStruct = false → s'.members = s.members ∧ s'.fields = b :: s.fields

theorem Scope.Adds.between {inStruct : Bool} {b : Entry} {s t u v : Scope} (hst : s.Grows t)
    (h : t.Adds inStruct b u) (huv : u.Grows v) : s.Adds inStruct b v where
  structs := huv.structs.trans (h.structs.trans hst.structs)
  names := huv.names.trans (h.names.trans hst.names)
  count := Nat.le_trans hst.count (Nat.le_trans h.count huv.count)
  member := by
    intro hin
    rw [huv.members, huv.fields, ← hst.members, ← hst.fields]
    exact h.member hin
  field := by
    intro hout
    rw [huv.members, huv.fields, ← hst.members, ← hst.fields]
    exact h.field hout

theorem Scope.Adds.links {inStruct : Bool} {b : Entry} {s s' : Scope} (h : s.Adds inStruct b s')
    {marks : List Mark} {names : List Name} (hl : s.Links marks names) : s'.Links marks names :=
  hl.mono h.names h.count

namespace Resolve

/-! ### Steps -/

theorem bind_eq_ok {α β : Type} {x : Resolve α} {f : α → Resolve β} {s s' : Scope} {b : β} :
    (x >>= f) s = .ok (b, s') ↔ ∃ a t, x s = .ok (a, t) ∧ f a t = .ok (b, s') := by
  show (x s >>= fun p => f p.1 p.2) = .ok (b, s') ↔ _
  cases x s with
  | ok p =>
    constructor
    · intro h
      exact ⟨p.1, p.2, rfl, h⟩
    · intro h
      obtain ⟨a, t, hp, h⟩ := h
      cases hp
      exact h
  | error e =>
    constructor
    · intro h
      exact nomatch h
    · intro h
      obtain ⟨a, t, hp, -⟩ := h
      exact nomatch hp

@[simp] theorem pure_eq_ok {α : Type} {a b : α} {s s' : Scope} :
    (pure a : Resolve α) s = .ok (b, s') ↔ b = a ∧ s' = s := by
  show Except.ok (a, s) = .ok (b, s') ↔ _
  simp [eq_comm]

@[simp] theorem get_eq_ok {s s' t : Scope} :
    (get : Resolve Scope) s = .ok (t, s') ↔ t = s ∧ s' = s := by
  show Except.ok (s, s) = .ok (t, s') ↔ _
  simp [eq_comm]

@[simp] theorem set_eq_ok {s s' t : Scope} {u : PUnit} :
    (set t : Resolve PUnit) s = .ok (u, s') ↔ s' = t := by
  show Except.ok (⟨⟩, t) = .ok (u, s') ↔ _
  simp [eq_comm]

@[simp] theorem modify_eq_ok {f : Scope → Scope} {s s' : Scope} {u : PUnit} :
    (modify f : Resolve PUnit) s = .ok (u, s') ↔ s' = f s := by
  show Except.ok (⟨⟩, f s) = .ok (u, s') ↔ _
  simp [eq_comm]

@[simp] theorem fail_eq_ok {α : Type} {line : Nat} {fault : Fault} {a : α} {s s' : Scope} :
    (fail line fault : Resolve α) s = .ok (a, s') ↔ False := by
  simp [fail]

@[simp] theorem require_eq_ok {α : Type} {line : Nat} {fault : Fault} {o : Option α} {a : α}
    {s s' : Scope} : require line fault o s = .ok (a, s') ↔ o = some a ∧ s' = s := by
  cases o with
  | none => simp [require]
  | some b => simp [require, eq_comm (a := a)]

@[simp] theorem check_eq_ok {line : Nat} {fault : Fault} {condition : Bool} {u : Unit}
    {s s' : Scope} : check line fault condition s = .ok (u, s') ↔ condition = true ∧ s' = s := by
  unfold check
  cases condition <;> simp

theorem mark_eq_ok {line : Nat} {m : Mark} {s s' : Scope} (h : mark line s = .ok (m, s')) :
    s.Grows s' ∧ s'.Links [m] [] := by
  cases h
  refine ⟨⟨rfl, rfl, rfl, .refl _, Nat.le_succ _⟩, ?_, by simp⟩
  intro m hm
  rw [List.mem_singleton.1 hm]
  exact Nat.lt_succ_self s.count

theorem intern_eq_ok {t : Token} {n : Name} {s s' : Scope} (h : intern t s = .ok (n, s')) :
    s.Grows s' ∧ n.text = t.text ∧ s'.Links [] [n] := by
  unfold intern at h
  cases hstored : s.names.intern? t.text with
  | none => simp [hstored] at h
  | some p =>
    obtain ⟨offset, names⟩ := p
    rw [hstored] at h
    cases h
    refine ⟨⟨rfl, rfl, rfl, NameTable.extends_of_intern? hstored, Nat.le_refl _⟩, rfl, by simp, ?_⟩
    intro n hn
    rw [List.mem_singleton.1 hn]
    exact NameTable.get?_of_intern? hstored

/-- A stored name takes up its own bytes and those of its length. -/
theorem size_of_intern {t : Token} {n : Name} {s s' : Scope} (h : intern t s = .ok (n, s')) :
    s'.names.size = s.names.size + NameTable.lengthSize + t.text.utf8ByteSize := by
  unfold intern at h
  cases hstored : s.names.intern? t.text with
  | none => simp [hstored] at h
  | some p =>
    rw [hstored] at h
    cases h
    obtain ⟨-, -, hnames⟩ := NameTable.intern?_eq_some_iff.1 hstored
    show p.2.size = _
    rw [hnames, NameTable.size_append_name]

/-! ### References -/

theorem fieldAccess_eq_ok_iff {t : Token} {m : Mark} {a : Access} {b : Entry} {s s' : Scope} :
    fieldAccess t s = .ok ((m, a, b), s') ↔ ∃ name u, s.field? t.text = some b ∧
      intern t s = .ok (name, u) ∧ mark t.line u = .ok (m, s') ∧ a = .field name := by
  unfold fieldAccess
  constructor
  · intro h
    simp only [bind_eq_ok, get_eq_ok, require_eq_ok, pure_eq_ok, Prod.mk.injEq, and_assoc,
      exists_and_left, exists_eq_left] at h
    obtain ⟨b, hb, name, u, hname, m, v, hm, rfl, rfl, rfl, rfl⟩ := h
    exact ⟨name, u, hb, hname, hm, rfl⟩
  · intro h
    obtain ⟨name, u, hb, hname, hm, rfl⟩ := h
    simp only [bind_eq_ok, get_eq_ok, require_eq_ok, pure_eq_ok, Prod.mk.injEq, and_assoc,
      exists_and_left, exists_eq_left]
    exact ⟨b, hb, name, u, hname, m, s', hm, rfl, rfl, rfl, rfl⟩

theorem memberAccess_eq_ok_iff {o : Origin} {lhs rhs : Node} {m : Mark} {a : Access} {b : Entry}
    {s s' : Scope} :
    memberAccess o lhs rhs s = .ok ((m, a, b), s') ↔
      ∃ owner part p struct ownerName u partName v, lhs = .name owner ∧ rhs = .name part ∧
        s.field? owner.token.text = some p ∧ p.isArray = false ∧ p.type = .struct struct ∧
        s.member? struct part.token.text = some b ∧ intern owner.token s = .ok (ownerName, u) ∧
        intern part.token u = .ok (partName, v) ∧ mark o.token.line v = .ok (m, s') ∧
        a = .member ownerName partName := by
  unfold memberAccess
  split
  case h_2 hnames =>
    simp only [fail_eq_ok, false_iff]
    intro h
    obtain ⟨owner, part, -, -, -, -, -, -, rfl, rfl, -⟩ := h
    exact hnames owner part rfl rfl
  case h_1 owner part =>
    constructor
    · intro h
      simp only [bind_eq_ok, get_eq_ok, require_eq_ok, check_eq_ok, and_assoc,
        exists_and_left, exists_eq_left] at h
      obtain ⟨p, hp, hsingle, h⟩ := h
      cases htype : p.type with
      | primitive t => simp only [htype, bind_eq_ok, fail_eq_ok, false_and, exists_false] at h
      | struct struct =>
        simp only [htype, bind_eq_ok, get_eq_ok, require_eq_ok, pure_eq_ok, and_assoc,
          exists_and_left, exists_eq_left, Prod.mk.injEq] at h
        obtain ⟨-, b, hb, ownerName, u, howner, partName, v, hpart, m, w, hm, rfl, rfl, rfl,
          rfl⟩ := h
        exact ⟨owner, part, p, struct, ownerName, u, partName, v, rfl, rfl, hp,
          by simpa using hsingle, htype, hb, howner, hpart, hm, rfl⟩
    · intro h
      obtain ⟨owner', part', p, struct, ownerName, u, partName, v, howner', hpart', hp, hsingle,
        htype, hb, howner, hpart, hm, rfl⟩ := h
      cases howner'
      cases hpart'
      simp only [bind_eq_ok, get_eq_ok, require_eq_ok, check_eq_ok, and_assoc,
        exists_and_left, exists_eq_left]
      refine ⟨p, hp, by simpa using hsingle, ?_⟩
      simp only [htype, bind_eq_ok, get_eq_ok, require_eq_ok, pure_eq_ok, and_assoc,
        exists_and_left, exists_eq_left, Prod.mk.injEq]
      exact ⟨(), b, hb, ownerName, u, howner, partName, v, hpart, m, s', hm, rfl, rfl, rfl, rfl⟩

/-- The names of a field outside of structs are looked up among members and fields. -/
theorem fieldAccess_eq_ok {t : Token} {m : Mark} {a : Access} {b : Entry} {s s' : Scope}
    (h : fieldAccess t s = .ok ((m, a, b), s')) :
    s.Grows s' ∧ s.context.target? a = some b ∧ s'.Links [m] a.names := by
  obtain ⟨name, u, hb, hname, hm, rfl⟩ := fieldAccess_eq_ok_iff.1 h
  obtain ⟨hg₁, htext, hl₁⟩ := intern_eq_ok hname
  obtain ⟨hg₂, hl₂⟩ := mark_eq_ok hm
  refine ⟨hg₁.trans hg₂, ?_, linked_append hl₂ (hg₂.links hl₁)⟩
  show s.context.field? name.text = some b
  rw [htext]
  exact hb

/-- A member is looked up in the struct that the owner holds a single instance of. -/
theorem memberAccess_eq_ok {o : Origin} {lhs rhs : Node} {m : Mark} {a : Access} {b : Entry}
    {s s' : Scope} (h : memberAccess o lhs rhs s = .ok ((m, a, b), s')) :
    s.Grows s' ∧ s.context.target? a = some b ∧ s'.Links [m] a.names := by
  obtain ⟨owner, part, b', struct, ownerName, u, partName, v, rfl, rfl, hb', hsingle, htype, he,
    howner, hpart, hm, rfl⟩ := memberAccess_eq_ok_iff.1 h
  obtain ⟨hg₁, htext₁, hl₁⟩ := intern_eq_ok howner
  obtain ⟨hg₂, htext₂, hl₂⟩ := intern_eq_ok hpart
  obtain ⟨hg₃, hl₃⟩ := mark_eq_ok hm
  obtain ⟨entry, hentry, hmember⟩ := Option.bind_eq_some_iff.1 he
  refine ⟨hg₁.trans (hg₂.trans hg₃), ?_, ?_⟩
  · refine Context.target?_member.2 ⟨b', struct, entry, ?_, hsingle, htype, hentry, ?_⟩
    · rw [htext₁]
      exact hb'
    · rw [htext₂]
      exact hmember
  · exact linked_append hl₃ (linked_append (hg₃.links (hg₂.links hl₁)) (hg₃.links hl₂))

/-- A number type is that of a primitive entry. -/
theorem numberType_eq_ok {line : Nat} {b : Entry} {t : Primitive} {s s' : Scope} :
    numberType line b s = .ok (t, s') ↔ b.type = .primitive t ∧ s' = s := by
  unfold numberType
  cases b.type <;> simp [eq_comm (a := t)]

theorem scalarType_eq_ok {line : Nat} {b : Entry} {t : Primitive} {s s' : Scope} :
    scalarType line b s = .ok (t, s') ↔ b.isArray = false ∧ b.type = .primitive t ∧ s' = s := by
  unfold scalarType
  simp [bind_eq_ok, numberType_eq_ok, and_assoc]

theorem indexed_eq_ok {base : Node} {m : Mark} {a : Access} {b : Entry} {s s' : Scope}
    (h : indexed base s = .ok ((m, a, b), s')) :
    s.Grows s' ∧ s.context.target? a = some b ∧ s'.Links [m] a.names := by
  unfold indexed at h
  split at h
  · exact fieldAccess_eq_ok h
  · exact memberAccess_eq_ok h
  · simp at h

theorem arrayAccess_eq_ok_iff {base : Node} {m : Mark} {a : Access} {t : Primitive} {s s' : Scope} :
    arrayAccess base s = .ok ((m, a, t), s') ↔ ∃ b, indexed base s = .ok ((m, a, b), s') ∧
      b.isArray = true ∧ b.type = .primitive t := by
  unfold arrayAccess
  simp only [bind_eq_ok, check_eq_ok, numberType_eq_ok, pure_eq_ok, and_assoc, exists_and_left,
    exists_eq_left, Prod.mk.injEq, Prod.exists]
  constructor
  · intro h
    obtain ⟨m, a, b, s₁, haccess, harray, -, t, htype, rfl, rfl, rfl, rfl⟩ := h
    exact ⟨b, haccess, harray, htype⟩
  · intro h
    obtain ⟨b, haccess, harray, htype⟩ := h
    exact ⟨m, a, b, s', haccess, harray, (), t, htype, rfl, rfl, rfl, rfl⟩

/-- Only an array of numbers has elements. -/
theorem arrayAccess_eq_ok {base : Node} {m : Mark} {a : Access} {t : Primitive} {s s' : Scope}
    (h : arrayAccess base s = .ok ((m, a, t), s')) :
    s.Grows s' ∧ s'.Links [m] a.names ∧
      ∃ b, s.context.target? a = some b ∧ b.isArray = true ∧ b.type = .primitive t := by
  obtain ⟨b, haccess, harray, htype⟩ := arrayAccess_eq_ok_iff.1 h
  obtain ⟨hg, hentry, hl⟩ := indexed_eq_ok haccess
  exact ⟨hg, hl, b, hentry, harray, htype⟩

/-! ### Expressions -/

/-- What is known of an expression that was read in front of a scope. -/
structure Reads (s s' : Scope) (e : Expr) : Prop where
  grows : s.Grows s'
  typed : e.Typed s.context
  links : s'.Links e.marks e.names

theorem integer_eq_ok {t : Token} {e : Expr} {s s' : Scope} (h : integer t s = .ok (e, s')) :
    Reads s s' e := by
  unfold integer at h
  simp only [bind_eq_ok, require_eq_ok, pure_eq_ok, and_assoc, exists_and_left,
    exists_eq_left] at h
  obtain ⟨value, -, m, s₁, hm, rfl, rfl⟩ := h
  obtain ⟨hg, hl⟩ := mark_eq_ok hm
  exact ⟨hg, trivial, hl⟩

/-- A reference stands for the value of a field that holds a single number. -/
theorem access_reads {line : Nat} {m : Mark} {a : Access} {b : Entry} {t : Primitive}
    {s s' s'' : Scope} (h : s.Grows s' ∧ s.context.target? a = some b ∧ s'.Links [m] a.names)
    (ht : scalarType line b s' = .ok (t, s'')) : Reads s s'' (.access m t a) := by
  obtain ⟨hg, hentry, hl⟩ := h
  obtain ⟨harray, htype, rfl⟩ := scalarType_eq_ok.1 ht
  exact ⟨hg, ⟨b, hentry, harray, htype⟩, hl⟩

/-- Operands are read one after the other. -/
theorem arith_reads {x y : Resolve Expr} (hx : ∀ l s t, x s = .ok (l, t) → Reads s t l)
    (hy : ∀ r s t, y s = .ok (r, t) → Reads s t r) {o : Origin} {op : ArithOp} {e : Expr}
    {s s' : Scope} (h : (do let l ← x; let r ← y; arith o op l r) s = .ok (e, s')) :
    Reads s s' e := by
  unfold arith at h
  simp only [bind_eq_ok, pure_eq_ok] at h
  obtain ⟨l, t, hl, r, u, hr, m, v, hm, rfl, rfl⟩ := h
  have hl := hx l s t hl
  have hr := hy r t u hr
  obtain ⟨hg, hlm⟩ := mark_eq_ok hm
  -- The left operand declares nothing, so the right one is typed in the same context.
  have htyped := hr.typed
  rw [hl.grows.context] at htyped
  have hlinks := hg.links (linked_append (hr.grows.links hl.links) hr.links)
  exact ⟨hl.grows.trans (hr.grows.trans hg), ⟨hl.typed, htyped, rfl⟩, linked_append hlm hlinks⟩

/-- The index of an element is an integer. -/
theorem element_reads {m m' : Mark} {a : Access} {t : Primitive} {i : Expr} {line : Nat}
    {s s₁ s₂ s₃ : Scope} (ha : s.Grows s₁ ∧ s₁.Links [m] a.names ∧
      ∃ b, s.context.target? a = some b ∧ b.isArray = true ∧ b.type = .primitive t)
    (hi : Reads s₁ s₂ i) (hint : i.type.isInteger = true) (hm : mark line s₂ = .ok (m', s₃)) :
    Reads s s₃ (.element m' t m a i) := by
  obtain ⟨hg, hl, hfield⟩ := ha
  obtain ⟨hg', hlm⟩ := mark_eq_ok hm
  have htyped := hi.typed
  rw [hg.context] at htyped
  have hlinks := hg'.links (linked_append (hi.grows.links hl) hi.links)
  exact ⟨hg.trans (hi.grows.trans hg'), ⟨hfield, htyped, hint⟩, linked_append hlm hlinks⟩

mutual

/-- The meaning of a tree is a typed expression. -/
theorem expr_eq_ok : ∀ {n : Node} {e : Expr} {s s' : Scope}, expr n s = .ok (e, s') → Reads s s' e
  | .name o, e, s, s', h => by
    rw [expr] at h
    simp only [bind_eq_ok, pure_eq_ok] at h
    obtain ⟨⟨m, a, b⟩, s₁, haccess, t, s₂, ht, rfl, rfl⟩ := h
    exact access_reads (fieldAccess_eq_ok haccess) ht
  | .integer o, e, s, s', h => integer_eq_ok h
  | .control o word, e, s, s', h => by simp [expr] at h
  | .paren o inner, e, s, s', h => single_eq_ok h
  | .element o base index, e, s, s', h => by
    rw [expr] at h
    simp only [bind_eq_ok, check_eq_ok, pure_eq_ok, and_assoc, exists_and_left,
      exists_eq_left] at h
    obtain ⟨⟨m, a, t⟩, s₁, haccess, i, s₂, hi, hint, -, m', s₃, hm, rfl, rfl⟩ := h
    exact element_reads (arrayAccess_eq_ok haccess) (single_eq_ok hi) hint hm
  | .binary o .member lhs rhs, e, s, s', h => by
    rw [expr] at h
    simp only [bind_eq_ok, pure_eq_ok] at h
    obtain ⟨⟨m, a, b⟩, s₁, haccess, t, s₂, ht, rfl, rfl⟩ := h
    exact access_reads (memberAccess_eq_ok haccess) ht
  | .binary o .assign lhs rhs, e, s, s', h => by simp [expr] at h
  | .binary o .compare lhs rhs, e, s, s', h => by simp [expr] at h
  | .binary o .plus lhs rhs, e, s, s', h | .binary o .minus lhs rhs, e, s, s', h
  | .binary o .times lhs rhs, e, s, s', h | .binary o .divide lhs rhs, e, s, s', h => by
    rw [expr] at h
    exact arith_reads (fun _ _ _ => @expr_eq_ok lhs _ _ _) (fun _ _ _ => @expr_eq_ok rhs _ _ _) h
  | .structHead o _, e, s, s', h | .block o _, e, s, s', h | .scriptEnd o, e, s, s', h => by
    simp [expr] at h

theorem single_eq_ok : ∀ {line : Nat} {ns : List Node} {e : Expr} {s s' : Scope},
    single line ns s = .ok (e, s') → Reads s s' e
  | line, [], e, s, s', h => by simp [single] at h
  | line, [n], e, s, s', h => expr_eq_ok h
  | line, n :: _ :: _, e, s, s', h => by simp [single] at h

end

/-! ### Declarations -/

theorem count_eq_ok_iff {inStruct : Bool} {o : Origin} {index : List Node} {e : Expr}
    {s s' : Scope} :
    count inStruct o index s = .ok (e, s') ↔ single o.token.line index s = .ok (e, s') ∧
      e.type.isInteger = true ∧ (inStruct = true → e.isConstant = true) := by
  unfold count
  simp only [bind_eq_ok, check_eq_ok, pure_eq_ok, and_assoc, exists_and_left, exists_eq_left,
    Bool.or_eq_true, Bool.not_eq_true', ← Bool.not_eq_true, ← imp_iff_not_or]
  constructor
  · intro h
    obtain ⟨e, s₁, he, hint, hconst, rfl, -, -, rfl⟩ := h
    exact ⟨he, hint, hconst⟩
  · intro h
    obtain ⟨he, hint, hconst⟩ := h
    exact ⟨e, s', he, hint, hconst, rfl, (), (), rfl⟩

theorem count_eq_ok {inStruct : Bool} {o : Origin} {index : List Node} {e : Expr} {s s' : Scope}
    (h : count inStruct o index s = .ok (e, s')) :
    Reads s s' e ∧ e.type.isInteger = true ∧ (inStruct = true → e.isConstant = true) := by
  obtain ⟨he, hint, hconst⟩ := count_eq_ok_iff.1 h
  exact ⟨single_eq_ok he, hint, hconst⟩

/-- The count of a declared field is a typed integer, which is constant inside of a
    struct. -/
theorem bracketCount_eq_ok {inStruct : Bool} {bracket : Option (Origin × List Node)}
    {size : Option Expr} {s s' : Scope} (h : bracketCount inStruct bracket s = .ok (size, s')) :
    s.Grows s' ∧
      s'.Links ((size.map Expr.marks).getD []) ((size.map Expr.names).getD []) ∧
      ∀ e, size = some e → e.Typed s.context ∧ e.type.isInteger = true ∧
        (inStruct = true → e.isConstant = true) := by
  cases bracket with
  | none =>
    obtain ⟨rfl, rfl⟩ := pure_eq_ok.1 h
    exact ⟨.refl _, ⟨by simp, by simp⟩, by simp⟩
  | some p =>
    simp only [bracketCount, bind_eq_ok, pure_eq_ok] at h
    obtain ⟨e, s₁, he, rfl, rfl⟩ := h
    obtain ⟨hr, hint, hconst⟩ := count_eq_ok he
    refine ⟨hr.grows, hr.links, ?_⟩
    intro e' he'
    rw [← Option.some.inj he']
    exact ⟨hr.typed, hint, hconst⟩

theorem type?_eq_some {s : Scope} {name : String} {t : ElementType}
    (h : s.type? name = some t) : t = .ofName name ∧ s.context.Knows (.ofName name) := by
  unfold Scope.type? at h
  unfold ElementType.ofName
  cases hname : Primitive.ofName? name with
  | some p =>
    simp only [hname, Option.some.injEq] at h
    exact ⟨h.symm, trivial⟩
  | none =>
    simp only [hname] at h
    split at h
    · next hsome =>
      cases h
      exact ⟨rfl, Option.isSome_iff_exists.1 hsome⟩
    · simp at h

theorem declare_eq_ok_iff {inStruct : Bool} {line : Nat} {b : Entry} {u : Unit} {s s' : Scope} :
    declare inStruct line b s = .ok (u, s') ↔
      inStruct = true ∧ (∀ m ∈ s.members, m.name ≠ b.name) ∧
          s' = { s with members := b :: s.members } ∨
        inStruct = false ∧ s' = { s with fields := b :: s.fields } := by
  unfold declare
  simp only [bind_eq_ok, get_eq_ok, and_assoc, exists_and_left, exists_eq_left]
  cases inStruct with
  | true => simp [bind_eq_ok]
  | false => simp

theorem declare_eq_ok {inStruct : Bool} {line : Nat} {b : Entry} {u : Unit} {s s' : Scope}
    (h : declare inStruct line b s = .ok (u, s')) : s.Adds inStruct b s' := by
  rcases declare_eq_ok_iff.1 h with ⟨rfl, hfresh, rfl⟩ | ⟨rfl, rfl⟩
  · exact ⟨rfl, .refl _, Nat.le_refl _, fun _ => ⟨rfl, rfl, hfresh⟩, fun hout => nomatch hout⟩
  · exact ⟨rfl, .refl _, Nat.le_refl _, fun hin => (nomatch hin), fun _ => ⟨rfl, rfl⟩⟩

theorem declaration_eq_ok_iff {inStruct : Bool} {type : Origin}
    {bracket : Option (Origin × List Node)} {name : Origin} {d : Declaration} {s s' : Scope} :
    declaration inStruct type bracket name s = .ok (d, s') ↔
      ∃ t size s₁ typeName s₂ fieldName s₃ s₄ m, s.type? type.token.text = some t ∧
        bracketCount inStruct bracket s = .ok (size, s₁) ∧
        intern type.token s₁ = .ok (typeName, s₂) ∧ intern name.token s₂ = .ok (fieldName, s₃) ∧
        declare inStruct name.token.line ⟨name.token.text, t, size.isSome⟩ s₃ = .ok ((), s₄) ∧
        mark type.token.line s₄ = .ok (m, s') ∧ d = ⟨m, typeName, size, fieldName⟩ := by
  unfold declaration
  constructor
  · intro h
    simp only [bind_eq_ok, get_eq_ok, require_eq_ok, pure_eq_ok, and_assoc, exists_and_left,
      exists_eq_left] at h
    obtain ⟨t, ht, size, s₁, hsize, typeName, s₂, htype, fieldName, s₃, hname, u, s₄, hdeclare, m,
      s₅, hm, rfl, rfl⟩ := h
    exact ⟨t, size, s₁, typeName, s₂, fieldName, s₃, s₄, m, ht, hsize, htype, hname, hdeclare, hm,
      rfl⟩
  · intro h
    obtain ⟨t, size, s₁, typeName, s₂, fieldName, s₃, s₄, m, ht, hsize, htype, hname, hdeclare, hm,
      rfl⟩ := h
    simp only [bind_eq_ok, get_eq_ok, require_eq_ok, pure_eq_ok, and_assoc, exists_and_left,
      exists_eq_left]
    exact ⟨t, ht, size, s₁, hsize, typeName, s₂, htype, fieldName, s₃, hname, (), s₄, hdeclare, m,
      s', hm, rfl, rfl⟩

/-- What is known of a declaration that was read in front of a scope. -/
structure Declares (inStruct : Bool) (s s' : Scope) (d : Declaration) : Prop where
  typed : d.Typed s.context
  constant : inStruct = true → d.Constant
  links : s'.Links d.marks d.names
  adds : s.Adds inStruct d.entry s'

theorem declaration_eq_ok {inStruct : Bool} {type : Origin}
    {bracket : Option (Origin × List Node)} {name : Origin} {d : Declaration} {s s' : Scope}
    (h : declaration inStruct type bracket name s = .ok (d, s')) : Declares inStruct s s' d := by
  obtain ⟨t, size, s₁, typeName, s₂, fieldName, s₃, s₄, m, ht, hsize, htype, hname, hdeclare, hm,
    rfl⟩ := declaration_eq_ok_iff.1 h
  obtain ⟨rfl, hknows⟩ := type?_eq_some ht
  obtain ⟨hg₁, hl₁, hcount⟩ := bracketCount_eq_ok hsize
  obtain ⟨hg₂, htypeText, hl₂⟩ := intern_eq_ok htype
  obtain ⟨hg₃, hnameText, hl₃⟩ := intern_eq_ok hname
  have hadds := declare_eq_ok hdeclare
  obtain ⟨hg₄, hl₄⟩ := mark_eq_ok hm
  have hentry : (⟨m, typeName, size, fieldName⟩ : Declaration).entry =
      ⟨name.token.text, .ofName type.token.text, size.isSome⟩ := by
    rw [Declaration.entry, hnameText, htypeText]
  refine ⟨⟨?_, ?_⟩, ?_, ?_, ?_⟩
  · show s.context.Knows (.ofName typeName.text)
    rw [htypeText]
    exact hknows
  · intro e he
    obtain ⟨htyped, hint, -⟩ := hcount e he
    exact ⟨htyped, hint⟩
  · intro hin e he
    obtain ⟨-, -, hconst⟩ := hcount e he
    exact hconst hin
  · have hl := linked_append (hg₃.links hl₂) (linked_append hl₃ (hg₃.links (hg₂.links hl₁)))
    exact linked_append hl₄ (hg₄.links (hadds.links hl))
  · rw [hentry]
    exact hadds.between (hg₁.trans (hg₂.trans hg₃)) hg₄

/-- What is known of the members of a struct that were read in front of a scope. -/
structure DeclaresAll (s s' : Scope) (ds : List Declaration) : Prop where
  typed : ∀ d ∈ ds, d.Typed s.context ∧ d.Constant
  distinct : (ds.map (·.name.text)).Nodup
  fresh : ∀ d ∈ ds, ∀ m ∈ s.members, m.name ≠ d.name.text
  links : s'.Links (ds.flatMap Declaration.marks) (ds.flatMap Declaration.names)
  structs : s'.structs = s.structs
  fields : s'.fields = s.fields
  members : s'.members = (ds.map Declaration.entry).reverse ++ s.members
  names : s'.names.Extends s.names
  count : s.count ≤ s'.count

theorem DeclaresAll.nil (s : Scope) : DeclaresAll s s [] where
  typed := by simp
  distinct := .nil
  fresh := by simp
  links := ⟨by simp, by simp⟩
  structs := rfl
  fields := rfl
  members := rfl
  names := .refl _
  count := Nat.le_refl _

theorem DeclaresAll.cons {s t u : Scope} {d : Declaration} {ds : List Declaration}
    (h : Declares true s t d) (hs : DeclaresAll t u ds) : DeclaresAll s u (d :: ds) := by
  obtain ⟨hmembers, hfields, hfresh⟩ := h.adds.member rfl
  refine ⟨?_, ?_, ?_, ?_, hs.structs.trans h.adds.structs, hs.fields.trans hfields, ?_,
    hs.names.trans h.adds.names, Nat.le_trans h.adds.count hs.count⟩
  · intro e he
    rcases List.mem_cons.1 he with rfl | he
    · exact ⟨h.typed, h.constant rfl⟩
    · -- The later members were typed with this one in scope, which their counts do not use.
      obtain ⟨htyped, hconst⟩ := hs.typed e he
      exact ⟨htyped.of_constant hconst h.adds.structs.symm, hconst⟩
  · refine List.nodup_cons.2 ⟨?_, hs.distinct⟩
    intro hmem
    obtain ⟨e, he, heq⟩ := List.mem_map.1 hmem
    have hentry : d.entry ∈ t.members := by
      rw [hmembers]
      exact List.mem_cons_self
    exact hs.fresh e he d.entry hentry heq.symm
  · intro e he m hm
    rcases List.mem_cons.1 he with rfl | he
    · exact hfresh m hm
    · have hmem : m ∈ t.members := by
        rw [hmembers]
        exact List.mem_cons_of_mem _ hm
      exact hs.fresh e he m hmem
  · exact linked_append (h.links.mono hs.names hs.count) hs.links
  · rw [hs.members, hmembers]
    simp

/-- The members of a struct are declared in order. -/
theorem members_eq_ok {body : List Node} {ds : List Declaration} {s s' : Scope}
    (h : members body s = .ok (ds, s')) : DeclaresAll s s' ds := by
  fun_induction members body generalizing ds s s' with
  | case1 =>
    obtain ⟨rfl, rfl⟩ := pure_eq_ok.1 h
    exact .nil _
  | case2 type name rest ih =>
    simp only [bind_eq_ok, pure_eq_ok] at h
    obtain ⟨d, t, hd, ds, u, hds, rfl, rfl⟩ := h
    exact .cons (declaration_eq_ok hd) (ih hds)
  | case3 o type index name rest ih =>
    simp only [bind_eq_ok, pure_eq_ok] at h
    obtain ⟨d, t, hd, ds, u, hds, rfl, rfl⟩ := h
    exact .cons (declaration_eq_ok hd) (ih hds)
  | case4 n rest => simp at h

/-! ### Statements -/

/-- Whether the first tree is a name. -/
def beginsWithName : List Node → Bool
  | .name _ :: _ => true
  | _ => false

/-- Whether the first tree is a block. -/
def beginsWithBlock : List Node → Bool
  | .block _ _ :: _ => true
  | _ => false

/-- Whether a tree and those behind it begin with a declaration. -/
def beginsDeclaration (n : Node) (rest : List Node) : Bool :=
  match n with
  | .name _ | .element _ (.name _) _ => beginsWithName rest
  | .structHead _ _ => beginsWithBlock rest
  | _ => false

/-- A tree that begins no declaration is a statement by itself. -/
theorem statements_cons {n : Node} {rest : List Node} (h : beginsDeclaration n rest = false) :
    statements (n :: rest) = (do let x ← statement n; pure (x :: (← statements rest))) := by
  rw [statements]
  all_goals
    intros
    subst_vars
    simp [beginsDeclaration, beginsWithName, beginsWithBlock] at h

theorem beginsDeclaration_eq_false {n : Node} {rest : List Node}
    (hfield : ∀ type name rest', n = .name type → rest = .name name :: rest' → False)
    (harray : ∀ o type index name rest', n = .element o (.name type) index →
      rest = .name name :: rest' → False)
    (hstruct : ∀ o name origin body rest', n = .structHead o name →
      rest = .block origin body :: rest' → False) : beginsDeclaration n rest = false := by
  unfold beginsDeclaration
  split
  · unfold beginsWithName
    split
    · exact (hfield _ _ _ rfl rfl).elim
    · rfl
  · unfold beginsWithName
    split
    · exact (harray _ _ _ _ _ rfl rfl).elim
    · rfl
  · unfold beginsWithBlock
    split
    · exact (hstruct _ _ _ _ _ rfl rfl).elim
    · rfl
  · rfl

/-- What is known of statements that were read in front of a scope. No struct is being
    declared there. -/
structure ReadsAll (s s' : Scope) (statements : List Statement) : Prop where
  typed : CommandsTyped s.context (commandsOf statements)
  context : s'.context = s.context.afterAll (commandsOf statements)
  members : s'.members = []
  links : s'.Links (marksOf statements) (namesOf statements)
  names : s'.names.Extends s.names
  count : s.count ≤ s'.count
  -- The name of each new struct is stored behind its length.
  room : NameTable.lengthSize * s'.structs.length + s.names.size ≤
    NameTable.lengthSize * s.structs.length + s'.names.size

theorem ReadsAll.nil {s : Scope} (hs : s.members = []) : ReadsAll s s [] where
  typed := trivial
  context := rfl
  members := hs
  links := ⟨by simp [marksOf], by simp [namesOf]⟩
  names := .refl _
  count := Nat.le_refl _
  room := Nat.le_refl _

theorem marksOf_append (a b : List Statement) : marksOf (a ++ b) = marksOf a ++ marksOf b := by
  induction a with
  | nil => rfl
  | cons s a ih => rw [List.cons_append, marksOf, ih, marksOf, List.append_assoc]

theorem namesOf_append (a b : List Statement) : namesOf (a ++ b) = namesOf a ++ namesOf b := by
  induction a with
  | nil => rfl
  | cons s a ih => rw [List.cons_append, namesOf, ih, namesOf, List.append_assoc]

theorem ReadsAll.append {s t u : Scope} {a b : List Statement} (ha : ReadsAll s t a)
    (hb : ReadsAll t u b) : ReadsAll s u (a ++ b) where
  typed := by
    have htyped := hb.typed
    rw [ha.context] at htyped
    rw [Execution.commandsOf_append, commandsTyped_append]
    exact ⟨ha.typed, htyped⟩
  context := by
    rw [hb.context, ha.context, Execution.commandsOf_append, Context.afterAll_append]
  members := hb.members
  links := by
    rw [marksOf_append, namesOf_append]
    exact linked_append (ha.links.mono hb.names hb.count) hb.links
  names := hb.names.trans ha.names
  count := Nat.le_trans ha.count hb.count
  room := by
    have hfirst := ha.room
    have hsecond := hb.room
    omega

theorem ReadsAll.single {s t : Scope} {x : Statement}
    (htyped : CommandsTyped s.context (commands x))
    (hcontext : t.context = s.context.afterAll (commands x)) (hmembers : t.members = [])
    (hlinks : t.Links x.marks x.names) (hnames : t.names.Extends s.names)
    (hcount : s.count ≤ t.count) (hroom : NameTable.lengthSize * t.structs.length + s.names.size ≤
      NameTable.lengthSize * s.structs.length + t.names.size) : ReadsAll s t [x] where
  typed := by
    rw [commandsOf, commandsOf, List.append_nil]
    exact htyped
  context := by
    rw [commandsOf, commandsOf, List.append_nil]
    exact hcontext
  members := hmembers
  links := by
    rw [marksOf, marksOf, namesOf, namesOf, List.append_nil, List.append_nil]
    exact hlinks
  names := hnames
  count := hcount
  room := hroom

/-- Names that are stored without a struct leave the room for structs as it was. -/
theorem room_of_extends {s t : Scope} (hstructs : t.structs = s.structs)
    (hnames : t.names.Extends s.names) :
    NameTable.lengthSize * t.structs.length + s.names.size ≤
      NameTable.lengthSize * s.structs.length + t.names.size := by
  have hsize := hnames.size_le
  rw [hstructs]
  omega

theorem ReadsAll.field {s t : Scope} {d : Declaration} (hs : s.members = [])
    (h : Declares false s t d) : ReadsAll s t [.field d] := by
  obtain ⟨hmembers, hfields⟩ := h.adds.field rfl
  refine .single ⟨h.typed, trivial⟩ ?_ (hmembers.trans hs) h.links h.adds.names h.adds.count
    (room_of_extends h.adds.structs h.adds.names)
  show (⟨t.structs, t.members ++ t.fields⟩ : Context) =
    ⟨s.structs, d.entry :: (s.members ++ s.fields)⟩
  rw [h.adds.structs, hmembers, hfields, hs]
  rfl

theorem ReadsAll.expression {s t : Scope} {e : Expr} (hs : s.members = [])
    (h : Reads s t e) : ReadsAll s t [.expression e] :=
  .single ⟨h.typed, trivial⟩ h.grows.context (h.grows.members.trans hs) h.links h.grows.names
    h.grows.count (room_of_extends h.grows.structs h.grows.names)

theorem ReadsAll.block {s t u : Scope} {m : Mark} {body : List Statement} {line : Nat}
    (h : ReadsAll s t body) (hm : mark line t = .ok (m, u)) : ReadsAll s u [.block m body] := by
  obtain ⟨hg, hl⟩ := mark_eq_ok hm
  have hroom := h.room
  have hroom' := room_of_extends hg.structs hg.names
  exact .single h.typed (hg.context.trans h.context) (hg.members.trans h.members)
    (linked_append hl (hg.links h.links)) (hg.names.trans h.names)
    (Nat.le_trans h.count hg.count) (by omega)

/-- The end of the script asks for nothing. -/
theorem ReadsAll.scriptEnd {s t : Scope} {m : Mark} {line : Nat} (hs : s.members = [])
    (hm : mark line s = .ok (m, t)) : ReadsAll s t [.scriptEnd m] := by
  obtain ⟨hg, hl⟩ := mark_eq_ok hm
  exact .single trivial hg.context (hg.members.trans hs) hl hg.names hg.count
    (room_of_extends hg.structs hg.names)

theorem struct_eq_ok_iff {o name : Origin} {body : List Node} {x : Statement} {s s' : Scope} :
    struct o name body s = .ok (x, s') ↔ ∃ ds s₁ structName s₂ m s₃,
      Primitive.ofName? name.token.text = none ∧ s.struct? name.token.text = none ∧
        members body { s with members := [] } = .ok (ds, s₁) ∧
        intern name.token s₁ = .ok (structName, s₂) ∧ mark o.token.line s₂ = .ok (m, s₃) ∧
        x = .struct m structName ds ∧
        s' = { s₃ with structs := ⟨name.token.text, s₃.members⟩ :: s₃.structs, members := [] } := by
  unfold struct
  constructor
  · intro h
    simp only [bind_eq_ok, get_eq_ok, check_eq_ok, modify_eq_ok, pure_eq_ok, and_assoc,
      exists_and_left, exists_eq_left, Option.isNone_iff_eq_none] at h
    obtain ⟨hprimitive, hnew, -, -, -, ds, s₁, hds, structName, s₂, hname, m, s₃, hm, rfl, -,
      rfl⟩ := h
    exact ⟨ds, s₁, structName, s₂, m, s₃, hprimitive, hnew, hds, hname, hm, rfl, rfl⟩
  · intro h
    obtain ⟨ds, s₁, structName, s₂, m, s₃, hprimitive, hnew, hds, hname, hm, rfl, rfl⟩ := h
    simp only [bind_eq_ok, get_eq_ok, check_eq_ok, modify_eq_ok, pure_eq_ok, and_assoc,
      exists_and_left, exists_eq_left, Option.isNone_iff_eq_none]
    exact ⟨hprimitive, hnew, (), (), ⟨⟩, ds, s₁, hds, structName, s₂, hname, m, s₃, hm, rfl, ⟨⟩,
      rfl⟩

/-- A struct is declared with its members under a name that was free. -/
theorem struct_eq_ok {o name : Origin} {body : List Node} {x : Statement} {s s' : Scope}
    (hs : s.members = []) (h : struct o name body s = .ok (x, s')) : ReadsAll s s' [x] := by
  obtain ⟨ds, s₁, structName, s₂, m, s₃, hprimitive, hnew, hds, hname, hm, rfl, rfl⟩ :=
    struct_eq_ok_iff.1 h
  -- Outside of structs there are no members that would have to be set aside.
  have hempty : { s with members := [] } = s := by rw [← hs]
  rw [hempty] at hds
  have hall := members_eq_ok hds
  obtain ⟨hg, htext, hl⟩ := intern_eq_ok hname
  obtain ⟨hg', hl'⟩ := mark_eq_ok hm
  have hgrows := hg.trans hg'
  have hlinks := linked_append hl' (linked_append (hg'.links hl) (hgrows.links hall.links))
  refine .single ⟨⟨?_, ?_, hall.typed, hall.distinct⟩, trivial⟩ ?_ rfl hlinks
    (hgrows.names.trans hall.names) (Nat.le_trans hall.count hgrows.count) ?_
  · rw [htext]
    exact hprimitive
  · rw [htext]
    exact hnew
  · show (⟨⟨name.token.text, s₃.members⟩ :: s₃.structs, s₃.fields⟩ : Context) =
      ⟨⟨structName.text, (ds.map Declaration.entry).reverse⟩ :: s.structs, s.members ++ s.fields⟩
    rw [hgrows.members, hgrows.structs, hgrows.fields, hall.members, hall.structs, hall.fields,
      hs, htext, List.append_nil, List.nil_append]
  · show NameTable.lengthSize * (s₃.structs.length + 1) + s.names.size ≤
      NameTable.lengthSize * s.structs.length + s₃.names.size
    have hbefore := hall.names.size_le
    have hstored := size_of_intern hname
    have hafter := hg'.names.size_le
    rw [hgrows.structs, hall.structs, Nat.mul_add_one]
    omega

/-- All statements that the step reads are well typed. -/
def Sound (r : Resolve (List Statement)) : Prop :=
  ∀ xs s s', s.members = [] → r s = .ok (xs, s') → ReadsAll s s' xs

theorem Sound.nil : Sound (pure []) := by
  intro xs s s' hs h
  obtain ⟨rfl, rfl⟩ := pure_eq_ok.1 h
  exact .nil hs

/-- A statement is read before those behind it. -/
theorem Sound.cons {α : Type} {first : Resolve α} {f : α → Statement}
    {rest : Resolve (List Statement)}
    (hfirst : ∀ a s s', s.members = [] → first s = .ok (a, s') → ReadsAll s s' [f a])
    (hrest : Sound rest) : Sound (do let a ← first; let xs ← rest; pure (f a :: xs)) := by
  intro xs s s' hs h
  simp only [bind_eq_ok, pure_eq_ok] at h
  obtain ⟨a, t, ha, ys, u, hys, rfl, rfl⟩ := h
  have hread := hfirst a s t hs ha
  exact hread.append (hrest ys t _ hread.members hys)

theorem declaration_reads {type : Origin} {bracket : Option (Origin × List Node)} {name : Origin}
    (d : Declaration) (s s' : Scope) (hs : s.members = [])
    (h : declaration false type bracket name s = .ok (d, s')) : ReadsAll s s' [.field d] :=
  .field hs (declaration_eq_ok h)

/-- A chain of statements has a well-typed meaning if it has one. -/
theorem sound_statements (ns : List Node) : Sound (statements ns) := by
  -- A single statement and a chain are read by mutual recursion; there is a case for each branch.
  refine (statement.mutual_induct_unfolding
    (fun _ r => ∀ x s s', s.members = [] → r s = .ok (x, s') → ReadsAll s s' [x])
    (fun _ r => Sound r)
    ?structHead ?block ?scriptEnd ?expression ?nil ?field ?array ?struct ?other).2 ns
  case structHead =>
    intro o name x s s' hs h
    simp at h
  case block =>
    intro o body ih x s s' hs h
    simp only [bind_eq_ok, pure_eq_ok] at h
    obtain ⟨inner, t, hinner, m, u, hm, rfl, rfl⟩ := h
    exact .block (ih inner s t hs hinner) hm
  case scriptEnd =>
    intro o x s s' hs h
    simp only [bind_eq_ok, pure_eq_ok] at h
    obtain ⟨m, t, hm, rfl, rfl⟩ := h
    exact .scriptEnd hs hm
  case expression =>
    intro n _ _ _ x s s' hs h
    simp only [bind_eq_ok, pure_eq_ok] at h
    obtain ⟨e, t, he, rfl, rfl⟩ := h
    exact .expression hs (expr_eq_ok he)
  case nil => exact .nil
  case field => exact fun type name rest ih => .cons declaration_reads ih
  case array => exact fun o type index name rest ih => .cons declaration_reads ih
  case struct => exact fun o name origin body rest ih => .cons (fun x s s' => struct_eq_ok) ih
  case other => exact fun n rest _ _ _ ihn ih => .cons ihn ih

theorem sound_chains (ns : List (List Node)) : Sound (chains ns) := by
  induction ns with
  | nil => exact .nil
  | cons chain rest ih =>
    intro xs s s' hs h
    rw [chains] at h
    simp only [bind_eq_ok, pure_eq_ok] at h
    obtain ⟨a, t, ha, b, u, hb, rfl, rfl⟩ := h
    have hread := sound_statements chain a s t hs ha
    exact hread.append (ih b t _ hread.members hb)

end Resolve

/-! ### Templates -/

theorem ofScript_eq_ok {script : Syntax.Script} {t : Template} (h : ofScript script = .ok t) :
    CommandsTyped .empty (commandsOf t.statements) ∧ t.IsLinked := by
  unfold ofScript at h
  cases hchains : (Resolve.chains script.statements) .empty with
  | error e => simp [StateT.run, hchains, bind, Except.bind] at h
  | ok p =>
    obtain ⟨statements, scope⟩ := p
    simp only [StateT.run, hchains, bind, Except.bind, pure, Except.pure, Except.ok.injEq] at h
    subst h
    have hread := Resolve.sound_chains script.statements statements .empty scope rfl hchains
    exact ⟨hread.typed, hread.links⟩

/-- A compiled template is well typed, and its marks and names belong to it. -/
theorem typed_of_compile {source : String} {t : Template} (h : compile source = .ok t) :
    CommandsTyped .empty (commandsOf t.statements) ∧ t.IsLinked := by
  unfold compile ofReading at h
  split at h
  · simp at h
  · next script _ =>
    cases hscript : ofScript script with
    | error e => simp [hscript, Except.mapError] at h
    | ok t' =>
      rw [hscript] at h
      cases h
      exact ofScript_eq_ok hscript

end ByteBricks.Template
