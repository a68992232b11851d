import ByteBricks.Proofs.Template.Cells
import ByteBricks.Proofs.Template.Sequence
import ByteBricks.Proofs.Template.Statics

/-! # The Numbers of Nodes

  Nodes are numbered in the order in which they are finished, so the cells of a template
  stand in its list at the places of their numbers. -/

namespace ByteBricks.Template

open Syntax (Node Origin)

/-! ### Numbered Cells -/

/-- The numbers of the cells are those that were given between the scopes. -/
structure Scope.Numbers (s t : Scope) (cells : List Placed) : Prop where
  count : s.count ≤ t.count
  ids : cells.map (·.1.raw) = List.range' s.count (t.count - s.count)

namespace Scope.Numbers

variable {s t u : Scope} {a b : List Placed}

theorem nil (h : t.count = s.count) : s.Numbers t [] := ⟨Nat.le_of_eq h.symm, by simp [h]⟩

theorem append (ha : s.Numbers t a) (hb : t.Numbers u b) : s.Numbers u (a ++ b) where
  count := Nat.le_trans ha.count hb.count
  ids := by
    have hcount := ha.count
    have hcount' := hb.count
    have hsplit := List.range'_append_1 (s := s.count) (m := t.count - s.count)
      (n := u.count - t.count)
    rw [List.map_append, ha.ids, hb.ids]
    rw [show s.count + (t.count - s.count) = t.count by omega,
      show t.count - s.count + (u.count - t.count) = u.count - s.count by omega] at hsplit
    exact hsplit

/-- Steps without nodes may come before and behind. -/
theorem congr {s' t' : Scope} (h : s.Numbers t a) (hs : s'.count = s.count)
    (ht : t'.count = t.count) : s'.Numbers t' a := by
  constructor
  · rw [hs, ht]
    exact h.count
  · rw [hs, ht]
    exact h.ids

end Scope.Numbers

namespace Resolve

theorem numbers_mark {line : Nat} {m : Mark} {s t : Scope} (h : mark line s = .ok (m, t))
    {p : Placed} (hp : p.1 = m.handle) : s.Numbers t [p] := by
  cases h
  have hid : p.1.raw = s.count := congrArg Handle.raw hp
  exact ⟨Nat.le_succ _, by simp [hid]⟩

theorem count_intern {t : Token} {n : Name} {s u : Scope} (h : intern t s = .ok (n, u)) :
    u.count = s.count := by
  unfold intern at h
  cases hstored : s.names.intern? t.text with
  | none => simp [hstored] at h
  | some p =>
    rw [hstored] at h
    cases h
    rfl

/-! ### Expressions -/

theorem numbers_indexed {n : Node} {m : Mark} {a : Access} {b : Entry} {s t : Scope}
    (h : indexed n s = .ok ((m, a, b), t)) {p : Placed} (hp : p.1 = m.handle) :
    s.Numbers t [p] := by
  unfold indexed at h
  split at h
  · obtain ⟨name, u, -, hname, hm, -⟩ := fieldAccess_eq_ok_iff.1 h
    exact (numbers_mark hm hp).congr (count_intern hname).symm rfl
  · obtain ⟨owner, part, q, struct, ownerName, u, partName, v, -, -, -, -, -, -, howner, hpart, hm,
      -⟩ := memberAccess_eq_ok_iff.1 h
    exact (numbers_mark hm hp).congr ((count_intern hpart).trans (count_intern howner)).symm rfl
  · simp at h

/-- The nodes of an expression are numbered from its leaves to its root. -/
theorem numbers_expr : ∀ {n : Node} {e : Expr} {s t : Scope}, expr n s = .ok (e, t) →
    ∀ next, s.Numbers t (treeCells e next)
  | .name o, e, s, t, h, next => by
    rw [expr] at h
    simp only [bind_eq_ok, pure_eq_ok] at h
    obtain ⟨⟨m, a, b⟩, u, haccess, type, v, htype, rfl, rfl⟩ := h
    obtain ⟨-, -, rfl⟩ := scalarType_eq_ok.1 htype
    exact numbers_indexed (n := .name o) haccess rfl
  | .integer o, e, s, t, h, next => by
    rw [expr, integer] at h
    simp only [bind_eq_ok, require_eq_ok, pure_eq_ok, and_assoc, exists_and_left,
      exists_eq_left] at h
    obtain ⟨value, -, m, u, hm, rfl, rfl⟩ := h
    exact numbers_mark hm rfl
  | .paren o inner, e, s, t, h, next => by
    rw [expr] at h
    obtain ⟨n, rfl, hn⟩ := single_eq_ok_iff.1 h
    exact numbers_expr hn next
  | .element o base index, e, s, t, h, next => by
    rw [expr] at h
    simp only [bind_eq_ok, check_eq_ok, pure_eq_ok, and_assoc, exists_and_left,
      exists_eq_left] at h
    obtain ⟨⟨m, a, type⟩, u, haccess, i, v, hi, -, -, m', w, hm, rfl, rfl⟩ := h
    obtain ⟨b, hindexed, -⟩ := arrayAccess_eq_ok_iff.1 haccess
    obtain ⟨n, rfl, hn⟩ := single_eq_ok_iff.1 hi
    have hbase := numbers_indexed hindexed
      (p := (m.handle, ⟨.access a, some (.primitive type), none, m.line⟩)) rfl
    exact (hbase.append (numbers_expr hn none)).append (numbers_mark hm rfl)
  | .binary o .member lhs rhs, e, s, t, h, next => by
    rw [expr] at h
    simp only [bind_eq_ok, pure_eq_ok] at h
    obtain ⟨⟨m, a, b⟩, u, haccess, type, v, htype, rfl, rfl⟩ := h
    obtain ⟨-, -, rfl⟩ := scalarType_eq_ok.1 htype
    exact numbers_indexed (n := .binary o .member lhs rhs) haccess rfl
  | .binary o .plus l r, e, s, t, h, next | .binary o .minus l r, e, s, t, h, next
  | .binary o .times l r, e, s, t, h, next | .binary o .divide l r, e, s, t, h, next => by
    rw [expr] at h
    unfold arith at h
    simp only [bind_eq_ok, pure_eq_ok] at h
    obtain ⟨x, u, hx, y, v, hy, m, w, hm, rfl, rfl⟩ := h
    have hoperands := (numbers_expr hx none).append (numbers_expr hy none)
    rw [treeCells, List.append_assoc] at hoperands
    exact hoperands.append (numbers_mark hm rfl)
  | .control o _, e, s, t, h, _ | .binary o .assign _ _, e, s, t, h, _
  | .binary o .compare _ _, e, s, t, h, _ | .structHead o _, e, s, t, h, _
  | .block o _, e, s, t, h, _ | .scriptEnd o, e, s, t, h, _ => by
    simp [expr] at h

/-! ### Declarations -/

theorem numbers_declaration {inStruct : Bool} {type : Origin}
    {bracket : Option (Origin × List Node)} {name : Origin} {d : Declaration} {s t : Scope}
    (h : declaration inStruct type bracket name s = .ok (d, t)) (next : Option Handle) :
    s.Numbers t (treeCells d next) := by
  obtain ⟨elements, size, s₁, typeName, s₂, fieldName, s₃, s₄, m, -, hsize, htype, hname, hdeclare,
    hm, rfl⟩ := declaration_eq_ok_iff.1 h
  have hcount : s.Numbers s₁ (chainCells size.toList) := by
    cases bracket with
    | none =>
      obtain ⟨rfl, rfl⟩ := pure_eq_ok.1 hsize
      exact .nil rfl
    | some p =>
      simp only [bracketCount, bind_eq_ok, pure_eq_ok] at hsize
      obtain ⟨e, u, he, rfl, rfl⟩ := hsize
      obtain ⟨n, -, hn⟩ := single_eq_ok_iff.1 (count_eq_ok_iff.1 he).1
      exact (numbers_expr hn none).append (.nil rfl)
  have hdeclared : s₄.count = s₃.count := by
    rcases declare_eq_ok_iff.1 hdeclare with ⟨-, -, rfl⟩ | ⟨-, rfl⟩ <;> rfl
  have hroot := numbers_mark hm
    (p := rootCell (⟨m, typeName, size, fieldName⟩ : Declaration) next) rfl
  have hnames := (count_intern hname).trans (count_intern htype)
  exact hcount.append (hroot.congr (hdeclared.trans hnames).symm rfl)

theorem numbers_members {body : List Node} {ds : List Declaration} {s t : Scope}
    (h : members body s = .ok (ds, t)) : s.Numbers t (chainCells ds) := by
  fun_induction members body generalizing ds s t with
  | case1 =>
    obtain ⟨rfl, rfl⟩ := pure_eq_ok.1 h
    exact .nil rfl
  | case2 type name rest ih =>
    simp only [bind_eq_ok, pure_eq_ok] at h
    obtain ⟨d, u, hd, ds, v, hds, rfl, rfl⟩ := h
    exact (numbers_declaration hd _).append (ih hds)
  | case3 o type index name rest ih =>
    simp only [bind_eq_ok, pure_eq_ok] at h
    obtain ⟨d, u, hd, ds, v, hds, rfl, rfl⟩ := h
    exact (numbers_declaration hd _).append (ih hds)
  | case4 n rest => simp at h

theorem numbers_struct {o name : Origin} {body : List Node} {x : Statement} {s t : Scope}
    (h : struct o name body s = .ok (x, t)) (next : Option Handle) :
    s.Numbers t (treeCells x next) := by
  obtain ⟨ds, s₁, structName, s₂, m, s₃, -, -, hds, hname, hm, rfl, rfl⟩ := struct_eq_ok_iff.1 h
  have hroot := numbers_mark hm (p := rootCell (Statement.struct m structName ds) next) rfl
  have hmembers := (numbers_members hds).append (hroot.congr (count_intern hname).symm rfl)
  exact hmembers.congr rfl rfl

/-! ### Statements -/

/-- The nodes of a statement that is read before others come before theirs. -/
theorem numbers_cons {α : Type} {first : Resolve α} {f : α → Statement}
    {rest : Resolve (List Statement)}
    (hfirst : ∀ a s t, first s = .ok (a, t) → ∀ next, s.Numbers t (treeCells (f a) next))
    (hrest : ∀ xs s t, rest s = .ok (xs, t) → s.Numbers t (chainCells xs))
    (xs : List Statement) (s t : Scope)
    (h : (do let a ← first; let xs ← rest; pure (f a :: xs)) s = .ok (xs, t)) :
    s.Numbers t (chainCells xs) := by
  simp only [bind_eq_ok, pure_eq_ok] at h
  obtain ⟨a, u, ha, ys, v, hys, rfl, rfl⟩ := h
  exact (hfirst a s u ha (headOf? ys)).append (hrest ys u _ hys)

/-- The nodes of a chain are numbered one tree after the other. -/
theorem numbers_statements (ns : List Node) : ∀ xs s t, statements ns s = .ok (xs, t) →
    s.Numbers t (chainCells xs) := by
  refine (statement.mutual_induct_unfolding
    (fun _ r => ∀ x s t, r s = .ok (x, t) → ∀ next, s.Numbers t (treeCells x next))
    (fun _ r => ∀ xs s t, r s = .ok (xs, t) → s.Numbers t (chainCells xs))
    ?structHead ?block ?scriptEnd ?expression ?nil ?field ?array ?struct ?other).2 ns
  case structHead =>
    intro o name x s t h
    simp at h
  case block =>
    intro o body ih x s t h next
    simp only [bind_eq_ok, pure_eq_ok] at h
    obtain ⟨inner, u, hinner, m, v, hm, rfl, rfl⟩ := h
    have hbody := ih inner s u hinner
    rw [← Statement.innerAll_eq] at hbody
    exact hbody.append (numbers_mark hm rfl)
  case scriptEnd =>
    intro o x s t h next
    simp only [bind_eq_ok, pure_eq_ok] at h
    obtain ⟨m, u, hm, rfl, rfl⟩ := h
    exact numbers_mark hm rfl
  case expression =>
    intro n _ _ _ x s t h next
    simp only [bind_eq_ok, pure_eq_ok] at h
    obtain ⟨e, u, he, rfl, rfl⟩ := h
    exact numbers_expr he next
  case nil =>
    intro xs s t h
    obtain ⟨rfl, rfl⟩ := pure_eq_ok.1 h
    exact .nil rfl
  case field => exact fun type name rest ih => numbers_cons (fun d s t => numbers_declaration) ih
  case array =>
    exact fun o type index name rest ih => numbers_cons (fun d s t => numbers_declaration) ih
  case struct => exact fun o name o' body rest ih => numbers_cons (fun x s t => numbers_struct) ih
  case other => exact fun n rest _ _ _ ihn ih => numbers_cons ihn ih

/-- Only the links of a chain change if another one is put behind it. -/
theorem map_id_chainCells_append {α : Type} [HasCells α] (a b : List α) :
    (chainCells (a ++ b)).map (·.1.raw) =
      (chainCells a).map (·.1.raw) ++ (chainCells b).map (·.1.raw) := by
  induction a with
  | nil => rfl
  | cons x a ih =>
    have hroot : (treeCells x (headOf? (a ++ b))).map (·.1.raw) =
        (treeCells x (headOf? a)).map (·.1.raw) := by
      simp [treeCells, rootCell]
    rw [List.cons_append, chainCells, chainCells, List.map_append, List.map_append, ih, hroot,
      List.append_assoc]

theorem numbers_chains {chs : List (List Node)} {xs : List Statement} {s t : Scope}
    (h : chains chs s = .ok (xs, t)) : s.Numbers t (chainCells xs) := by
  induction chs generalizing xs s with
  | nil =>
    obtain ⟨rfl, rfl⟩ := pure_eq_ok.1 h
    exact .nil rfl
  | cons chain rest ih =>
    rw [chains] at h
    simp only [bind_eq_ok, pure_eq_ok] at h
    obtain ⟨ys, u, hys, zs, v, hzs, rfl, rfl⟩ := h
    have happend := (numbers_statements chain ys s u hys).append (ih hzs)
    refine ⟨happend.count, ?_⟩
    rw [map_id_chainCells_append, ← List.map_append]
    exact happend.ids

end Resolve

/-- Each node of a compiled template stands at the place of its number. -/
theorem map_id_cells_of_compile {source : String} {t : Template} (h : compile source = .ok t) :
    t.cells.map (·.1.raw) = List.range t.count := by
  obtain ⟨script, scope, -, hchains, -, hcount⟩ := compile_eq_ok_iff.1 h
  have hids := (Resolve.numbers_chains hchains).ids
  rw [hcount, List.range_eq_range']
  exact hids

end ByteBricks.Template
