import ByteBricks.Syntax.Chain

/-! # The Trees of a Chain

  Each level of operators leaves nothing of itself in a chain, so only trees are left when
  all levels have been gone through. The end of the script stays behind all other trees. -/

namespace ByteBricks.Syntax

/-! ### Levels -/

/-- The levels are gone through one after the other. -/
theorem levels_cons_eq_ok {level : Nat} {levels : List Nat} {items out : List Item} :
    (level :: levels).foldlM (fun items level => resolveLevel level [] items) items = .ok out ↔
      ∃ next, resolveLevel level [] items = .ok next ∧
        levels.foldlM (fun items level => resolveLevel level [] items) next = .ok out := by
  rw [List.foldlM_cons]
  cases resolveLevel level [] items <;> simp [bind, Except.bind]

/-- The level on which an item is resolved; a tree is resolved already. -/
def Item.level? : Item → Option Nat
  | .tree _ => none
  | .operator _ op => some op.level
  | .subscript _ _ => some subscriptLevel

/-- What a level makes of its items. An item of another level is kept, and a tree is made from
    an operator of this level and its operands: if `P` holds of both whenever `Q` holds of the
    items, it holds of all that is left. -/
theorem forall_of_resolveLevel {P Q : Item → Prop} {level : Nat}
    (hkept : ∀ item, Q item → item.level? ≠ some level → P item)
    (helement : ∀ o base index, level = subscriptLevel → P (.tree base) → Q (.subscript o index) →
      P (.tree (.element o base index)))
    (hbinary : ∀ o op lhs rhs, level = op.level → P (.tree lhs) → Q (.tree rhs) →
      P (.tree (.binary o op lhs rhs)))
    {before items out : List Item} (h : resolveLevel level before items = .ok out)
    (hbefore : ∀ item ∈ before, P item) (hitems : ∀ item ∈ items, Q item) :
    ∀ item ∈ out, P item := by
  have hother {l : Nat} (hlevel : level ≠ l) : some l ≠ some level :=
    fun heq => hlevel (Option.some.inj heq).symm
  fun_induction resolveLevel level before items generalizing out with
  | case1 before =>
    cases h
    simpa using hbefore
  | case2 before n after ih =>
    obtain ⟨hn, hafter⟩ := List.forall_mem_cons.1 hitems
    exact ih h (List.forall_mem_cons.2 ⟨hkept _ hn nofun, hbefore⟩) hafter
  | case3 o index after hlevel base before hbase ih =>
    obtain ⟨hindex, hafter⟩ := List.forall_mem_cons.1 hitems
    obtain ⟨hbase, hbefore⟩ := List.forall_mem_cons.1 hbefore
    exact ih h (List.forall_mem_cons.2 ⟨helement o base index hlevel hbase hindex, hbefore⟩) hafter
  | case6 before o index after hlevel ih =>
    obtain ⟨hindex, hafter⟩ := List.forall_mem_cons.1 hitems
    exact ih h (List.forall_mem_cons.2 ⟨hkept _ hindex (hother hlevel), hbefore⟩) hafter
  | case7 o op rhs after hlevel lhs before hoperands ih =>
    obtain ⟨hrhs, hafter⟩ := List.forall_mem_cons.1 (List.forall_mem_cons.1 hitems).2
    obtain ⟨hlhs, hbefore⟩ := List.forall_mem_cons.1 hbefore
    exact ih h (List.forall_mem_cons.2 ⟨hbinary o op lhs rhs hlevel hlhs hrhs, hbefore⟩) hafter
  | case10 before o op rhs after hlevel ih =>
    obtain ⟨hop, hitems⟩ := List.forall_mem_cons.1 hitems
    obtain ⟨hrhs, hafter⟩ := List.forall_mem_cons.1 hitems
    have hbefore := List.forall_mem_cons.2 ⟨hkept _ hop (hother hlevel), hbefore⟩
    exact ih h (List.forall_mem_cons.2 ⟨hkept _ hrhs nofun, hbefore⟩) hafter
  | case12 before o op after htree hlevel ih =>
    obtain ⟨hop, hafter⟩ := List.forall_mem_cons.1 hitems
    exact ih h (List.forall_mem_cons.2 ⟨hkept _ hop (hother hlevel), hbefore⟩) hafter
  | case4 | case5 | case8 | case9 | case11 => simp at h

theorem ne_nil_of_resolveLevel {level : Nat} {before items out : List Item}
    (h : resolveLevel level before items = .ok out) (hsome : before ≠ [] ∨ items ≠ []) :
    out ≠ [] := by
  fun_induction resolveLevel level before items generalizing out with
  | case1 before =>
    cases h
    simpa using hsome
  | case2 before n after ih => exact ih h (.inl (by simp))
  | case3 o index after hlevel base before hbase ih => exact ih h (.inl (by simp))
  | case6 before o index after hlevel ih => exact ih h (.inl (by simp))
  | case7 o op rhs after hlevel lhs before hoperands ih => exact ih h (.inl (by simp))
  | case10 before o op rhs after hlevel ih => exact ih h (.inl (by simp))
  | case12 before o op after htree hlevel ih => exact ih h (.inl (by simp))
  | case4 | case5 | case8 | case9 | case11 => simp at h

/-- What levels leave are trees and the operators of other levels. -/
theorem level?_of_levels {levels : List Nat} {items out : List Item}
    (hitems : ∀ item ∈ items, item.level? = none ∨ ∃ level ∈ levels, item.level? = some level)
    (h : levels.foldlM (fun items level => resolveLevel level [] items) items = .ok out) :
    ∀ item ∈ out, item.level? = none := by
  induction levels generalizing items with
  | nil =>
    cases h
    exact fun item hitem => by simpa using hitems item hitem
  | cons level levels ih =>
    obtain ⟨next, hlevel, h⟩ := levels_cons_eq_ok.1 h
    refine ih ?_ h
    refine forall_of_resolveLevel ?_ (fun _ _ _ _ _ _ => .inl rfl)
      (fun _ _ _ _ _ _ _ => .inl rfl) hlevel (by simp) hitems
    rintro item (hnone | ⟨l, hl, hsome⟩) hother
    · exact .inl hnone
    · rcases List.mem_cons.1 hl with rfl | hl
      · exact absurd hsome hother
      · exact .inr ⟨l, hl, hsome⟩

theorem eq_map_tree_of_level? {items : List Item} (h : ∀ item ∈ items, item.level? = none) :
    items = (items.filterMap Item.node?).map .tree := by
  induction items with
  | nil => rfl
  | cons item items ih =>
    obtain ⟨hitem, hitems⟩ := List.forall_mem_cons.1 h
    cases item with
    | tree n => simpa [Item.node?] using ih hitems
    | operator o op | subscript o index => simp [Item.level?] at hitem

/-- Only trees are left when all levels have been gone through. -/
theorem resolve_eq_ok_iff {items : List Item} {nodes : List Node} :
    resolve items = .ok nodes ↔
      levels.foldlM (fun items level => resolveLevel level [] items) items =
        .ok (nodes.map .tree) := by
  have hall : ∀ item ∈ items,
      item.level? = none ∨ ∃ level ∈ levels, item.level? = some level := by
    intro item _
    cases item with
    | tree n => exact .inl rfl
    | operator o op => exact .inr ⟨op.level, by cases op <;> decide, rfl⟩
    | subscript o index => exact .inr ⟨subscriptLevel, by decide, rfl⟩
  unfold resolve
  cases hout : levels.foldlM (fun items level => resolveLevel level [] items) items with
  | error t => simp [bind, Except.bind]
  | ok out =>
    have hout := eq_map_tree_of_level? (level?_of_levels hall hout)
    have hback : (nodes.map Item.tree).filterMap Item.node? = nodes := by
      simp [Item.node?, Function.comp_def]
    simp only [bind, Except.bind, pure, Except.pure, Except.ok.injEq]
    constructor
    · rintro rfl
      exact hout
    · rintro rfl
      exact hback

/-- What holds between a chain and its trees, if each level keeps it. -/
theorem resolve_induction {R : List Item → List Item → Prop} (hnil : ∀ items, R items items)
    (hlevel : ∀ {level items next out}, resolveLevel level [] items = .ok next → R next out →
      R items out) {items : List Item} {nodes : List Node} (h : resolve items = .ok nodes) :
    R items (nodes.map .tree) := by
  have hout := resolve_eq_ok_iff.1 h
  clear h
  generalize levels = levels at hout
  induction levels generalizing items with
  | nil =>
    cases hout
    exact hnil _
  | cons level levels ih =>
    obtain ⟨next, hnext, hout⟩ := levels_cons_eq_ok.1 hout
    exact hlevel hnext (ih hout)

/-- A chain with items has trees. -/
theorem ne_nil_of_resolve {items : List Item} {nodes : List Node}
    (h : resolve items = .ok nodes) (hne : items ≠ []) : nodes ≠ [] := by
  have hout := resolve_induction (R := fun items out => items ≠ [] → out ≠ []) (fun _ => id)
    (fun hlevel ih hne => ih (ne_nil_of_resolveLevel hlevel (.inr hne))) h hne
  simpa using hout

/-! ### The End of the Script -/

/-- The end of the script is no operand: it stays behind all other items. -/
theorem resolveLevel_scriptEnd (level : Nat) (before items : List Item) (o : Origin) :
    resolveLevel level before (items ++ [.tree (.scriptEnd o)]) =
      (resolveLevel level before items).map (· ++ [.tree (.scriptEnd o)]) := by
  -- There is a case for each branch, and the end of the script decides none of them.
  fun_induction resolveLevel level before items with
  | case1 before =>
    rw [List.nil_append, resolveLevel, resolveLevel]
    simp [Except.map]
  | case2 before n after ih => rw [List.cons_append, resolveLevel, ih]
  | case3 o' index after hlevel base before hbase ih =>
    rw [List.cons_append, resolveLevel, if_pos hlevel, if_pos hbase, ih]
  | case4 o' index after hlevel base before hbase =>
    rw [List.cons_append, resolveLevel, if_pos hlevel, if_neg hbase]
    rfl
  | case5 before o' index after hlevel hbefore =>
    rw [List.cons_append, resolveLevel, if_pos hlevel]
    · rfl
    · exact hbefore
  | case6 before o' index after hlevel ih =>
    rw [← ih, List.cons_append, resolveLevel.eq_def]
    dsimp only
    rw [if_neg hlevel]
  | case7 o' op rhs after hlevel lhs before hoperands ih =>
    rw [List.cons_append, List.cons_append, resolveLevel, if_pos hlevel, if_pos hoperands, ih]
  | case8 o' op rhs after hlevel lhs before hoperands =>
    rw [List.cons_append, List.cons_append, resolveLevel, if_pos hlevel, if_neg hoperands]
    rfl
  | case9 before o' op rhs after hlevel hbefore =>
    rw [List.cons_append, List.cons_append, resolveLevel, if_pos hlevel]
    · rfl
    · exact hbefore
  | case10 before o' op rhs after hlevel ih =>
    rw [← ih, List.cons_append, List.cons_append, resolveLevel.eq_def]
    dsimp only
    rw [if_neg hlevel]
  | case11 before o' op after htree hlevel =>
    -- An operator at the end finds the end of the script behind it, which it does not take.
    cases after with
    | nil =>
      rw [List.singleton_append]
      unfold resolveLevel
      rw [if_pos hlevel]
      split
      · next lhs before => simp [Node.isOperand, Except.map]
      · rfl
    | cons item after =>
      cases item with
      | tree n => exact absurd rfl (htree n after)
      | operator o op | subscript o index =>
        rw [List.cons_append, List.cons_append, resolveLevel, if_pos hlevel]
        · rfl
        · simp
  | case12 before o' op after htree hlevel ih =>
    cases after with
    | nil =>
      rw [List.singleton_append]
      unfold resolveLevel
      rw [if_neg hlevel]
      simp [resolveLevel, Except.map]
    | cons item after =>
      cases item with
      | tree n => exact absurd rfl (htree n after)
      | operator o op | subscript o index =>
        rw [← ih, List.cons_append, List.cons_append, resolveLevel.eq_def]
        dsimp only
        rw [if_neg hlevel]

/-- The end of the script stays behind the trees that are resolved in front of it. -/
theorem resolve_scriptEnd {items : List Item} {nodes : List Node} {o : Origin} :
    resolve (items ++ [.tree (.scriptEnd o)]) = .ok nodes ↔
      ∃ before, resolve items = .ok before ∧ nodes = before ++ [.scriptEnd o] := by
  have hlevels (levels : List Nat) (items : List Item) :
      levels.foldlM (fun items level => resolveLevel level [] items)
        (items ++ [.tree (.scriptEnd o)]) =
      (levels.foldlM (fun items level => resolveLevel level [] items) items).map
        (· ++ [.tree (.scriptEnd o)]) := by
    induction levels generalizing items with
    | nil => rfl
    | cons level levels ih =>
      rw [List.foldlM_cons, List.foldlM_cons, resolveLevel_scriptEnd]
      cases resolveLevel level [] items with
      | error t => rfl
      | ok next => exact ih next
  unfold resolve
  rw [hlevels]
  cases levels.foldlM (fun items level => resolveLevel level [] items) items with
  | error t => simp [Except.map, bind, Except.bind]
  | ok out => simp [Except.map, bind, Except.bind, pure, Except.pure, Item.node?, eq_comm]

/-- A chain is the end of the script alone only if nothing stands in front of it. -/
theorem eq_nil_of_resolve_scriptEnd {items : List Item} {o o' : Origin}
    (h : resolve (items ++ [.tree (.scriptEnd o)]) = .ok [.scriptEnd o']) : items = [] := by
  obtain ⟨before, hbefore, heq⟩ := resolve_scriptEnd.1 h
  have heq : [] ++ [Node.scriptEnd o'] = before ++ [.scriptEnd o] := heq
  obtain ⟨rfl, -⟩ := List.append_inj' heq rfl
  exact Decidable.byContradiction fun hne => ne_nil_of_resolve hbefore hne rfl

end ByteBricks.Syntax
