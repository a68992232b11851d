import ByteBricks.Proofs.Syntax.Cells
import ByteBricks.Proofs.Syntax.Precedence
import ByteBricks.Syntax.Builder

/-! # Folding is Resolving

  A chain of cells is folded operator by operator, always the tightest one first. The same
  chain of items is resolved level by level. A level that meets the leftmost of its operators
  does what a step of folding does, and goes on as it would go on behind that step. So the
  cells of a chain are folded into the cells of the trees that its items are resolved to, or
  both lack an operand of the same operator. Main statement: the cells of a chain that was just
  read are folded exactly if the chain is a juxtaposition of expressions, and into their trees. -/

namespace ByteBricks.Syntax

open BlockStore (Contains Has)

/-! ### One Step -/

/-- The chain after an operator has been given its operands, when `before` is in front of it,
    in reverse, and `after` is behind it. Gives the tree, and what is left on both sides. -/
def foldItem? (before : List Item) (item : Item) (after : List Item) :
    Option (List Item × Node × List Item) :=
  match item, before, after with
  | .subscript o index, .tree base :: before, after =>
    if base.isOperand then some (before, .element o base index, after) else none
  | .operator o op, .tree lhs :: before, .tree rhs :: after =>
    if lhs.isOperand && rhs.isOperand then some (before, .binary o op lhs rhs, after) else none
  | _, _, _ => none

/-- A level passes what it does not resolve. -/
theorem resolveLevel_pass {level : Nat} {items : List Item}
    (h : ∀ item ∈ items, item.level? ≠ some level) (before after : List Item) :
    resolveLevel level before (items ++ after) =
      resolveLevel level (items.reverse ++ before) after := by
  induction items generalizing before with
  | nil => rfl
  | cons item items ih =>
    obtain ⟨hitem, hitems⟩ := List.forall_mem_cons.1 h
    rw [List.cons_append, List.reverse_cons, List.append_assoc, List.singleton_append,
      ← ih hitems]
    cases item with
    | tree n => rw [resolveLevel]
    | operator o op => exact resolveLevel_operator (fun heq => hitem (by rw [heq]; rfl)) o before _
    | subscript o index =>
      exact resolveLevel_subscript (fun heq => hitem (by rw [heq]; rfl)) o index before _

theorem resolveLevel_eq_self {level : Nat} {items : List Item}
    (h : ∀ item ∈ items, item.level? ≠ some level) : resolveLevel level [] items = .ok items := by
  have hpass := resolveLevel_pass h [] []
  rwa [List.append_nil, resolveLevel, List.append_nil, List.reverse_reverse] at hpass

/-- A level folds the operator that it meets. -/
theorem resolveLevel_fold {level : Nat} {item : Item} (hlevel : item.level? = some level)
    (before after : List Item) :
    resolveLevel level before (item :: after) =
      match foldItem? before item after with
      | some (before, n, after) => resolveLevel level (.tree n :: before) after
      | none => .error item.origin.token := by
  cases item with
  | tree n => simp [Item.level?] at hlevel
  | subscript o index =>
    cases hlevel
    rcases before with _ | ⟨_ | _ | _, before⟩
    case cons.tree base =>
      cases h : base.isOperand <;> simp [resolveLevel, foldItem?, h, Item.origin]
    all_goals simp [resolveLevel, foldItem?, Item.origin]
  | operator o op =>
    cases hlevel
    rcases before with _ | ⟨lhs | _ | _, before⟩ <;> rcases after with _ | ⟨rhs | _ | _, after⟩
    case cons.tree.cons.tree =>
      cases h : lhs.isOperand && rhs.isOperand <;> simp [resolveLevel, foldItem?, h, Item.origin]
    all_goals simp [resolveLevel, foldItem?, Item.origin]

/-- What an operator takes when it is folded. -/
theorem foldItem?_eq_some {before before' after after' : List Item} {item : Item} {n : Node}
    (h : foldItem? before item after = some (before', n, after')) :
    (∃ o base index, item = .subscript o index ∧ before = .tree base :: before' ∧
      after' = after ∧ base.isOperand ∧ n = .element o base index) ∨
    (∃ o op lhs rhs, item = .operator o op ∧ before = .tree lhs :: before' ∧
      after = .tree rhs :: after' ∧ (lhs.isOperand ∧ rhs.isOperand) ∧
      n = .binary o op lhs rhs) := by
  unfold foldItem? at h
  split at h
  · next o index base before =>
    split at h
    · next hbase =>
      cases h
      exact .inl ⟨o, base, index, rfl, rfl, rfl, hbase, rfl⟩
    · simp at h
  · next o op lhs before rhs after =>
    split at h
    · next hoperands =>
      cases h
      exact .inr ⟨o, op, lhs, rhs, rfl, rfl, rfl, by simpa using hoperands, rfl⟩
    · simp at h
  · simp at h

/-! ### All Steps -/

/-- The item is the operator of a chain that is folded next: none binds tighter, and none in
    front of it as tightly. The items in front of it are in reverse. -/
structure Leads (level : Nat) (before : List Item) (item : Item) (after : List Item) : Prop where
  /-- It is an operator. -/
  operator : item.level? = some level
  /-- Operators in front of it bind looser. -/
  before : ∀ item ∈ before, ∀ l, item.level? = some l → l < level
  /-- No operator behind it binds tighter. -/
  after : ∀ item ∈ after, ∀ l, item.level? = some l → l ≤ level

namespace Leads

variable {level : Nat} {before after before' after' : List Item} {item : Item} {n : Node}

/-- No operator of the chain binds tighter. -/
theorem le (h : Leads level before item after) {other : Item}
    (hother : other ∈ before.reverse ++ item :: after) {l : Nat} (hl : other.level? = some l) :
    l ≤ level := by
  rcases List.mem_append.1 hother with hbefore | hrest
  · exact Nat.le_of_lt (h.before other (List.mem_reverse.1 hbefore) l hl)
  · rcases List.mem_cons.1 hrest with rfl | hafter
    · rw [h.operator] at hl
      cases hl
      exact Nat.le_refl _
    · exact h.after other hafter l hl

theorem resolveLevel_eq (h : Leads level before item after) :
    resolveLevel level [] (before.reverse ++ item :: after) =
      match foldItem? before item after with
      | some (before, n, after) => resolveLevel level (.tree n :: before) after
      | none => .error item.origin.token := by
  have hpass : ∀ other ∈ before.reverse, other.level? ≠ some level := by
    intro other hother heq
    have hlt := h.before other (List.mem_reverse.1 hother) level heq
    omega
  rw [resolveLevel_pass hpass, List.reverse_reverse, List.append_nil, resolveLevel_fold h.operator]

/-- What is left of the chain has no tighter operator either. -/
theorem le_of_foldItem? (h : Leads level before item after)
    (hfold : foldItem? before item after = some (before', n, after')) {other : Item}
    (hother : other ∈ before'.reverse ++ .tree n :: after') {l : Nat} (hl : other.level? = some l) :
    l ≤ level := by
  have hsub : before' ⊆ before ∧ after' ⊆ after := by
    rcases foldItem?_eq_some hfold with ⟨o, base, index, -, rfl, rfl, -⟩ |
      ⟨o, op, lhs, rhs, -, rfl, rfl, -⟩
    · exact ⟨List.subset_cons_self _ _, List.Subset.refl _⟩
    · exact ⟨List.subset_cons_self _ _, List.subset_cons_self _ _⟩
  rcases List.mem_append.1 hother with hbefore | hrest
  · exact Nat.le_of_lt (h.before other (hsub.1 (List.mem_reverse.1 hbefore)) l hl)
  · rcases List.mem_cons.1 hrest with rfl | hafter
    · simp [Item.level?] at hl
    · exact h.after other (hsub.2 hafter) l hl

/-- The level of the operator goes on behind the folded one. -/
theorem resolveLevel_folded (h : Leads level before item after)
    (hfold : foldItem? before item after = some (before', n, after')) :
    resolveLevel level [] (before'.reverse ++ .tree n :: after') =
      resolveLevel level (.tree n :: before') after' := by
  have hsub : before' ⊆ before := by
    rcases foldItem?_eq_some hfold with ⟨o, base, index, -, rfl, -⟩ | ⟨o, op, lhs, rhs, -, rfl, -⟩
    · exact List.subset_cons_self _ _
    · exact List.subset_cons_self _ _
  have hpass : ∀ other ∈ before'.reverse, other.level? ≠ some level := by
    intro other hother heq
    have hlt := h.before other (hsub (List.mem_reverse.1 hother)) level heq
    omega
  rw [resolveLevel_pass hpass, List.reverse_reverse, List.append_nil, resolveLevel]

end Leads

/-- Levels that bind tighter than every operator of a chain change nothing. -/
theorem levels_skip {level : Nat} {higher lower : List Nat} (hhigher : ∀ l ∈ higher, level < l)
    {items : List Item} (hitems : ∀ item ∈ items, ∀ l, item.level? = some l → l ≤ level) :
    (higher ++ lower).foldlM (fun items level => resolveLevel level [] items) items =
      lower.foldlM (fun items level => resolveLevel level [] items) items := by
  induction higher with
  | nil => rfl
  | cons l higher ih =>
    obtain ⟨hl, hhigher⟩ := List.forall_mem_cons.1 hhigher
    have hself : resolveLevel l [] items = .ok items := by
      apply resolveLevel_eq_self
      intro item hitem heq
      have hle := hitems item hitem l heq
      omega
    rw [List.cons_append, List.foldlM_cons, hself]
    exact ih hhigher

/-- The levels of all operators, split at that of one. -/
theorem exists_levels {item : Item} {level : Nat} (h : item.level? = some level) :
    ∃ higher lower, levels = higher ++ level :: lower ∧ ∀ l ∈ higher, level < l := by
  have hmem : level ∈ levels := by
    cases item with
    | tree n => simp [Item.level?] at h
    | operator o op => cases h; cases op <;> decide
    | subscript o index => cases h; decide
  obtain ⟨higher, lower, hlevels⟩ := List.append_of_mem hmem
  have hsorted : (higher ++ level :: lower).Pairwise (· > ·) := by
    rw [← hlevels]
    decide
  have hhigher := (List.pairwise_append.1 hsorted).2.2
  exact ⟨higher, lower, hlevels, fun l hl => hhigher l hl level (by simp)⟩

/-- A chain is resolved as the one in which its leading operator is folded. -/
theorem Leads.resolve_eq {level : Nat} {before after : List Item} {item : Item}
    (h : Leads level before item after) :
    resolve (before.reverse ++ item :: after) =
      match foldItem? before item after with
      | some (before, n, after) => resolve (before.reverse ++ .tree n :: after)
      | none => .error item.origin.token := by
  obtain ⟨higher, lower, hlevels, hhigher⟩ := exists_levels h.operator
  -- Tighter levels find nothing on either side, so both come to the level of the operator.
  unfold resolve
  rw [hlevels, levels_skip hhigher fun other hother l hl => h.le hother hl, List.foldlM_cons,
    h.resolveLevel_eq]
  cases hfold : foldItem? before item after with
  | none => rfl
  | some out =>
    obtain ⟨before', n, after'⟩ := out
    dsimp only
    rw [levels_skip hhigher fun other hother l hl => h.le_of_foldItem? hfold hother hl,
      List.foldlM_cons, h.resolveLevel_folded hfold]

/-- A chain without operators is resolved. -/
theorem resolve_map_tree (nodes : List Node) : resolve (nodes.map .tree) = .ok nodes := by
  have hself : levels.foldlM (fun items level => resolveLevel level [] items) (nodes.map .tree) =
      .ok (nodes.map .tree) := by
    have hpos : ∀ l ∈ levels, 0 < l := by decide
    rw [← List.append_nil levels, levels_skip hpos (by simp [Item.level?])]
    rfl
  exact resolve_eq_ok_iff.2 hself

/-! ### Candidates -/

namespace Item

@[simp] theorem openLevel?_cell (item : Item) (next : Option Handle) :
    (item.cell next).openLevel? = item.level? := by
  rcases item with n | ⟨o, op⟩ | ⟨o, index⟩
  · cases n with
    | paren o inner => cases inner <;> rfl
    | block o body => cases body <;> rfl
    | _ => rfl
  · rfl
  · rfl

@[simp] theorem isOperand_cell (item : Item) (next : Option Handle) :
    (item.cell next).isOperand = item.isOperand := by
  rcases item with n | ⟨o, op⟩ | ⟨o, index⟩
  · cases n with
    | paren o inner => cases inner <;> rfl
    | block o body => cases body <;> rfl
    | _ => rfl
  · rfl
  · rfl

end Item

/-- The candidate that an operator of a chain makes. The items in front of it are in reverse. -/
def candidateOf (level : Nat) (before : List Item) (item : Item) (next : Option Handle) :
    Candidate :=
  ⟨item.handle, item.cell next, before.head?.map Item.handle, before.tail.head?.map Item.handle,
    level⟩

/-- The best candidate among the items of a chain that have been passed, in reverse, when
    `next` stands behind them. -/
inductive Best (next : Option Handle) : List Item → Option Candidate → Prop
  /-- There is no operator. -/
  | absent {passed : List Item} : (∀ item ∈ passed, item.level? = none) → Best next passed none
  /-- The operator that is folded next. -/
  | found {level : Nat} {before after : List Item} {item : Item} :
    Leads level before item after →
    Best next (after.reverse ++ item :: before)
      (some (candidateOf level before item (Item.headOr next after)))

namespace Best

variable {next : Option Handle} {passed : List Item} {best : Option Candidate} {item : Item}

/-- An item that does not bind tighter than the best candidate is no better one. -/
theorem keep (h : Best (some item.handle) passed best)
    (hle : ∀ level, item.level? = some level → ∃ c, best = some c ∧ level ≤ c.level) :
    Best next (item :: passed) best := by
  cases h with
  | absent hnone =>
    have hitem : item.level? = none := by
      cases hlevel : item.level? with
      | none => rfl
      | some level => simpa using hle level hlevel
    exact .absent (List.forall_mem_cons.2 ⟨hitem, hnone⟩)
  | @found l before after leader hleads =>
    have hleads' : Leads l before leader (after ++ [item]) := by
      refine ⟨hleads.operator, hleads.before, fun other hother level hlevel => ?_⟩
      rcases List.mem_append.1 hother with hother | hother
      · exact hleads.after other hother level hlevel
      · rw [List.mem_singleton.1 hother] at hlevel
        obtain ⟨c, hc, hle⟩ := hle level hlevel
        cases hc
        exact hle
    have hbest : Best next _ _ := .found hleads'
    rw [List.reverse_append, Item.headOr_append] at hbest
    exact hbest

/-- An operator that binds tighter than the best candidate is the best one. -/
theorem replace {n : Option Handle} {level : Nat} (h : Best n passed best)
    (hlevel : item.level? = some level) (hlt : best.all (·.level < level)) :
    Best next (item :: passed) (some (candidateOf level passed item next)) := by
  have hbefore : ∀ other ∈ passed, ∀ l, other.level? = some l → l < level := by
    intro other hother l hl
    cases h with
    | absent hnone =>
      rw [hnone other hother] at hl
      simp at hl
    | @found l' before after leader hleads =>
      have hle := hleads.le (by rw [← List.mem_reverse]; simpa using hother) hl
      have hlt : l' < level := by simpa [candidateOf] using hlt
      omega
  have hleads : Leads level passed item [] := ⟨hlevel, hbefore, by simp⟩
  exact .found hleads

/-- One more item is passed. -/
theorem step (h : Best (some item.handle) passed best) :
    Best next (item :: passed)
      (match item.level? with
        | some level =>
          if best.all (·.level < level) then some (candidateOf level passed item next) else best
        | none => best) := by
  cases hlevel : item.level? with
  | none => exact h.keep (by simp [hlevel])
  | some level =>
    dsimp only
    split
    · next hlt => exact h.replace hlevel hlt
    · next hnot =>
      apply h.keep
      intro level' hlevel'
      obtain rfl : level = level' := by simpa [hlevel] using hlevel'
      cases best with
      | none => simp at hnot
      | some c => exact ⟨c, rfl, by simpa using hnot⟩

end Best

theorem best_candidateFrom {after : Option Handle} {passed items : List Item}
    {best : Option Candidate} (h : Best (Item.headOr after items) passed best) :
    Best after (items.reverse ++ passed)
      (candidateFrom best (passed.tail.head?.map Item.handle) (passed.head?.map Item.handle)
        (Item.spine after items)) := by
  induction items generalizing passed best with
  | nil => exact h
  | cons item items ih =>
    rw [List.reverse_cons, List.append_assoc, List.singleton_append]
    rw [Item.spine, candidateFrom, Item.openLevel?_cell]
    exact ih (Best.step h)

/-! ### Steps on Cells -/

theorem Item.exists_tree {item : Item} (h : item.isOperand) :
    ∃ n, item = .tree n ∧ n.isOperand := by
  cases item with
  | tree n => exact ⟨n, rfl, h⟩
  | operator o op | subscript o index => simp [Item.isOperand] at h

namespace Cells

open Item (chained headOr spine)

variable {s s' : Cells} {m : Layout} {level : Nat} {before after before' after' : List Item}
  {item : Item} {n : Node}

/-- An operand that is found is the neighbour, if it can be an operand. -/
theorem operand?_eq {items : List Item} {next : Item → Option Handle}
    (hs : ∀ item ∈ items.head?, s.get? item.handle = some (item.cell (next item))) :
    s.operand? (items.head?.map Item.handle) =
      (items.head?.filter Item.isOperand).map Item.handle := by
  cases items with
  | nil => rfl
  | cons item items =>
    have hget := hs item rfl
    simp [operand?, Option.filter, hget]

/-- The cells of an operator and of its neighbours. -/
theorem has_neighbours (hs : s.Has (chained none (before.reverse ++ item :: after))) :
    (∀ left ∈ before.head?, s.get? left.handle = some (left.cell (some item.handle))) ∧
    (∀ right ∈ after.head?,
      s.get? right.handle = some (right.cell (headOr none after.tail))) := by
  rw [Item.chained_append, BlockStore.has_add] at hs
  constructor
  · intro left hleft
    obtain ⟨before, rfl⟩ : ∃ rest, before = left :: rest :=
      ⟨before.tail, List.eq_cons_of_mem_head? hleft⟩
    rw [List.reverse_cons, Item.chained_concat, BlockStore.has_add] at hs
    exact BlockStore.has_singleton.1 hs.1.1
  · intro right hright
    obtain ⟨after, rfl⟩ : ∃ rest, after = right :: rest :=
      ⟨after.tail, List.eq_cons_of_mem_head? hright⟩
    rw [chained, chained] at hs
    simp only [BlockStore.has_add, BlockStore.has_singleton] at hs
    exact hs.2.2.1.1

/-- An operator that lacks an operand is not folded. -/
theorem foldAt?_eq_none (hs : s.Contains (chained none (before.reverse ++ item :: after) + m))
    (hlevel : item.level? = some level) (hfold : foldItem? before item after = none) :
    s.foldAt? (candidateOf level before item (headOr none after)) = none := by
  obtain ⟨hbefore, hafter⟩ := has_neighbours (BlockStore.has_add.1 hs.has).1
  have hlhs := operand?_eq hbefore
  have hrhs := operand?_eq hafter
  clear hs hbefore hafter
  -- The tree of an operand that is found would be folded.
  cases hl : before.head?.filter Item.isOperand with
  | none =>
    rw [hl] at hlhs
    cases item with
    | tree n => simp [Item.level?] at hlevel
    | subscript | operator => simp [foldAt?, foldElement?, foldBinary?, candidateOf, hlhs]
  | some left =>
    obtain ⟨hmem, hleft⟩ : before.head? = some left ∧ left.isOperand := by simpa using hl
    obtain ⟨base, rfl, hbase⟩ := Item.exists_tree hleft
    obtain ⟨before, rfl⟩ : ∃ rest, before = .tree base :: rest :=
      ⟨before.tail, List.eq_cons_of_mem_head? hmem⟩
    cases item with
    | tree n => simp [Item.level?] at hlevel
    | subscript o index => simp [foldItem?, hbase] at hfold
    | operator o op =>
      have hnone : after.head?.filter Item.isOperand = none := by
        by_contra hsome
        obtain ⟨right, hr⟩ := Option.ne_none_iff_exists'.1 hsome
        obtain ⟨hmem, hright⟩ : after.head? = some right ∧ right.isOperand := by simpa using hr
        obtain ⟨rhs, rfl, htree⟩ := Item.exists_tree hright
        obtain ⟨after, rfl⟩ : ∃ rest, after = .tree rhs :: rest :=
          ⟨after.tail, List.eq_cons_of_mem_head? hmem⟩
        simp [foldItem?, hbase, htree] at hfold
      rw [hnone] at hrhs
      have hnext : headOr none after = after.head?.map Item.handle := by cases after <;> rfl
      simp [foldAt?, foldBinary?, candidateOf, hnext, hrhs, Item.cell]

/-- An index is folded. -/
theorem foldAt?_subscript {o : Origin} {base : Node} {index : List Node} (hbase : base.isOperand)
    (hs : s.Contains
      (chained none ((.tree base :: before).reverse ++ .subscript o index :: after) + m)) :
    ∃ s', s.foldAt? (candidateOf level (.tree base :: before) (.subscript o index)
        (headOr none after)) = some s' ∧ s'.size = s.size ∧ s'.Contains
      (chained none (before.reverse ++ .tree (.element o base index) :: after) + m) := by
  have hoperand : s.operand? (some base.handle) = some base.handle := by
    have hop := operand?_eq (has_neighbours (BlockStore.has_add.1 hs.has).1).1
    rwa [List.head?_cons, Option.filter_some_pos (by exact hbase)] at hop
  simp only [Item.chained_around_two, add_assoc, Item.handle_tree, Item.handle_subscript,
    Item.parts_tree, Item.parts_subscript, Item.cell_tree] at hs
  -- The cell to be changed is moved to the front of the sum before each change.
  have hfirst := hs.modify (·.withFirst base.handle)
  rw [add_left_comm] at hfirst
  have hnext := hfirst.modify (·.withNext none)
  rw [Node.withNext_cell, add_left_comm _ (chained _ _), add_left_comm _ (chained _ _)] at hnext
  have hfront := contains_relink hnext (some ⟨o.id⟩)
  have hfold : s.foldAt? (candidateOf level (.tree base :: before) (.subscript o index)
      (headOr none after)) =
        some (Cells.relink ((BlockStore.modify s ⟨o.id⟩ (·.withFirst base.handle)).modify
          base.handle (·.withNext none)) (before.head?.map Item.handle) (some ⟨o.id⟩)) := by
    simp [foldAt?, foldElement?, candidateOf, Item.cell, hoperand]
  refine ⟨_, hfold, by simp, hfront.of_eq ?_⟩
  have hcell : Item.cell (headOr none after) (.tree (.element o base index)) =
      (Item.cell (headOr none after) (.subscript o index)).withFirst base.handle := rfl
  have hhandle : Item.handle (.tree (.element o base index)) = ⟨o.id⟩ := rfl
  rw [Item.chained_around, hcell, hhandle, Item.parts_tree, Node.parts]
  ac_rfl

/-- An operator between its operands is folded. -/
theorem foldAt?_operator {o : Origin} {op : BinaryOp} {lhs rhs : Node} (hlhs : lhs.isOperand)
    (hrhs : rhs.isOperand)
    (hs : s.Contains
      (chained none ((.tree lhs :: before).reverse ++ .operator o op :: .tree rhs :: after) + m)) :
    ∃ s', s.foldAt? (candidateOf level (.tree lhs :: before) (.operator o op)
        (headOr none (.tree rhs :: after))) = some s' ∧ s'.size = s.size ∧
      s'.Contains (chained none (before.reverse ++ .tree (.binary o op lhs rhs) :: after) + m) := by
  obtain ⟨hbefore, hafter⟩ := has_neighbours (BlockStore.has_add.1 hs.has).1
  have hleft : s.operand? (some lhs.handle) = some lhs.handle := by
    have hop := operand?_eq hbefore
    rwa [List.head?_cons, Option.filter_some_pos (by exact hlhs)] at hop
  have hright : s.operand? (some rhs.handle) = some rhs.handle := by
    have hop := operand?_eq hafter
    rwa [List.head?_cons, Option.filter_some_pos (by exact hrhs)] at hop
  have hrest : (s.get? rhs.handle).bind Cell.next = headOr none after := by
    have hget : s.get? rhs.handle = _ := hafter (.tree rhs) rfl
    rw [hget]
    exact Item.cell_next (.tree rhs) _
  have hcells : s.Contains ({(⟨o.id⟩, Item.cell (some rhs.handle) (.operator o op))} +
      ({(lhs.handle, lhs.cell (some ⟨o.id⟩))} + ({(rhs.handle, rhs.cell (headOr none after))} +
        (chained (some lhs.handle) before.reverse +
          (lhs.parts + (rhs.parts + (chained none after + m))))))) := by
    refine hs.of_eq ?_
    simp only [Item.chained_around_two, chained, Item.handle_tree, Item.handle_operator,
      Item.parts_tree, Item.parts_operator, Item.cell_tree, Item.headOr_cons, zero_add]
    ac_rfl
  have hparts := hcells.modify fun cell =>
    (cell.withParts lhs.handle rhs.handle).withNext (headOr none after)
  rw [add_left_comm] at hparts
  have hleftNext := hparts.modify (·.withNext none)
  rw [Node.withNext_cell, add_left_comm _ {(rhs.handle, _)}, add_left_comm _ {(rhs.handle, _)}]
    at hleftNext
  have hrightNext := hleftNext.modify (·.withNext none)
  rw [Node.withNext_cell, add_left_comm _ (chained (some lhs.handle) _),
    add_left_comm _ (chained (some lhs.handle) _), add_left_comm _ (chained (some lhs.handle) _)]
    at hrightNext
  have hfront := contains_relink hrightNext (some ⟨o.id⟩)
  have hfold : s.foldAt? (candidateOf level (.tree lhs :: before) (.operator o op)
      (headOr none (.tree rhs :: after))) =
        some (Cells.relink (((BlockStore.modify s ⟨o.id⟩ fun cell =>
          (cell.withParts lhs.handle rhs.handle).withNext (headOr none after)).modify lhs.handle
            (·.withNext none)).modify rhs.handle (·.withNext none)) (before.head?.map Item.handle)
              (some ⟨o.id⟩)) := by
    simp [foldAt?, foldBinary?, candidateOf, Item.cell, hleft, hright, hrest]
  refine ⟨_, hfold, by simp, hfront.of_eq ?_⟩
  have hcell : Item.cell (headOr none after) (.tree (.binary o op lhs rhs)) =
      ((Item.cell (some rhs.handle) (.operator o op)).withParts lhs.handle rhs.handle).withNext
        (headOr none after) := rfl
  have hhandle : Item.handle (.tree (.binary o op lhs rhs)) = ⟨o.id⟩ := rfl
  rw [Item.chained_around, hcell, hhandle, Item.parts_tree, Node.parts]
  ac_rfl

/-- A step of folding does to the cells of a chain what it does to its items. -/
theorem foldAt?_eq_some (level : Nat)
    (hs : s.Contains (chained none (before.reverse ++ item :: after) + m))
    (hfold : foldItem? before item after = some (before', n, after')) :
    ∃ s', s.foldAt? (candidateOf level before item (headOr none after)) = some s' ∧
      s'.size = s.size ∧
      s'.Contains (chained none (before'.reverse ++ .tree n :: after') + m) := by
  rcases foldItem?_eq_some hfold with ⟨o, base, index, rfl, rfl, rfl, hbase, rfl⟩ |
    ⟨o, op, lhs, rhs, rfl, rfl, rfl, ⟨hlhs, hrhs⟩, rfl⟩
  · exact foldAt?_subscript hbase hs
  · exact foldAt?_operator hlhs hrhs hs

/-- The folded operator is the head of the chain if its first operand was. -/
theorem headOr_newHead (hfold : foldItem? before item after = some (before', n, after'))
    {next : Option Handle} {head : Handle}
    (hhead : headOr none (before.reverse ++ item :: after) = some head) :
    headOr none (before'.reverse ++ .tree n :: after') =
      some ((candidateOf level before item next).newHead head) := by
  obtain ⟨left, rfl, hhandle⟩ : ∃ left, before = left :: before' ∧ n.handle = item.handle := by
    rcases foldItem?_eq_some hfold with ⟨o, base, index, rfl, rfl, -, -, rfl⟩ |
      ⟨o, op, lhs, rhs, rfl, rfl, -, -, rfl⟩
    · exact ⟨_, rfl, rfl⟩
    · exact ⟨_, rfl, rfl⟩
  have hfront : (candidateOf level (left :: before') item next).beforeBefore =
      before'.head?.map Item.handle := rfl
  unfold Candidate.newHead
  rw [hfront]
  cases before' with
  | nil => exact congrArg some hhandle
  | cons second before' =>
    rw [List.reverse_cons, List.append_assoc, List.reverse_cons, List.append_assoc,
      Item.headOr_append] at hhead
    rw [List.reverse_cons, List.append_assoc, Item.headOr_append]
    exact hhead

/-- A step of folding leaves one operator less. -/
theorem countP_foldItem? (hlevel : item.level? = some level)
    (hfold : foldItem? before item after = some (before', n, after')) :
    (before'.reverse ++ .tree n :: after').countP (·.level?.isSome) + 1 =
      (before.reverse ++ item :: after).countP (·.level?.isSome) := by
  rcases foldItem?_eq_some hfold with ⟨o, base, index, rfl, rfl, rfl, -, rfl⟩ |
    ⟨o, op, lhs, rhs, rfl, rfl, rfl, -, rfl⟩
  · simp [Item.level?]
    omega
  · simp [Item.level?]
    omega

/-! ### All Steps on Cells -/

/-- What folding a chain of cells gives, and what resolving its items gives. Besides those of the
    chain, the cells of `m` are there. -/
inductive Folded (m : Layout) (size : Nat) :
    Cells × Except Token Handle → Except Token (List Node) → Prop
  /-- The cells of the trees are left, as many as before. -/
  | ok {s : Cells} {head : Handle} {nodes : List Node} :
    s.Contains (Node.chained nodes + m) → s.size = size → Node.headOf nodes = some head →
    Folded m size (s, .ok head) (.ok nodes)
  /-- The same operator lacks an operand. -/
  | error {s : Cells} {t : Token} : s.Sound → Folded m size (s, .error t) (.error t)

/-- A chain without operators stays as it is. -/
theorem Folded.of_trees {items : List Item} {head : Handle}
    (hs : s.Contains (chained none items + m)) (hhead : headOr none items = some head)
    (htrees : ∀ item ∈ items, item.level? = none) :
    Folded m s.size (s, .ok head) (resolve items) := by
  have hitems := eq_map_tree_of_level? htrees
  rw [hitems, Item.chained_map_tree] at hs
  rw [hitems, Item.headOr_map_tree] at hhead
  rw [hitems, resolve_map_tree]
  exact .ok hs rfl hhead

/-- The candidate of a chain is the operator that is folded next. -/
theorem best_candidate? {items : List Item} {head : Handle}
    (hs : s.Contains (chained none items + m)) (hhead : headOr none items = some head) :
    Best none items.reverse (s.candidate? head) := by
  have hchain := chain_eq_spine (BlockStore.has_add.1 hs.has).1 (length_le_size hs)
  have hbest : Best none (items.reverse ++ []) (candidateFrom none none none (spine none items)) :=
    best_candidateFrom (.absent (by simp))
  rw [List.append_nil] at hbest
  unfold candidate?
  rw [← hhead, hchain]
  exact hbest

theorem foldFrom_folded {limit : Nat} {items : List Item} {head : Handle}
    (hs : s.Contains (chained none items + m)) (hhead : headOr none items = some head)
    (hlimit : items.countP (·.level?.isSome) ≤ limit) :
    Folded m s.size (foldFrom limit s head) (resolve items) := by
  -- The limit is no less than the number of operators that lack their operands.
  induction limit generalizing s items head with
  | zero =>
    apply Folded.of_trees hs hhead
    intro item hitem
    have hnone := List.countP_eq_zero.1 (Nat.le_zero.1 hlimit) item hitem
    simpa using hnone
  | succ limit ih =>
    have hbest := best_candidate? hs hhead
    rw [foldFrom]
    generalize s.candidate? head = best at hbest
    generalize hpassed : items.reverse = passed at hbest
    cases hbest with
    | absent hnone =>
      refine .of_trees hs hhead fun item hitem => hnone item ?_
      rw [← hpassed]
      exact List.mem_reverse.2 hitem
    | @found level before after item hleads =>
      obtain rfl : items = before.reverse ++ item :: after := by
        rw [← List.reverse_reverse items, hpassed]
        simp
      rw [hleads.resolve_eq]
      cases hfold : foldItem? before item after with
      | none =>
        dsimp only
        rw [foldAt?_eq_none hs hleads.operator hfold]
        have htoken : (candidateOf level before item (headOr none after)).cell.token =
            item.origin.token := item.cell_token _
        rw [← htoken]
        exact .error hs.sound
      | some out =>
        obtain ⟨before', n, after'⟩ := out
        obtain ⟨s', hstep, hsize, hs'⟩ := foldAt?_eq_some level hs hfold
        have hcount := countP_foldItem? hleads.operator hfold
        dsimp only
        rw [hstep, ← hsize]
        exact ih hs' (headOr_newHead hfold hhead) (by omega)

/-- A chain of cells is folded into the trees that its items are resolved to. -/
theorem fold_folded {items : List Item} {head : Handle}
    (hs : s.Contains (chained none items + m)) (hhead : headOr none items = some head) :
    Folded m s.size (s.fold head) (resolve items) :=
  foldFrom_folded hs hhead (Nat.le_trans List.countP_le_length (length_le_size hs))

/-- No operator of a chain of trees lacks its operands. -/
theorem openLevel?_of_trees {nodes : List Node} (hs : s.Contains (Node.chained nodes + m))
    {head : Handle} (hhead : Node.headOf nodes = some head) :
    ∀ p ∈ s.chain (some head), p.2.openLevel? = none := by
  have hspine (nodes : List Node) :
      ∀ p ∈ spine none (nodes.map .tree), p.2.openLevel? = none := by
    induction nodes with
    | nil => simp [spine]
    | cons n nodes ih =>
      rw [List.map_cons, spine]
      exact List.forall_mem_cons.2 ⟨Item.openLevel?_cell _ _, ih⟩
  rw [← Item.chained_map_tree] at hs
  rw [← hhead, ← Item.headOr_map_tree,
    chain_eq_spine (BlockStore.has_add.1 hs.has).1 (length_le_size hs)]
  exact hspine nodes

/-- **Main theorem.** The cells of a chain that was just read are folded exactly if the chain is
    a juxtaposition of expressions, and into the cells of their trees: no operator is left, the
    trees hold the items of the chain in order, and every operand is bound tightly enough.
    Otherwise an operator of the chain is reported to miss an operand. -/
theorem fold_iff_juxtaposed {items : List Item} {head : Handle}
    (hs : s.Contains (chained none items + m)) (hhead : headOr none items = some head)
    (hflat : Flat items) :
    ((∃ t h, s.fold head = (t, .ok h)) ↔ ∃ nodes, Juxtaposed items nodes) ∧
    (∀ nodes, Juxtaposed items nodes →
      (∃ t h, s.fold head = (t, .ok h) ∧ t.trees h = nodes ∧
        t.Contains (Node.chained nodes + m) ∧ ∀ p ∈ t.chain (some h), p.2.openLevel? = none) ∧
      nodes.flatMap Node.inOrder = items ∧ ∀ n ∈ nodes, n.Ordered) ∧
    ((¬ ∃ nodes, Juxtaposed items nodes) →
      ∃ item ∈ items, ∃ token t, item.operatorToken? = some token ∧
        s.fold head = (t, .error token) ∧
        ∀ (b : Builder) (line : Nat) (strand : Strand), b.cells = s → strand.head = head →
          b.foldChain line strand = .error ⟨t, line, .missingOperand token.kind⟩) := by
  obtain ⟨hiff, htrees, -⟩ := resolve_iff_juxtaposed hflat
  have hfolded := fold_folded hs hhead
  cases hresolved : resolve items with
  | ok nodes =>
    have hnodes := (hiff nodes).1 hresolved
    obtain ⟨t, h, hfold, ht, hheadt⟩ : ∃ t h, s.fold head = (t, .ok h) ∧
        t.Contains (Node.chained nodes + m) ∧ Node.headOf nodes = some h := by
      rw [hresolved] at hfolded
      generalize s.fold head = folded at hfolded
      cases hfolded with
      | @ok t h _ ht _ hheadt => exact ⟨t, h, rfl, ht, hheadt⟩
    refine ⟨⟨fun _ => ⟨nodes, hnodes⟩, fun _ => ⟨t, h, hfold⟩⟩, fun nodes' hnodes' => ?_,
      fun hnone => absurd ⟨nodes, hnodes⟩ hnone⟩
    obtain rfl := hnodes.unique hnodes'
    obtain ⟨-, hordered⟩ := htrees nodes hnodes
    exact ⟨⟨t, h, hfold, trees_eq ht hheadt, ht, openLevel?_of_trees ht hheadt⟩, hordered⟩
  | error token =>
    obtain ⟨t, hfold⟩ : ∃ t, s.fold head = (t, .error token) := by
      rw [hresolved] at hfolded
      generalize s.fold head = folded at hfolded
      cases hfolded with
      | @error t _ _ => exact ⟨t, rfl⟩
    have hnone : ¬ ∃ nodes, Juxtaposed items nodes := by
      intro h
      obtain ⟨nodes, hnodes⟩ := h
      rw [(hiff nodes).2 hnodes] at hresolved
      cases hresolved
    obtain ⟨item, hitem, htoken⟩ := operator_of_resolve hresolved
    refine ⟨⟨fun h => ?_, fun h => absurd h hnone⟩,
      fun nodes hnodes => absurd ⟨nodes, hnodes⟩ hnone,
      fun _ => ⟨item, hitem, token, t, htoken, hfold, fun b line strand hb hstrand => ?_⟩⟩
    · obtain ⟨t', h, hok⟩ := h
      rw [hfold] at hok
      cases hok
    · unfold Builder.foldChain
      rw [hb, hstrand, hfold]

/-- The cells of `a = b + c`, one behind the other. -/
def assignPlus : Cells :=
  let cell (id : Nat) (kind : Token.Kind) (text : String) (cell : Cell.Kind) : Cell :=
    ⟨⟨kind, id, text, 1⟩, cell, if id < 4 then some ⟨id + 1⟩ else none, none, none⟩
  [cell 0 .name "a" .name, cell 1 .equals "=" (.operator .assign), cell 2 .name "b" .name,
    cell 3 .plus "+" (.operator .plus), cell 4 .name "c" .name].foldl (fun s c => (s.push c).2)
    .empty

/-- Assignment binds its operands more tightly than addition does. -/
theorem fold_assignPlus :
    let origin (id : Nat) (kind : Token.Kind) (text : String) : Origin :=
      ⟨id, ⟨kind, id, text, 1⟩⟩
    let a : Node := .name (origin 0 .name "a")
    let b : Node := .name (origin 2 .name "b")
    let c : Node := .name (origin 4 .name "c")
    let assign := origin 1 .equals "="
    let plus := origin 3 .plus "+"
    ∃ t h, assignPlus.fold ⟨0⟩ = (t, .ok h) ∧
      t.trees h = [.binary plus .plus (.binary assign .assign a b) c] := by
  intro origin a b c assign plus
  have hatom {level : Nat} {o : Origin} (h : level ≤ atomLevel) :
      Expression level [.tree (.name o)] (.name o) := (Expression.atom rfl).mono h
  have hassign : Expression BinaryOp.assign.level [.tree a, .operator assign .assign, .tree b]
      (.binary assign .assign a b) := .binary assign .assign (hatom (by decide)) (hatom (by decide))
  have hplus : Expression 1
      [.tree a, .operator assign .assign, .tree b, .operator plus .plus, .tree c]
      (.binary plus .plus (.binary assign .assign a b) c) :=
    .binary plus .plus (hassign.mono (by decide)) (hatom (by decide))
  have hs : assignPlus.Contains (chained none
      [.tree a, .operator assign .assign, .tree b, .operator plus .plus, .tree c] + 0) :=
    (((((Contains.empty.push _).push _).push _).push _).push _).of_eq (by decide)
  obtain ⟨-, hfold, -⟩ := fold_iff_juxtaposed hs rfl
    (.inside (by simp [Item.isFresh, Node.isAtom, a, b, c]))
  obtain ⟨⟨t, h, hfold, htrees, -⟩, -⟩ := hfold _ (.cons hplus .nil)
  exact ⟨t, h, hfold, htrees⟩

end Cells

end ByteBricks.Syntax
