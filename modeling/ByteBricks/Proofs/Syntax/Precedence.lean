import ByteBricks.Proofs.Syntax.Reading

/-! # Precedence

  What resolving a chain computes: the trees of an unambiguous grammar with one level
  for each strength of operators. Resolving goes through the levels one after the other
  and never looks back, so each direction needs an invariant over half resolved chains:
  behind a level, every tree is bound at least as tightly as that level. -/

namespace ByteBricks.Syntax

/-! ### The Grammar -/

/-- The level of a tree that no operator of its chain is the root of. -/
def atomLevel : Nat := 7

/-- Whether the tree is neither an operator nor the end of the script. -/
def Node.isAtom : Node → Bool
  | .element _ _ _ | .binary _ _ _ _ | .scriptEnd _ => false
  | _ => true

/-- The items that form one expression whose operators outside of delimiters all have
    this level or a tighter one. Operators of one level associate to the left. -/
inductive Expression : Nat → List Item → Node → Prop
  /-- A tree without operators. -/
  | atom {n : Node} : n.isAtom → Expression atomLevel [.tree n] n
  /-- An expression of a tighter level. -/
  | looser {level : Nat} {items : List Item} {n : Node} :
      Expression (level + 1) items n → Expression level items n
  /-- An operator between two operands. -/
  | binary {left right : List Item} {lhs rhs : Node} (o : Origin) (op : BinaryOp) :
      Expression op.level left lhs → Expression (op.level + 1) right rhs →
      Expression op.level (left ++ .operator o op :: right) (.binary o op lhs rhs)
  /-- An index behind what it indexes. -/
  | subscript {items : List Item} {base : Node} (o : Origin) (index : List Node) :
      Expression subscriptLevel items base →
      Expression subscriptLevel (items ++ [.subscript o index]) (.element o base index)

/-- A chain of expressions side by side, the end of the script behind them if it is
    there. -/
inductive Juxtaposed : List Item → List Node → Prop
  /-- No expression. -/
  | nil : Juxtaposed [] []
  /-- The end of the script. -/
  | scriptEnd (o : Origin) : Juxtaposed [.tree (.scriptEnd o)] [.scriptEnd o]
  /-- One more expression in front. -/
  | cons {items rest : List Item} {n : Node} {nodes : List Node} :
      Expression 1 items n → Juxtaposed rest nodes → Juxtaposed (items ++ rest) (n :: nodes)

/-- Whether the item is one that was just read. -/
def Item.isFresh : Item → Bool
  | .tree n => n.isAtom
  | .operator _ _ | .subscript _ _ => true

/-- The chains that were just read. Only the end of the script stands behind others. -/
inductive Flat : List Item → Prop
  /-- A chain inside the script. -/
  | inside {items : List Item} : (∀ item ∈ items, item.isFresh) → Flat items
  /-- The last chain of the script. -/
  | last {items : List Item} (o : Origin) :
      (∀ item ∈ items, item.isFresh) → Flat (items ++ [.tree (.scriptEnd o)])

/-! ### Trees in Order -/

/-- How tightly a tree is bound. The end of the script is bound by nothing. -/
def Node.level : Node → Nat
  | .element _ _ _ => subscriptLevel
  | .binary _ op _ _ => op.level
  | .scriptEnd _ => 0
  | _ => atomLevel

/-- The items that the tree is made from, in the order of the chain. -/
def Node.inOrder : Node → List Item
  | .element o base index => base.inOrder ++ [.subscript o index]
  | .binary o op lhs rhs => lhs.inOrder ++ .operator o op :: rhs.inOrder
  | n => [.tree n]

/-- Every left operand is bound at least as tightly as its operator, and every right
    operand more tightly. -/
def Node.Ordered : Node → Prop
  | .element _ base _ => base.Ordered ∧ subscriptLevel ≤ base.level
  | .binary _ op lhs rhs =>
    (lhs.Ordered ∧ op.level ≤ lhs.level) ∧ rhs.Ordered ∧ op.level < rhs.level
  | _ => True

theorem BinaryOp.level_pos (op : BinaryOp) : 1 ≤ op.level := by
  cases op <;> decide

theorem BinaryOp.level_lt_atomLevel (op : BinaryOp) : op.level < atomLevel := by
  cases op <;> decide

theorem subscriptLevel_lt_atomLevel : subscriptLevel < atomLevel := by decide

@[simp] theorem Node.level_of_isAtom {n : Node} (h : n.isAtom) : n.level = atomLevel := by
  cases n with
  | element | binary | scriptEnd => simp [isAtom] at h
  | _ => rfl

@[simp] theorem Node.inOrder_of_isAtom {n : Node} (h : n.isAtom) : n.inOrder = [.tree n] := by
  cases n with
  | element | binary => simp [isAtom] at h
  | _ => rfl

theorem Node.ordered_of_isAtom {n : Node} (h : n.isAtom) : n.Ordered := by
  cases n with
  | element | binary => simp [isAtom] at h
  | _ => trivial

/-- Only the end of the script is no operand. -/
theorem Node.isOperand_of_level {n : Node} (h : 1 ≤ n.level) : n.isOperand := by
  cases n with
  | scriptEnd => simp [level] at h
  | _ => rfl

theorem Expression.mono {level level' : Nat} {items : List Item} {n : Node}
    (h : Expression level' items n) (hle : level ≤ level') : Expression level items n := by
  induction hle with
  | refl => exact h
  | step _ ih => exact ih h.looser

/-- An expression is read off from its tree. -/
theorem expression_iff {level : Nat} {items : List Item} {n : Node} (hpos : 1 ≤ level) :
    Expression level items n ↔ n.inOrder = items ∧ n.Ordered ∧ level ≤ n.level := by
  constructor
  · intro h
    induction h with
    | atom hatom =>
      exact ⟨Node.inOrder_of_isAtom hatom, Node.ordered_of_isAtom hatom,
        Nat.le_of_eq (Node.level_of_isAtom hatom).symm⟩
    | looser _ ih =>
      obtain ⟨hitems, hordered, hle⟩ := ih (by omega)
      exact ⟨hitems, hordered, by omega⟩
    | binary o op _ _ ihl ihr =>
      obtain ⟨rfl, hlhs, hl⟩ := ihl op.level_pos
      obtain ⟨rfl, hrhs, hr⟩ := ihr (by omega)
      exact ⟨rfl, ⟨⟨hlhs, hl⟩, hrhs, hr⟩, Nat.le_refl _⟩
    | subscript o index _ ih =>
      obtain ⟨rfl, hbase, hle⟩ := ih (by decide)
      exact ⟨rfl, ⟨hbase, hle⟩, Nat.le_refl _⟩
  · rintro ⟨rfl, hordered, hle⟩
    -- The tree has its own level, and from there on all looser ones.
    refine Expression.mono ?_ hle
    have hone : 1 ≤ n.level := by omega
    clear hpos hle level
    fun_induction Node.inOrder n with
    | case1 o base index ih =>
      obtain ⟨hbase, hle⟩ := hordered
      have hone : 1 ≤ base.level := by
        unfold subscriptLevel at hle
        omega
      exact .subscript o index ((ih hbase hone).mono hle)
    | case2 o op lhs rhs ihl ihr =>
      obtain ⟨⟨hlhs, hl⟩, hrhs, hr⟩ := hordered
      have hop := op.level_pos
      exact .binary o op ((ihl hlhs (by omega)).mono hl) ((ihr hrhs (by omega)).mono hr)
    | case3 n helement hbinary =>
      have hatom : n.isAtom := by
        cases n with
        | element o base index => exact absurd rfl (helement o base index)
        | binary o op lhs rhs => exact absurd rfl (hbinary o op lhs rhs)
        | scriptEnd o => simp [Node.level] at hone
        | _ => rfl
      rw [Node.level_of_isAtom hatom]
      exact .atom hatom

/-- The trees of a juxtaposition give its items back. -/
theorem Juxtaposed.inOrder {items : List Item} {nodes : List Node} (h : Juxtaposed items nodes) :
    nodes.flatMap Node.inOrder = items ∧ ∀ n ∈ nodes, n.Ordered := by
  induction h with
  | nil => simp
  | scriptEnd o => simp [Node.inOrder, Node.Ordered]
  | cons hn _ ih =>
    obtain ⟨hitems, hordered, -⟩ := (expression_iff (Nat.le_refl 1)).1 hn
    obtain ⟨hrest, hnodes⟩ := ih
    rw [List.flatMap_cons, hitems, hrest]
    exact ⟨rfl, List.forall_mem_cons.2 ⟨hordered, hnodes⟩⟩

theorem juxtaposed_append {front nodes : List Node} {items : List Item}
    (hfront : ∀ n ∈ front, n.Ordered ∧ 1 ≤ n.level) (h : Juxtaposed items nodes) :
    Juxtaposed (front.flatMap Node.inOrder ++ items) (front ++ nodes) := by
  induction front with
  | nil => exact h
  | cons n front ih =>
    obtain ⟨hn, hfront⟩ := List.forall_mem_cons.1 hfront
    rw [List.flatMap_cons, List.append_assoc, List.cons_append]
    exact .cons ((expression_iff (Nat.le_refl 1)).2 ⟨rfl, hn⟩) (ih hfront)

/-! ### Every Juxtaposition is Resolved -/

/-- What is left of a tree while only the operators of `level` and of tighter levels have
    their operands. -/
def Node.cut (level : Nat) : Node → List Item
  | .element o base index =>
    if level ≤ subscriptLevel then [.tree (.element o base index)]
    else base.cut level ++ [.subscript o index]
  | .binary o op lhs rhs =>
    if level ≤ op.level then [.tree (.binary o op lhs rhs)]
    else lhs.cut level ++ .operator o op :: rhs.cut level
  | n => [.tree n]

theorem Node.cut_of_le {level : Nat} {n : Node} (h : level ≤ n.level) :
    n.cut level = [.tree n] := by
  cases n with
  | element o base index => exact if_pos h
  | binary o op lhs rhs => exact if_pos h
  | _ => rfl

theorem Node.cut_atomLevel (n : Node) : n.cut atomLevel = n.inOrder := by
  fun_induction Node.inOrder n with
  | case1 o base index ih =>
    rw [cut, if_neg (Nat.not_le_of_lt subscriptLevel_lt_atomLevel), ih]
  | case2 o op lhs rhs ihl ihr =>
    rw [cut, if_neg (Nat.not_le_of_lt op.level_lt_atomLevel), ihl, ihr]
  | case3 n helement hbinary =>
    cases n with
    | element o base index => exact absurd rfl (helement o base index)
    | binary o op lhs rhs => exact absurd rfl (hbinary o op lhs rhs)
    | _ => rfl

theorem Node.cut_one (n : Node) : n.cut 1 = [.tree n] := by
  cases n with
  | binary o op lhs rhs => exact cut_of_le op.level_pos
  | _ => rfl

/-- An operator of another level is passed over. -/
theorem resolveLevel_operator {level : Nat} {op : BinaryOp} (h : level ≠ op.level) (o : Origin)
    (before after : List Item) :
    resolveLevel level before (.operator o op :: after) =
      resolveLevel level (.operator o op :: before) after := by
  conv => lhs; rw [resolveLevel.eq_def]
  cases after with
  | nil => exact if_neg h
  | cons item after =>
    cases item with
    | tree n =>
      rw [resolveLevel]
      exact if_neg h
    | operator | subscript => exact if_neg h

theorem resolveLevel_subscript {level : Nat} (h : level ≠ subscriptLevel) (o : Origin)
    (index : List Node) (before after : List Item) :
    resolveLevel level before (.subscript o index :: after) =
      resolveLevel level (.subscript o index :: before) after := by
  rw [resolveLevel.eq_def]
  dsimp only
  rw [if_neg h]

/-- A level takes a tree that is cut into the next tighter level to the tree that is cut
    into this level. -/
theorem resolveLevel_cut {level : Nat} {n : Node} (hn : n.Ordered) (before rest : List Item) :
    resolveLevel level before (n.cut (level + 1) ++ rest) =
      resolveLevel level ((n.cut level).reverse ++ before) rest := by
  -- The operator at the root is tighter than the level, of the level, or looser.
  fun_induction Node.cut (level + 1) n generalizing before rest with
  | case1 o base index hlt =>
    rw [Node.cut, if_pos (by omega)]
    exact resolveLevel.eq_2 ..
  | case2 o base index hle ih =>
    obtain ⟨hbase, hlevel⟩ := hn
    rw [List.append_assoc, ih hbase, List.singleton_append]
    by_cases heq : level = subscriptLevel
    · have hone : 1 ≤ base.level := Nat.le_trans (by decide) hlevel
      rw [Node.cut_of_le (heq ▸ hlevel), Node.cut, if_pos (Nat.le_of_eq heq)]
      rw [List.reverse_singleton, List.singleton_append, resolveLevel, if_pos heq,
        if_pos (Node.isOperand_of_level hone)]
      rfl
    · rw [resolveLevel_subscript heq, Node.cut, if_neg (by omega)]
      simp
  | case3 o op lhs rhs hlt =>
    rw [Node.cut, if_pos (by omega)]
    exact resolveLevel.eq_2 ..
  | case4 o op lhs rhs hle ihl ihr =>
    obtain ⟨⟨hlhs, hl⟩, hrhs, hr⟩ := hn
    rw [List.append_assoc, ihl hlhs, List.cons_append]
    by_cases heq : level = op.level
    · have hop := op.level_pos
      have hoperands : (lhs.isOperand && rhs.isOperand) = true := by
        rw [Node.isOperand_of_level (by omega), Node.isOperand_of_level (by omega)]
        rfl
      rw [Node.cut_of_le (n := lhs) (by omega), Node.cut_of_le (n := rhs) (by omega),
        Node.cut, if_pos (Nat.le_of_eq heq)]
      rw [List.reverse_singleton, List.singleton_append, List.singleton_append, resolveLevel,
        if_pos heq, if_pos hoperands]
      rfl
    · rw [resolveLevel_operator heq, ihr hrhs, Node.cut, if_neg (by omega)]
      simp
  | case5 n helement hbinary =>
    rw [Node.cut]
    · exact resolveLevel.eq_2 ..
    · exact helement
    · exact hbinary

theorem resolveLevel_cuts {level : Nat} {nodes : List Node} (h : ∀ n ∈ nodes, n.Ordered)
    (before : List Item) :
    resolveLevel level before (nodes.flatMap (Node.cut (level + 1))) =
      .ok (before.reverse ++ nodes.flatMap (Node.cut level)) := by
  induction nodes generalizing before with
  | nil => simp [resolveLevel]
  | cons n nodes ih =>
    obtain ⟨hn, hnodes⟩ := List.forall_mem_cons.1 h
    rw [List.flatMap_cons, resolveLevel_cut hn, ih hnodes]
    simp

/-- Ordered trees are what their items are resolved to. -/
theorem resolve_of_ordered {nodes : List Node} (h : ∀ n ∈ nodes, n.Ordered) :
    resolve (nodes.flatMap Node.inOrder) = .ok nodes := by
  have hcuts (level : Nat) : resolveLevel level [] (nodes.flatMap (Node.cut (level + 1))) =
      .ok (nodes.flatMap (Node.cut level)) := resolveLevel_cuts h []
  have htop : nodes.flatMap Node.inOrder = nodes.flatMap (Node.cut 7) := by
    rw [← funext Node.cut_atomLevel]
    rfl
  have hbottom : nodes.map Item.tree = nodes.flatMap (Node.cut 1) := by
    rw [funext Node.cut_one, List.map_eq_flatMap]
  rw [resolve_eq_ok_iff, htop, hbottom]
  iterate 6 refine levels_cons_eq_ok.2 ⟨_, hcuts _, ?_⟩
  rfl

/-! ### Every Resolved Chain is a Juxtaposition -/

/-- The items that an item of a half resolved chain is made from. -/
def Item.inOrder : Item → List Item
  | .tree n => n.inOrder
  | .operator o op => [.operator o op]
  | .subscript o index => [.subscript o index]

/-- What a level leaves: trees that are bound at least as tightly as the level. -/
def Item.Bound (level : Nat) : Item → Prop
  | .tree n => n.Ordered ∧ level ≤ n.level
  | .operator _ _ | .subscript _ _ => True

theorem Item.inOrder_of_isFresh {item : Item} (h : item.isFresh) : item.inOrder = [item] := by
  cases item with
  | tree n => exact Node.inOrder_of_isAtom h
  | operator | subscript => rfl

theorem Item.bound_of_isFresh {item : Item} (h : item.isFresh) : item.Bound atomLevel := by
  cases item with
  | tree n => exact ⟨Node.ordered_of_isAtom h, Nat.le_of_eq (Node.level_of_isAtom h).symm⟩
  | operator | subscript => trivial

/-- A level neither loses nor moves an item. -/
theorem inOrder_of_resolveLevel {level : Nat} {before items out : List Item}
    (h : resolveLevel level before items = .ok out) :
    out.flatMap Item.inOrder =
      before.reverse.flatMap Item.inOrder ++ items.flatMap Item.inOrder := by
  fun_induction resolveLevel level before items generalizing out with
  | case1 before =>
    cases h
    simp
  | case2 before n after ih => simpa using ih h
  | case3 o index after hlevel base before hbase ih =>
    simpa [Item.inOrder, Node.inOrder] using ih h
  | case6 before o index after hlevel ih => simpa using ih h
  | case7 o op rhs after hlevel lhs before hoperands ih =>
    simpa [Item.inOrder, Node.inOrder] using ih h
  | case10 before o op rhs after hlevel ih => simpa using ih h
  | case12 before o op after htree hlevel ih => simpa using ih h
  | case4 | case5 | case8 | case9 | case11 => simp at h

theorem bound_of_resolveLevel {level : Nat} {items out : List Item}
    (h : resolveLevel level [] items = .ok out)
    (hitems : ∀ item ∈ items, item.Bound (level + 1)) : ∀ item ∈ out, item.Bound level := by
  refine forall_of_resolveLevel ?_ ?_ ?_ h (by simp) hitems
  · intro item hitem _
    cases item with
    | tree n => exact ⟨hitem.1, Nat.le_of_succ_le hitem.2⟩
    | operator | subscript => trivial
  · rintro o base index rfl hbase _
    exact ⟨hbase, Nat.le_refl _⟩
  · rintro o op lhs rhs rfl hlhs hrhs
    exact ⟨⟨hlhs, hrhs⟩, Nat.le_refl _⟩

/-- A chain of fresh items is resolved to ordered trees of the same items. -/
theorem ordered_of_resolve {items : List Item} {nodes : List Node}
    (h : resolve items = .ok nodes) (hfresh : ∀ item ∈ items, item.isFresh) :
    nodes.flatMap Node.inOrder = items ∧ ∀ n ∈ nodes, n.Ordered ∧ 1 ≤ n.level := by
  constructor
  · have hout := resolve_induction
      (R := fun items out => out.flatMap Item.inOrder = items.flatMap Item.inOrder)
      (fun _ => rfl) (fun hlevel ih => ih.trans (inOrder_of_resolveLevel hlevel)) h
    rw [List.flatMap_map] at hout
    refine hout.trans ?_
    clear h hout
    induction items with
    | nil => rfl
    | cons item items ih =>
      obtain ⟨hitem, hitems⟩ := List.forall_mem_cons.1 hfresh
      rw [List.flatMap_cons, Item.inOrder_of_isFresh hitem, ih hitems, List.singleton_append]
  · intro n hn
    obtain ⟨_, h6, h⟩ := levels_cons_eq_ok.1 (resolve_eq_ok_iff.1 h)
    obtain ⟨_, h5, h⟩ := levels_cons_eq_ok.1 h
    obtain ⟨_, h4, h⟩ := levels_cons_eq_ok.1 h
    obtain ⟨_, h3, h⟩ := levels_cons_eq_ok.1 h
    obtain ⟨_, h2, h⟩ := levels_cons_eq_ok.1 h
    obtain ⟨out, h1, h⟩ := levels_cons_eq_ok.1 h
    have hseven : ∀ item ∈ items, item.Bound atomLevel :=
      fun item hitem => Item.bound_of_isFresh (hfresh item hitem)
    have hfive := bound_of_resolveLevel h5 (bound_of_resolveLevel h6 hseven)
    have hthree := bound_of_resolveLevel h3 (bound_of_resolveLevel h4 hfive)
    have hone := bound_of_resolveLevel h1 (bound_of_resolveLevel h2 hthree)
    cases h
    exact hone _ (List.mem_map_of_mem hn)

theorem resolve_of_juxtaposed {items : List Item} {nodes : List Node}
    (h : Juxtaposed items nodes) : resolve items = .ok nodes := by
  obtain ⟨hitems, hordered⟩ := h.inOrder
  rw [← hitems]
  exact resolve_of_ordered hordered

/-- The grammar is unambiguous. -/
theorem Juxtaposed.unique {items : List Item} {nodes nodes' : List Node}
    (h : Juxtaposed items nodes) (h' : Juxtaposed items nodes') : nodes = nodes' := by
  have heq := (resolve_of_juxtaposed h).symm.trans (resolve_of_juxtaposed h')
  exact Except.ok.inj heq

theorem juxtaposed_of_resolve {items : List Item} {nodes : List Node} (hflat : Flat items)
    (h : resolve items = .ok nodes) : Juxtaposed items nodes := by
  cases hflat with
  | inside hfresh =>
    obtain ⟨hitems, hordered⟩ := ordered_of_resolve h hfresh
    have hjuxtaposed := juxtaposed_append hordered .nil
    rwa [hitems, List.append_nil, List.append_nil] at hjuxtaposed
  | last o hfresh =>
    obtain ⟨before, hbefore, rfl⟩ := resolve_scriptEnd.1 h
    obtain ⟨hitems, hordered⟩ := ordered_of_resolve hbefore hfresh
    have hjuxtaposed := juxtaposed_append hordered (.scriptEnd o)
    rwa [hitems] at hjuxtaposed

/-! ### Missing Operands -/

/-- The token of an operator that has no operands yet. -/
def Item.operatorToken? : Item → Option Token
  | .tree _ => none
  | .operator o _ | .subscript o _ => some o.token

theorem operator_of_resolveLevel {level : Nat} {before items : List Item} {t : Token}
    (h : resolveLevel level before items = .error t) :
    ∃ item ∈ items, item.operatorToken? = some t := by
  fun_induction resolveLevel level before items with
  | case1 => simp at h
  | case2 | case3 | case6 | case12 =>
    rename_i ih
    obtain ⟨item, hitem, ht⟩ := ih h
    exact ⟨item, .tail _ hitem, ht⟩
  | case7 | case10 =>
    rename_i ih
    obtain ⟨item, hitem, ht⟩ := ih h
    exact ⟨item, .tail _ (.tail _ hitem), ht⟩
  | case4 | case5 | case8 | case9 | case11 =>
    cases h
    exact ⟨_, .head _, rfl⟩

theorem operator_of_levels {levels : List Nat} {items : List Item} {t : Token}
    (h : levels.foldlM (fun items level => resolveLevel level [] items) items = .error t) :
    ∃ item ∈ items, item.operatorToken? = some t := by
  induction levels generalizing items with
  | nil => simp [pure, Except.pure] at h
  | cons level levels ih =>
    rw [List.foldlM_cons] at h
    cases hnext : resolveLevel level [] items with
    | error t' =>
      rw [hnext] at h
      cases h
      exact operator_of_resolveLevel hnext
    | ok next =>
      rw [hnext] at h
      obtain ⟨item, hitem, ht⟩ := ih h
      -- The operators that a level leaves were there before.
      let P : Item → Prop := fun item => ∀ t, item.operatorToken? = some t →
        ∃ item ∈ items, item.operatorToken? = some t
      have hkept : ∀ item ∈ next, P item :=
        forall_of_resolveLevel (fun _ hitem _ => hitem) (fun _ _ _ _ _ _ => nofun)
          (fun _ _ _ _ _ _ _ => nofun) hnext (by simp) fun item hitem _ ht => ⟨item, hitem, ht⟩
      exact hkept item hitem t ht

/-- Resolving fails with the token of an operator of the chain. -/
theorem operator_of_resolve {items : List Item} {t : Token} (h : resolve items = .error t) :
    ∃ item ∈ items, item.operatorToken? = some t := by
  unfold resolve at h
  cases hout : levels.foldlM (fun items level => resolveLevel level [] items) items with
  | ok out => simp [hout, bind, Except.bind, pure, Except.pure] at h
  | error t' =>
    rw [hout] at h
    cases h
    exact operator_of_levels hout

/-! ### Resolving Chains -/

/-- A chain that was just read is resolved exactly if it is a
    juxtaposition of expressions, and to their trees: no operator is left, the trees hold
    the items of the chain in order, and every operand is bound tightly enough.
    Otherwise an operator of the chain is reported to miss an operand. -/
theorem resolve_iff_juxtaposed {items : List Item} (hflat : Flat items) :
    (∀ nodes, resolve items = .ok nodes ↔ Juxtaposed items nodes) ∧
    (∀ nodes, Juxtaposed items nodes →
      levels.foldlM (fun items level => resolveLevel level [] items) items =
        .ok (nodes.map .tree) ∧
      nodes.flatMap Node.inOrder = items ∧ ∀ n ∈ nodes, n.Ordered) ∧
    ((¬ ∃ nodes, Juxtaposed items nodes) →
      ∀ (r : Reader) (line : Nat), r.chain.reverse = items →
        ∃ item ∈ items, ∃ t, item.operatorToken? = some t ∧
          r.resolveChain line = .error ⟨line, .missingOperand t.kind⟩) := by
  refine ⟨fun nodes => ⟨juxtaposed_of_resolve hflat, resolve_of_juxtaposed⟩, ?_, ?_⟩
  · intro nodes h
    exact ⟨resolve_eq_ok_iff.1 (resolve_of_juxtaposed h), h.inOrder⟩
  · intro hnone r line hchain
    cases h : resolve items with
    | ok nodes => exact absurd ⟨nodes, juxtaposed_of_resolve hflat h⟩ hnone
    | error t =>
      obtain ⟨item, hitem, ht⟩ := operator_of_resolve h
      refine ⟨item, hitem, t, ht, ?_⟩
      rw [Reader.resolveChain, hchain, h]

end ByteBricks.Syntax
