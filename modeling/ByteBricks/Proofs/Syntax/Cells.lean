import ByteBricks.Proofs.BlockStore.Contents
import ByteBricks.Proofs.Syntax.Chain
import ByteBricks.Syntax.Cell
import Mathlib.Algebra.Order.Group.Multiset

/-! # Trees in Cells

  Which cells a tree is stored in, and which ones a chain, whose items may still lack their
  operands. The number of a tree is the position of its cell. Main statement: a store that
  contains the cells of a chain gives its trees back. -/

namespace ByteBricks.Syntax

open BlockStore (Contains Has)

/-- Cells and where they are. -/
abbrev Layout := Multiset (Handle × Cell)

/-! ### The Cells of a Tree -/

namespace Node

/-- Where the cell of the tree is. -/
def handle (n : Node) : Handle := ⟨n.origin.id⟩

/-- Where the cell of the first tree is. -/
def headOf (nodes : List Node) : Option Handle := nodes.head?.map handle

/-- The cell of the tree. -/
def cell (next : Option Handle) : Node → Cell
  | name o => ⟨o.token, .name, next, none, none⟩
  | integer o => ⟨o.token, .integer, next, none, none⟩
  | control o word => ⟨o.token, .control word, next, none, none⟩
  | structHead o n => ⟨o.token, .structHead, next, some ⟨n.id⟩, none⟩
  | paren o inner => ⟨o.token, .paren, next, headOf inner, none⟩
  | block o body => ⟨o.token, .block, next, headOf body, none⟩
  | element o base index => ⟨o.token, .element, next, some base.handle, headOf index⟩
  | binary o op lhs rhs => ⟨o.token, .operator op, next, some lhs.handle, some rhs.handle⟩
  | scriptEnd o => ⟨o.token, .scriptEnd, next, none, none⟩

@[simp] theorem withNext_cell (n : Node) (next next' : Option Handle) :
    (n.cell next).withNext next' = n.cell next' := by
  cases n <;> rfl

mutual

/-- The cells of what the tree is made from. -/
def parts : Node → Layout
  | name _ | integer _ | control _ _ | scriptEnd _ => 0
  | structHead _ n => {(⟨n.id⟩, .plain n.token .name)}
  | paren _ inner => chained inner
  | block _ body => chained body
  | element _ base index => {(base.handle, base.cell none)} + base.parts + chained index
  | binary _ _ lhs rhs =>
    {(lhs.handle, lhs.cell none)} + lhs.parts + ({(rhs.handle, rhs.cell none)} + rhs.parts)

/-- The cells of a chain of trees. -/
def chained : List Node → Layout
  | [] => 0
  | n :: rest => {(n.handle, n.cell (headOf rest))} + n.parts + chained rest

end

end Node

/-! ### The Cells of a Chain -/

namespace Item

/-- Where the item comes from. -/
def origin : Item → Origin
  | tree n => n.origin
  | operator o _ | subscript o _ => o

/-- Where the cell of the item is. -/
def handle (item : Item) : Handle := ⟨item.origin.id⟩

/-- The cell of the item. What still lacks its operands refers to none. -/
def cell (next : Option Handle) : Item → Cell
  | tree n => n.cell next
  | operator o op => ⟨o.token, .operator op, next, none, none⟩
  | subscript o index => ⟨o.token, .element, next, none, Node.headOf index⟩

/-- The cells of what the item is made from. -/
def parts : Item → Layout
  | tree n => n.parts
  | operator _ _ => 0
  | subscript _ index => Node.chained index

/-- Where the cell of the first item is, or `after` if there is no item. -/
def headOr (after : Option Handle) (items : List Item) : Option Handle :=
  (items.head?.map handle).or after

/-- The cells that a walk along a chain meets, when the last one refers to `after`. -/
def spine (after : Option Handle) : List Item → List (Handle × Cell)
  | [] => []
  | item :: rest => (item.handle, item.cell (headOr after rest)) :: spine after rest

/-- The cells of a chain, when the last item refers to `after`. -/
def chained (after : Option Handle) : List Item → Layout
  | [] => 0
  | item :: rest =>
    {(item.handle, item.cell (headOr after rest))} + item.parts + chained after rest

variable {after after' : Option Handle} {items : List Item}

@[simp] theorem handle_tree (n : Node) : (tree n).handle = n.handle := rfl

@[simp] theorem handle_operator (o : Origin) (op : BinaryOp) :
    (operator o op).handle = ⟨o.id⟩ := rfl

@[simp] theorem handle_subscript (o : Origin) (index : List Node) :
    (subscript o index).handle = ⟨o.id⟩ := rfl

@[simp] theorem cell_tree (n : Node) (next : Option Handle) :
    (tree n).cell next = n.cell next := rfl

@[simp] theorem parts_tree (n : Node) : (tree n).parts = n.parts := rfl

@[simp] theorem parts_operator (o : Origin) (op : BinaryOp) : (operator o op).parts = 0 := rfl

@[simp] theorem parts_subscript (o : Origin) (index : List Node) :
    (subscript o index).parts = Node.chained index := rfl

@[simp] theorem withNext_cell (item : Item) (next next' : Option Handle) :
    (item.cell next).withNext next' = item.cell next' := by
  cases item with
  | tree n => exact n.withNext_cell next next'
  | operator o op | subscript o index => rfl

@[simp] theorem cell_next (item : Item) (next : Option Handle) : (item.cell next).next = next := by
  cases item with
  | tree n => cases n <;> rfl
  | operator o op | subscript o index => rfl

@[simp] theorem cell_token (item : Item) (next : Option Handle) :
    (item.cell next).token = item.origin.token := by
  cases item with
  | tree n => cases n <;> rfl
  | operator o op | subscript o index => rfl

@[simp] theorem headOr_nil : headOr after [] = after := rfl

@[simp] theorem headOr_cons (item : Item) : headOr after (item :: items) = some item.handle := rfl

theorem headOr_append (front : List Item) :
    headOr after (front ++ items) = headOr (headOr after items) front := by
  cases front <;> rfl

theorem headOr_map_tree (nodes : List Node) :
    headOr none (nodes.map .tree) = Node.headOf nodes := by
  cases nodes <;> rfl

theorem spine_append (front : List Item) :
    spine after (front ++ items) = spine (headOr after items) front ++ spine after items := by
  induction front with
  | nil => rfl
  | cons item front ih =>
    rw [List.cons_append, spine, spine, ih, headOr_append]
    rfl

theorem chained_append (front : List Item) :
    chained after (front ++ items) = chained (headOr after items) front + chained after items := by
  induction front with
  | nil => rw [List.nil_append, chained, zero_add]
  | cons item front ih =>
    rw [List.cons_append, chained, chained, ih, headOr_append]
    simp only [add_assoc]

theorem chained_map_tree (nodes : List Node) :
    chained none (nodes.map .tree) = Node.chained nodes := by
  induction nodes with
  | nil => rw [Node.chained]; rfl
  | cons n nodes ih => rw [List.map_cons, chained, Node.chained, ih, headOr_map_tree]; rfl

theorem spine_map_fst (items : List Item) :
    (spine after items).map Prod.fst = items.map handle := by
  induction items with
  | nil => rfl
  | cons item items ih => rw [spine, List.map_cons, List.map_cons, ih]

/-- A chain has at least one cell for each item. -/
theorem length_le_card (after : Option Handle) (items : List Item) :
    items.length ≤ (chained after items).card := by
  induction items with
  | nil => exact Nat.zero_le _
  | cons item items ih =>
    rw [chained, Multiset.card_add, Multiset.card_add, Multiset.card_singleton, List.length_cons]
    omega

/-- The cells of a chain, apart from its last one. -/
theorem chained_concat (front : List Item) (item : Item) :
    chained after (front ++ [item]) =
      {(item.handle, item.cell after)} + (chained (some item.handle) front + item.parts) := by
  rw [chained_append, headOr_cons, chained, chained, headOr_nil]
  ac_rfl

/-- The cells of a chain, apart from those of one of its items. The items in front of it are in
    reverse. -/
theorem chained_around (before : List Item) (item : Item) (rest : List Item) :
    chained after (before.reverse ++ item :: rest) =
      {(item.handle, item.cell (headOr after rest))} +
        (chained (some item.handle) before.reverse + (item.parts + chained after rest)) := by
  rw [chained_append, headOr_cons, chained]
  ac_rfl

/-- The cells of a chain, apart from those of two of its items side by side. -/
theorem chained_around_two (before : List Item) (left item : Item) (rest : List Item) :
    chained after ((left :: before).reverse ++ item :: rest) =
      {(item.handle, item.cell (headOr after rest))} +
        ({(left.handle, left.cell (some item.handle))} +
          (chained (some left.handle) before.reverse +
            (left.parts + (item.parts + chained after rest)))) := by
  rw [chained_around, List.reverse_cons, chained_concat]
  ac_rfl

end Item

/-! ### Walks -/

namespace Cells

open Item (chained headOr spine)

variable {s : Cells} {items : List Item} {after : Option Handle} {m : Layout} {nodes : List Node}

theorem walk_eq_spine {limit : Nat} (hs : s.Has (chained none items))
    (hlimit : items.length ≤ limit) : s.walk limit (headOr none items) = spine none items := by
  induction items generalizing limit with
  | nil => cases limit <;> rfl
  | cons item items ih =>
    rw [List.length_cons] at hlimit
    obtain ⟨limit, rfl⟩ : ∃ l, limit = l + 1 := ⟨limit - 1, by omega⟩
    rw [chained, BlockStore.has_add, BlockStore.has_add, BlockStore.has_singleton] at hs
    obtain ⟨⟨hget, -⟩, hrest⟩ := hs
    rw [Item.headOr_cons, walk, hget]
    show (item.handle, _) :: s.walk limit (item.cell _).next = _
    rw [Item.cell_next, ih hrest (by omega)]
    rfl

/-- A chain is walked to its end. -/
theorem chain_eq_spine (hs : s.Has (chained none items)) (hsize : items.length ≤ s.size) :
    s.chain (headOr none items) = spine none items :=
  walk_eq_spine hs hsize

theorem length_le_size (hs : s.Contains (chained after items + m)) : items.length ≤ s.size := by
  have hlength := Item.length_le_card after items
  rw [← hs.card, Multiset.card_add]
  omega

theorem last_eq {front : List Item} {item : Item}
    (hs : s.Contains (chained none (front ++ [item]) + m)) {head : Handle}
    (hhead : headOr none (front ++ [item]) = some head) : s.last head = item.handle := by
  have hchain := chain_eq_spine (BlockStore.has_add.1 hs.has).1 (length_le_size hs)
  unfold last
  rw [← hhead, hchain, Item.spine_append]
  simp [spine]

@[simp] theorem relink_size (s : Cells) (h next : Option Handle) :
    (s.relink h next).size = s.size := by
  cases h with
  | none => rfl
  | some h => exact BlockStore.modify_size s h _

/-- The last cell of a chain is made to refer to another cell. The items are in reverse. -/
theorem contains_relink (hs : s.Contains (chained after items.reverse + m)) (next : Option Handle) :
    (s.relink (items.head?.map Item.handle) next).Contains (chained next items.reverse + m) := by
  cases items with
  | nil => exact hs
  | cons item items =>
    rw [List.reverse_cons, Item.chained_concat, add_assoc] at hs ⊢
    have hs := hs.modify (·.withNext next)
    rwa [Item.withNext_cell] at hs

/-! ### Reading Trees Back -/

mutual

/-- The cells of a tree give it back. -/
theorem tree?_eq {limit : Nat} (n : Node) {next : Option Handle}
    (hs : s.Has ({(n.handle, n.cell next)} + n.parts)) (hlimit : n.parts.card < limit)
    (hsize : n.parts.card < s.size) : s.tree? limit n.handle = some n := by
  -- A tree has at least as many cells as it has levels, so the limit lasts.
  obtain ⟨limit, rfl⟩ : ∃ l, limit = l + 1 := ⟨limit - 1, by omega⟩
  rw [BlockStore.has_add, BlockStore.has_singleton] at hs
  obtain ⟨hget, hparts⟩ := hs
  rw [tree?, hget]
  cases n with
  | name o | integer o | control o word | scriptEnd o => rfl
  | structHead o name =>
    rw [Node.parts, BlockStore.has_singleton] at hparts
    show (do let cell ← s.get? ⟨name.id⟩; pure (Node.structHead o ⟨name.id, cell.token⟩)) = _
    rw [hparts]
    rfl
  | paren o inner =>
    rw [Node.parts] at hparts hlimit hsize
    show (s.inside _ (Node.headOf inner)).map (Node.paren o) = _
    rw [inside_eq inner hparts (by omega) (by omega)]
    rfl
  | block o body =>
    rw [Node.parts] at hparts hlimit hsize
    show (s.inside _ (Node.headOf body)).map (Node.block o) = _
    rw [inside_eq body hparts (by omega) (by omega)]
    rfl
  | element o base index =>
    rw [Node.parts] at hparts hlimit hsize
    obtain ⟨hbase, hindex⟩ := BlockStore.has_add.1 hparts
    rw [Multiset.card_add, Multiset.card_add, Multiset.card_singleton] at hlimit hsize
    show (do
      let base ← s.tree? limit base.handle
      (s.inside _ (Node.headOf index)).map (Node.element o base)) = _
    rw [inside_eq index hindex (by omega) (by omega),
      tree?_eq base hbase (by omega) (by omega)]
    rfl
  | binary o op lhs rhs =>
    rw [Node.parts] at hparts hlimit hsize
    obtain ⟨hlhs, hrhs⟩ := BlockStore.has_add.1 hparts
    simp only [Multiset.card_add, Multiset.card_singleton] at hlimit hsize
    show (do
      let lhs ← s.tree? limit lhs.handle
      let rhs ← s.tree? limit rhs.handle
      pure (Node.binary o op lhs rhs)) = _
    rw [tree?_eq lhs hlhs (by omega) (by omega), tree?_eq rhs hrhs (by omega) (by omega)]
    rfl

/-- The cells of a chain give its trees back. -/
theorem inside_eq {limit : Nat} (nodes : List Node) (hs : s.Has (Node.chained nodes))
    (hlimit : (Node.chained nodes).card ≤ limit) (hsize : (Node.chained nodes).card ≤ s.size) :
    s.inside (s.tree? limit) (Node.headOf nodes) = some nodes := by
  have hlength := Item.length_le_card none (nodes.map .tree)
  rw [Item.chained_map_tree] at hlength
  have hchain := chain_eq_spine (by rw [Item.chained_map_tree]; exact hs) (by omega)
  rw [Item.headOr_map_tree] at hchain
  have hmap : s.inside (s.tree? limit) (Node.headOf nodes) =
      ((s.chain (Node.headOf nodes)).map Prod.fst).mapM (s.tree? limit) := by
    rw [List.mapM_map]
    rfl
  rw [hmap, hchain, Item.spine_map_fst, List.map_map]
  exact mapM_handle_eq nodes hs hlimit hsize

theorem mapM_handle_eq {limit : Nat} (nodes : List Node) (hs : s.Has (Node.chained nodes))
    (hlimit : (Node.chained nodes).card ≤ limit) (hsize : (Node.chained nodes).card ≤ s.size) :
    (nodes.map (Item.handle ∘ Item.tree)).mapM (s.tree? limit) = some nodes := by
  cases nodes with
  | nil => rfl
  | cons n nodes =>
    rw [Node.chained] at hs hlimit hsize
    obtain ⟨hn, hnodes⟩ := BlockStore.has_add.1 hs
    rw [Multiset.card_add, Multiset.card_add, Multiset.card_singleton] at hlimit hsize
    have hn : s.tree? limit ((Item.handle ∘ Item.tree) n) = some n :=
      tree?_eq n hn (by omega) (by omega)
    rw [List.map_cons, List.mapM_cons, hn, mapM_handle_eq nodes hnodes (by omega) (by omega)]
    rfl

end

/-- **Main theorem.** The trees of a chain are read back off its cells. -/
theorem trees_eq (hs : s.Contains (Node.chained nodes + m)) {head : Handle}
    (hhead : Node.headOf nodes = some head) : s.trees head = nodes := by
  have hcard : (Node.chained nodes).card ≤ s.size := by
    rw [← hs.card, Multiset.card_add]
    omega
  unfold trees
  rw [← hhead, inside_eq nodes (BlockStore.has_add.1 hs.has).1 hcard hcard]
  rfl

end Cells

end ByteBricks.Syntax
