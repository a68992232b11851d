import ByteBricks.Syntax.Node

/-! # Chains

  A chain is first read flat, operators and operands side by side. Resolving it
  gives every operator its operands: the levels are gone through from the
  tightest to the loosest, and on each level the operators from left to right, so
  that all of them associate to the left. What stands side by side without an
  operator stays side by side. -/

namespace ByteBricks.Syntax

/-- An item of a chain that is still flat. -/
inductive Item where
  /-- A complete tree. -/
  | tree (node : Node)
  /-- An operator without its operands. -/
  | operator (origin : Origin) (op : BinaryOp)
  /-- An index without what it indexes. -/
  | subscript (origin : Origin) (index : List Node)

/-- The tree of an item that is complete. -/
def Item.node? : Item → Option Node
  | .tree n => some n
  | .operator _ _ | .subscript _ _ => none

/-- Whether an operator may take the item as an operand. -/
def Item.isOperand : Item → Bool
  | .tree n => n.isOperand
  | .operator _ _ | .subscript _ _ => false

/-- Gives operands to all operators of one level in the items after `before`,
    which holds the items to the left in reverse. Fails with the token of the
    leftmost operator that lacks an operand. -/
def resolveLevel (level : Nat) (before : List Item) : List Item → Except Token (List Item)
  | [] => .ok before.reverse
  | .tree n :: after => resolveLevel level (.tree n :: before) after
  | .subscript o index :: after =>
    if level = subscriptLevel then
      match before with
      | .tree base :: before =>
        if base.isOperand then resolveLevel level (.tree (.element o base index) :: before) after
        else .error o.token
      | _ => .error o.token
    else resolveLevel level (.subscript o index :: before) after
  | .operator o op :: .tree rhs :: after =>
    if level = op.level then
      match before with
      | .tree lhs :: before =>
        if lhs.isOperand && rhs.isOperand then
          resolveLevel level (.tree (.binary o op lhs rhs) :: before) after
        else .error o.token
      | _ => .error o.token
    else resolveLevel level (.tree rhs :: .operator o op :: before) after
  | .operator o op :: after =>
    if level = op.level then .error o.token
    else resolveLevel level (.operator o op :: before) after

/-- The levels of all operators, the tightest first. -/
def levels : List Nat := [6, 5, 4, 3, 2, 1]

/-- The trees of a chain. Fails with the token of the operator that lacks an
    operand first. -/
def resolve (items : List Item) : Except Token (List Node) := do
  let items ← levels.foldlM (fun items level => resolveLevel level [] items) items
  pure (items.filterMap Item.node?)

end ByteBricks.Syntax
