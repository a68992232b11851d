import ByteBricks.BlockStore
import ByteBricks.Syntax.Node

/-! # Cells

  The trees of a source lie in a store of cells. A cell refers to the next one of its
  chain and to what its tree is made from: an operator to its operands, a delimiter to
  the first cell inside of it. The cells of a chain are found by walking from one to
  the next, and the trees are read back off them. -/

namespace ByteBricks.Syntax

/-- The kinds of cells. -/
inductive Cell.Kind where
  /-- A name. -/
  | name
  /-- A decimal integer. -/
  | integer
  /-- A keyword of control flow. -/
  | control (word : ControlWord)
  /-- The head of a struct declaration. Its first part is the name. -/
  | structHead
  /-- Parentheses. Their first part is the chain inside. -/
  | paren
  /-- A block. Its first part is the chain of its statements. -/
  | block
  /-- An index. Its first part is what is indexed, its second part the chain inside the
      brackets. -/
  | element
  /-- An operator. Its parts are its operands. -/
  | operator (op : BinaryOp)
  /-- The end of the script. -/
  | scriptEnd
  deriving DecidableEq, Repr

/-- A cell of a tree. -/
structure Cell where
  /-- The token that the cell was made from. -/
  token : Token
  /-- What the cell stands for. -/
  kind : Cell.Kind
  /-- The next cell of the chain. -/
  next : Option Handle
  /-- The first part. -/
  first : Option Handle
  /-- The second part. -/
  second : Option Handle
  deriving DecidableEq, Repr

namespace Cell

/-- A cell that refers to no other. -/
def plain (token : Token) (kind : Kind) : Cell := ⟨token, kind, none, none, none⟩

/-- The cell with another one behind it. -/
def withNext (next : Option Handle) (c : Cell) : Cell := { c with next := next }

/-- The cell with its first part. -/
def withFirst (first : Handle) (c : Cell) : Cell := { c with first := some first }

/-- The cell with both of its parts. -/
def withParts (first second : Handle) (c : Cell) : Cell :=
  { c with first := some first, second := some second }

/-- Whether the cell has its first part. -/
def isFolded (c : Cell) : Bool := c.first.isSome

/-- How tightly the cell binds its operands, if it takes any. -/
def level? (c : Cell) : Option Nat :=
  match c.kind with
  | .element => some subscriptLevel
  | .operator op => some op.level
  | _ => none

/-- The level of a cell that still has to be given its operands. -/
def openLevel? (c : Cell) : Option Nat := if c.isFolded then none else c.level?

/-- Whether an operator may take the cell as an operand. -/
def isOperand (c : Cell) : Bool := c.isFolded || c.level?.isNone && c.kind != .scriptEnd

end Cell

/-- The cells of a source. -/
abbrev Cells := BlockStore Cell

namespace Cells

/-! ### Chains -/

/-- The cells from one on, each found from the one before it, but no more than `limit`. -/
def walk (s : Cells) : Nat → Option Handle → List (Handle × Cell)
  | limit + 1, some h =>
    match s.get? h with
    | some c => (h, c) :: s.walk limit c.next
    | none => []
  | _, _ => []

/-- The cells of the chain that begins with a cell. No chain has more cells than there are. -/
def chain (s : Cells) (head : Option Handle) : List (Handle × Cell) := s.walk s.size head

/-- The last cell of a chain. -/
def last (s : Cells) (head : Handle) : Handle :=
  ((s.chain (some head)).getLast?.map Prod.fst).getD head

/-- Makes a cell, if there is one, refer to the next one of its chain. -/
def relink (s : Cells) (h next : Option Handle) : Cells :=
  match h with
  | some h => s.modify h (·.withNext next)
  | none => s

/-! ### Trees -/

/-- The trees of the chain that begins with a cell, each read back off its cell. -/
def inside (s : Cells) (tree : Handle → Option Node) (head : Option Handle) :
    Option (List Node) :=
  (s.chain head).mapM fun p => tree p.1

/-- The tree of a cell whose parts are found in fewer than `limit` steps. -/
def tree? (s : Cells) : Nat → Handle → Option Node
  | 0, _ => none
  | limit + 1, h => do
    let c ← s.get? h
    let origin : Origin := ⟨h.raw, c.token⟩
    match c.kind with
    | .name => pure (.name origin)
    | .integer => pure (.integer origin)
    | .control word => pure (.control origin word)
    | .structHead =>
      let name ← c.first
      let cell ← s.get? name
      pure (.structHead origin ⟨name.raw, cell.token⟩)
    | .paren => (s.inside (s.tree? limit) c.first).map (.paren origin)
    | .block => (s.inside (s.tree? limit) c.first).map (.block origin)
    | .element =>
      let base ← s.tree? limit (← c.first)
      (s.inside (s.tree? limit) c.second).map (.element origin base)
    | .operator op =>
      let lhs ← s.tree? limit (← c.first)
      let rhs ← s.tree? limit (← c.second)
      pure (.binary origin op lhs rhs)
    | .scriptEnd => pure (.scriptEnd origin)

/-- The trees of the chain that begins with a cell. No tree is deeper than there are cells. -/
def trees (s : Cells) (head : Handle) : List Node :=
  (s.inside (s.tree? s.size) (some head)).getD []

end Cells

end ByteBricks.Syntax
