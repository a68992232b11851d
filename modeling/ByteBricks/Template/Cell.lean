import ByteBricks.BlockStore
import ByteBricks.Template

/-! # Cells of Templates

  A template that is ready for execution lies in a store of cells, one for each of its
  nodes. A cell refers to the next one of its chain and to the first cells of the chains
  below it. -/

namespace ByteBricks.Template

/-- The type of what is declared, or of the number that a cell stands for. -/
inductive CellType where
  /-- A primitive type. -/
  | primitive (type : Primitive)
  /-- The struct of the name. -/
  | struct (name : Name)
  deriving DecidableEq

namespace CellType

/-- The type of a name, which is that of a struct unless the name is that of a primitive type. -/
def ofName (primitive : Option Primitive) (name : Name) : CellType :=
  match primitive with
  | some t => .primitive t
  | none => .struct name

/-- Whether the type is one of integers. -/
def isInteger : CellType → Bool
  | primitive t => t.isInteger
  | struct _ => false

/-- Whether the type is one of floats. -/
def isFloat : CellType → Bool
  | primitive t => t.isFloat
  | struct _ => false

/-- Whether an operation takes numbers of the type. -/
def isNumber (t : CellType) : Bool := t.isInteger || t.isFloat

end CellType

/-- What a cell stands for. -/
inductive Content where
  /-- Defines a struct from a chain of members. -/
  | structDecl (name : Name) (members : Handle)
  /-- Declares a field or a member. -/
  | fieldDecl (typeName : Name) (count : Option Handle) (name : Name)
  /-- A chain of statements. -/
  | block (first : Handle)
  /-- A reference to a field or a member. -/
  | access (field : Access)
  /-- An element of an array. -/
  | element (base index : Handle)
  /-- An operation. -/
  | arith (op : ArithOp) (lhs rhs : Handle)
  /-- An integer. -/
  | literal (value : Int64)
  /-- The end of the script. -/
  | scriptEnd
  deriving DecidableEq

/-- A cell of a template. -/
structure Cell where
  /-- What the cell stands for. -/
  content : Content
  /-- The type of what it declares or stands for, if it has one. -/
  type : Option CellType
  /-- The next cell of the chain. -/
  next : Option Handle
  /-- The line that the cell comes from. -/
  line : Nat
  deriving DecidableEq

/-- The cell with another one behind it. -/
def Cell.withNext (next : Handle) (c : Cell) : Cell := { c with next := some next }

/-- The cells of a template. -/
abbrev Cells := BlockStore Cell

namespace Cells

/-- The type of a cell, if it has one. -/
def type? (s : Cells) (h : Handle) : Option CellType := do (← s.get? h).type

/-- Makes a cell refer to the next one of its chain. -/
def link (s : Cells) (h next : Handle) : Cells := s.modify h (·.withNext next)

/-- Whether a cell is made from literals by arithmetic alone, as far as it is found in fewer
    than `limit` steps. -/
def isConstant (s : Cells) : Nat → Handle → Bool
  | 0, _ => false
  | limit + 1, h =>
    match (s.get? h).map Cell.content with
    | some (.literal _) => true
    | some (.arith _ lhs rhs) => s.isConstant limit lhs && s.isConstant limit rhs
    | _ => false

end Cells

end ByteBricks.Template
