import ByteBricks.NameTable
import ByteBricks.Primitive

/-! # Templates

  A template describes the layout of data: struct declarations, field declarations
  whose counts may depend on fields before them, and expressions over the fields.
  Every node carries a number, which counts the nodes finished before it, and the
  line that it comes from. -/

namespace ByteBricks

/-- A name in a template. -/
structure Name where
  /-- The text of the name. -/
  text : String
  /-- The offset of the name in the template's name table. -/
  offset : Nat
  deriving DecidableEq

namespace Template

/-- What all nodes of a template have in common. -/
structure Mark where
  /-- The number of the node. -/
  id : Nat
  /-- The line that the node comes from. -/
  line : Nat
  deriving DecidableEq, Repr

/-- The arithmetic operators. -/
inductive ArithOp where
  /-- Addition. -/
  | add
  /-- Subtraction. -/
  | sub
  /-- Multiplication. -/
  | mul
  /-- Division. -/
  | div
  deriving DecidableEq, Repr

/-- The text of an operator. -/
def ArithOp.symbol : ArithOp → String
  | add => "+"
  | sub => "-"
  | mul => "*"
  | div => "/"

/-- A reference to a field that was declared before. -/
inductive Access where
  /-- A field outside of all structs. -/
  | field (name : Name)
  /-- A member of a field that holds a struct. -/
  | member (owner member : Name)
  deriving DecidableEq

/-- An expression. Every expression has the type of the number it stands for. -/
inductive Expr where
  /-- An integer. -/
  | literal (mark : Mark) (value : Int64)
  /-- The value of a field. -/
  | access (mark : Mark) (type : Primitive) (field : Access)
  /-- The value of an element of an array field. The field has a mark of its own. -/
  | element (mark : Mark) (type : Primitive) (baseMark : Mark) (field : Access) (index : Expr)
  /-- The result of an operation. -/
  | arith (mark : Mark) (type : Primitive) (op : ArithOp) (lhs rhs : Expr)
  deriving DecidableEq

namespace Expr

/-- The number and line of the expression. -/
def mark : Expr → Mark
  | literal m _ | access m _ _ | element m _ _ _ _ | arith m _ _ _ _ => m

/-- The type of the expression. -/
def type : Expr → Primitive
  | literal _ _ => .int64
  | access _ t _ | element _ t _ _ _ | arith _ t _ _ _ => t

/-- Whether the expression is built from literals by arithmetic alone. -/
def isConstant : Expr → Bool
  | literal _ _ => true
  | access _ _ _ | element _ _ _ _ _ => false
  | arith _ _ _ lhs rhs => lhs.isConstant && rhs.isConstant

end Expr

/-- The declaration of a field. -/
structure Declaration where
  /-- The number and line of the declaration. -/
  mark : Mark
  /-- The name of the type of the field's elements. -/
  typeName : Name
  /-- The number of elements, if the field is an array. -/
  count : Option Expr
  /-- The name of the field. -/
  name : Name
  deriving DecidableEq

/-- The primitive type of the field's elements; there is none for a struct. -/
def Declaration.primitive? (d : Declaration) : Option Primitive :=
  Primitive.ofName? d.typeName.text

/-- A statement. -/
inductive Statement where
  /-- Declares a struct. -/
  | struct (mark : Mark) (name : Name) (members : List Declaration)
  /-- Declares a field at the current offset. -/
  | field (declaration : Declaration)
  /-- A sequence of statements. -/
  | block (mark : Mark) (body : List Statement)
  /-- Evaluates an expression. -/
  | expression (value : Expr)
  /-- The end of the script. -/
  | scriptEnd (mark : Mark)

end Template

/-- A template that is ready for execution. -/
structure Template where
  /-- The statements, the last of which is the end of the script. -/
  statements : List Template.Statement
  /-- The names that the statements refer to. -/
  names : NameTable
  /-- The number of nodes of the statements. -/
  count : Nat

end ByteBricks
