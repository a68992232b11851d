import ByteBricks.Token

/-! # Syntax Trees

  A statement is read as a chain of trees. Every tree keeps the token that it was
  made from and a number that tells it apart from all others of its source. -/

namespace ByteBricks.Syntax

/-- Where a tree comes from. -/
structure Origin where
  /-- The number of trees that were made before this one. -/
  id : Nat
  /-- The token that the tree was made from. -/
  token : Token
  deriving Repr

/-- The keywords that stand in a chain by themselves. -/
inductive ControlWord where
  /-- The keyword `if`. -/
  | ifWord
  /-- The keyword `else`. -/
  | elseWord
  /-- The keyword `while`. -/
  | whileWord
  deriving DecidableEq, Repr

/-- The text of a keyword. -/
def ControlWord.text : ControlWord → String
  | ifWord => "if"
  | elseWord => "else"
  | whileWord => "while"

/-- The operators between two operands. -/
inductive BinaryOp where
  /-- Access to a member of a struct. -/
  | member
  /-- Assignment. -/
  | assign
  /-- Comparison for equality. -/
  | compare
  /-- Multiplication. -/
  | times
  /-- Division. -/
  | divide
  /-- Addition. -/
  | plus
  /-- Subtraction. -/
  | minus
  deriving DecidableEq, Repr

/-- The text of an operator. -/
def BinaryOp.symbol : BinaryOp → String
  | member => "."
  | assign => "="
  | compare => "=="
  | times => "*"
  | divide => "/"
  | plus => "+"
  | minus => "-"

/-- How tightly an operator binds its operands. -/
def BinaryOp.level : BinaryOp → Nat
  | member => 6
  | assign => 4
  | compare => 3
  | times | divide => 2
  | plus | minus => 1

/-- How tightly an index binds what stands before it. -/
def subscriptLevel : Nat := 5

/-- A tree of a statement chain. -/
inductive Node where
  /-- A name. -/
  | name (origin : Origin)
  /-- A decimal integer. -/
  | integer (origin : Origin)
  /-- A keyword of control flow. -/
  | control (origin : Origin) (word : ControlWord)
  /-- The head of a struct declaration, with the origin of its name. -/
  | structHead (origin name : Origin)
  /-- A chain in parentheses. -/
  | paren (origin : Origin) (inner : List Node)
  /-- The statements of a block, one chain after the other. -/
  | block (origin : Origin) (body : List Node)
  /-- An indexed tree. -/
  | element (origin : Origin) (base : Node) (index : List Node)
  /-- An operator with its operands. -/
  | binary (origin : Origin) (op : BinaryOp) (lhs rhs : Node)
  /-- The end of the script. -/
  | scriptEnd (origin : Origin)

namespace Node

/-- Where the tree comes from. -/
def origin : Node → Origin
  | name o | integer o | control o _ | structHead o _ | paren o _ | block o _
  | element o _ _ | binary o _ _ _ | scriptEnd o => o

/-- The token that the tree was made from. -/
def token (n : Node) : Token := n.origin.token

/-- The line of the token that the tree was made from. -/
def line (n : Node) : Nat := n.token.line

/-- Whether an operator may take the tree as an operand. -/
def isOperand : Node → Bool
  | scriptEnd _ => false
  | _ => true

mutual

/-- The tree as a nested expression with operators in front. -/
def render : Node → String
  | name o | integer o | control o _ => o.token.text
  | structHead _ n => "(struct " ++ n.token.text ++ ")"
  | paren _ inner => "(paren " ++ renderChain inner ++ ")"
  | block _ body => "\x7b " ++ renderChain body ++ " \x7d"
  | element _ base index => "([] " ++ base.render ++ " " ++ renderChain index ++ ")"
  | binary _ op lhs rhs => "(" ++ op.symbol ++ " " ++ lhs.render ++ " " ++ rhs.render ++ ")"
  | scriptEnd _ => "<end>"

/-- The trees of a chain, separated by spaces. -/
def renderChain : List Node → String
  | [] => ""
  | [n] => n.render
  | n :: m :: rest => n.render ++ " " ++ renderChain (m :: rest)

end

end Node

end ByteBricks.Syntax
