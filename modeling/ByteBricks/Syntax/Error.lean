import ByteBricks.Token

/-! # Syntax Errors

  Why the tokens of a source form no script. -/

namespace ByteBricks.Syntax

/-- The largest number of delimiters that may be open at once. -/
def maxDepth : Nat := 128

/-- What is wrong with the tokens. -/
inductive Fault where
  /-- Nothing stands before the token that ends an expression. -/
  | emptyExpression (terminator : Token.Kind)
  /-- The token may not stand here. -/
  | unexpectedToken (kind : Token.Kind)
  /-- The source ends inside a block. -/
  | unterminatedBlock (openedLine : Nat)
  /-- The source ends inside parentheses or brackets. -/
  | unclosed (delimiter : Token.Kind) (openedLine : Nat)
  /-- The keyword `struct` is not followed by a name. -/
  | missingStructName (found : Token.Kind)
  /-- An operator lacks an operand. -/
  | missingOperand (operator : Token.Kind)
  /-- Too many delimiters are open. -/
  | nestingTooDeep
  deriving DecidableEq

/-- What a message says about the fault. -/
def Fault.describe : Fault → String
  | emptyExpression terminator => "expected an expression before " ++ terminator.describe
  | unexpectedToken kind => "unexpected " ++ kind.describe
  | unterminatedBlock line => "unterminated block opened on line " ++ toString line
  | unclosed delimiter line =>
    delimiter.describe ++ " opened on line " ++ toString line ++ " is never closed"
  | missingStructName found => "expected a name after `struct`, found " ++ found.describe
  | missingOperand operator => operator.describe ++ " is missing an operand"
  | nestingTooDeep => "nesting exceeds " ++ toString maxDepth ++ " levels"

/-- A fault and the line at which the reader met it. -/
structure Error where
  /-- The line of the last token that was read. -/
  line : Nat
  /-- What is wrong. -/
  fault : Fault
  deriving DecidableEq

/-- The text of the error. -/
def Error.message (e : Error) : String :=
  "line " ++ toString e.line ++ ": " ++ e.fault.describe

end ByteBricks.Syntax
