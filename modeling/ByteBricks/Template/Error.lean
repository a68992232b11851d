import ByteBricks.Syntax.Script
import ByteBricks.Template

/-! # Compile Errors

  Why a source is no template: a character starts no token, the tokens form no
  statements, or the statements have no meaning. -/

namespace ByteBricks.Template

/-- Why a statement has no meaning. -/
inductive Fault where
  /-- The name is neither a primitive type nor a struct declared before. -/
  | unknownType (name : String)
  /-- No field of the name was declared before. -/
  | unknownField (name : String)
  /-- The struct has no such member. -/
  | unknownMember (struct member : String)
  /-- A member is wanted of a field that holds no struct. -/
  | notStruct (name : String)
  /-- An array stands where a single value is wanted. -/
  | arrayAsValue (name : String)
  /-- What is indexed is no array. -/
  | notArray (name : String)
  /-- A struct stands where a number is wanted. -/
  | notNumber (name : String)
  /-- A count is no integer. -/
  | fractionalCount
  /-- An index is no integer. -/
  | fractionalIndex
  /-- The count of a struct member depends on data. -/
  | variableCount
  /-- A literal exceeds the largest signed 64-bit integer. -/
  | literalTooLarge (digits : String)
  /-- A struct is named like a primitive type. -/
  | reservedName (name : String)
  /-- A struct of the name was declared before. -/
  | duplicateStruct (name : String)
  /-- The struct already has a member of the name. -/
  | duplicateMember (name : String)
  /-- Something other than a declaration stands in a struct. -/
  | memberNotDeclaration
  /-- A member access lacks the form of two names. -/
  | malformedAccess
  /-- A struct has no body. -/
  | missingBody (name : String)
  /-- The keyword has no meaning yet. -/
  | controlFlow (word : Syntax.ControlWord)
  /-- Assignment has no meaning. -/
  | assignment
  /-- Comparison has no meaning. -/
  | comparison
  /-- A statement stands where an expression is wanted. -/
  | expressionWanted
  /-- More than one expression stands where a single one is wanted. -/
  | singleExpressionWanted
  /-- The names exceed the largest name table. -/
  | tooManyNames
  deriving DecidableEq

/-- What a message says about the fault. -/
def Fault.describe : Fault → String
  | unknownType name => "unknown type `" ++ name ++ "`"
  | unknownField name => "unknown variable `" ++ name ++ "`"
  | unknownMember struct member => "`" ++ struct ++ "` has no member `" ++ member ++ "`"
  | notStruct name => "`" ++ name ++ "` is not a struct"
  | arrayAsValue name => "`" ++ name ++ "` is an array and must be indexed"
  | notArray name => "`" ++ name ++ "` is not an array"
  | notNumber name => "`" ++ name ++ "` does not hold a number"
  | fractionalCount => "array counts must be integers"
  | fractionalIndex => "array indices must be integers"
  | variableCount => "struct member counts must be constant"
  | literalTooLarge digits => "integer literal `" ++ digits ++ "` does not fit into 64 bits"
  | reservedName name => "`" ++ name ++ "` is a primitive type"
  | duplicateStruct name => "struct `" ++ name ++ "` is already declared"
  | duplicateMember name => "member `" ++ name ++ "` is already declared"
  | memberNotDeclaration => "structs may only contain field declarations"
  | malformedAccess => "member access needs a variable name and a member name"
  | missingBody name => "struct `" ++ name ++ "` needs a body"
  | controlFlow word => "`" ++ word.text ++ "` cannot be executed yet"
  | assignment => "assignment is not supported"
  | comparison => "comparison is not supported"
  | expressionWanted => "expected an expression"
  | singleExpressionWanted => "expected a single expression"
  | tooManyNames => "the template is too large"

/-- A fault and the line of the construct at fault. -/
structure Error where
  /-- The line of the construct. -/
  line : Nat
  /-- What is wrong with it. -/
  fault : Fault
  deriving DecidableEq

/-- The text of the error. -/
def Error.message (e : Error) : String :=
  "line " ++ toString e.line ++ ": " ++ e.fault.describe

/-- Why a source is no template. -/
inductive CompileError where
  /-- A character starts no token. -/
  | character (error : Token.Unrecognized)
  /-- The tokens form no statements. -/
  | grammar (error : Syntax.Error)
  /-- A statement has no meaning. -/
  | meaning (error : Error)
  deriving DecidableEq

namespace CompileError

/-- The error of a source that is no script. -/
def ofFailure : Syntax.Failure → CompileError
  | .character e => character e
  | .grammar e => grammar e

/-- The line at which compilation failed. -/
def line : CompileError → Nat
  | character e => e.line
  | grammar e => e.line
  | meaning e => e.line

/-- The text of the error. -/
def message : CompileError → String
  | character e => e.message
  | grammar e => e.message
  | meaning e => e.message

end CompileError

end ByteBricks.Template
