import ByteBricks.Input
import ByteBricks.Wall

/-! # Execution Errors

  Why the execution of a template stops before its end. -/

namespace ByteBricks.Execution

/-- What went wrong. -/
inductive Fault where
  /-- The name is no type. -/
  | unknownType (name : String)
  /-- No field of the name has been placed. -/
  | unknownField (name : String)
  /-- The struct has no such member. -/
  | unknownMember (struct member : String)
  /-- The field does not hold a single number. -/
  | notScalar (name : String)
  /-- A float stands where an integer is wanted. -/
  | notInteger
  /-- The count of an array is negative. -/
  | negativeCount (count : Int64)
  /-- The count of an array of structs exceeds the largest signed 32-bit integer. -/
  | countTooLarge (count : Nat)
  /-- A size or an end does not fit into 64 bits. -/
  | sizeOverflow (name : String)
  /-- A field or a read leaves the data. -/
  | outOfBounds (name : String) (start stop : Int64) (length : Nat)
  /-- An index is no element of the array. -/
  | indexOutOfRange (name : String) (index : Int64) (count : Nat)
  /-- An integer was divided by zero. -/
  | divisionByZero
  /-- The result of an integer operation does not fit into 64 bits. -/
  | overflow
  /-- An unsigned value exceeds the largest signed 64-bit integer. -/
  | valueOutOfRange (value : UInt64)
  /-- The wall refused a member of a struct. -/
  | invalidStruct (name : String)
  /-- The data could not be read. -/
  | unreadable (error : ReadError)
  deriving DecidableEq

/-- What a message says about the fault. -/
def Fault.describe : Fault → String
  | unknownType name => "unknown type `" ++ name ++ "`"
  | unknownField name => "unknown variable `" ++ name ++ "`"
  | unknownMember struct member => "`" ++ struct ++ "` has no member `" ++ member ++ "`"
  | notScalar name => "`" ++ name ++ "` does not hold a single number"
  | notInteger => "expected an integer"
  | negativeCount count => "array count " ++ toString count.toInt ++ " is negative"
  | countTooLarge count => "array count " ++ toString count ++ " is too large"
  | sizeOverflow name => "the size of `" ++ name ++ "` overflows"
  | outOfBounds name start stop length =>
    "`" ++ name ++ "` covers bytes " ++ toString start.toInt ++ ".." ++ toString stop.toInt ++
      ", but the input has " ++ toString length ++ " bytes"
  | indexOutOfRange name index count =>
    "index " ++ toString index.toInt ++ " is out of range for `" ++ name ++ "` with " ++
      toString count ++ " elements"
  | divisionByZero => "division by zero"
  | overflow => "arithmetic overflow"
  | valueOutOfRange value =>
    "value " ++ toString value.toNat ++ " does not fit into a signed 64 bit integer"
  | invalidStruct name => "struct `" ++ name ++ "` could not be defined"
  | unreadable e => "failed to read input: " ++ e.message

/-- A fault and the line of the node at fault. -/
structure Error where
  /-- The line of the node. -/
  line : Nat
  /-- What went wrong. -/
  fault : Fault
  deriving DecidableEq

/-- The text of the error. -/
def Error.message (e : Error) : String :=
  "line " ++ toString e.line ++ ": " ++ e.fault.describe

/-- A state that no execution of a compiled template gets to. -/
inductive Breach where
  /-- A field refers to a layout that does not exist. -/
  | missingLayout
  /-- A member of a placed field starts beyond the largest offset. -/
  | memberBeyondEnd
  /-- A read within the bounds of the data has a negative offset. -/
  | negativeOffset
  deriving DecidableEq

/-- Why an execution stops before the end of its template. -/
inductive Halt where
  /-- An error of the template or the data. -/
  | failed (error : Error)
  /-- A broken state. -/
  | broken (breach : Breach)
  deriving DecidableEq

/-- Stops with a fault on a line. -/
def fail {α : Type} (line : Nat) (fault : Fault) : Except Halt α := .error (.failed ⟨line, fault⟩)

/-- The value, or else the fault on a line. -/
def require {α : Type} (line : Nat) (fault : Fault) : Option α → Except Halt α
  | some a => .ok a
  | none => fail line fault

/-- The value, or else a breach. -/
def assured {α : Type} (breach : Breach) : Option α → Except Halt α
  | some a => .ok a
  | none => .error (.broken breach)

end ByteBricks.Execution
