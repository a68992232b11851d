import ByteBricks.Execution.Error
import ByteBricks.Template

/-! # Values

  An expression stands for a signed 64-bit integer or a double precision float.
  Operations on integers are exact or fail; a float operand makes the result a
  float. -/

namespace ByteBricks.Execution

open Template (ArithOp)

/-- The value of an expression. -/
inductive Value where
  /-- An integer. -/
  | int (value : Int64)
  /-- A floating point number. -/
  | float (value : Float)

namespace Value

/-- The value of a field. -/
def ofNumber : Number → Except Fault Value
  | .signed v => .ok (.int v)
  | .unsigned v =>
    match Word.int64? v.toNat with
    | some i => .ok (.int i)
    | none => .error (.valueOutOfRange v)
  | .float v => .ok (.float v)

/-- The value as a floating point number. -/
def toFloat : Value → Float
  | int v => v.toFloat
  | float v => v

/-- The exact result of an operation on integers; a quotient is truncated toward
    zero. -/
def exactInt (op : ArithOp) (a b : Int) : Except Fault Int :=
  match op with
  | .add => .ok (a + b)
  | .sub => .ok (a - b)
  | .mul => .ok (a * b)
  | .div => if b = 0 then .error .divisionByZero else .ok (a.tdiv b)

/-- The result of an operation on integers, if it fits into 64 bits. -/
def applyInt (op : ArithOp) (a b : Int64) : Except Fault Int64 := do
  let exact ← exactInt op a.toInt b.toInt
  match Word.int64? exact with
  | some r => .ok r
  | none => .error .overflow

/-- The result of an operation on floating point numbers. -/
def applyFloat (op : ArithOp) (a b : Float) : Float :=
  match op with
  | .add => a + b
  | .sub => a - b
  | .mul => a * b
  | .div => a / b

/-- The result of an operation. -/
def apply (op : ArithOp) (a b : Value) : Except Fault Value :=
  match a, b with
  | int a, int b => (applyInt op a b).map .int
  | a, b => .ok (.float (applyFloat op a.toFloat b.toFloat))

end Value

end ByteBricks.Execution
