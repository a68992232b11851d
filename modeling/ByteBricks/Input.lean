/-! # Inputs and Views

  The bytes that a template describes: held in memory, or read from a file. A read gives
  fewer bytes than it asks for if the end comes first. What the bytes of a file are is not
  known here, and each read of it may fail. -/

namespace ByteBricks

/-- An error of the system that files are read by. -/
structure IoError where
  /-- The text of the error. -/
  message : String
  deriving DecidableEq

/-- Why a read fails. -/
inductive ReadError where
  /-- The offset lies after the end. -/
  | beyondEnd
  /-- The file could not be read. -/
  | io (error : IoError)
  deriving DecidableEq

/-- The text of the error. -/
def ReadError.message : ReadError → String
  | beyondEnd => "offset is beyond input"
  | io error => error.message

/-- At most `length` bytes from an offset on. -/
def sliceOf (bytes : Array UInt8) (offset length : Nat) : List UInt8 :=
  (bytes.extract offset (offset + length)).toList

/-- An opened file. -/
structure File where
  /-- The number of bytes when it was opened. -/
  length : Nat
  /-- Fills a buffer of `count` bytes from an offset on, or fails. -/
  readExact : (offset count : Nat) → Except IoError (Vector UInt8 count)

/-- A file of a number of bytes, which begin with the given ones; zeros follow. All bytes can be
    read. -/
def File.padded (front : Array UInt8) (length : Nat) : File where
  length := length
  readExact offset _ := .ok (.ofFn fun k => front.getD (offset + k) 0)

/-- An opened input. -/
inductive Input where
  /-- Bytes in memory. -/
  | memory (bytes : Array UInt8)
  /-- An opened file. -/
  | opened (file : File)

namespace Input

/-- A file of a number of bytes that begin with the given ones. -/
def file (front : Array UInt8) (length : Nat) : Input := .opened (.padded front length)

/-- The number of bytes. -/
def length : Input → Nat
  | memory bytes => bytes.size
  | opened file => file.length

/-- Whether there are no bytes. -/
def isEmpty (i : Input) : Bool := i.length == 0

/-- The bytes from an offset on, as many as there are up to `count`. -/
def read (i : Input) (offset count : Nat) : Except ReadError (List UInt8) :=
  if i.length < offset then .error .beyondEnd
  else
    let available := min (i.length - offset) count
    match i with
    | memory bytes => .ok (sliceOf bytes offset available)
    | opened file =>
      match file.readExact offset available with
      | .ok bytes => .ok bytes.toList
      | .error e => .error (.io e)

end Input

/-- What a template is executed against. -/
inductive View where
  /-- Bytes that the caller holds. -/
  | bytes (bytes : Array UInt8)
  /-- An opened input. -/
  | input (input : Input)

namespace View

/-- The number of bytes. -/
def length : View → Nat
  | bytes b => b.size
  | input i => i.length

/-- Whether there are no bytes. -/
def isEmpty (v : View) : Bool := v.length == 0

/-- The bytes from an offset on, as many as there are up to `count`. -/
def read (v : View) (offset count : Nat) : Except ReadError (List UInt8) :=
  match v with
  | bytes b => if b.size < offset then .error .beyondEnd else .ok (sliceOf b offset count)
  | input i => i.read offset count

end View

end ByteBricks
