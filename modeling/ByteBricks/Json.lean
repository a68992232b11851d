import ByteBricks.Text.Quoted

/-! # JSON

  The values that a report is made of, and their text without any blanks. The
  members of an object are written in the order in which they are given. -/

namespace ByteBricks

/-- A JSON value. -/
inductive Json where
  /-- The value `null`. -/
  | null
  /-- An integer. -/
  | number (value : Int)
  /-- A string. -/
  | string (value : String)
  /-- An array. -/
  | array (elements : List Json)
  /-- An object. -/
  | object (members : List (String × Json))

namespace Json

/-- A character as it stands in a string: a backslash comes before a quote and a
    backslash, and the controls below the space have escapes. -/
def escape (c : Char) : List Char :=
  if c = '"' || c = '\\' then ['\\', c]
  else if c = '\n' then ['\\', 'n']
  else if c = '\r' then ['\\', 'r']
  else if c = '\t' then ['\\', 't']
  else if c = '\x08' then ['\\', 'b']
  else if c = '\x0c' then ['\\', 'f']
  else if c.toNat < 0x20 then
    let digits := Text.hexDigits c.toNat
    ['\\', 'u'] ++ List.replicate (4 - digits.length) '0' ++ digits
  else [c]

/-- The text of a string. -/
def quote (s : String) : String :=
  String.ofList ('"' :: s.toList.flatMap escape ++ ['"'])

mutual

/-- The text of a value. -/
def render : Json → String
  | null => "null"
  | number value => toString value
  | string value => quote value
  | array elements => "[" ++ ",".intercalate (renderAll elements) ++ "]"
  | object members => "\x7b" ++ ",".intercalate (renderMembers members) ++ "\x7d"

/-- The texts of the elements of an array. -/
def renderAll : List Json → List String
  | [] => []
  | value :: rest => value.render :: renderAll rest

/-- The texts of the members of an object. -/
def renderMembers : List (String × Json) → List String
  | [] => []
  | (key, value) :: rest => (quote key ++ ":" ++ value.render) :: renderMembers rest

end

end Json

end ByteBricks
