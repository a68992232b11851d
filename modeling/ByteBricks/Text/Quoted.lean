import ByteBricks.Text.Shapeless

/-! # Quoted Text

  How a character or a string is written into a message so that it can be read
  there: between quotes, with a backslash before what would end the quotation and
  with the number of every character that has no shape of its own. -/

namespace ByteBricks.Text

/-- The lower case hexadecimal digits of a number, without leading zeros. -/
def hexDigits (n : Nat) : List Char := Nat.toDigits 16 n

/-- A character as it stands between two `delimiter`s. -/
def escapeIn (delimiter : Char) (c : Char) : List Char :=
  if c = '\x00' then ['\\', '0']
  else if c = '\t' then ['\\', 't']
  else if c = '\r' then ['\\', 'r']
  else if c = '\n' then ['\\', 'n']
  else if c = '\\' || c = delimiter then ['\\', c]
  else if isShapeless c then ['\\', 'u', '\x7b'] ++ hexDigits c.toNat ++ ['\x7d']
  else [c]

/-- A text between two `delimiter`s. -/
def quoteWith (delimiter : Char) (cs : List Char) : String :=
  String.ofList (delimiter :: cs.flatMap (escapeIn delimiter) ++ [delimiter])

/-- A character in single quotes; a double quote stands for itself. -/
def quoteChar (c : Char) : String := quoteWith '\'' [c]

/-- A string in double quotes; a single quote stands for itself. -/
def quoteString (s : String) : String := quoteWith '"' s.toList

end ByteBricks.Text
