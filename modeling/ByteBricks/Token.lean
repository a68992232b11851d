/-! # Tokens

  The words of a template: their kinds, and where in the source each one stands.
  Offsets count UTF-8 bytes. -/

namespace ByteBricks

/-- The kinds of tokens. -/
inductive Token.Kind where
  /-- A comment that ends with its line. -/
  | lineComment
  /-- A run of blanks. -/
  | whitespace
  /-- A decimal integer. -/
  | integer
  /-- A text in double quotes, which no statement may hold. -/
  | string
  /-- The name of a type, a variable or a member. -/
  | name
  /-- `(` -/
  | openParen
  /-- `)` -/
  | closeParen
  /-- `[` -/
  | openBracket
  /-- `]` -/
  | closeBracket
  /-- An opening brace. -/
  | openBrace
  /-- A closing brace. -/
  | closeBrace
  /-- `;` -/
  | semicolon
  /-- `,` -/
  | comma
  /-- `.` -/
  | dot
  /-- `=` -/
  | equals
  /-- `+` -/
  | plus
  /-- `-` -/
  | minus
  /-- `*` -/
  | star
  /-- `/` -/
  | slash
  /-- `<` -/
  | openAngle
  /-- `>` -/
  | closeAngle
  /-- The keyword `struct`. -/
  | structWord
  /-- The keyword `if`. -/
  | ifWord
  /-- The keyword `else`. -/
  | elseWord
  /-- The keyword `while`. -/
  | whileWord
  /-- The end of the source. -/
  | endOfInput
  deriving DecidableEq, Repr

namespace Token.Kind

/-- What a message calls a token of the kind. -/
def describe : Kind → String
  | lineComment => "line comment"
  | whitespace => "whitespace"
  | integer => "integer"
  | string => "string literal"
  | name => "name"
  | openParen => "`(`"
  | closeParen => "`)`"
  | openBracket => "`[`"
  | closeBracket => "`]`"
  | openBrace => "`\x7b`"
  | closeBrace => "`\x7d`"
  | semicolon => "`;`"
  | comma => "`,`"
  | dot => "`.`"
  | equals => "`=`"
  | plus => "`+`"
  | minus => "`-`"
  | star => "`*`"
  | slash => "`/`"
  | openAngle => "`<`"
  | closeAngle => "`>`"
  | structWord => "`struct`"
  | ifWord => "`if`"
  | elseWord => "`else`"
  | whileWord => "`while`"
  | endOfInput => "end of input"

/-- Whether tokens of the kind only separate other tokens. -/
def isTrivia : Kind → Bool
  | lineComment | whitespace => true
  | _ => false

end Token.Kind

/-- A word of the source. -/
structure Token where
  /-- What kind of word it is. -/
  kind : Token.Kind
  /-- The offset of its first byte. -/
  start : Nat
  /-- Its text as it stands in the source. -/
  text : String
  /-- The line that it is counted on, from 1. -/
  line : Nat
  deriving DecidableEq, Repr

namespace Token

/-- The offset after the last byte of the token. -/
def stop (t : Token) : Nat := t.start + t.text.utf8ByteSize

/-- The kind, the range of bytes and the line of a token in one line of text. -/
def describe (t : Token) : String :=
  t.kind.describe ++ " @ " ++ toString t.start ++ ".." ++ toString t.stop ++
    " (line " ++ toString t.line ++ ")"

end Token

end ByteBricks
