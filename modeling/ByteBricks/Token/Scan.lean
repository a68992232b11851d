import ByteBricks.Text.Quoted
import ByteBricks.Token.Lexeme

/-! # Scanning a Source

  A source is cut into its longest lexemes from the front. Blanks and comments are
  left out, and only the line feeds in them are counted. A scan gives the tokens
  up to the end of the source, or up to the first place where no lexeme starts. -/

namespace ByteBricks

namespace Token

/-- A character at which no token starts. -/
structure Unrecognized where
  /-- The character. -/
  character : Char
  /-- The line that it is counted on. -/
  line : Nat
  deriving DecidableEq

/-- The text of the error. -/
def Unrecognized.message (e : Unrecognized) : String :=
  "line " ++ toString e.line ++ ": unrecognized character " ++ Text.quoteChar e.character

/-- The tokens of a source. -/
structure Scan where
  /-- The tokens, with one for the end of the source if the scan gets there. -/
  tokens : List Token
  /-- What stopped the scan before the end of the source. -/
  failure : Option Unrecognized

/-- A scan with one more token in front. -/
def Scan.cons (t : Token) (s : Scan) : Scan := { s with tokens := t :: s.tokens }

/-- Scans the characters from an offset and a line on. -/
def scanFrom (cs : List Char) (offset line : Nat) : Scan :=
  match cs with
  | [] => ⟨[⟨.endOfInput, offset, "", line⟩], none⟩
  | c :: rest =>
    match h : lexeme? (c :: rest) with
    | none => ⟨[], some ⟨c, line⟩⟩
    | some l =>
      have : l.rest.length < rest.length + 1 := length_rest_lt_of_lexeme? h
      let text := String.ofList l.text
      if l.kind.isTrivia then
        scanFrom l.rest (offset + text.utf8ByteSize) (line + l.text.count '\n')
      else
        (scanFrom l.rest (offset + text.utf8ByteSize) line).cons ⟨l.kind, offset, text, line⟩
  termination_by cs.length

/-- Scans a whole source. -/
def scan (source : String) : Scan := scanFrom source.toList 0 1

/-- The tokens of a source, if all of it can be cut into tokens. -/
def Scan.toExcept (s : Scan) : Except Unrecognized (List Token) :=
  match s.failure with
  | none => .ok s.tokens
  | some e => .error e

end Token

end ByteBricks
