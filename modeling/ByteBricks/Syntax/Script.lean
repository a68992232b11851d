import ByteBricks.Syntax.Reader
import ByteBricks.Token.Scan

/-! # Scripts

  A script is the list of the statement chains of a source. The last chain, and no
  other, ends in the mark for the end of the script. -/

namespace ByteBricks.Syntax

/-- Why a source is no script. -/
inductive Failure where
  /-- A character starts no token. -/
  | character (error : Token.Unrecognized)
  /-- The tokens form no statements. -/
  | grammar (error : Error)
  deriving DecidableEq

/-- The statements of a source. -/
structure Script where
  /-- The statement chains in order. -/
  statements : List (List Node)
  /-- The number of trees that were made to read them. -/
  count : Nat

namespace Script

/-- Reads the tokens of a scan when `count` trees have been made already. Gives the
    number of trees made afterwards too. What stopped the scan only matters once all
    tokens before it have been read. -/
def readFrom (count : Nat) (scan : Token.Scan) : Nat × Except Failure Script :=
  let (r, stopped) := (Reader.start count).readAll scan.tokens
  match stopped, scan.failure with
  | some e, _ => (r.count, .error (.grammar e))
  | none, some e => (r.count, .error (.character e))
  | none, none => (r.count, .ok ⟨r.statements.reverse, r.count⟩)

/-- Reads a source. -/
def ofSource (source : String) : Except Failure Script := (readFrom 0 (Token.scan source)).2

/-- One line of nested expressions for each statement. -/
def render (s : Script) : List String := s.statements.map Node.renderChain

end Script

end ByteBricks.Syntax
