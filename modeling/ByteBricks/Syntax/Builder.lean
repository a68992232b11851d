import ByteBricks.Syntax.Folding
import ByteBricks.Syntax.Script

/-! # Building Trees from Tokens

  The builder reads one token at a time and stores the trees that it makes as cells. It
  knows a chain by its first and its last cell. It opens and closes delimiters as the
  reader does, which works on the trees themselves. When a token cannot be read, the
  cells that were stored so far are left behind, some of them in chains that were not
  finished. -/

namespace ByteBricks.Syntax

/-- A chain of cells that can grow at its end. -/
structure Strand where
  /-- The first cell. -/
  head : Handle
  /-- The last cell. -/
  tail : Handle
  deriving DecidableEq, Repr

/-- Appends a chain to another one, if there is one. -/
def Cells.link (s : Cells) (front : Option Strand) (head : Handle) : Cells × Strand :=
  let s := s.relink (front.map Strand.tail) (some head)
  (s, ⟨(front.map Strand.head).getD head, s.last head⟩)

/-- What is left when a token cannot be read. -/
structure Stop where
  /-- The cells stored so far. -/
  cells : Cells
  /-- Why the token cannot be read. -/
  error : Error

/-- An open delimiter. -/
structure Builder.Frame where
  /-- Which delimiter it is. -/
  bracket : Bracket
  /-- The token that opened it. -/
  opener : Token
  /-- The chain outside of it. -/
  outer : Option Strand
  /-- The chain of the finished statements inside of it. -/
  body : Option Strand

/-- The state of the builder. -/
structure Builder where
  /-- The cells stored so far. -/
  cells : Cells
  /-- The delimiters that are open, innermost first. -/
  frames : List Builder.Frame
  /-- The chain that is being read. -/
  chain : Option Strand
  /-- The heads of the finished statements outside of all delimiters, in reverse. -/
  statements : List Handle
  /-- What the next token has to settle. -/
  pending : Pending

namespace Builder

/-- The builder before the first token. -/
def start (cells : Cells) : Builder := ⟨cells, [], none, [], .nothing⟩

/-- The token that ends the chain that is being read. -/
def terminator (b : Builder) : Token.Kind :=
  match b.frames with
  | [] => .semicolon
  | frame :: _ => frame.bracket.terminator

/-- Stops at a token on a line. -/
def fail {α : Type} (b : Builder) (line : Nat) (fault : Fault) : Except Stop α :=
  .error ⟨b.cells, line, fault⟩

/-! ### Steps -/

/-- Stores a cell and appends it to the chain. -/
def push (b : Builder) (cell : Cell) : Builder :=
  let (h, cells) := b.cells.push cell
  let (cells, strand) := Cells.link cells b.chain h
  { b with cells := cells, chain := some strand, pending := .nothing }

/-- Folds a chain, which ends on a line. -/
def foldChain (b : Builder) (line : Nat) (strand : Strand) : Except Stop (Cells × Handle) :=
  match b.cells.fold strand.head with
  | (cells, .ok head) => .ok (cells, head)
  | (cells, .error t) => .error ⟨cells, line, .missingOperand t.kind⟩

/-- Ends the statement that is being read, if there is one. -/
def endStatement (b : Builder) (line : Nat) : Except Stop Builder :=
  match b.chain with
  | none => .ok b
  | some strand => do
    let (cells, head) ← b.foldChain line strand
    match b.frames with
    | [] =>
      pure { b with cells := cells, chain := none, statements := head :: b.statements,
                    pending := .nothing }
    | frame :: frames =>
      let (cells, body) := cells.link frame.body head
      let frame := { frame with body := some body }
      pure { b with cells := cells, chain := none, frames := frame :: frames,
                    pending := .nothing }

/-- Opens a delimiter. -/
def enter (b : Builder) (bracket : Bracket) (t : Token) : Except Stop Builder :=
  if maxDepth ≤ b.frames.length then b.fail t.line .nestingTooDeep
  else .ok { b with frames := ⟨bracket, t, b.chain, none⟩ :: b.frames, chain := none }

/-- Closes the innermost delimiter, whose contents a cell refers to. -/
def leave (b : Builder) (outer : Option Strand) (frames : List Frame) (cell : Cell) : Builder :=
  { b with frames := frames, chain := outer }.push cell

/-- Closes a block. Unless it stands in parentheses or brackets, it ends its statement. -/
def closeBlock (b : Builder) (frame : Frame) (frames : List Frame) (line : Nat) : Builder :=
  let cell : Cell := ⟨frame.opener, .block, none, frame.body.map Strand.head, none⟩
  let b := b.leave frame.outer frames cell
  if b.terminator = .semicolon then { b with pending := .blockEnd line } else b

/-- Reads the token that ends the chain. -/
def endChain (b : Builder) (t : Token) : Except Stop Builder :=
  match b.chain with
  | none => b.fail t.line (.emptyExpression t.kind)
  | some strand =>
    match b.frames with
    | ⟨.paren, opener, outer, _⟩ :: frames => do
      let (cells, head) ← b.foldChain t.line strand
      pure ({ b with cells := cells }.leave outer frames ⟨opener, .paren, none, head, none⟩)
    | ⟨.square, opener, outer, _⟩ :: frames => do
      let (cells, head) ← b.foldChain t.line strand
      pure ({ b with cells := cells }.leave outer frames ⟨opener, .element, none, none, head⟩)
    | _ => b.endStatement t.line

/-- Reads the end of the source, which ends a statement too. -/
def endScript (b : Builder) (t : Token) : Except Stop Builder :=
  match b.frames with
  | [] => (b.push (.plain t .scriptEnd)).endStatement t.line
  | frame :: _ =>
    if frame.bracket = .brace then b.fail t.line (.unterminatedBlock frame.opener.line)
    else b.fail t.line (.unclosed frame.opener.kind frame.opener.line)

/-- The block that a closing brace ends here: its frame, and the frames outside of it. -/
def closable? (b : Builder) : Option (Frame × List Frame) :=
  match b.frames with
  | frame :: frames =>
    if frame.bracket = .brace ∧ frame.body.isSome ∧ b.chain.isNone then some (frame, frames)
    else none
  | [] => none

/-- Reads a token that neither ends the chain nor closes a block. -/
def readItem (b : Builder) (t : Token) : Except Stop Builder :=
  match t.kind with
  | .name => .ok (b.push (.plain t .name))
  | .integer => .ok (b.push (.plain t .integer))
  | .ifWord => .ok (b.push (.plain t (.control .ifWord)))
  | .elseWord => .ok (b.push (.plain t (.control .elseWord)))
  | .whileWord => .ok (b.push (.plain t (.control .whileWord)))
  | .dot => .ok (b.push (.plain t (.operator .member)))
  | .plus => .ok (b.push (.plain t (.operator .plus)))
  | .minus => .ok (b.push (.plain t (.operator .minus)))
  | .star => .ok (b.push (.plain t (.operator .times)))
  | .slash => .ok (b.push (.plain t (.operator .divide)))
  | .equals => .ok { b with pending := .equals t }
  | .structWord => .ok { b with pending := .structName t }
  | .openParen => b.enter .paren t
  | .openBracket => b.enter .square t
  | .openBrace => b.enter .brace t
  | .endOfInput => b.endScript t
  | kind => b.fail t.line (.unexpectedToken kind)

/-- Reads a token when nothing is pending. -/
def readToken (b : Builder) (t : Token) : Except Stop Builder :=
  if t.kind = b.terminator then b.endChain t
  else if t.kind = .closeBrace then
    match b.closable? with
    | some (frame, frames) => .ok (b.closeBlock frame frames t.line)
    | none => b.fail t.line (.unexpectedToken .closeBrace)
  else b.readItem t

/-- Appends the head of a struct declaration, whose name has a cell of its own. -/
def pushStructHead (b : Builder) (word name : Token) : Builder :=
  let (h, cells) := b.cells.push (.plain name .name)
  { b with cells := cells }.push ((Cell.plain word .structHead).withFirst h)

/-- Reads the next token. -/
def read (b : Builder) (t : Token) : Except Stop Builder :=
  match b.pending with
  | .nothing => b.readToken t
  | .structName word =>
    if t.kind = .name then .ok (b.pushStructHead word t)
    else b.fail t.line (.missingStructName t.kind)
  | .equals sign =>
    if t.kind = .equals ∧ t.start = sign.stop then
      .ok (b.push (.plain (Reader.comparisonToken sign t) (.operator .compare)))
    else (b.push (.plain sign (.operator .assign))).readToken t
  | .blockEnd line =>
    if t.kind = .semicolon then b.endStatement t.line
    else do (← b.endStatement line).readToken t

/-- Reads tokens one after the other, up to the first that cannot be read. -/
def readAll (b : Builder) : List Token → Except Stop Builder
  | [] => .ok b
  | t :: rest => do (← b.read t).readAll rest

/-- The script whose statements have been read. -/
def script (b : Builder) : Script := ⟨b.statements.reverse.map b.cells.trees, b.cells.size⟩

end Builder

/-- Reads the tokens of a scan into cells. Gives the cells that are there afterwards too. -/
def Cells.read (cells : Cells) (scan : Token.Scan) : Cells × Except Failure Script :=
  match (Builder.start cells).readAll scan.tokens, scan.failure with
  | .error stop, _ => (stop.cells, .error (.grammar stop.error))
  | .ok b, some e => (b.cells, .error (.character e))
  | .ok b, none => (b.cells, .ok b.script)

end ByteBricks.Syntax
