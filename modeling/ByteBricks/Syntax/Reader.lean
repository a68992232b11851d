import ByteBricks.Syntax.Chain
import ByteBricks.Syntax.Error

/-! # Reading Tokens into Chains

  The reader takes one token at a time. Its state holds the delimiters that are
  open, innermost first, each with the chain that waits outside of it, and the
  chain that is being read. Some tokens only settle together with the next one:
  `struct` wants a name, `=` may be the first half of `==`, and a block ends its
  statement together with a semicolon that follows it. -/

namespace ByteBricks.Syntax

/-! ### State -/

/-- The delimiters that enclose chains. -/
inductive Bracket where
  /-- Parentheses around a chain. -/
  | paren
  /-- Brackets around an index. -/
  | square
  /-- Braces around the statements of a block. -/
  | brace
  deriving DecidableEq, Repr

/-- The token that ends a chain inside the delimiter. -/
def Bracket.terminator : Bracket → Token.Kind
  | paren => .closeParen
  | square => .closeBracket
  | brace => .semicolon

/-- An open delimiter. -/
structure Frame where
  /-- Which delimiter it is. -/
  bracket : Bracket
  /-- The token that opened it. -/
  opener : Token
  /-- The chain outside of it, in reverse. -/
  outer : List Item
  /-- The trees of the finished statements inside of it, in reverse. -/
  body : List Node

/-- What the next token has to settle. -/
inductive Pending where
  /-- Nothing. -/
  | nothing
  /-- The name after the keyword `struct`. -/
  | structName (word : Token)
  /-- Whether an equals sign is the first half of a comparison. -/
  | equals (sign : Token)
  /-- Whether a semicolon follows the block that ends on this line. -/
  | blockEnd (line : Nat)

/-- The state of the reader. -/
structure Reader where
  /-- The delimiters that are open, innermost first. -/
  frames : List Frame
  /-- The chain that is being read, in reverse. -/
  chain : List Item
  /-- The finished statements outside of all delimiters, in reverse. -/
  statements : List (List Node)
  /-- The number of trees made so far. -/
  count : Nat
  /-- What the next token has to settle. -/
  pending : Pending

namespace Reader

/-- The reader before the first token, when `count` trees have been made. -/
def start (count : Nat) : Reader := ⟨[], [], [], count, .nothing⟩

/-- The token that ends the chain that is being read. -/
def terminator (r : Reader) : Token.Kind :=
  match r.frames with
  | [] => .semicolon
  | frame :: _ => frame.bracket.terminator

/-- The origin of the next tree. -/
def origin (r : Reader) (t : Token) : Origin := ⟨r.count, t⟩

/-! ### Steps -/

/-- Appends an item made from one more tree to the chain. -/
def push (r : Reader) (item : Item) : Reader :=
  { r with chain := item :: r.chain, count := r.count + 1, pending := .nothing }

/-- The trees of the chain that is being read, which ends on a line. -/
def resolveChain (r : Reader) (line : Nat) : Except Error (List Node) :=
  match resolve r.chain.reverse with
  | .ok nodes => .ok nodes
  | .error t => .error ⟨line, .missingOperand t.kind⟩

/-- Ends the statement that is being read. -/
def endStatement (r : Reader) (line : Nat) : Except Error Reader := do
  let nodes ← r.resolveChain line
  match r.frames with
  | [] => pure { r with chain := [], statements := nodes :: r.statements, pending := .nothing }
  | frame :: frames =>
    let frame := { frame with body := nodes.reverse ++ frame.body }
    pure { r with chain := [], frames := frame :: frames, pending := .nothing }

/-- Opens a delimiter. -/
def enter (r : Reader) (bracket : Bracket) (t : Token) : Except Error Reader :=
  if maxDepth ≤ r.frames.length then .error ⟨t.line, .nestingTooDeep⟩
  else .ok { r with frames := ⟨bracket, t, r.chain, []⟩ :: r.frames, chain := [] }

/-- Closes the innermost delimiter, whose contents have become an item. -/
def leave (r : Reader) (outer : List Item) (frames : List Frame) (item : Item) : Reader :=
  { r with frames := frames, chain := outer }.push item

/-- Closes a block. Unless it stands in parentheses or brackets, it ends its
    statement. -/
def closeBlock (r : Reader) (frame : Frame) (frames : List Frame) (line : Nat) : Reader :=
  let node := .block (r.origin frame.opener) frame.body.reverse
  let r := r.leave frame.outer frames (.tree node)
  if r.terminator = .semicolon then { r with pending := .blockEnd line } else r

/-- Reads the token that ends the chain. -/
def endChain (r : Reader) (t : Token) : Except Error Reader := do
  if r.chain.isEmpty then throw ⟨t.line, .emptyExpression t.kind⟩
  match r.frames with
  | ⟨.paren, opener, outer, _⟩ :: frames =>
    let nodes ← r.resolveChain t.line
    pure (r.leave outer frames (.tree (.paren (r.origin opener) nodes)))
  | ⟨.square, opener, outer, _⟩ :: frames =>
    let nodes ← r.resolveChain t.line
    pure (r.leave outer frames (.subscript (r.origin opener) nodes))
  | _ => r.endStatement t.line

/-- Reads the end of the source, which ends a statement too. -/
def endScript (r : Reader) (t : Token) : Except Error Reader :=
  match r.frames with
  | [] => (r.push (.tree (.scriptEnd (r.origin t)))).endStatement t.line
  | frame :: _ =>
    if frame.bracket = .brace then .error ⟨t.line, .unterminatedBlock frame.opener.line⟩
    else .error ⟨t.line, .unclosed frame.opener.kind frame.opener.line⟩

/-- The block that a closing brace ends here: its frame, and the frames outside
    of it. A block is only closed between statements, and after the first one. -/
def closable? (r : Reader) : Option (Frame × List Frame) :=
  match r.frames with
  | frame :: frames =>
    if frame.bracket = .brace ∧ frame.body ≠ [] ∧ r.chain = [] then some (frame, frames) else none
  | [] => none

/-- Appends a tree that its token makes alone. -/
def pushTree (r : Reader) (t : Token) (node : Origin → Node) : Except Error Reader :=
  .ok (r.push (.tree (node (r.origin t))))

/-- Appends an operator. -/
def pushOperator (r : Reader) (t : Token) (op : BinaryOp) : Except Error Reader :=
  .ok (r.push (.operator (r.origin t) op))

/-- Reads a token that neither ends the chain nor closes a block. -/
def readItem (r : Reader) (t : Token) : Except Error Reader :=
  match t.kind with
  | .name => r.pushTree t .name
  | .integer => r.pushTree t .integer
  | .ifWord => r.pushTree t (.control · .ifWord)
  | .elseWord => r.pushTree t (.control · .elseWord)
  | .whileWord => r.pushTree t (.control · .whileWord)
  | .dot => r.pushOperator t .member
  | .plus => r.pushOperator t .plus
  | .minus => r.pushOperator t .minus
  | .star => r.pushOperator t .times
  | .slash => r.pushOperator t .divide
  | .equals => .ok { r with pending := .equals t }
  | .structWord => .ok { r with pending := .structName t }
  | .openParen => r.enter .paren t
  | .openBracket => r.enter .square t
  | .openBrace => r.enter .brace t
  | .endOfInput => r.endScript t
  | kind => .error ⟨t.line, .unexpectedToken kind⟩

/-- Reads a token when nothing is pending. -/
def readToken (r : Reader) (t : Token) : Except Error Reader :=
  if t.kind = r.terminator then r.endChain t
  else if t.kind = .closeBrace then
    match r.closable? with
    | some (frame, frames) => .ok (r.closeBlock frame frames t.line)
    | none => .error ⟨t.line, .unexpectedToken .closeBrace⟩
  else r.readItem t

/-- The token of a comparison, made of two equals signs. -/
def comparisonToken (first second : Token) : Token :=
  { first with text := first.text ++ second.text }

/-- Appends the head of a struct declaration, whose name counts as a tree of its
    own. -/
def pushStructHead (r : Reader) (word name : Token) : Reader :=
  { r with count := r.count + 1 }.push (.tree (.structHead ⟨r.count + 1, word⟩ ⟨r.count, name⟩))

/-- Reads the next token. -/
def read (r : Reader) (t : Token) : Except Error Reader :=
  match r.pending with
  | .nothing => r.readToken t
  | .structName word =>
    if t.kind = .name then .ok (r.pushStructHead word t)
    else .error ⟨t.line, .missingStructName t.kind⟩
  | .equals sign =>
    if t.kind = .equals ∧ t.start = sign.stop then
      r.pushOperator (comparisonToken sign t) .compare
    else do (← r.pushOperator sign .assign).readToken t
  | .blockEnd line =>
    if t.kind = .semicolon then r.endStatement t.line
    else do (← r.endStatement line).readToken t

/-- Reads tokens one after the other. Gives the last state that they lead to, and
    what stops the reader there. -/
def readAll (r : Reader) : List Token → Reader × Option Error
  | [] => (r, none)
  | t :: rest =>
    match r.read t with
    | .ok r => readAll r rest
    | .error e => (r, some e)

end Reader

end ByteBricks.Syntax
