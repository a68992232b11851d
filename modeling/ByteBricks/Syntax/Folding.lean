import ByteBricks.Syntax.Cell

/-! # Folding Chains

  Folding a chain of cells gives every operator its operands. The operator that binds
  tightest, and of those the leftmost one, takes its neighbours out of the chain and
  refers to them instead; then the next one is searched from the front again. -/

namespace ByteBricks.Syntax

/-- The operator that is folded next. -/
structure Candidate where
  /-- Where its cell is. -/
  operator : Handle
  /-- Its cell. -/
  cell : Cell
  /-- The cell in front of it. -/
  before : Option Handle
  /-- The cell in front of that one. -/
  beforeBefore : Option Handle
  /-- How tightly it binds its operands. -/
  level : Nat

/-- The head of the chain once the operator is folded. -/
def Candidate.newHead (c : Candidate) (head : Handle) : Handle :=
  if c.beforeBefore.isSome then head else c.operator

/-- The better one of `best` and the candidates among cells, behind the two cells `before`
    and `beforeBefore`. A later candidate is better only if it binds tighter. -/
def candidateFrom (best : Option Candidate) (beforeBefore before : Option Handle) :
    List (Handle × Cell) → Option Candidate
  | [] => best
  | (h, c) :: rest =>
    let best :=
      match c.openLevel? with
      | some level =>
        if best.all (·.level < level) then some ⟨h, c, before, beforeBefore, level⟩ else best
      | none => best
    candidateFrom best before (some h) rest

namespace Cells

/-- The operator of a chain that is folded next. -/
def candidate? (s : Cells) (head : Handle) : Option Candidate :=
  candidateFrom none none none (s.chain (some head))

/-- The cell, if an operator may take it as an operand. -/
def operand? (s : Cells) (h : Option Handle) : Option Handle :=
  h.filter fun h => (s.get? h).any Cell.isOperand

/-- Gives an index what it indexes, which stands in front of it. -/
def foldElement? (s : Cells) (c : Candidate) : Option Cells := do
  let base ← s.operand? c.before
  let s := s.modify c.operator (·.withFirst base)
  pure (s.modify base (·.withNext none))

/-- Gives an operator its operands, which stand on both sides of it. -/
def foldBinary? (s : Cells) (c : Candidate) : Option Cells := do
  let lhs ← s.operand? c.before
  let rhs ← s.operand? c.cell.next
  let rest := (s.get? rhs).bind Cell.next
  let s := s.modify c.operator fun cell => (cell.withParts lhs rhs).withNext rest
  let s := s.modify lhs (·.withNext none)
  pure (s.modify rhs (·.withNext none))

/-- Folds an operator, unless it lacks an operand. It takes the place in the chain of what
    stood in front of it. -/
def foldAt? (s : Cells) (c : Candidate) : Option Cells := do
  let s ← if c.cell.kind = .element then s.foldElement? c else s.foldBinary? c
  pure (s.relink c.beforeBefore (some c.operator))

/-- Folds no more than `limit` operators of a chain. Gives the head of the chain that is left.
    Fails with the token of an operator that lacks an operand. -/
def foldFrom : Nat → Cells → Handle → Cells × Except Token Handle
  | 0, s, head => (s, .ok head)
  | limit + 1, s, head =>
    match s.candidate? head with
    | none => (s, .ok head)
    | some c =>
      match s.foldAt? c with
      | some s => foldFrom limit s (c.newHead head)
      | none => (s, .error c.cell.token)

/-- Folds all operators of a chain. No chain has more operators than there are cells. -/
def fold (s : Cells) (head : Handle) : Cells × Except Token Handle := foldFrom s.size s head

end Cells

end ByteBricks.Syntax
