import ByteBricks.Template.Scope

/-! # Resolving Names and Types

  Statements get their meaning in the order of the source. A declaration is a type
  name, perhaps with an index, directly followed by another name; what is left is
  a struct, a block, the end of the script or an expression. -/

namespace ByteBricks.Template

open Syntax (Node Origin)

/-- A step that reads and extends the scope, and that may fail. -/
abbrev Resolve := StateT Scope (Except Error)

namespace Resolve

/-! ### Steps -/

/-- Fails on a line. -/
def fail {α : Type} (line : Nat) (fault : Fault) : Resolve α :=
  fun _ => .error ⟨line, fault⟩

/-- The value, or else the fault on a line. -/
def require {α : Type} (line : Nat) (fault : Fault) : Option α → Resolve α
  | some a => pure a
  | none => fail line fault

/-- Fails with the fault on a line unless the condition holds. -/
def check (line : Nat) (fault : Fault) (condition : Bool) : Resolve Unit :=
  if condition then pure () else fail line fault

/-- The mark of the node that is finished now. -/
def mark (line : Nat) : Resolve Mark :=
  fun s => .ok (⟨s.count, line⟩, { s with count := s.count + 1 })

/-- Stores the text of a token as a name. -/
def intern (t : Token) : Resolve Name := fun s =>
  match s.names.intern? t.text with
  | some (offset, names) => .ok (⟨t.text, offset⟩, { s with names := names })
  | none => .error ⟨t.line, .tooManyNames⟩

/-! ### References -/

/-- The primitive type of a field whose elements are numbers. -/
def numberType (line : Nat) (b : Entry) : Resolve Primitive :=
  match b.type with
  | .primitive t => pure t
  | .struct _ => fail line (.notNumber b.name)

/-- The primitive type of a field that holds a single number. -/
def scalarType (line : Nat) (b : Entry) : Resolve Primitive := do
  check line (.arrayAsValue b.name) (!b.isArray)
  numberType line b

/-- A reference to a field outside of structs, or to a member of the struct that
    is being declared. -/
def fieldAccess (t : Token) : Resolve (Mark × Access × Entry) := do
  let b ← require t.line (.unknownField t.text) ((← get).field? t.text)
  let name ← intern t
  pure (← mark t.line, .field name, b)

/-- A reference to a member of a field. -/
def memberAccess (o : Origin) (lhs rhs : Node) : Resolve (Mark × Access × Entry) :=
  match lhs, rhs with
  | .name owner, .name member => do
    let b ← require owner.token.line (.unknownField owner.token.text)
      ((← get).field? owner.token.text)
    check owner.token.line (.arrayAsValue b.name) (!b.isArray)
    let struct ← match b.type with
      | .struct name => pure name
      | .primitive _ => fail owner.token.line (.notStruct b.name)
    let m ← require member.token.line (.unknownMember struct member.token.text)
      ((← get).member? struct member.token.text)
    let ownerName ← intern owner.token
    let memberName ← intern member.token
    pure (← mark o.token.line, .member ownerName memberName, m)
  | _, _ => fail o.token.line .malformedAccess

/-- A reference that an index may follow. -/
def indexed (base : Node) : Resolve (Mark × Access × Entry) :=
  match base with
  | .name o => fieldAccess o.token
  | .binary o .member lhs rhs => memberAccess o lhs rhs
  | _ => fail base.line (.notArray base.token.text)

/-- A reference to an array of numbers, for an index to pick from. -/
def arrayAccess (base : Node) : Resolve (Mark × Access × Primitive) := do
  let (m, field, b) ← indexed base
  check base.line (.notArray b.name) b.isArray
  pure (m, field, ← numberType base.line b)

/-! ### Expressions -/

/-- An integer literal. -/
def integer (t : Token) : Resolve Expr := do
  let value ← require t.line (.literalTooLarge t.text)
    (Word.int64? (Nat.ofDigitChars 10 t.text.toList 0))
  pure (.literal (← mark t.line) value)

/-- The type of the result of an operation: a float if either operand is one. -/
def resultType (lhs rhs : Primitive) : Primitive :=
  if lhs.isFloat || rhs.isFloat then .float64 else .int64

/-- An operation on two operands. -/
def arith (o : Origin) (op : ArithOp) (lhs rhs : Expr) : Resolve Expr := do
  pure (.arith (← mark o.token.line) (resultType lhs.type rhs.type) op lhs rhs)

/-- The line of a chain, which is that of its first tree. -/
def chainLine (fallback : Nat) : List Node → Nat
  | [] => fallback
  | n :: _ => n.line

mutual

/-- The meaning of a tree as an expression. -/
def expr : Node → Resolve Expr
  | .name o => do
    let (m, field, b) ← fieldAccess o.token
    pure (.access m (← scalarType o.token.line b) field)
  | .integer o => integer o.token
  | .control o word => fail o.token.line (.controlFlow word)
  | .paren o inner => single o.token.line inner
  | .element o base index => do
    let (baseMark, field, type) ← arrayAccess base
    let i ← single o.token.line index
    check (chainLine o.token.line index) .fractionalIndex i.type.isInteger
    pure (.element (← mark o.token.line) type baseMark field i)
  | .binary o op lhs rhs =>
    match op with
    | .member => do
      let (m, field, b) ← memberAccess o lhs rhs
      pure (.access m (← scalarType o.token.line b) field)
    | .assign => fail o.token.line .assignment
    | .compare => fail o.token.line .comparison
    | .plus => do let l ← expr lhs; let r ← expr rhs; arith o .add l r
    | .minus => do let l ← expr lhs; let r ← expr rhs; arith o .sub l r
    | .times => do let l ← expr lhs; let r ← expr rhs; arith o .mul l r
    | .divide => do let l ← expr lhs; let r ← expr rhs; arith o .div l r
  | .structHead o _ | .block o _ | .scriptEnd o => fail o.token.line .expressionWanted

/-- The meaning of a chain that must hold a single expression. -/
def single (line : Nat) : List Node → Resolve Expr
  | [] => fail line .expressionWanted
  | [n] => expr n
  | n :: _ :: _ => fail n.line .singleExpressionWanted

end

/-! ### Declarations -/

/-- The count of an array in the brackets of its type. Inside of a struct the
    count must not depend on data. -/
def count (inStruct : Bool) (o : Origin) (index : List Node) : Resolve Expr := do
  let e ← single o.token.line index
  check (chainLine o.token.line index) .fractionalCount e.type.isInteger
  check (chainLine o.token.line index) .variableCount (!inStruct || e.isConstant)
  pure e

/-- The count of a declared field, if its type has brackets. -/
def bracketCount (inStruct : Bool) : Option (Origin × List Node) → Resolve (Option Expr)
  | none => pure none
  | some (o, index) => do pure (some (← count inStruct o index))

/-- Declares a member or a field outside of structs. -/
def declare (inStruct : Bool) (line : Nat) (b : Entry) : Resolve Unit := do
  let s ← get
  if inStruct then
    check line (.duplicateMember b.name) (s.members.all (·.name != b.name))
    set { s with members := b :: s.members }
  else set { s with fields := b :: s.fields }

/-- The meaning of a declaration of a field whose type and name are given by two
    names; `bracket` holds the count. -/
def declaration (inStruct : Bool) (type : Origin) (bracket : Option (Origin × List Node))
    (name : Origin) : Resolve Declaration := do
  let elementType ← require type.token.line (.unknownType type.token.text)
    ((← get).type? type.token.text)
  let size ← bracketCount inStruct bracket
  let typeName ← intern type.token
  let fieldName ← intern name.token
  declare inStruct name.token.line ⟨name.token.text, elementType, size.isSome⟩
  pure ⟨← mark type.token.line, typeName, size, fieldName⟩

/-- The meaning of the body of a struct. -/
def members : List Node → Resolve (List Declaration)
  | [] => pure []
  | .name type :: .name name :: rest => do
    let d ← declaration true type none name
    pure (d :: (← members rest))
  | .element o (.name type) index :: .name name :: rest => do
    let d ← declaration true type (some (o, index)) name
    pure (d :: (← members rest))
  | n :: _ => fail n.line .memberNotDeclaration

/-- The meaning of a struct declaration with a body. -/
def struct (o name : Origin) (body : List Node) : Resolve Statement := do
  let text := name.token.text
  check name.token.line (.reservedName text) (Primitive.ofName? text).isNone
  check name.token.line (.duplicateStruct text) ((← get).struct? text).isNone
  modify fun s => { s with members := [] }
  let declarations ← members body
  let structName ← intern name.token
  let m ← mark o.token.line
  modify fun s => { s with structs := ⟨text, s.members⟩ :: s.structs, members := [] }
  pure (.struct m structName declarations)

/-! ### Statements -/

mutual

/-- The meaning of a tree that is a statement by itself. -/
def statement : Node → Resolve Statement
  | .structHead o name => fail o.token.line (.missingBody name.token.text)
  | .block o body => do
    let inner ← statements body
    pure (.block (← mark o.token.line) inner)
  | .scriptEnd o => do pure (.scriptEnd (← mark o.token.line))
  | n => do pure (.expression (← expr n))

/-- The meaning of a chain of statements. -/
def statements : List Node → Resolve (List Statement)
  | [] => pure []
  | .name type :: .name name :: rest => do
    let d ← declaration false type none name
    pure (.field d :: (← statements rest))
  | .element o (.name type) index :: .name name :: rest => do
    let d ← declaration false type (some (o, index)) name
    pure (.field d :: (← statements rest))
  | .structHead o name :: .block _ body :: rest => do
    let s ← struct o name body
    pure (s :: (← statements rest))
  | n :: rest => do
    let s ← statement n
    pure (s :: (← statements rest))

end

/-- The meaning of the chains of a script, each read on its own. -/
def chains : List (List Node) → Resolve (List Statement)
  | [] => pure []
  | chain :: rest => do
    let first ← statements chain
    pure (first ++ (← chains rest))

end Resolve

end ByteBricks.Template
