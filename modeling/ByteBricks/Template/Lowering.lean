import ByteBricks.Syntax.Builder
import ByteBricks.Template.Cell
import ByteBricks.Template.Resolve

/-! # Lowering Scripts to Cells

  Each node of a template is stored as a cell as soon as the nodes below it are. The cell
  is linked to the one before it in its chain once it is stored, and a chain of statements
  to the one before it once it is finished. The script ends with a cell of its own. What
  is known of names and types is read off the cells and the declarations so far. -/

namespace ByteBricks.Template

open Syntax (Node Origin Strand)

/-- A field that was declared. -/
structure Binding where
  /-- The name of the field. -/
  name : String
  /-- The type of its elements. -/
  type : CellType
  /-- Whether the field was declared with a count. -/
  isArray : Bool

/-- A struct that was declared. -/
structure StructBinding where
  /-- The name of the struct. -/
  name : String
  /-- Its members, newest first. -/
  members : List Binding

/-- The state of the lowering. -/
structure Lowering where
  /-- The cells stored so far. -/
  cells : Cells
  /-- The names stored so far. -/
  names : NameTable
  /-- The structs declared so far, newest first. -/
  structs : List StructBinding
  /-- The fields declared outside of structs so far, newest first. -/
  fields : List Binding
  /-- The members of the struct that is being declared, if there is one, newest first. -/
  members : Option (List Binding)
  /-- The first statement. -/
  first : Option Handle
  /-- The last statement so far. -/
  last : Option Handle

/-- The cells of a template, with the names that they refer to. -/
structure Code where
  /-- The cells. -/
  cells : Cells
  /-- The names. -/
  names : NameTable
  /-- The first statement. -/
  first : Option Handle

namespace Lowering

/-- The state at the start of a script. -/
def empty : Lowering := ⟨.empty, .empty, [], [], none, none, none⟩

/-- The newest field or member of a name. -/
def field? (s : Lowering) (name : String) : Option Binding :=
  (s.members.getD [] ++ s.fields).find? (·.name == name)

/-- The newest struct of a name. -/
def struct? (s : Lowering) (name : String) : Option StructBinding :=
  s.structs.find? (·.name == name)

/-- The member of a name of the newest struct of a name. -/
def member? (s : Lowering) (struct member : String) : Option Binding := do
  let scope ← s.struct? struct
  scope.members.find? (·.name == member)

/-- Appends a chain of statements to those so far. -/
def append (s : Lowering) (chain : Strand) : Lowering :=
  match s.last with
  | some tail => { s with cells := s.cells.link tail chain.head, last := some chain.tail }
  | none => { s with first := some chain.head, last := some chain.tail }

/-- Whether the last statement is the end of the script. -/
def ends (s : Lowering) : Bool :=
  ((s.last.bind s.cells.get?).map Cell.content) == some .scriptEnd

/-- The template. A script that does not end is ended here. -/
def finish (s : Lowering) : Code :=
  if s.ends then ⟨s.cells, s.names, s.first⟩
  else
    let line := ((s.last.bind s.cells.get?).map Cell.line).getD 1
    let (h, cells) := s.cells.push ⟨.scriptEnd, none, none, line⟩
    match s.last with
    | some tail => ⟨Cells.link cells tail h, s.names, s.first⟩
    | none => ⟨cells, s.names, some h⟩

end Lowering

/-- Why the lowering stops. -/
inductive Lowering.Halt where
  /-- The source is no template. -/
  | failed (error : CompileError)
  /-- An operand of the operator is no number. -/
  | operandNotNumber (line : Nat) (op : ArithOp)

/-- The text of the error. -/
def Lowering.Halt.message : Lowering.Halt → String
  | failed e => e.message
  | operandNotNumber line op =>
    "line " ++ toString line ++ ": the operands of `" ++ op.symbol ++ "` must be numbers"

/-- A step of the lowering, which may fail. -/
abbrev Lower := StateT Lowering (Except Lowering.Halt)

namespace Lower

open Resolve (chainLine)

/-! ### Steps -/

/-- Fails on a line. -/
def fail {α : Type} (line : Nat) (fault : Fault) : Lower α :=
  fun _ => .error (.failed (.meaning ⟨line, fault⟩))

/-- The value, or else the fault on a line. -/
def require {α : Type} (line : Nat) (fault : Fault) : Option α → Lower α
  | some a => pure a
  | none => fail line fault

/-- Fails with the fault on a line unless the condition holds. -/
def check (line : Nat) (fault : Fault) (condition : Bool) : Lower Unit :=
  if condition then pure () else fail line fault

/-- Stores a cell. -/
def alloc (line : Nat) (content : Content) (type : Option CellType) : Lower Handle := fun s =>
  let (h, cells) := s.cells.push ⟨content, type, none, line⟩
  .ok (h, { s with cells := cells })

/-- Appends a cell to a chain, if there is one. -/
def append (chain : Option Strand) (h : Handle) : Lower Strand :=
  match chain with
  | none => pure ⟨h, h⟩
  | some chain => do
    modify fun s => { s with cells := s.cells.link chain.tail h }
    pure ⟨chain.head, h⟩

/-- Stores the text of a token as a name. -/
def intern (t : Token) : Lower Name := fun s =>
  match s.names.intern? t.text with
  | some (offset, names) => .ok (⟨t.text, offset⟩, { s with names := names })
  | none => .error (.failed (.meaning ⟨t.line, .tooManyNames⟩))

/-- Fails unless a cell stands for an integer. -/
def checkInteger (line : Nat) (fault : Fault) (h : Handle) : Lower Unit := do
  check line fault (((← get).cells.type? h).any CellType.isInteger)

/-- Fails unless a field holds a single number. -/
def checkScalar (line : Nat) (b : Binding) : Lower Unit := do
  check line (.arrayAsValue b.name) (!b.isArray)
  check line (.notNumber b.name) b.type.isNumber

/-! ### References -/

/-- Stores a reference to a field outside of structs, or to a member of the struct that is
    being declared. -/
def fieldAccess (t : Token) : Lower (Handle × Binding) := do
  let b ← require t.line (.unknownField t.text) ((← get).field? t.text)
  let name ← intern t
  pure (← alloc t.line (.access (.field name)) b.type, b)

/-- Stores a reference to a member of a field. -/
def memberAccess (o : Origin) (lhs rhs : Node) : Lower (Handle × Binding) :=
  match lhs, rhs with
  | .name owner, .name member => do
    let b ← require owner.token.line (.unknownField owner.token.text)
      ((← get).field? owner.token.text)
    check owner.token.line (.arrayAsValue b.name) (!b.isArray)
    let struct ← match b.type with
      | .struct name => pure name.text
      | .primitive _ => fail owner.token.line (.notStruct b.name)
    let m ← require member.token.line (.unknownMember struct member.token.text)
      ((← get).member? struct member.token.text)
    let ownerName ← intern owner.token
    let memberName ← intern member.token
    pure (← alloc o.token.line (.access (.member ownerName memberName)) m.type, m)
  | _, _ => fail o.token.line .malformedAccess

/-- Stores a reference that an index may follow. -/
def indexed (base : Node) : Lower (Handle × Binding) :=
  match base with
  | .name o => fieldAccess o.token
  | .binary o .member lhs rhs => memberAccess o lhs rhs
  | _ => fail base.line (.notArray base.token.text)

/-- Stores a reference to an array of numbers, for an index to pick from. -/
def arrayAccess (base : Node) : Lower (Handle × Binding) := do
  let (h, b) ← indexed base
  check base.line (.notArray b.name) b.isArray
  check base.line (.notNumber b.name) b.type.isNumber
  pure (h, b)

/-! ### Expressions -/

/-- Stores an integer literal. -/
def integer (t : Token) : Lower Handle := do
  let value ← require t.line (.literalTooLarge t.text)
    (Word.int64? (Nat.ofDigitChars 10 t.text.toList 0))
  alloc t.line (.literal value) (some (.primitive .int64))

/-- Fails unless both operands of an operator are numbers. -/
def checkOperands (line : Nat) (op : ArithOp) (l r : Option CellType) : Lower Unit :=
  if l.any CellType.isNumber && r.any CellType.isNumber then pure ()
  else fun _ => .error (.operandNotNumber line op)

/-- Stores an operation on two operands. The result is a float if either operand is one. -/
def arith (o : Origin) (op : ArithOp) (lhs rhs : Handle) : Lower Handle := do
  let l := (← get).cells.type? lhs
  let r := (← get).cells.type? rhs
  checkOperands o.token.line op l r
  let type := if l.any CellType.isFloat || r.any CellType.isFloat then .float64 else .int64
  alloc o.token.line (.arith op lhs rhs) (some (.primitive type))

mutual

/-- Stores the cells of a tree as an expression. -/
def expr : Node → Lower Handle
  | .name o => do
    let (h, b) ← fieldAccess o.token
    checkScalar o.token.line b
    pure h
  | .integer o => integer o.token
  | .control o word => fail o.token.line (.controlFlow word)
  | .paren o inner => single o.token.line inner
  | .element o base index => do
    let (baseCell, b) ← arrayAccess base
    let i ← single o.token.line index
    checkInteger (chainLine o.token.line index) .fractionalIndex i
    alloc o.token.line (.element baseCell i) b.type
  | .binary o op lhs rhs =>
    match op with
    | .member => do
      let (h, b) ← memberAccess o lhs rhs
      checkScalar o.token.line b
      pure h
    | .assign => fail o.token.line .assignment
    | .compare => fail o.token.line .comparison
    | .plus => do let l ← expr lhs; let r ← expr rhs; arith o .add l r
    | .minus => do let l ← expr lhs; let r ← expr rhs; arith o .sub l r
    | .times => do let l ← expr lhs; let r ← expr rhs; arith o .mul l r
    | .divide => do let l ← expr lhs; let r ← expr rhs; arith o .div l r
  | .structHead o _ | .block o _ | .scriptEnd o => fail o.token.line .expressionWanted

/-- Stores the cells of a chain that must hold a single expression. -/
def single (line : Nat) : List Node → Lower Handle
  | [] => fail line .expressionWanted
  | [n] => expr n
  | n :: _ :: _ => fail n.line .singleExpressionWanted

end

/-! ### Declarations -/

/-- Stores the count of an array in the brackets of its type. Inside of a struct the count
    must not depend on data. -/
def count (o : Origin) (index : List Node) : Lower Handle := do
  let h ← single o.token.line index
  let line := chainLine o.token.line index
  checkInteger line .fractionalCount h
  let s ← get
  check line .variableCount (s.members.isNone || s.cells.isConstant s.cells.size h)
  pure h

/-- Stores the count of a declared field, if its type has brackets. -/
def bracketCount : Option (Origin × List Node) → Lower (Option Handle)
  | none => pure none
  | some (o, index) => do pure (some (← count o index))

/-- The primitive type of a name. There is none for a struct. -/
def primitive? (t : Token) : Lower (Option Primitive) :=
  match Primitive.ofName? t.text with
  | some type => pure (some type)
  | none => do
    check t.line (.unknownType t.text) ((← get).struct? t.text).isSome
    pure none

/-- Declares a member or a field outside of structs. -/
def declare (line : Nat) (b : Binding) : Lower Unit := do
  let s ← get
  match s.members with
  | some members =>
    check line (.duplicateMember b.name) (members.all (·.name != b.name))
    set { s with members := some (b :: members) }
  | none => set { s with fields := b :: s.fields }

/-- Stores the declaration of a field whose type and name are given by two names; `bracket`
    holds the count. -/
def declaration (type : Origin) (bracket : Option (Origin × List Node)) (name : Origin) :
    Lower Handle := do
  let primitive ← primitive? type.token
  let size ← bracketCount bracket
  let typeName ← intern type.token
  let fieldName ← intern name.token
  let elements := CellType.ofName primitive typeName
  declare name.token.line ⟨name.token.text, elements, size.isSome⟩
  alloc type.token.line (.fieldDecl typeName size fieldName) (some elements)

/-! ### Statements -/

/-- Fails if a struct is being declared, since that has declarations only. -/
def leaveStruct (line : Nat) : Lower Unit := do
  check line .memberNotDeclaration (← get).members.isNone

/-- Stores a struct declaration, whose members the steps `body` store unless it is empty. -/
def struct (o name : Origin) (isEmpty : Bool) (body : Lower (Option Strand)) : Lower Handle := do
  let text := name.token.text
  check o.token.line (.missingBody text) (!isEmpty)
  check name.token.line (.reservedName text) (Primitive.ofName? text).isNone
  check name.token.line (.duplicateStruct text) ((← get).struct? text).isNone
  let outer := (← get).members
  modify fun s => { s with members := some [] }
  let chain ← body
  let members := ((← get).members).getD []
  modify fun s => { s with members := outer }
  let chain ← require o.token.line (.missingBody text) chain
  let structName ← intern name.token
  let h ← alloc o.token.line (.structDecl structName chain.head) none
  modify fun s => { s with structs := ⟨text, members⟩ :: s.structs }
  pure h

/-- Stores a block, whose statements the steps `body` store. -/
def block (o : Origin) (body : Lower (Option Strand)) : Lower Handle := do
  let chain ← require o.token.line .expressionWanted (← body)
  alloc o.token.line (.block chain.head) none

mutual

/-- Stores the cells of a tree that is a statement by itself. -/
def statement : Node → Lower Handle
  | .structHead o name => fail o.token.line (.missingBody name.token.text)
  | .block o body => block o (statements none body)
  | .scriptEnd o => alloc o.token.line .scriptEnd none
  | n => expr n

/-- Stores the cells of a chain of statements behind those of another, if there is one.
    In a struct they must be declarations. -/
def statements : Option Strand → List Node → Lower (Option Strand)
  | front, [] => pure front
  | front, .name type :: .name name :: rest => do
    let h ← declaration type none name
    statements (some (← append front h)) rest
  | front, .element o (.name type) index :: .name name :: rest => do
    let h ← declaration type (some (o, index)) name
    statements (some (← append front h)) rest
  | front, .structHead o name :: .block _ body :: rest => do
    leaveStruct o.token.line
    let h ← struct o name body.isEmpty (statements none body)
    statements (some (← append front h)) rest
  | front, n :: rest => do
    leaveStruct n.line
    let h ← statement n
    statements (some (← append front h)) rest

end

/-- Stores the cells of the chains of a script, each behind the one before. -/
def chains : List (List Node) → Lower Unit
  | [] => pure ()
  | chain :: rest => do
    match ← statements none chain with
    | some strand => modify (·.append strand)
    | none => pure ()
    chains rest

end Lower

namespace Code

/-- The cells of a script. -/
def ofScript (script : Syntax.Script) : Except Lowering.Halt Code := do
  let (_, s) ← (Lower.chains script.statements).run .empty
  pure s.finish

/-- The cells of a source. -/
def ofSource (source : String) : Except Lowering.Halt Code :=
  match Syntax.Script.ofSource source with
  | .error failure => .error (.failed (.ofFailure failure))
  | .ok script => ofScript script

end Code

end ByteBricks.Template
