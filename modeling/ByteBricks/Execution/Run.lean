import ByteBricks.Execution.Eval

/-! # Executing Templates

  The statements of a template are executed in order, those of a block in its
  place. A cursor starts at a given offset, and every field is placed at the cursor
  and moves it past its end. A brick that the wall refuses is noted, and the
  execution goes on; any other fault ends the execution and leaves the wall as it
  was. -/

namespace ByteBricks.Execution

open Template (Declaration Statement)

/-! ### State -/

/-- What an execution is told besides the template and the data. -/
structure Options where
  /-- The offset of the first field. -/
  start : Int64
  /-- The order of the bytes of a field. -/
  order : ByteOrder

/-- The options of an execution that is told nothing: offset zero and
    little-endian bytes. -/
def Options.default : Options := ⟨0, .little⟩

/-- The value of an expression that stands as a statement. -/
structure Evaluation where
  /-- The line of the statement. -/
  line : Nat
  /-- The value of the expression. -/
  value : Value

/-- The state of an execution. -/
structure State where
  /-- The structs and fields so far. -/
  store : Store
  /-- The wall with the bricks so far. -/
  wall : Wall
  /-- The offset of the next field. -/
  cursor : Int64
  /-- The number of bricks placed so far. -/
  placed : Nat
  /-- What the wall refused so far. -/
  rejected : List Rejection
  /-- The number of structs declared so far. -/
  defined : Nat
  /-- The values of the expressions evaluated as statements so far. -/
  values : List Evaluation

/-- The state before the first statement. -/
def State.start (wall : Wall) (cursor : Int64) : State :=
  ⟨.empty, wall, cursor, 0, [], 0, []⟩

/-! ### Declarations -/

/-- What a declaration asks for. -/
structure Extent where
  /-- The type of the elements. -/
  element : Element
  /-- The number of elements. -/
  count : Nat
  /-- The number of bytes of all elements. -/
  size : Nat

/-- The type of a name: a primitive type, or the newest struct of that name. -/
def Store.element (s : Store) (line : Nat) (name : String) : Except Halt Element :=
  match Primitive.ofName? name with
  | some t => .ok (.primitive t)
  | none => do
    let index ← require line (.unknownType name) (lastIdx? (·.name == name) s.layouts)
    pure (.struct index)

/-- The number of elements that a count asks for; without a count it is one. -/
def evalCount (data : Data) (store : Store) (line : Nat) :
    Option Template.Expr → Except Halt Nat
  | none => .ok 1
  | some e => do
    let count ← (← eval data store e).integer line
    if count.toInt < 0 then fail line (.negativeCount count) else pure count.toInt.toNat

/-- The type, the count and the size of a declared field. -/
def extent (data : Data) (store : Store) (d : Declaration) : Except Halt Extent := do
  let element ← store.element d.mark.line d.typeName.text
  let count ← evalCount data store d.mark.line d.count
  let size := (← store.elementSize element) * count
  if size ≤ Word.uint64Max then pure ⟨element, count, size⟩
  else fail d.mark.line (.sizeOverflow d.name.text)

/-- The field of a declaration at an offset. -/
def Extent.field (e : Extent) (d : Declaration) (start : Int64) : Field :=
  ⟨d.name.text, start, e.element, e.count, d.count.isSome⟩

/-! ### Structs -/

/-- The brick of a struct member. -/
def memberBrick (store : Store) (wall : Wall) (name : String) (e : Extent) (start : Int64) :
    Except Halt Brick :=
  let size := UInt64.ofNat e.size
  match e.element with
  | .primitive t => .ok (Brick.plain name (.ofPrimitive t) start size t.color)
  | .struct index => do
    let layout ← store.layout index
    let color := (wall.definitions[layout.definition]?.map (·.color)).getD (Color.ofPalette 0)
    pure { Brick.plain name (.ofStruct layout.definition) start size color with
      definition := some layout.definition }

/-- The fields of a struct, their bricks and their size. -/
structure Body where
  /-- The members in the order of their declaration. -/
  fields : List Field
  /-- The bricks of the members that cover bytes. -/
  bricks : List Brick
  /-- The number of bytes of one instance. -/
  size : Nat
  deriving DecidableEq

/-- The bricks of a struct member: none if it covers no bytes. -/
def memberBricks (store : Store) (wall : Wall) (name : String) (e : Extent) (start : Int64) :
    Except Halt (List Brick) :=
  if e.size = 0 then .ok []
  else do pure [← memberBrick store wall name e start]

/-- Lays out the members of a struct from an offset on. -/
def layOut (data : Data) (store : Store) (wall : Wall) (struct : String) (offset : Nat) :
    List Declaration → Except Halt Body
  | [] => .ok ⟨[], [], offset⟩
  | d :: rest => do
    let e ← extent data store d
    let start ← require d.mark.line (.sizeOverflow struct) (Word.int64? offset)
    let bricks ← memberBricks store wall d.name.text e start
    if offset + e.size ≤ Word.uint64Max then do
      let body ← layOut data store wall struct (offset + e.size) rest
      pure ⟨e.field d start :: body.fields, bricks ++ body.bricks, body.size⟩
    else fail d.mark.line (.sizeOverflow struct)

/-- The newest definition of the struct's name, if it has exactly these members. -/
def reusable? (wall : Wall) (struct : String) (members : List Brick) : Option Nat := do
  let index ← wall.structIndex? (Label.ofString struct).text
  let d ← wall.definitions[index]?
  if d.members = members then some index else none

/-- Adds a definition with the given members to the wall. -/
def addDefinition (wall : Wall) (struct : String) (members : List Brick) : Option Wall :=
  members.foldlM (fun w member => w.appendMember? wall.definitions.length member)
    (wall.define struct (Color.ofPalette wall.definitions.length))

/-- The index of a struct's definition, and the wall that has it. A wall that already
    has the definition under its name is left as it is. -/
def obtainDefinition (wall : Wall) (line : Nat) (struct : String) (members : List Brick) :
    Except Halt (Nat × Wall) :=
  match reusable? wall struct members with
  | some index => .ok (index, wall)
  | none => do
    let extended ← require line (.invalidStruct struct) (addDefinition wall struct members)
    pure (wall.definitions.length, extended)

/-- The state with one more declared struct. -/
def State.declared (s : State) (wall : Wall) (layout : Layout) : State :=
  { s with
    wall := wall
    store := { s.store with layouts := s.store.layouts ++ [layout] }
    defined := s.defined + 1 }

/-- The state after the declaration of a struct. -/
def declareStruct (data : Data) (s : State) (line : Nat) (struct : String)
    (members : List Declaration) : Except Halt State := do
  let body ← layOut data s.store s.wall struct 0 members
  let (index, wall) ← obtainDefinition s.wall line struct body.bricks
  pure (s.declared wall ⟨struct, index, body.size, body.fields⟩)

/-! ### Fields -/

/-- What the wall answers to the brick of a field. -/
def insertField (store : Store) (wall : Wall) (line : Nat) (name : String) (e : Extent)
    (start : Int64) : Except Halt (Except Rejection Wall) :=
  match e.element with
  | .primitive t =>
    .ok (wall.insert (Brick.plain name (.ofPrimitive t) start (UInt64.ofNat e.size) t.color))
  | .struct index =>
    if e.count ≤ Word.int32Max then do
      let layout ← store.layout index
      pure (wall.insertStruct name start (Int32.ofNat e.count) layout.definition)
    else fail line (.countTooLarge e.count)

/-- The offset after a field that starts at an offset and covers some bytes. -/
def fieldStop (start : Int64) (size : Nat) : Option Int64 :=
  if (size : Int) ≤ Word.int64Max then Word.int64? (start.toInt + size) else none

/-- Notes the answer of the wall. -/
def State.note (s : State) : Except Rejection Wall → State
  | .ok wall => { s with wall := wall, placed := s.placed + 1 }
  | .error rejection => { s with rejected := s.rejected ++ [rejection] }

/-- The state with one more field. -/
def State.addField (s : State) (f : Field) : State :=
  { s with store := { s.store with fields := f :: s.store.fields } }

/-- The state after a declared field. A field without bytes has no brick. -/
def placeField (data : Data) (s : State) (d : Declaration) : Except Halt State := do
  let e ← extent data s.store d
  let added := s.addField (e.field d s.cursor)
  if e.size = 0 then pure added
  else do
    let stop ← require d.mark.line (.sizeOverflow d.name.text) (fieldStop s.cursor e.size)
    checkBounds data.view d.mark.line d.name.text s.cursor stop
    let answer ← insertField s.store s.wall d.mark.line d.name.text e s.cursor
    pure { added.note answer with cursor := stop }

/-! ### Statements -/

/-- The state after an expression that stands as a statement. -/
def noteValue (data : Data) (s : State) (e : Template.Expr) : Except Halt State := do
  let value ← eval data s.store e
  pure { s with values := s.values ++ [⟨e.mark.line, value⟩] }

/-- What a statement outside of blocks asks for. -/
inductive Command where
  /-- To declare a struct. -/
  | declare (line : Nat) (struct : String) (members : List Declaration)
  /-- To place a field. -/
  | place (declaration : Declaration)
  /-- To evaluate an expression. -/
  | evaluate (value : Template.Expr)
  deriving DecidableEq

mutual

/-- The commands of a statement. The end of the script, behind which no statement
    stands, asks for nothing. -/
def commands : Statement → List Command
  | .struct m name members => [.declare m.line name.text members]
  | .field d => [.place d]
  | .block _ body => commandsOf body
  | .expression e => [.evaluate e]
  | .scriptEnd _ => []

/-- The commands of statements. -/
def commandsOf : List Statement → List Command
  | [] => []
  | s :: rest => commands s ++ commandsOf rest

end

/-- The state after a command. -/
def step (data : Data) (s : State) : Command → Except Halt State
  | .declare line struct members => declareStruct data s line struct members
  | .place d => placeField data s d
  | .evaluate e => noteValue data s e

/-- The last state that commands lead to, and what stops them there. -/
def run (data : Data) (s : State) : List Command → State × Option Halt
  | [] => (s, none)
  | c :: rest =>
    match step data s c with
    | .ok s => run data s rest
    | .error halt => (s, some halt)

/-! ### Executions -/

/-- What a finished execution has done. -/
structure Report where
  /-- The number of bricks placed. -/
  placed : Nat
  /-- What the wall refused, in the order of execution. -/
  rejected : List Rejection
  /-- The number of structs declared. -/
  defined : Nat
  /-- The offset after the last field. -/
  stop : Int64

/-- The report of a final state. -/
def State.report (s : State) : Report := ⟨s.placed, s.rejected, s.defined, s.cursor⟩

/-- The outcome of an execution. -/
structure Outcome where
  /-- The wall afterwards. -/
  wall : Wall
  /-- The values of the expressions evaluated as statements, in order. -/
  values : List Evaluation
  /-- The report, or what stopped the execution. -/
  result : Except Halt Report

end Execution

/-- The last state that a template leads to on a wall, and what stops it there. -/
def Template.runOn (t : Template) (wall : Wall) (view : View) (options : Execution.Options) :
    Execution.State × Option Execution.Halt :=
  Execution.run ⟨view, options.order⟩ (.start wall options.start)
    (Execution.commandsOf t.statements)

/-- Executes a template on a wall. The wall only changes if the execution gets to
    its end. -/
def Template.execute (t : Template) (wall : Wall) (view : View) (options : Execution.Options) :
    Execution.Outcome :=
  match t.runOn wall view options with
  | (s, none) => ⟨s.wall, s.values, .ok s.report⟩
  | (s, some halt) => ⟨wall, s.values, .error halt⟩

end ByteBricks
