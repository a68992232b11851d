import ByteBricks.Syntax.Builder
import ByteBricks.Template.Resolve

/-! # Compiling Templates

  A source is read as a script before any of its statements get their meaning, so
  that the first error of the reader wins over all errors of meaning. A compiler
  stores the trees of a source as cells. It removes them before it reads the next
  source, but keeps the store. -/

namespace ByteBricks

/-- The template of a script. -/
def Template.ofScript (script : Syntax.Script) : Except Template.Error Template := do
  let (statements, scope) ← (Template.Resolve.chains script.statements).run .empty
  pure ⟨statements, scope.names, scope.count⟩

/-- The template of a script, if there is a script. -/
def Template.ofReading (reading : Except Syntax.Failure Syntax.Script) :
    Except Template.CompileError Template :=
  match reading with
  | .error failure => .error (.ofFailure failure)
  | .ok script => (Template.ofScript script).mapError .meaning

/-- The template of a source. -/
def Template.compile (source : String) : Except Template.CompileError Template :=
  Template.ofReading (Syntax.Script.ofSource source)

/-- A compiler, which may be used for one source after the other. It keeps the cells of the
    source that it has read last, and uses their store again. -/
structure Compiler where
  /-- The cells of the source. -/
  cells : Syntax.Cells

namespace Compiler

/-- A compiler that has read nothing. -/
def new : Compiler := ⟨.empty⟩

/-- Compiles a source. -/
def compile (c : Compiler) (source : String) : Compiler × Except Template.CompileError Template :=
  let (cells, reading) := Syntax.Cells.read c.cells.clear (Token.scan source)
  (⟨cells⟩, Template.ofReading reading)

/-- Compiles sources one after the other. -/
def compileAll (c : Compiler) : List String → List (Except Template.CompileError Template)
  | [] => []
  | source :: rest =>
    let (c, result) := c.compile source
    result :: compileAll c rest

end Compiler

end ByteBricks
