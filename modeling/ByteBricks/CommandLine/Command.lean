import ByteBricks.Builtin
import ByteBricks.CommandLine.Arguments
import ByteBricks.CommandLine.Report
import ByteBricks.Template.Text

/-! # The Command

  The command annotates data with the bricks of a template. It is given as a
  dialogue: it asks for the files that it needs, one after the other, and ends with
  what it writes. -/

namespace ByteBricks.CommandLine

/-- What a finished command leaves behind. -/
structure Exit where
  /-- The exit code: zero for success, one for a failure, two for arguments that are
      not understood. -/
  code : UInt8
  /-- The text for the standard output. -/
  output : String
  /-- The text for the standard error. -/
  errors : String
  deriving DecidableEq

/-- A command, up to the next thing that it needs. -/
inductive Dialogue where
  /-- The command has finished. -/
  | finished (exit : Exit)
  /-- The command needs the contents of a file; there are none if it cannot be read. -/
  | readFile (path : String) (next : Option ByteArray → Dialogue)
  /-- The command needs the standard input. -/
  | readInput (next : ByteArray → Dialogue)

/-! ### Ends -/

/-- Ends with a text for the standard output. -/
def succeed (output : String) : Dialogue := .finished ⟨0, output, ""⟩

/-- Ends with a message. -/
def failWith (message : String) : Dialogue := .finished ⟨1, "", message ++ "\n"⟩

/-- Ends with a message that is marked as an error. -/
def failWithError (message : String) : Dialogue := failWith ("Error: " ++ message)

/-- The text that explains the arguments. -/
def helpText : String :=
  "brickwall-annotate - annotates bytes with bricks according to a template

Usage: brickwall-annotate [OPTIONS] [FILE]

Arguments:
  [FILE]  The file to annotate, stdin if omitted

Options:
  -l, --list                 Lists the built-in templates
  -t, --template <TEMPLATE>  The built-in template to use
  -c, --custom <CUSTOM>      A custom template to use
  -o, --offset <OFFSET>      The offset at which the first field is placed [default: 0]
  -b, --big-endian           Reads multi-byte values as big endian
      --dump                 Prints the compiled template instead of annotating
  -h, --help                 Print help
  -V, --version              Print version
"

/-- The text that names the version. -/
def versionText : String := "brickwall-annotate 0.1.0\n"

/-- The text that names the built-in templates. -/
def listText : String :=
  String.join (Builtin.sources.map fun (name, _) => name ++ "\n") ++
    "\nif the `--custom` (or `-c`) argument is used, " ++
    "the template at the supplied path will be used instead\n"

/-! ### Steps -/

/-- Executes a template over data. -/
def annotate (c : Config) (t : Template) (input : Input) : Dialogue :=
  let options : Execution.Options :=
    ⟨c.offset.getD 0, if c.bigEndian then .big else .little⟩
  let outcome := t.execute .empty (.input input) options
  match outcome.result with
  | .ok report => succeed ((annotationJson outcome.wall report.rejected).render ++ "\n")
  | .error (.failed e) => failWithError e.message
  | .error (.broken _) => failWithError "the execution broke off"

/-- Goes on with a compiled template. -/
def withTemplate (c : Config) (t : Template) : Dialogue :=
  if c.dump then succeed (t.text ++ "\n")
  else
    match c.file with
    | none => .readInput fun bytes => annotate c t (.memory bytes.data)
    | some path => .readFile path fun
      | none => failWithError ("cannot read " ++ path)
      | some bytes => annotate c t (.file bytes.data bytes.size)

/-- Compiles the template in a file and goes on with it. -/
def withCustom (c : Config) (path : String) : Dialogue :=
  .readFile path fun bytes =>
    match bytes.bind String.fromUTF8? with
    | none => failWithError ("cannot read " ++ path)
    | some source =>
      match Template.compile source with
      | .ok t => withTemplate c t
      | .error e => failWith (path ++ ": " ++ e.message)

/-- Compiles a built-in template and goes on with it. -/
def withBuiltin (c : Config) (name : String) : Dialogue :=
  match Builtin.template? name with
  | none => failWith ("unknown template name: " ++ name ++ ", exiting...")
  | some (.ok t) => withTemplate c t
  | some (.error e) => failWithError ("built-in template `" ++ name ++ "`: " ++ e.message)

/-- The command that arguments ask for. -/
def run (c : Config) : Dialogue :=
  if c.list then succeed listText
  else
    match c.custom, c.template with
    | some path, _ => withCustom c path
    | none, some name => withBuiltin c name
    | none, none => failWith "no template specified, exiting..."

/-- The command of a command line. -/
def command (arguments : List String) : Dialogue :=
  match parse arguments with
  | .ok c => run c
  | .error .help => succeed helpText
  | .error .version => succeed versionText
  | .error .usage => .finished ⟨2, "", "the arguments are not understood; try --help\n"⟩

/-- The end of a command for which all files are known. -/
def Dialogue.answer (file : String → Option ByteArray) (input : ByteArray) : Dialogue → Exit
  | finished exit => exit
  | readFile path next => (next (file path)).answer file input
  | readInput next => (next input).answer file input

end ByteBricks.CommandLine
