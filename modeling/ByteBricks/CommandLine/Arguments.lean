import ByteBricks.Word

/-! # Arguments

  How the arguments of the command line are read. Options may be written in full
  (`--template NAME`, `--template=NAME`) or as a letter (`-t NAME`, `-tNAME`,
  `-t=NAME`), and letters may share a dash. Each may be given once. After `--` all
  arguments are files, of which there may be one. -/

namespace ByteBricks.CommandLine

/-! ### What the Arguments Ask For -/

/-- What the arguments ask for. -/
structure Config where
  /-- Whether to list the built-in templates. -/
  list : Bool
  /-- The name of a built-in template. -/
  template : Option String
  /-- The path of a template. -/
  custom : Option String
  /-- The offset of the first field. -/
  offset : Option Int64
  /-- Whether the most significant byte of a field comes first. -/
  bigEndian : Bool
  /-- Whether to write the template instead of the bricks. -/
  dump : Bool
  /-- The path of the data. -/
  file : Option String

/-- What no arguments ask for. -/
def Config.empty : Config := ⟨false, none, none, none, false, false, none⟩

/-- Why the arguments ask for no run of a template. -/
inductive Refusal where
  /-- They are not understood. -/
  | usage
  /-- They ask for help. -/
  | help
  /-- They ask for the version. -/
  | version
  deriving DecidableEq

/-! ### Options -/

/-- The options without a value. -/
inductive Flag where
  /-- List the built-in templates. -/
  | list
  /-- The most significant byte of a field comes first. -/
  | bigEndian
  /-- Write the template. -/
  | dump
  /-- Show the help. -/
  | help
  /-- Show the version. -/
  | version
  deriving DecidableEq

/-- The options with a value. -/
inductive Setting where
  /-- The name of a built-in template. -/
  | template
  /-- The path of a template. -/
  | custom
  /-- The offset of the first field. -/
  | offset
  deriving DecidableEq

/-- An option. -/
inductive Switch where
  /-- An option without a value. -/
  | flag (flag : Flag)
  /-- An option with a value. -/
  | setting (setting : Setting)

/-- The option of a letter. -/
def ofLetter? : Char → Option Switch
  | 'l' => some (.flag .list)
  | 't' => some (.setting .template)
  | 'c' => some (.setting .custom)
  | 'o' => some (.setting .offset)
  | 'b' => some (.flag .bigEndian)
  | 'h' => some (.flag .help)
  | 'V' => some (.flag .version)
  | _ => none

/-- The option of a word. -/
def ofWord? (word : String) : Option Switch :=
  if word = "list" then some (.flag .list)
  else if word = "template" then some (.setting .template)
  else if word = "custom" then some (.setting .custom)
  else if word = "offset" then some (.setting .offset)
  else if word = "big-endian" then some (.flag .bigEndian)
  else if word = "dump" then some (.flag .dump)
  else if word = "help" then some (.flag .help)
  else if word = "version" then some (.flag .version)
  else none

/-! ### Values -/

/-- The value of decimal digits, of which there must be some. -/
def natOfDigits? (digits : List Char) : Option Nat :=
  if digits ≠ [] ∧ digits.all Char.isDigit then
    some (Nat.ofDigitChars 10 digits 0)
  else none

/-- The signed 64-bit integer that a text stands for: digits, perhaps after a sign. -/
def integer? (text : String) : Option Int64 :=
  match text.toList with
  | '-' :: digits => do Word.int64? (-(← natOfDigits? digits : Nat))
  | '+' :: digits => do Word.int64? (← natOfDigits? digits : Nat)
  | digits => do Word.int64? (← natOfDigits? digits : Nat)

/-- Turns an option without a value on, once. -/
def Config.turnOn (c : Config) : Flag → Except Refusal Config
  | .list => if c.list then .error .usage else .ok { c with list := true }
  | .bigEndian => if c.bigEndian then .error .usage else .ok { c with bigEndian := true }
  | .dump => if c.dump then .error .usage else .ok { c with dump := true }
  | .help => .error .help
  | .version => .error .version

/-- Gives an option its value, once. A path is not empty. -/
def Config.assign (c : Config) (setting : Setting) (value : String) : Except Refusal Config :=
  match setting with
  | .template => if c.template.isSome then .error .usage else .ok { c with template := some value }
  | .custom =>
    if c.custom.isSome || value.isEmpty then .error .usage else .ok { c with custom := some value }
  | .offset =>
    match integer? value with
    | none => .error .usage
    | some offset => if c.offset.isSome then .error .usage else .ok { c with offset := some offset }

/-- Names the file with the data, once. -/
def Config.setFile (c : Config) (path : String) : Except Refusal Config :=
  if c.file.isSome || path.isEmpty then .error .usage else .ok { c with file := some path }

/-! ### Reading -/

/-- Reads the letters after a dash. The first letter of an option with a value ends
    them: what follows, perhaps after an equals sign, is its value, and if nothing
    follows, the option waits for the next argument. -/
def readLetters (c : Config) : List Char → Except Refusal (Config × Option Setting)
  | [] => .ok (c, none)
  | letter :: rest =>
    match ofLetter? letter with
    | none => .error .usage
    | some (.flag flag) => do readLetters (← c.turnOn flag) rest
    | some (.setting setting) =>
      match rest with
      | [] => .ok (c, some setting)
      | '=' :: value => do pure (← c.assign setting (String.ofList value), none)
      | value => do pure (← c.assign setting (String.ofList value), none)

/-- Reads the word after two dashes, which may hold a value after an equals sign. -/
def readWord (c : Config) (word : List Char) : Except Refusal (Config × Option Setting) :=
  let name := String.ofList (word.takeWhile (· ≠ '='))
  match ofWord? name, word.dropWhile (· ≠ '=') with
  | none, _ => .error .usage
  | some (.flag flag), [] => do pure (← c.turnOn flag, none)
  | some (.flag _), _ :: _ => .error .usage
  | some (.setting setting), [] => .ok (c, some setting)
  | some (.setting setting), _ :: value => do pure (← c.assign setting (String.ofList value), none)

/-- How an argument is written. -/
inductive Form where
  /-- Two dashes alone. -/
  | dashes
  /-- Two dashes and a word. -/
  | word (word : List Char)
  /-- A dash and letters. -/
  | letters (letters : List Char)
  /-- Anything else. -/
  | plain

/-- How an argument is written. -/
def formOf (argument : String) : Form :=
  match argument.toList with
  | ['-', '-'] => .dashes
  | '-' :: '-' :: word => .word word
  | '-' :: letter :: rest => .letters (letter :: rest)
  | _ => .plain

/-- Reads the arguments from the front; `waiting` is the option that waits for its
    value. -/
def read (c : Config) (waiting : Option Setting) : List String → Except Refusal Config
  | [] => if waiting.isSome then .error .usage else .ok c
  | argument :: rest =>
    match formOf argument, waiting with
    | .plain, some setting => do read (← c.assign setting argument) none rest
    | .plain, none => do read (← c.setFile argument) none rest
    | _, some _ => .error .usage
    | .dashes, none => rest.foldlM Config.setFile c
    | .word word, none => do
      let (c, waiting) ← readWord c word
      read c waiting rest
    | .letters letters, none => do
      let (c, waiting) ← readLetters c letters
      read c waiting rest

/-- What the arguments of a command line ask for. -/
def parse (arguments : List String) : Except Refusal Config := read .empty none arguments

end ByteBricks.CommandLine
