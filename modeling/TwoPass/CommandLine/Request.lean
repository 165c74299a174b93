/-!
# Requests on the command line

Arguments are taken from left to right.  The first fault ends the reading, and so does a request for
the version or for help, whichever comes first.
-/

namespace TwoPass.CommandLine

/-- How an image is written. -/
inductive Format where
  /-- The bytes themselves. -/
  | binary
  /-- One line of hexadecimal text. -/
  | hex
  deriving DecidableEq

def Format.ofName? : String → Option Format
  | "bin" => some .binary
  | "hex" => some .hex
  | _ => none

/-- The options that take a value. -/
inductive Setting where
  | output
  | table
  | registers
  | origin
  | format
  | labels
  deriving DecidableEq

/-- The name of an option, without its hyphens. -/
def Setting.name : Setting → String
  | .output => "output"
  | .table => "isa"
  | .registers => "registers"
  | .origin => "origin"
  | .format => "format"
  | .labels => "labels-out"

/-- The options that take none. -/
inductive Flag where
  | lenientSizes
  | listing
  deriving DecidableEq

def Flag.name : Flag → String
  | .lenientSizes => "lenient-sizes"
  | .listing => "listing"

/-- Why arguments are refused. -/
inductive UsageFault where
  | unknownOption (word : String)
  | missingValue (setting : Setting)
  | unexpectedValue (word : String)
  | repeatedOption (name : String)
  | emptyPath
  | unknownFormat (name : String)
  | extraArgument (word : String)
  | missingProgram
  | missingOutput
  deriving DecidableEq

def UsageFault.message : UsageFault → String
  | .unknownOption word => s!"unknown option '{word}'"
  | .missingValue setting =>
    let name := setting.name
    s!"option '--{name}' needs a value"
  | .unexpectedValue word => s!"option in '{word}' takes no value"
  | .repeatedOption name => s!"option '--{name}' given more than once"
  | .emptyPath => "a path is empty"
  | .unknownFormat name => s!"unknown format '{name}', expected 'bin' or 'hex'"
  | .extraArgument word => s!"unexpected argument '{word}'"
  | .missingProgram => "the program is missing"
  | .missingOutput => "option '--output' is missing"

/-- What a run is asked to do. -/
structure Invocation where
  program : String
  output : String
  table : Option String
  registers : Option String
  origin : String
  lenientSizes : Bool
  format : Format
  listing : Bool
  labels : Option String
  deriving DecidableEq

/-- What the arguments ask for. -/
inductive Request where
  | run (invocation : Invocation)
  | version
  | help
  deriving DecidableEq

/-! ## Single words -/

/-- What one argument says. -/
inductive Clause where
  | positional (text : String)
  /-- An option and the value that is attached to it, if there is one. -/
  | setting (setting : Setting) (value : Option String)
  | flag (flag : Flag)
  | version
  | help
  deriving DecidableEq

/-- The meaning of a long option with an attached value. -/
def longOption? (name : String) (value : Option String) : Option Clause :=
  match name, value with
  | "output", _ => some (.setting .output value)
  | "isa", _ => some (.setting .table value)
  | "registers", _ => some (.setting .registers value)
  | "origin", _ => some (.setting .origin value)
  | "format", _ => some (.setting .format value)
  | "labels-out", _ => some (.setting .labels value)
  | "lenient-sizes", none => some (.flag .lenientSizes)
  | "listing", none => some (.flag .listing)
  | "version", none => some .version
  | "help", none => some .help
  | _, _ => none

/-- Splits a long option from the value behind its first equals sign. -/
def splitValue (body : List Char) : String × Option String :=
  let name := String.ofList (body.takeWhile (· ≠ '='))
  match body.dropWhile (· ≠ '=') with
  | [] => (name, none)
  | _ :: value => (name, some (String.ofList value))

/-- Reads a long option, given without its hyphens. -/
def readLong (word : String) (body : List Char) : Except UsageFault Clause :=
  let (name, value) := splitValue body
  match longOption? name value with
  | some meaning => .ok meaning
  | none =>
    if (longOption? name none).isSome then .error (.unexpectedValue word)
    else .error (.unknownOption word)

/-- The value that is attached to a short option, behind an equals sign or not. -/
def shortValue : List Char → Option String
  | [] => none
  | '=' :: value => some (String.ofList value)
  | value => some (String.ofList value)

/-- Reads a short option, given without its hyphen. -/
def readShort (word : String) (letter : Char) (rest : List Char) : Except UsageFault Clause :=
  match letter with
  | 'o' => .ok (.setting .output (shortValue rest))
  | 'V' => .ok .version
  | 'h' => .ok .help
  | _ => .error (.unknownOption word)

/-- Reads one argument.  A hyphen alone is no option. -/
def readClause (word : String) : Except UsageFault Clause :=
  match word.toList with
  | '-' :: '-' :: body => readLong word body
  | '-' :: letter :: rest => readShort word letter rest
  | _ => .ok (.positional word)

/-- Whether an argument starts like an option, so that it is no value of the option before it. -/
def isOptionLike (word : String) : Bool :=
  match word.toList with
  | '-' :: _ :: _ => true
  | _ => false

/-! ## Whole argument lists -/

/-- What the arguments so far have given. -/
structure Draft where
  program : Option String := none
  output : Option String := none
  table : Option String := none
  registers : Option String := none
  origin : Option String := none
  format : Option Format := none
  labels : Option String := none
  lenientSizes : Bool := false
  listing : Bool := false
  deriving DecidableEq

namespace Draft

/-- A path, which may not be empty. -/
def path (text : String) : Except UsageFault String :=
  if text.isEmpty then .error .emptyPath else .ok text

def addProgram (draft : Draft) (text : String) : Except UsageFault Draft :=
  match draft.program with
  | some _ => .error (.extraArgument text)
  | none => do return { draft with program := some (← path text) }

def has (draft : Draft) : Setting → Bool
  | .output => draft.output.isSome
  | .table => draft.table.isSome
  | .registers => draft.registers.isSome
  | .origin => draft.origin.isSome
  | .format => draft.format.isSome
  | .labels => draft.labels.isSome

/-- Adds an option with its value. -/
def addSetting (draft : Draft) (setting : Setting) (value : String) : Except UsageFault Draft :=
  if draft.has setting then .error (.repeatedOption setting.name)
  else
    match setting with
    | .output => do return { draft with output := some (← path value) }
    | .table => do return { draft with table := some (← path value) }
    | .registers => do return { draft with registers := some (← path value) }
    | .origin => .ok { draft with origin := some value }
    | .format =>
      match Format.ofName? value with
      | some format => .ok { draft with format := some format }
      | none => .error (.unknownFormat value)
    | .labels => do return { draft with labels := some (← path value) }

def addFlag (draft : Draft) : Flag → Except UsageFault Draft
  | .lenientSizes =>
    if draft.lenientSizes then .error (.repeatedOption Flag.lenientSizes.name)
    else .ok { draft with lenientSizes := true }
  | .listing =>
    if draft.listing then .error (.repeatedOption Flag.listing.name)
    else .ok { draft with listing := true }

/-- Completes the arguments: a program and an output are needed, and all else has a default. -/
def finish (draft : Draft) : Except UsageFault Invocation :=
  match draft.program, draft.output with
  | none, _ => .error .missingProgram
  | some _, none => .error .missingOutput
  | some program, some output => .ok
    { program
      output
      table := draft.table
      registers := draft.registers
      origin := draft.origin.getD "0"
      lenientSizes := draft.lenientSizes
      format := draft.format.getD .binary
      listing := draft.listing
      labels := draft.labels }

end Draft

namespace Request

/-- Reads the arguments after two hyphens, none of which is an option. -/
def readPositional (draft : Draft) : List String → Except UsageFault Request
  | [] => draft.finish.map .run
  | word :: rest => do readPositional (← draft.addProgram word) rest

/-- Reads the arguments that follow those of a draft. -/
def readFrom (draft : Draft) : List String → Except UsageFault Request
  | [] => draft.finish.map .run
  | "--" :: rest => readPositional draft rest
  | word :: rest => do
    match ← readClause word with
    | .version => .ok .version
    | .help => .ok .help
    | .positional text => readFrom (← draft.addProgram text) rest
    | .flag flag => readFrom (← draft.addFlag flag) rest
    | .setting setting (some value) => readFrom (← draft.addSetting setting value) rest
    | .setting setting none =>
      match rest with
      | [] => .error (.missingValue setting)
      | value :: after =>
        if isOptionLike value then .error (.missingValue setting)
        else readFrom (← draft.addSetting setting value) after

/-- Reads the arguments of a run. -/
def parse (arguments : List String) : Except UsageFault Request :=
  readFrom {} arguments

end Request

def versionText : String :=
  "vm16-asm 0.1.0\n"

def helpText : String :=
  "Assemble a parsed vm16 program into machine code\n\n" ++
  "Usage: vm16-asm [OPTIONS] --output <OUTPUT> <PROGRAM>\n\n" ++
  "Arguments:\n" ++
  "  <PROGRAM>\n\n" ++
  "Options:\n" ++
  "  -o, --output <OUTPUT>\n" ++
  "      --isa <FILE>\n" ++
  "      --registers <FILE>\n" ++
  "      --origin <ORIGIN>      [default: 0]\n" ++
  "      --lenient-sizes\n" ++
  "      --format <FORMAT>      [default: bin] [possible values: bin, hex]\n" ++
  "      --listing\n" ++
  "      --labels-out <FILE>\n" ++
  "  -h, --help                 Print help\n" ++
  "  -V, --version              Print version\n"

end TwoPass.CommandLine
