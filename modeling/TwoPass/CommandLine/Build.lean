import TwoPass.CommandLine.Directory
import TwoPass.CommandLine.Request
import TwoPass.Interchange.InstructionTable
import TwoPass.Interchange.LabelTable
import TwoPass.Interchange.Program
import TwoPass.Interchange.RegisterFile
import TwoPass.Listing
import TwoPass.Text.Word

/-!
# Builds

A build first loads and assembles everything, and only then has effects: it writes the image, prints
the listing and writes the label table, in this order.  A build that is refused before that has no
effect at all.

The log of a build is left out, and nothing of it is shown unless it is asked for.  It would hold a
warning for each of `InstructionTable.sizeMismatches` once the register file is loaded, and then the
events of the assembly.
-/

namespace TwoPass.CommandLine

/-- Why a build fails. -/
inductive Failure where
  | unreadable (path : String) (fault : FileFault)
  | notAProgram (path : String)
  | notATable (path : String)
  | notRegisters (path : String) (rejection : RegisterFile.Rejection)
  | invalidOrigin (fault : Numeral.Fault)
  | notAssembled (path : String) (diagnostic : Diagnostic)
  | notListed (path : String) (fault : Listing.Fault)
  | unwritable (fault : FileFault)
  deriving DecidableEq

namespace Failure

/-- What the build was doing when it failed. -/
def context? : Failure → Option String
  | .unreadable path _ => some s!"reading {path}"
  | .notAProgram path => some s!"parsing program {path}"
  | .notATable path => some s!"loading instruction table {path}"
  | .notRegisters path _ => some s!"loading register table {path}"
  | .invalidOrigin _ => some "--origin"
  | .notAssembled path _ => some s!"assembling {path}"
  | .notListed path _ => some s!"listing {path}"
  | .unwritable _ => none

/-- The wording of what went wrong. -/
def cause : Failure → String
  | .unreadable _ fault => fault.message
  | .notAProgram _ => "not a JSON array of statements"
  | .notATable _ => "invalid table: not a JSON object of instructions"
  | .notRegisters _ .unreadable => "invalid table: not a JSON array of names"
  | .notRegisters _ (.invalid fault) => fault.message
  | .invalidOrigin fault => fault.message
  | .notAssembled _ diagnostic => diagnostic.message
  | .notListed _ (.belowOrigin _) => "a span starts before the image"
  | .notListed _ (.outsideImage _) => "a span ends after the image"
  | .unwritable fault => fault.message

def indent (text : String) : String :=
  String.ofList ([' ', ' ', ' ', ' '] ++ text.toList.flatMap fun character ↦
    if character = '\n' then ['\n', ' ', ' ', ' ', ' '] else [character])

def report (failure : Failure) : String :=
  match failure.context? with
  | none => "Error: " ++ failure.cause ++ "\n"
  | some context => "Error: " ++ context ++ "\n\nCaused by:\n" ++ indent failure.cause ++ "\n"

/-- Whether the failure is that a text is no JSON document of the form that is needed. -/
def isUnreadableDocument : Failure → Bool
  | .notAProgram _ => true
  | .notATable _ => true
  | .notRegisters _ .unreadable => true
  | _ => false

end Failure

inductive Effect where
  | write (path : String) (contents : ByteArray)
  /-- Prints a text, or fails if there is none. -/
  | print (text : Except Failure String)

namespace Build

/-- How the text of a file is obtained. -/
abbrev Source := String → Except FileFault String

def load (source : Source) (path : String) : Except Failure String :=
  (source path).mapError (.unreadable path)

def loadProgram (source : Source) (path : String) : Except Failure Program := do
  match Program.parse? (← load source path) with
  | some program => .ok program
  | none => .error (.notAProgram path)

/-- The instruction table in a file, or the built-in one. -/
def loadTable (source : Source) : Option String → Except Failure InstructionTable
  | none => .ok .builtin
  | some path => do
    match InstructionTable.parse? (← load source path) with
    | some table => .ok table
    | none => .error (.notATable path)

/-- The register file in a file, or the built-in one. -/
def loadRegisters (source : Source) : Option String → Except Failure RegisterFile
  | none => .ok .builtin
  | some path => do
    (RegisterFile.parse (← load source path)).mapError (.notRegisters path)

def imageContents (format : Format) (bytes : List UInt8) : ByteArray :=
  match format with
  | .binary => ⟨bytes.toArray⟩
  | .hex => (renderHex bytes ++ "\n").toUTF8

/-- What a build of some inputs has produced. -/
structure Product where
  program : Program
  table : InstructionTable
  assembly : Assembly

/-- Loads and assembles the inputs of a build. -/
def produce (source : Source) (invocation : Invocation) : Except Failure Product := do
  let program ← loadProgram source invocation.program
  let table ← loadTable source invocation.table
  let registers ← loadRegisters source invocation.registers
  let origin ← (Word.parse invocation.origin).mapError .invalidOrigin
  let config : Config := ⟨origin, !invocation.lenientSizes⟩
  let assembly ← (Machine.assemble ⟨table, registers⟩ config program).mapError
    (.notAssembled invocation.program)
  return ⟨program, table, assembly⟩

/-- The listing, if it was asked for. -/
def listingEffects (invocation : Invocation) (product : Product) : List Effect :=
  if invocation.listing then
    [.print ((product.assembly.listing product.table product.program).mapError
      (.notListed invocation.program))]
  else []

/-- The effects of a build, in order. -/
def effects (invocation : Invocation) (product : Product) : List Effect :=
  let image := .write invocation.output (imageContents invocation.format product.assembly.bytes)
  let labels := invocation.labels.toList.map fun path ↦
    .write path product.assembly.labels.exported.toUTF8
  image :: listingEffects invocation product ++ labels

def plan (source : Source) (invocation : Invocation) : Except Failure (List Effect) :=
  (produce source invocation).map (effects invocation)

/-- What a build in a directory leaves behind. -/
structure Outcome where
  directory : Directory
  printed : String
  failure : Option Failure

/-- Performs some effects.  The first one that fails is the last one. -/
def perform (directory : Directory) : List Effect → Outcome
  | [] => ⟨directory, "", none⟩
  | .print (.ok text) :: rest =>
    let outcome := perform directory rest
    { outcome with printed := text ++ outcome.printed }
  | .print (.error failure) :: _ => ⟨directory, "", some failure⟩
  | .write path contents :: rest =>
    match directory.write path contents with
    | .ok next => perform next rest
    | .error fault => ⟨directory, "", some (.unwritable fault)⟩

/-- Runs a build in a directory. -/
def run (directory : Directory) (invocation : Invocation) : Outcome :=
  match plan directory.readText invocation with
  | .ok effects => perform directory effects
  | .error failure => ⟨directory, "", some failure⟩

end Build

end TwoPass.CommandLine
