import TwoPass.CommandLine.Build

/-!
# The command line program

The files that an invocation names are read in advance, so that all decisions are those of
`Build.plan`.
-/

namespace TwoPass.CommandLine

/-- The fault that an error of the operating system stands for. -/
def faultOfError : IO.Error → FileFault
  | .noFileOrDirectory .. => .notFound
  | .inappropriateType _ code _ => if code = 21 then .isADirectory else .notADirectory
  | .invalidArgument _ 36 _ => .nameTooLong
  | error => .other (toString error)

def readFile (path : String) : IO (Except FileFault String) := do
  try
    return textOf (← IO.FS.readBinFile path)
  catch error =>
    return .error (faultOfError error)

def readFiles (paths : List String) : IO (List (String × Except FileFault String)) :=
  paths.mapM fun path ↦ do return (path, ← readFile path)

/-- Performs some effects, up to the first one that fails. -/
def performIn : List Effect → IO (Option Failure)
  | [] => return none
  | .print (.ok text) :: rest => do
    IO.print text
    performIn rest
  | .print (.error failure) :: _ => return some failure
  | .write path contents :: rest => do
    let fault? ←
      try
        IO.FS.writeBinFile path contents
        pure none
      catch error =>
        pure (some (faultOfError error))
    match fault? with
    | some fault => return some (.unwritable fault)
    | none => performIn rest

def runIn (invocation : Invocation) : IO UInt32 := do
  let paths := [invocation.program] ++ invocation.table.toList ++ invocation.registers.toList
  let files ← readFiles paths
  let source (path : String) := (files.lookup path).getD (.error .notFound)
  let failure? ←
    match Build.plan source invocation with
    | .error failure => pure (some failure)
    | .ok effects => performIn effects
  match failure? with
  | none => return 0
  | some failure => do
    IO.eprint failure.report
    return 1

end TwoPass.CommandLine

open TwoPass.CommandLine in
/-- Assembles a program as the arguments say. -/
def main (arguments : List String) : IO UInt32 := do
  match Request.parse arguments with
  | .error fault => do
    IO.eprintln ("error: " ++ fault.message)
    return 2
  | .ok .version => do
    IO.print versionText
    return 0
  | .ok .help => do
    IO.print helpText
    return 0
  | .ok (.run invocation) => runIn invocation
