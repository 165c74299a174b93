import TwoPass.InstructionTable
import TwoPass.Json.Reader
import TwoPass.Json.Writer

/-!
# Instruction tables as JSON documents

A table is an object with a member for each instruction.  A repeated name is no error, and its last
member counts; a repeated key inside an entry is one.
-/

namespace TwoPass

/-- The mode that a document names. -/
def Mode.ofJson? (document : Json) : Option Mode := do
  Mode.ofTag? (← document.tag? .direct)

def Mode.toJson (mode : Mode) : Json :=
  .string mode.tag

def Mode.parse? (source : String) : Option Mode := do
  ofJson? (← Json.parse? source)

@[simp]
theorem Mode.ofJson?_toJson (mode : Mode) : Mode.ofJson? mode.toJson = some mode := by
  simp [toJson, ofJson?, Json.tag?]

namespace Entry

/-- The surface mnemonic that a member describes, which may be missing or `null`. -/
def surfaceOfJson? : Option Json → Option (Option String)
  | none => some none
  | some .null => some none
  | some (.string surface) => some (some surface)
  | some _ => none

def ofParts? (opcode mode size : Json) (surface : Option Json) : Option Entry := do
  let opcode ← opcode.natural? 0xFF
  let mode ← Mode.ofJson? mode
  let size ← size.natural? 0xFFFFFFFFFFFFFFFF
  let surface ← surfaceOfJson? surface
  return ⟨UInt8.ofNat opcode, mode, UInt64.ofNat size, surface⟩

/-- The entry that a document describes: an object, or an array of the parts in order. -/
def ofJson? : Json → Option Entry
  | .object members => do
    let opcode ← Json.required? "opcode" members
    let mode ← Json.required? "mode" members
    let size ← Json.required? "size" members
    let surface ← Json.optional? "mnemonic" members
    ofParts? opcode mode size surface
  | .array [opcode, mode, size] => ofParts? opcode mode size none
  | .array [opcode, mode, size, surface] => ofParts? opcode mode size (some surface)
  | _ => none

def toJson (entry : Entry) : Json :=
  let parts :=
    [("opcode", .natural entry.opcode.toNat), ("mode", entry.mode.toJson),
     ("size", .natural entry.size.toNat)]
  match entry.surface with
  | none => .object parts
  | some surface => .object (parts ++ [("mnemonic", .string surface)])

def parse? (source : String) : Option Entry := do
  ofJson? (← Json.parse? source)

end Entry

namespace InstructionTable

def memberOfJson? (member : String × Json) : Option (String × Entry) := do
  return (member.1, ← Entry.ofJson? member.2)

/-- The table that a document describes. -/
def ofJson? (document : Json) : Option InstructionTable := do
  let named ← (← document.object?).mapM memberOfJson?
  return ofList named

def parse? (source : String) : Option InstructionTable := do
  ofJson? (← Json.parse? source)

end InstructionTable

end TwoPass
