import TwoPass.Json.Reader
import TwoPass.Json.Writer
import TwoPass.Program

/-!
# Programs as JSON documents

A program is an array of tagged statements.  Members that a document does not have to have are
ignored, and the operands of an instruction may be left out if there are none.

The content of a statement is stored if it stands in front of the type.  Only then is there a limit
to what ignored members may hold.
-/

namespace TwoPass

namespace Operand

/-- The tags of operands, in the order in which stored documents count them. -/
def tags : List String :=
  ["register", "literal", "symbol"]

/-- The operand that a document describes. -/
def ofJson? (access : Json.Access) (document : Json) : Option Operand := do
  let (tag, content) ← document.tagged? access tags
  let text ← content.string?
  match tag with
  | "register" => some (.register text)
  | "literal" => some (.literal text)
  | "symbol" => some (.symbol text)
  | _ => none

def toJson : Operand → Json
  | .register name => .tagged "register" (.string name)
  | .literal digits => .tagged "literal" (.string digits)
  | .symbol name => .tagged "symbol" (.string name)

def parse? (source : String) : Option Operand := do
  ofJson? .direct (← Json.parse? source)

@[simp]
theorem ofJson?_toJson (access : Json.Access) (operand : Operand) :
    ofJson? access operand.toJson = some operand := by
  cases operand <;> simp [toJson, ofJson?, Json.string?]

end Operand

namespace Statement

/-- The tags of statements. -/
def tags : List String :=
  ["label", "instruction"]

/-- How many containers may be nested in the stored content of a statement.  The reader keeps track
of 127 open containers, and two of them are the program and the statement. -/
def storedLevels : Nat :=
  125

/-- The operands that a member describes, which may be missing. -/
def operandsOfJson? (access : Json.Access) : Option Json → Option (List Operand)
  | none => some []
  | some document => do (← document.array?).mapM (Operand.ofJson? access)

/-- The instruction that the content of a document describes. -/
def instructionOfJson? (access : Json.Access) (content : Json) : Option Statement := do
  let members ← content.object?
  let mnemonic ← (← Json.required? "mnemonic" members).string?
  let operands ← operandsOfJson? access (← Json.optional? "operands" members)
  return .instruction mnemonic operands

/-- The statement that a tag and a content describe. -/
def ofContent? (access : Json.Access) (tag : String) (content : Json) : Option Statement :=
  match tag with
  | "label" => content.string?.map .label
  | "instruction" => instructionOfJson? access content
  | _ => none

/-- The statement that a document describes. -/
def ofJson? (document : Json) : Option Statement := do
  let (tag, content) ← document.tagged? .direct tags
  match document.contentAccess with
  | .direct => ofContent? .direct tag content
  | .stored => if content.isStorable storedLevels then ofContent? .stored tag content else none

def toJson : Statement → Json
  | .label name => .tagged "label" (.string name)
  | .instruction mnemonic operands =>
    .tagged "instruction"
      (.object [("mnemonic", .string mnemonic), ("operands", .array (operands.map Operand.toJson))])

end Statement

namespace Program

/-- The program that a document describes. -/
def ofJson? (document : Json) : Option Program := do
  (← document.array?).mapM Statement.ofJson?

def toJson (program : Program) : Json :=
  .array (program.map Statement.toJson)

/-- Reads the text of a program. -/
def parse? (source : String) : Option Program := do
  ofJson? (← Json.parse? source)

end Program

end TwoPass
