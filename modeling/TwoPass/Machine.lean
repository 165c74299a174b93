import TwoPass.InstructionTable.Builtin
import TwoPass.RegisterFile

/-!
# Machines and assembly settings
-/

namespace TwoPass

/-- The machine that a program is written for: its instructions and its registers. -/
structure Machine where
  instructions : InstructionTable
  registers : RegisterFile

def Machine.builtin : Machine :=
  ⟨.builtin, .builtin⟩

/-- The settings of an assembly run. -/
structure Config where
  /-- The address at which the image is loaded. -/
  origin : UInt16 := 0
  /-- Whether a wrong declared size is an error. -/
  strictSizes : Bool := true
  deriving DecidableEq

end TwoPass
