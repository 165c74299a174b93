import TwoPass.Image

/-!
# Assembling programs

Assembling runs both passes over a program.  The second pass starts only after the first one has
placed every label.
-/

namespace TwoPass

structure Assembly where
  origin : UInt16
  bytes : List UInt8
  labels : LabelTable
  spans : List Span
  deriving DecidableEq

namespace Machine

/-- Assembles a program, with the events of both passes. -/
def assembleLogged (machine : Machine) (config : Config) (program : Program) :
    Logged Diagnostic Assembly := do
  let labels ← machine.instructions.resolveLogged config.origin program
  let image ← machine.encodeLogged labels config program
  .emit [.assembled program.length labels.size image.bytes.length]
  return ⟨config.origin, image.bytes, labels, image.spans⟩

/-- Assembles a program. -/
def assemble (machine : Machine) (config : Config) (program : Program) :
    Except Diagnostic Assembly :=
  (machine.assembleLogged config program).outcome

/-- Assembling is resolving the labels and then encoding over them. -/
theorem assemble_eq (machine : Machine) (config : Config) (program : Program) :
    machine.assemble config program =
      (machine.instructions.resolve config.origin program).bind fun labels ↦
        (machine.encode labels config program).bind fun image ↦
          .ok ⟨config.origin, image.bytes, labels, image.spans⟩ := by
  simp [assemble, assembleLogged, InstructionTable.resolve, encode, Except.bind]

end Machine

end TwoPass
