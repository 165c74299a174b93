import TwoPass.Proofs.Image
import TwoPass.Proofs.InstructionEvents

/-!
# The events of both passes

What a pass reports about the statements that it accepts, and about those before the one that it
rejects.  In the second case the pass would have accepted the statements before that one as a
program of their own.
-/

namespace TwoPass

/-! ## The first pass -/

/-- The event of a label that receives its address. -/
def Binding.event (binding : Binding) : Event :=
  .labelBound binding.name binding.address

namespace InstructionTable

variable {table : InstructionTable} {here : Location} {defined : List String} {counter : UInt32}

end InstructionTable

/-! ## The second pass -/

namespace Machine

/-- The events of a program that is encoded to an image: those of its instructions, each with its
own span and its own part of the bytes. -/
inductive Narrates (machine : Machine) (strict : Bool) : Program → Image → List Event → Prop
  | nil : Narrates machine strict [] ⟨[], []⟩ []
  | label {name : String} {rest : Program} {image : Image} {events : List Event}
      (hrest : Narrates machine strict rest image events) :
      Narrates machine strict (.label name :: rest) image events
  | instruction {mnemonic : String} {operands : List Operand} {rest : Program} {entry : Entry}
      {span : Span} {bytes : List UInt8} {image : Image} {events : List Event}
      (hentry : machine.instructions.get? mnemonic = some entry)
      (hlength : span.length = bytes.length)
      (hrest : Narrates machine strict rest image events) :
      Narrates machine strict (.instruction mnemonic operands :: rest)
        (.append ⟨bytes, [span]⟩ image)
        (instructionEvents strict mnemonic operands entry span bytes ++ events)

/-- The events of a program that is encoded up to the instruction with the given index, and is
rejected there. -/
inductive Interrupts (machine : Machine) (isLabel : String → Prop) (strict : Bool)
    (program : Program) (index : Nat) (image : Image) : List Event → Prop
  | intro {mnemonic : String} {operands : List Operand} {events : List Event}
      {attempted : List (Slot × Operand)}
      (hstatement : program[index]? = some (.instruction mnemonic operands))
      (hbefore : machine.Narrates strict (program.take index) image events)
      (hattempts : Attempts machine isLabel mnemonic operands attempted) :
      Interrupts machine isLabel strict program index image
        (events ++ allAttemptEvents attempted)

namespace Interrupts

variable {machine : Machine} {isLabel : String → Prop} {strict : Bool} {rest : Program}
  {index : Nat} {image : Image} {events : List Event}

theorem label (h : machine.Interrupts isLabel strict rest index image events) (name : String) :
    machine.Interrupts isLabel strict (.label name :: rest) (index + 1) image events := by
  cases h with
  | intro hstatement hbefore hattempts => exact .intro hstatement (.label hbefore) hattempts

theorem instruction (h : machine.Interrupts isLabel strict rest index image events)
    {mnemonic : String} {entry : Entry} {span : Span} {bytes : List UInt8}
    (hentry : machine.instructions.get? mnemonic = some entry)
    (hlength : span.length = bytes.length) (operands : List Operand) :
    machine.Interrupts isLabel strict (.instruction mnemonic operands :: rest) (index + 1)
      (.append ⟨bytes, [span]⟩ image)
      (instructionEvents strict mnemonic operands entry span bytes ++ events) := by
  cases h with
  | intro hstatement hbefore hattempts =>
    rw [← List.append_assoc]
    exact .intro hstatement (.instruction hentry hlength hbefore) hattempts

end Interrupts

section

variable {machine : Machine} {labels : LabelTable} {isLabel : String → Prop} {config : Config}
  {here : Location} {offset : Nat}

end

end Machine

end TwoPass
