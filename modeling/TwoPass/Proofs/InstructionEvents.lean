import TwoPass.Proofs.Encoding

/-!
# The events of one instruction

An instruction reports every operand that it attempts, from left to right, and a value that is too
large for its slot behind the operand it belongs to.  Only if all operands are accepted can a
warning about the declared size follow, and after it the bytes.
-/

namespace TwoPass

namespace Logged

variable {ε α β : Type}

end Logged

/-! ## Attempted operands -/

/-- The value that a word slot has to truncate.  It is never the address of a symbol. -/
def Operand.excess? : Slot → Operand → Option Nat
  | .word, .literal digits => (literalValue? digits).filter (0xFFFF < ·)
  | _, _ => none

/-- The events of an operand that is attempted, whether it is accepted or not. -/
def attemptEvents (slot : Slot) (operand : Operand) : List Event :=
  .encoding slot operand :: ((operand.excess? slot).map Event.truncated).toList

/-- The events of some operands that are attempted one after another. -/
def allAttemptEvents (attempted : List (Slot × Operand)) : List Event :=
  attempted.flatMap fun (slot, operand) ↦ attemptEvents slot operand

@[simp]
theorem allAttemptEvents_nil : allAttemptEvents [] = [] := rfl

/-- The operands of an instruction that are attempted: those up to the first one that is rejected,
and none if their number is wrong. -/
inductive Attempts (machine : Machine) (isLabel : String → Prop) (mnemonic : String)
    (operands : List Operand) : List (Slot × Operand) → Prop
  | none (harity : ∀ entry, machine.instructions.get? mnemonic = some entry →
        operands.length ≠ entry.mode.arity) :
      Attempts machine isLabel mnemonic operands []
  | all {entry : Entry} (hentry : machine.instructions.get? mnemonic = some entry)
      (harity : operands.length = entry.mode.arity)
      (hclean : ∀ position cause, ¬ OperandFaultAt machine.registers isLabel mnemonic
        entry.mode.slots operands position cause) :
      Attempts machine isLabel mnemonic operands (entry.mode.slots.zip operands)
  | upTo {entry : Entry} {position : Nat} {cause : Cause}
      (hentry : machine.instructions.get? mnemonic = some entry)
      (harity : operands.length = entry.mode.arity)
      (hfault : OperandFaultAt machine.registers isLabel mnemonic entry.mode.slots operands position
        cause)
      (hleft : ∀ earlier < position, ∀ other, ¬ OperandFaultAt machine.registers isLabel mnemonic
        entry.mode.slots operands earlier other) :
      Attempts machine isLabel mnemonic operands
        ((entry.mode.slots.zip operands).take (position + 1))

namespace Machine

variable {machine : Machine} {labels : LabelTable} {isLabel : String → Prop} {mnemonic : String}
  {slots : List Slot} {operands : List Operand}

end Machine

/-! ## Instructions -/

/-- The events of an instruction that is encoded: its operands, a warning if a wrong declared size
is let through, and at last the bytes with their place. -/
def instructionEvents (strict : Bool) (mnemonic : String) (operands : List Operand) (entry : Entry)
    (span : Span) (bytes : List UInt8) : List Event :=
  allAttemptEvents (entry.mode.slots.zip operands) ++
    (if strict = false ∧ entry.size.toNat ≠ entry.mode.encodedSize then
      [.sizeMismatch span.index mnemonic entry.size entry.mode.encodedSize]
    else []) ++
    [.encoded span.index span.address mnemonic bytes]

namespace Machine

variable {machine : Machine} {labels : LabelTable} {isLabel : String → Prop} {strict : Bool}
  {mnemonic : String} {operands : List Operand} {index : Nat} {address : UInt32}

end Machine

end TwoPass
