import TwoPass.LabelTable
import TwoPass.Machine

/-!
# Images and the second pass

The second pass writes each instruction as its opcode and its operand slots, from left to right.
The image of a program is the bytes of its instructions one after another, and a span for each
instruction records where its bytes stand.
-/

namespace TwoPass

/-- Where the bytes of one instruction stand. -/
structure Span where
  /-- The index of the instruction's statement. -/
  index : Nat
  address : UInt32
  /-- The number of bytes. -/
  length : Nat
  deriving DecidableEq

/-- The bytes of a program and the spans of its instructions in order. -/
structure Image where
  bytes : List UInt8
  spans : List Span
  deriving DecidableEq

/-- The low sixteen bits of a value, the high byte first. -/
def wordBytes (value : Nat) : List UInt8 :=
  [UInt8.ofNat (value / 256), UInt8.ofNat value]

namespace Operand

/-- The number that an operand of the given instruction stands for. -/
def value (labels : LabelTable) (mnemonic : String) : Operand → Except Cause Nat
  | .register _ => .error (.malformedInstruction mnemonic)
  | .literal digits =>
    match literalValue? digits with
    | some value => .ok value
    | none => .error (.invalidLiteral digits)
  | .symbol name => (labels.resolve name).map UInt16.toNat

/-- The index of the register that an operand of the given instruction names. -/
def registerIndex (registers : RegisterFile) (mnemonic : String) : Operand → Except Cause UInt8
  | .register name =>
    match registers.indexOf? name with
    | some index => .ok index
    | none => .error (.unknownRegister name)
  | _ => .error (.malformedInstruction mnemonic)

end Operand

namespace Machine

/-- The bytes of an operand in a slot. -/
def encodeOperand (machine : Machine) (labels : LabelTable) (mnemonic : String) (slot : Slot)
    (operand : Operand) : Logged Cause (List UInt8) := do
  .emit [.encoding slot operand]
  match slot with
  | .register => do
    let index ← .ofExcept (operand.registerIndex machine.registers mnemonic)
    return [index]
  | .byte => do
    let value ← .ofExcept (operand.value labels mnemonic)
    return [UInt8.ofNat value]
  | .word => do
    let value ← .ofExcept (operand.value labels mnemonic)
    .emit (if 0xFFFF < value then [.truncated value] else [])
    return wordBytes value

def encodeOperands (machine : Machine) (labels : LabelTable) (mnemonic : String) :
    List (Slot × Operand) → Logged Cause (List UInt8)
  | [] => pure []
  | (slot, operand) :: rest => do
    let bytes ← machine.encodeOperand labels mnemonic slot operand
    let others ← machine.encodeOperands labels mnemonic rest
    return bytes ++ others

/-- Compares the declared size of an instruction with the number of its bytes. -/
def checkSize (strict : Bool) (index : Nat) (mnemonic : String) (declared : UInt64)
    (emitted : Nat) : Logged Cause Unit :=
  if emitted = declared.toNat then pure ()
  else if strict then .fail (.sizeMismatch mnemonic declared emitted)
  else .emit [.sizeMismatch index mnemonic declared emitted]

/-- The bytes of the instruction with the given index and address. -/
def encodeInstruction (machine : Machine) (labels : LabelTable) (strict : Bool) (index : Nat)
    (address : UInt32) (mnemonic : String) (operands : List Operand) :
    Logged Cause (List UInt8) :=
  match machine.instructions.get? mnemonic with
  | none => .fail (.unknownMnemonic mnemonic)
  | some entry =>
    if operands.length = entry.mode.arity then do
      let body ← machine.encodeOperands labels mnemonic (entry.mode.slots.zip operands)
      let bytes := entry.opcode :: body
      checkSize strict index mnemonic entry.size bytes.length
      .emit [.encoded index address mnemonic bytes]
      return bytes
    else .fail (.malformedInstruction mnemonic)

/-- The image of the rest of a program, which follows `offset` bytes. -/
def encodeFrom (machine : Machine) (labels : LabelTable) (config : Config) (here : Location)
    (offset : Nat) : Program → Logged Diagnostic Image
  | [] => pure ⟨[], []⟩
  | .label name :: rest =>
    encodeFrom machine labels config (here.after (.label name)) offset rest
  | .instruction mnemonic operands :: rest => do
    let address := config.origin.toUInt32 + UInt32.ofNat offset
    let bytes ← (machine.encodeInstruction labels config.strictSizes here.index address mnemonic
      operands).mapFailure fun cause ↦ ⟨here, cause⟩
    let image ← encodeFrom machine labels config (here.after (.instruction mnemonic operands))
      (offset + bytes.length) rest
    return ⟨bytes ++ image.bytes, ⟨here.index, address, bytes.length⟩ :: image.spans⟩

/-- The second pass, with its events. -/
def encodeLogged (machine : Machine) (labels : LabelTable) (config : Config) (program : Program) :
    Logged Diagnostic Image :=
  machine.encodeFrom labels config .start 0 program

/-- The image of a program over a given label table. -/
def encode (machine : Machine) (labels : LabelTable) (config : Config) (program : Program) :
    Except Diagnostic Image :=
  (machine.encodeLogged labels config program).outcome

end Machine

end TwoPass
