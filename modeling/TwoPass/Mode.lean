/-!
# Addressing modes

An addressing mode is a list of operand slots.  The slots fix how many operands an instruction
takes and how many bytes it encodes to: one for the opcode, and the width of each slot.
-/

namespace TwoPass

/-- A place for one operand in an encoded instruction. -/
inductive Slot where
  /-- One byte, the index of a register. -/
  | register
  /-- One byte, the low byte of a value. -/
  | byte
  /-- Two bytes, the low sixteen bits of a value with the high byte first. -/
  | word
  deriving DecidableEq

namespace Slot

def width : Slot → Nat
  | .register => 1
  | .byte => 1
  | .word => 2

/-- The number of bytes that some slots take together. -/
def totalWidth : List Slot → Nat
  | [] => 0
  | slot :: slots => slot.width + totalWidth slots

/-- The name of a slot in event logs. -/
def name : Slot → String
  | .register => "Reg"
  | .byte => "Lit8"
  | .word => "Lit16"

end Slot

/-- An addressing mode, named for its operands from left to right. -/
inductive Mode where
  | registerByte
  | wordRegister
  | memoryRegister
  | registerWord
  | registerMemory
  | wordMemory
  | registerRegister
  | pointerRegister
  | wordOffsetRegister
  | singleRegister
  | singleWord
  | bare
  deriving DecidableEq

namespace Mode

/-- The operand slots of a mode, from left to right. -/
def slots : Mode → List Slot
  | .registerByte => [.register, .byte]
  | .wordRegister => [.word, .register]
  | .memoryRegister => [.word, .register]
  | .registerWord => [.register, .word]
  | .registerMemory => [.register, .word]
  | .wordMemory => [.word, .word]
  | .registerRegister => [.register, .register]
  | .pointerRegister => [.register, .register]
  | .wordOffsetRegister => [.word, .register, .register]
  | .singleRegister => [.register]
  | .singleWord => [.word]
  | .bare => []

def arity (mode : Mode) : Nat :=
  mode.slots.length

/-- The number of bytes of an instruction: its opcode and its slots. -/
def encodedSize (mode : Mode) : Nat :=
  1 + Slot.totalWidth mode.slots

def all : List Mode :=
  [.registerByte, .wordRegister, .memoryRegister, .registerWord, .registerMemory, .wordMemory,
   .registerRegister, .pointerRegister, .wordOffsetRegister, .singleRegister, .singleWord, .bare]

theorem mem_all (mode : Mode) : mode ∈ all := by
  cases mode <;> decide

/-- The tag that names a mode in instruction tables. -/
def tag : Mode → String
  | .registerByte => "reg-literal"
  | .wordRegister => "literal-reg"
  | .memoryRegister => "mem-reg"
  | .registerWord => "reg-literal16"
  | .registerMemory => "reg-mem"
  | .wordMemory => "literal-mem"
  | .registerRegister => "reg-reg"
  | .pointerRegister => "reg-ptr-reg"
  | .wordOffsetRegister => "literal-offset-reg"
  | .singleRegister => "single-reg"
  | .singleWord => "single-literal"
  | .bare => "no-args"

def ofTag? (tag : String) : Option Mode :=
  all.find? fun mode ↦ mode.tag = tag

@[simp]
theorem ofTag?_tag (mode : Mode) : ofTag? mode.tag = some mode := by
  cases mode <;> decide

theorem tag_of_ofTag? {tag : String} {mode : Mode} (h : ofTag? tag = some mode) :
    mode.tag = tag := by
  simpa using List.find?_some h

end Mode

end TwoPass
