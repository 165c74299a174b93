import TwoPass.InstructionTable

/-!
# The built-in instruction table

Every built-in instruction declares the size that its mode encodes to.
-/

namespace TwoPass

structure Descriptor where
  name : String
  /-- The mnemonic in source text, shared by the variants of an instruction. -/
  surface : String
  opcode : UInt8
  mode : Mode
  deriving DecidableEq

namespace Descriptor

def entry (descriptor : Descriptor) : Entry where
  opcode := descriptor.opcode
  mode := descriptor.mode
  size := UInt64.ofNat descriptor.mode.encodedSize
  surface := some descriptor.surface

def builtin : List Descriptor :=
  [⟨"MOV_LIT_REG", "mov", 0x10, .wordRegister⟩,
   ⟨"MOV_REG_REG", "mov", 0x11, .registerRegister⟩,
   ⟨"MOV_REG_MEM", "mov", 0x12, .registerMemory⟩,
   ⟨"MOV_MEM_REG", "mov", 0x13, .memoryRegister⟩,
   ⟨"MOV_LIT_MEM", "mov", 0x1B, .wordMemory⟩,
   ⟨"MOV_REG_PTR_REG", "mov", 0x1C, .pointerRegister⟩,
   ⟨"MOV_LIT_OFF_REG", "mov", 0x1D, .wordOffsetRegister⟩,
   ⟨"ADD_REG_REG", "add", 0x14, .registerRegister⟩,
   ⟨"ADD_LIT_REG", "add", 0x3F, .wordRegister⟩,
   ⟨"SUB_LIT_REG", "sub", 0x16, .wordRegister⟩,
   ⟨"SUB_REG_LIT", "sub", 0x1E, .registerWord⟩,
   ⟨"SUB_REG_REG", "sub", 0x1F, .registerRegister⟩,
   ⟨"INC_REG", "inc", 0x35, .singleRegister⟩,
   ⟨"DEC_REG", "dec", 0x36, .singleRegister⟩,
   ⟨"MUL_LIT_REG", "mul", 0x20, .wordRegister⟩,
   ⟨"MUL_REG_REG", "mul", 0x21, .registerRegister⟩,
   ⟨"LSF_REG_LIT", "lsf", 0x26, .registerByte⟩,
   ⟨"LSF_REG_REG", "lsf", 0x27, .registerRegister⟩,
   ⟨"RSF_REG_LIT", "rsf", 0x2A, .registerByte⟩,
   ⟨"RSF_REG_REG", "rsf", 0x2B, .registerRegister⟩,
   ⟨"AND_REG_LIT", "and", 0x2E, .registerWord⟩,
   ⟨"AND_REG_REG", "and", 0x2F, .registerRegister⟩,
   ⟨"OR_REG_LIT", "or", 0x30, .registerWord⟩,
   ⟨"OR_REG_REG", "or", 0x31, .registerRegister⟩,
   ⟨"XOR_REG_LIT", "xor", 0x32, .registerWord⟩,
   ⟨"XOR_REG_REG", "xor", 0x33, .registerRegister⟩,
   ⟨"NOT", "not", 0x34, .singleRegister⟩,
   ⟨"JNE_LIT", "jne", 0x15, .wordMemory⟩,
   ⟨"JNE_REG", "jne", 0x40, .registerMemory⟩,
   ⟨"JEQ_REG", "jeq", 0x3E, .registerMemory⟩,
   ⟨"JEQ_LIT", "jeq", 0x41, .wordMemory⟩,
   ⟨"JLT_REG", "jlt", 0x42, .registerMemory⟩,
   ⟨"JLT_LIT", "jlt", 0x43, .wordMemory⟩,
   ⟨"JGT_REG", "jgt", 0x44, .registerMemory⟩,
   ⟨"JGT_LIT", "jgt", 0x45, .wordMemory⟩,
   ⟨"JLE_REG", "jle", 0x46, .registerMemory⟩,
   ⟨"JLE_LIT", "jle", 0x47, .wordMemory⟩,
   ⟨"JGE_REG", "jge", 0x48, .registerMemory⟩,
   ⟨"JGE_LIT", "jge", 0x49, .wordMemory⟩,
   ⟨"PSH_LIT", "psh", 0x17, .singleWord⟩,
   ⟨"PSH_REG", "psh", 0x18, .singleRegister⟩,
   ⟨"POP", "pop", 0x1A, .singleRegister⟩,
   ⟨"CAL_LIT", "cal", 0x5E, .singleWord⟩,
   ⟨"CAL_REG", "cal", 0x5F, .singleRegister⟩,
   ⟨"RET", "ret", 0x60, .bare⟩,
   ⟨"HLT", "hlt", 0xFF, .bare⟩]

end Descriptor

/-- The table of the built-in instructions. -/
def InstructionTable.builtin : InstructionTable :=
  ofList (Descriptor.builtin.map fun descriptor ↦ (descriptor.name, descriptor.entry))

end TwoPass
