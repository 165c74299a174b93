import TwoPass.Proofs.Linking
import TwoPass.Proofs.RegisterNames

/-!
# What a program uses of its machine

Of an instruction table, assembling looks up the mnemonics of the program, and of their entries it
takes the opcode, the mode and the size.  Of a register file it takes the indices of the names that
occur as operands.  Machines that agree on these do the same with the program, event by event, so
that entries and registers that are not used, and the mnemonics of listings, make no difference.
-/

namespace TwoPass

/-! ## Machines that agree on a program -/

/-- Two tables lack a name, or have entries for it that encode alike. -/
inductive InstructionTable.AgreeAt (table other : InstructionTable) (name : String) : Prop
  | absent (hentry : table.get? name = none) (hother : other.get? name = none)
  | present {entry otherEntry : Entry} (hentry : table.get? name = some entry)
      (hother : other.get? name = some otherEntry) (hopcode : otherEntry.opcode = entry.opcode)
      (hmode : otherEntry.mode = entry.mode) (hsize : otherEntry.size = entry.size)

theorem InstructionTable.agreeAt_of_get?_eq {table other : InstructionTable} {name : String}
    (h : other.get? name = table.get? name) : table.AgreeAt other name := by
  cases hentry : table.get? name with
  | none => exact .absent hentry (h.trans hentry)
  | some entry => exact .present hentry (h.trans hentry) rfl rfl rfl

namespace Machine

/-- Two machines agree on the mnemonics and the registers of a program. -/
structure AgreeOn (machine other : Machine) (program : Program) : Prop where
  instruction : ∀ {mnemonic operands}, Statement.instruction mnemonic operands ∈ program →
    machine.instructions.AgreeAt other.instructions mnemonic
  register : ∀ {mnemonic operands name}, Statement.instruction mnemonic operands ∈ program →
    Operand.register name ∈ operands →
    other.registers.indexOf? name = machine.registers.indexOf? name

variable {machine other : Machine} {program : Program}

theorem AgreeOn.tail {statement : Statement} (h : machine.AgreeOn other (statement :: program)) :
    machine.AgreeOn other program where
  instruction hmem := h.instruction (List.mem_cons_of_mem statement hmem)
  register hmem := h.register (List.mem_cons_of_mem statement hmem)

/-! ## Both passes over machines that agree -/

theorem resolveFrom_of_agreeOn (h : machine.AgreeOn other program) (here : Location)
    (defined : List String) (counter : UInt32) :
    other.instructions.resolveFrom here defined counter program =
      machine.instructions.resolveFrom here defined counter program := by
  induction program generalizing here defined counter with
  | nil => rfl
  | cons statement rest ih =>
    have hrest := ih h.tail
    cases statement with
    | label name => simp only [InstructionTable.resolveFrom, hrest]
    | instruction mnemonic operands =>
      cases h.instruction List.mem_cons_self with
      | absent hentry hother => simp only [InstructionTable.resolveFrom, hentry, hother]
      | present hentry hother _ _ hsize =>
        simp only [InstructionTable.resolveFrom, hentry, hother, hsize, hrest]

theorem encodeOperand_of_indexOf? {operand : Operand}
    (h : ∀ name, operand = .register name →
      other.registers.indexOf? name = machine.registers.indexOf? name)
    (labels : LabelTable) (mnemonic : String) (slot : Slot) :
    other.encodeOperand labels mnemonic slot operand =
      machine.encodeOperand labels mnemonic slot operand := by
  have hindex : operand.registerIndex other.registers mnemonic =
      operand.registerIndex machine.registers mnemonic := by
    cases operand with
    | register name => simp only [Operand.registerIndex, h name rfl]
    | literal digits => rfl
    | symbol name => rfl
  cases slot with
  | register =>
    unfold encodeOperand
    rw [hindex]
  | byte => rfl
  | word => rfl

theorem encodeOperands_of_indexOf? {operands : List Operand}
    (h : ∀ name, .register name ∈ operands →
      other.registers.indexOf? name = machine.registers.indexOf? name)
    (labels : LabelTable) (mnemonic : String) (slots : List Slot) :
    other.encodeOperands labels mnemonic (slots.zip operands) =
      machine.encodeOperands labels mnemonic (slots.zip operands) := by
  induction operands generalizing slots with
  | nil =>
    rw [List.zip_nil_right]
    rfl
  | cons operand operands ih =>
    cases slots with
    | nil => rfl
    | cons slot slots =>
      have hkept : ∀ name, operand = .register name →
          other.registers.indexOf? name = machine.registers.indexOf? name := by
        intro name hname
        exact h name (hname ▸ List.mem_cons_self)
      have hfirst := encodeOperand_of_indexOf? hkept labels mnemonic slot
      have hothers := ih (fun name hname ↦ h name (List.mem_cons_of_mem operand hname)) slots
      rw [encodeOperands_cons, encodeOperands_cons, hfirst, hothers]

theorem encodeInstruction_of_agreeAt {mnemonic : String} {operands : List Operand}
    (hinstruction : machine.instructions.AgreeAt other.instructions mnemonic)
    (hregisters : ∀ name, .register name ∈ operands →
      other.registers.indexOf? name = machine.registers.indexOf? name)
    (labels : LabelTable) (strict : Bool) (index : Nat) (address : UInt32) :
    other.encodeInstruction labels strict index address mnemonic operands =
      machine.encodeInstruction labels strict index address mnemonic operands := by
  unfold encodeInstruction
  cases hinstruction with
  | absent hentry hother => rw [hentry, hother]
  | present hentry hother hopcode hmode hsize =>
    simp only [hentry, hother, hopcode, hmode, hsize,
      encodeOperands_of_indexOf? hregisters labels mnemonic]

theorem encodeFrom_of_agreeOn (h : machine.AgreeOn other program) (labels : LabelTable)
    (config : Config) (here : Location) (offset : Nat) :
    other.encodeFrom labels config here offset program =
      machine.encodeFrom labels config here offset program := by
  induction program generalizing here offset with
  | nil => rfl
  | cons statement rest ih =>
    have hrest := ih h.tail
    cases statement with
    | label name => simp only [encodeFrom, hrest]
    | instruction mnemonic operands =>
      have hbytes := encodeInstruction_of_agreeAt (h.instruction List.mem_cons_self)
        (fun name ↦ h.register List.mem_cons_self) labels
      simp only [encodeFrom, hbytes, hrest]

/-- Machines that agree on a program do the same with it, and report the same events. -/
theorem assembleLogged_of_agreeOn (h : machine.AgreeOn other program) (config : Config) :
    other.assembleLogged config program = machine.assembleLogged config program := by
  unfold assembleLogged encodeLogged InstructionTable.resolveLogged
  simp only [resolveFrom_of_agreeOn h, encodeFrom_of_agreeOn h]

/-! ## Changes that a program does not notice -/

theorem agreeOn_insert_unused (machine : Machine) {name : String}
    (hunused : ∀ operands, Statement.instruction name operands ∉ program) (entry : Entry) :
    machine.AgreeOn { machine with instructions := machine.instructions.insert name entry }
      program where
  instruction {mnemonic operands} hmem := by
    apply InstructionTable.agreeAt_of_get?_eq
    have hne : name ≠ mnemonic := fun hsame ↦ hunused operands (hsame ▸ hmem)
    rw [InstructionTable.get?_insert, if_neg hne]
  register _ _ := rfl

theorem agreeOn_insert_surface {name : String} {entry : Entry}
    (hentry : machine.instructions.get? name = some entry) (surface : Option String)
    (program : Program) :
    machine.AgreeOn { machine with
      instructions := machine.instructions.insert name { entry with surface := surface } }
      program where
  instruction {mnemonic _} _ := by
    by_cases hsame : name = mnemonic
    · subst hsame
      have hother := machine.instructions.get?_insert name name { entry with surface := surface }
      rw [if_pos rfl] at hother
      exact .present hentry hother rfl rfl rfl
    · apply InstructionTable.agreeAt_of_get?_eq
      rw [InstructionTable.get?_insert, if_neg hsame]
  register _ _ := rfl

end Machine

theorem RegisterFile.indexOf?_of_append {registers larger : RegisterFile} {more : List String}
    (h : larger.names = registers.names ++ more) {name : String} (hname : name ∈ registers.names) :
    larger.indexOf? name = registers.indexOf? name := by
  cases hindex : registers.indexOf? name with
  | none => exact absurd hname (indexOf?_eq_none_iff.mp hindex)
  | some index =>
    rw [indexOf?_eq_some_iff] at hindex ⊢
    rw [h, List.getElem?_append_left (List.getElem?_eq_some_iff.mp hindex).1, hindex]

/-- A register that has been encoded is one of the register file. -/
theorem Slot.HoldAll.mem_names {registers : RegisterFile} {labels : LabelTable} {slots : List Slot}
    {operands : List Operand} {bytes : List UInt8} {name : String}
    (h : Slot.HoldAll registers labels slots operands bytes) (hmem : .register name ∈ operands) :
    name ∈ registers.names := by
  induction h with
  | nil => cases hmem
  | cons hfirst _ ih =>
    rcases List.mem_cons.mp hmem with rfl | hrest
    · cases hfirst with
      | register hname => exact List.mem_of_getElem? hname
      | byte hvalue _ => cases hvalue
      | word hvalue _ => cases hvalue
    · exact ih hrest

namespace Machine

variable {machine : Machine} {config : Config} {program : Program} {assembly : Assembly}

theorem agreeOn_append_registers {larger : RegisterFile} {more : List String}
    (h : machine.assemble config program = .ok assembly)
    (hlarger : larger.names = machine.registers.names ++ more) :
    machine.AgreeOn { machine with registers := larger } program where
  instruction _ := InstructionTable.agreeAt_of_get?_eq rfl
  register {mnemonic operands name} hmem hoperand := by
    apply RegisterFile.indexOf?_of_append hlarger
    obtain ⟨-, -, hlays⟩ := assemble_eq_ok_iff.mp h
    obtain ⟨index, hstatement⟩ := List.getElem?_of_mem hmem
    obtain ⟨-, bytes, -, -, -, hbytes⟩ := hlays.split_instruction hstatement
    cases hbytes with
    | intro _ hholds _ => exact hholds.mem_names hoperand

/-- Assembling depends on nothing but the entries and the registers that a program uses.  An entry
under another name and the mnemonic of a listing never matter; further registers do not matter to a
program that does without them. -/
theorem assemble_depends_on_use (machine : Machine) (config : Config) (program : Program) :
    (∀ other, machine.AgreeOn other program →
      other.assemble config program = machine.assemble config program) ∧
    (∀ name entry, (∀ operands, Statement.instruction name operands ∉ program) →
      Machine.assemble { machine with instructions := machine.instructions.insert name entry }
        config program = machine.assemble config program) ∧
    (∀ name entry surface, machine.instructions.get? name = some entry →
      Machine.assemble { machine with
        instructions := machine.instructions.insert name { entry with surface := surface } }
        config program = machine.assemble config program) ∧
    ∀ more : List String, (machine.registers.names ++ more).length ≤ 256 →
      (machine.registers.names ++ more).Nodup →
      ∃ larger, RegisterFile.ofNames (machine.registers.names ++ more) = .ok larger ∧
        ∀ assembly, machine.assemble config program = .ok assembly →
          Machine.assemble { machine with registers := larger } config program = .ok assembly := by
  have hagree {other : Machine} (h : machine.AgreeOn other program) :
      other.assemble config program = machine.assemble config program :=
    congrArg Logged.outcome (assembleLogged_of_agreeOn h config)
  refine ⟨fun other ↦ hagree, ?_, ?_, ?_⟩
  · intro name entry hunused
    exact hagree (machine.agreeOn_insert_unused hunused entry)
  · intro name entry surface hentry
    exact hagree (agreeOn_insert_surface hentry surface program)
  · intro more hlength hnodup
    refine ⟨_, RegisterFile.ofNames_of_nodup hlength hnodup, ?_⟩
    intro assembly hassemble
    rw [hagree (agreeOn_append_registers hassemble rfl), hassemble]

/-- A machine with two registers that knows the instructions of the loop, one of them by another
surface, and numbers some other instruction differently. -/
def reduced : Machine :=
  ⟨.ofList [("jump", ⟨0x20, .singleWord, 3, some "JMP"⟩), ("low", ⟨0x21, .registerByte, 3, none⟩),
    ("pad", ⟨0x33, .bare, 1, none⟩)], ⟨["pc", "acc"], by decide, by decide⟩⟩

theorem agreeOn_reduced : small.AgreeOn reduced loop where
  instruction {mnemonic operands} hmem := by
    have hused : mnemonic = "jump" ∨ mnemonic = "low" := by
      simp only [loop, List.mem_cons, Statement.instruction.injEq, reduceCtorEq] at hmem
      tauto
    rcases hused with rfl | rfl
    · exact .present rfl rfl rfl rfl rfl
    · exact .present rfl rfl rfl rfl rfl
  register {mnemonic operands name} hmem hoperand := by
    have hused : name = "acc" := by
      grind [loop]
    subst hused
    rfl

theorem assemble_depends_on_use_loop :
    ∃ assembly, small.assemble ⟨0x1FE, true⟩ loop = .ok assembly ∧
      small.AgreeOn reduced loop ∧ reduced.assemble ⟨0x1FE, true⟩ loop = .ok assembly ∧
      Machine.assemble { small with
        instructions := small.instructions.insert "halt" ⟨0x20, .bare, 1, none⟩ }
        ⟨0x1FE, true⟩ loop = .ok assembly ∧
      Machine.assemble { small with
        instructions := small.instructions.insert "jump" ⟨0x20, .singleWord, 3, some "JMP"⟩ }
        ⟨0x1FE, true⟩ loop = .ok assembly ∧
      ∃ larger, RegisterFile.ofNames (small.registers.names ++ ["r9"]) = .ok larger ∧
        Machine.assemble { small with registers := larger } ⟨0x1FE, true⟩ loop = .ok assembly := by
  obtain ⟨hagree, hinsert, hsurface, happend⟩ := assemble_depends_on_use small ⟨0x1FE, true⟩ loop
  have hunused : ∀ operands, Statement.instruction "halt" operands ∉ loop := by
    simp [loop]
  obtain ⟨larger, hlarger, hkept⟩ := happend ["r9"] (by decide) (by decide)
  refine ⟨_, assemble_loop, agreeOn_reduced, (hagree _ agreeOn_reduced).trans assemble_loop,
    (hinsert "halt" _ hunused).trans assemble_loop, ?_, larger, hlarger, hkept _ assemble_loop⟩
  exact (hsurface "jump" ⟨0x20, .singleWord, 3, none⟩ (some "JMP") rfl).trans assemble_loop

end Machine

end TwoPass
