import TwoPass.Proofs.Linking

/-!
# The bytes of an image one by one

Every byte of an image is an opcode or belongs to the slot of an operand, and the program and its
table decide which of the two it is.  Two images of one program therefore have the same bytes, up to
the slots of symbols whose addresses differ.
-/

namespace TwoPass

namespace Slot

/-- A place within the width of some slots belongs to one of them. -/
theorem exists_slot_of_lt_totalWidth {slots : List Slot} {place : Nat}
    (h : place < totalWidth slots) :
    ∃ (position : Nat) (slot : Slot), slots[position]? = some slot ∧
      totalWidth (slots.take position) ≤ place ∧
      place < totalWidth (slots.take position) + slot.width := by
  induction slots generalizing place with
  | nil => exact absurd h (Nat.not_lt_zero place)
  | cons first rest ih =>
    rw [totalWidth] at h
    by_cases hhere : place < first.width
    · refine ⟨0, first, rfl, Nat.zero_le place, ?_⟩
      rw [List.take_zero, totalWidth, Nat.zero_add]
      exact hhere
    · obtain ⟨position, slot, hslot, hle, hlt⟩ :=
        ih (show place - first.width < totalWidth rest by omega)
      refine ⟨position + 1, slot, hslot, ?_, ?_⟩
      · rw [List.take_succ_cons, totalWidth]
        omega
      · rw [List.take_succ_cons, totalWidth]
        omega

end Slot

/-! ## Contents over two label tables -/

section

variable {registers : RegisterFile} {labels otherLabels : LabelTable} {slot : Slot}
  {operand : Operand}

/-- An operand has the same value over all label tables that have the same address for it. -/
theorem Operand.Denotes.unique {value otherValue : Nat}
    (hsame : ∀ name, operand = .symbol name → labels.get? name = otherLabels.get? name)
    (h : operand.Denotes labels value) (hother : operand.Denotes otherLabels otherValue) :
    value = otherValue := by
  cases operand with
  | register name => cases h
  | literal digits =>
    rw [denotes_literal_iff] at h hother
    exact Option.some.inj (h.symm.trans hother)
  | symbol name =>
    obtain ⟨address, haddress, hvalue⟩ := denotes_symbol_iff.mp h
    obtain ⟨other, hotherAddress, hotherValue⟩ := denotes_symbol_iff.mp hother
    rw [hsame name rfl, hotherAddress, Option.some.injEq] at haddress
    rw [← hvalue, ← hotherValue, haddress]

theorem Slot.Holds.unique {bytes otherBytes : List UInt8}
    (hsame : ∀ name, operand = .symbol name → labels.get? name = otherLabels.get? name)
    (h : slot.Holds registers labels operand bytes)
    (hother : slot.Holds registers otherLabels operand otherBytes) : bytes = otherBytes := by
  cases h with
  | register hname =>
    cases hother with
    | register hotherName =>
      rw [← RegisterFile.indexOf?_eq_some_iff] at hname hotherName
      rw [hname, Option.some.injEq] at hotherName
      rw [hotherName]
  | byte hvalue hlow =>
    cases hother with
    | byte hotherValue hotherLow =>
      rw [← ofNat_eq_byte_iff] at hlow hotherLow
      rw [← hlow, ← hotherLow, hvalue.unique hsame hotherValue]
  | word hvalue hword =>
    cases hother with
    | word hotherValue hotherWord =>
      have hbytes := wordBytes_eq_iff.mpr ⟨_, _, rfl, hword⟩
      have hotherBytes := wordBytes_eq_iff.mpr ⟨_, _, rfl, hotherWord⟩
      rw [← hbytes, ← hotherBytes, hvalue.unique hsame hotherValue]

end

namespace Machine

/-! ## Opcodes and slots -/

/-- The operand with the given position of the instruction with the given index stands in a slot. -/
inductive Fills (machine : Machine) (program : Program) (index position : Nat) :
    Mode → Slot → Operand → Prop
  | intro {mnemonic : String} {operands : List Operand} {entry : Entry} {slot : Slot}
      {operand : Operand} (hstatement : program[index]? = some (.instruction mnemonic operands))
      (hentry : machine.instructions.get? mnemonic = some entry)
      (hslot : entry.mode.slots[position]? = some slot)
      (hoperand : operands[position]? = some operand) :
      Fills machine program index position entry.mode slot operand

/-- A byte of a program's image belongs to the slot of an operand. -/
def InSlot (machine : Machine) (program : Program) (place : Nat) (operand : Operand) : Prop :=
  ∃ index position mode slot, machine.Fills program index position mode slot operand ∧
    machine.slotOffset program index mode position ≤ place ∧
    place < machine.slotOffset program index mode position + slot.width

/-- A byte of a program's image is the opcode of an instruction with the given entry. -/
def IsOpcode (machine : Machine) (program : Program) (place : Nat) (entry : Entry) : Prop :=
  ∃ index mnemonic operands, program[index]? = some (.instruction mnemonic operands) ∧
    machine.instructions.get? mnemonic = some entry ∧
    place = Program.encodedSize machine.instructions (program.take index)

variable {machine : Machine} {labels otherLabels : LabelTable} {config otherConfig : Config}
  {index offset place : Nat} {program : Program} {image otherImage : Image}

theorem Lays.isOpcode_or_inSlot (h : machine.Lays labels config index offset program image)
    (hplace : place < image.bytes.length) :
    (∃ entry, machine.IsOpcode program place entry) ∨
      ∃ operand, machine.InSlot program place operand := by
  rw [h.length_bytes] at hplace
  obtain ⟨statement, mnemonic, operands, entry, hstatement, hentry, hle, hlt⟩ :=
    Program.exists_instruction_of_lt_extent _ _ hplace
  change Program.encodedSize _ _ ≤ place at hle
  change place < Program.encodedSize _ _ + _ at hlt
  by_cases hfirst : place = Program.encodedSize machine.instructions (program.take statement)
  · exact .inl ⟨entry, statement, mnemonic, operands, hstatement, hentry, hfirst⟩
  right
  -- behind the opcode, the place is counted from the first slot on
  have hbody : place - Program.encodedSize machine.instructions (program.take statement) - 1 <
      Slot.totalWidth entry.mode.slots := by
    rw [Mode.encodedSize] at hlt
    omega
  obtain ⟨position, slot, hslot, hstart, hend⟩ := Slot.exists_slot_of_lt_totalWidth hbody
  obtain ⟨-, bytes, -, -, -, hbytes⟩ := h.split_instruction hstatement
  cases hbytes with
  | intro hfound hholds _ =>
    rw [hentry, Option.some.injEq] at hfound
    subst hfound
    have hposition : position < operands.length := by
      rw [hholds.length_operands]
      exact (List.getElem?_eq_some_iff.mp hslot).1
    refine ⟨operands[position], statement, position, entry.mode, slot,
      .intro hstatement hentry hslot (List.getElem?_eq_getElem hposition), ?_, ?_⟩
    · rw [slotOffset]
      omega
    · rw [slotOffset]
      omega

theorem Lays.getElem?_of_isOpcode {entry : Entry}
    (h : machine.Lays labels config index offset program image)
    (hplace : machine.IsOpcode program place entry) :
    image.bytes[place]? = some entry.opcode := by
  obtain ⟨statement, mnemonic, operands, hstatement, hentry, hplace⟩ := hplace
  obtain ⟨before, bytes, after, himage, hbefore, hbytes⟩ := h.split_instruction hstatement
  cases hbytes with
  | intro hfound _ _ =>
    rw [hentry, Option.some.injEq] at hfound
    subst hfound
    rw [hplace, himage, ← hbefore]
    simp

/-- The bytes of an image in the slot of an operand are those that the slot holds for it. -/
theorem Lays.exists_content {statement position : Nat} {mode : Mode} {slot : Slot}
    {operand : Operand} (h : machine.Lays labels config index offset program image)
    (hfills : machine.Fills program statement position mode slot operand) :
    ∃ content, slot.Holds machine.registers labels operand content ∧
      ∀ rest < slot.width,
        image.bytes[machine.slotOffset program statement mode position + rest]? =
          content[rest]? := by
  cases hfills with
  | intro hstatement hentry hslot hoperand =>
    obtain ⟨before, content, after, himage, hbefore, hholds⟩ :=
      h.split_slot hstatement hentry hslot hoperand
    refine ⟨content, hholds, ?_⟩
    intro rest hrest
    rw [← hholds.length_eq] at hrest
    exact getElem?_content himage hbefore rest hrest

/-- A slot that two programs fill with the same operand at the same place has the same bytes in both
images, if their label tables agree on the operand. -/
theorem Lays.getElem?_slot_eq {other : Program} {statement position : Nat} {mode : Mode}
    {slot : Slot} {operand : Operand}
    (h : machine.Lays labels config index offset program image)
    (hother : machine.Lays otherLabels otherConfig index offset other otherImage)
    (hfills : machine.Fills program statement position mode slot operand)
    (hotherFills : machine.Fills other statement position mode slot operand)
    (hoffset : machine.slotOffset other statement mode position =
      machine.slotOffset program statement mode position)
    (hsame : ∀ name, operand = .symbol name → labels.get? name = otherLabels.get? name)
    (hstart : machine.slotOffset program statement mode position ≤ place)
    (hend : place < machine.slotOffset program statement mode position + slot.width) :
    otherImage.bytes[place]? = image.bytes[place]? := by
  obtain ⟨content, hholds, hcontent⟩ := h.exists_content hfills
  obtain ⟨otherContent, hotherHolds, hotherContent⟩ := hother.exists_content hotherFills
  have hagree : content = otherContent := hholds.unique hsame hotherHolds
  have hrest : place - machine.slotOffset program statement mode position < slot.width := by
    omega
  have hleft := hcontent _ hrest
  have hright := hotherContent _ hrest
  rw [hoffset] at hright
  rw [Nat.add_sub_cancel' hstart] at hleft hright
  rw [hleft, hright, hagree]

/-- Two images of one program have the same byte wherever their label tables agree on the symbol
that the byte belongs to. -/
theorem Lays.getElem?_bytes_eq (h : machine.Lays labels config index offset program image)
    (hother : machine.Lays otherLabels otherConfig index offset program otherImage)
    (hsame : ∀ name, machine.InSlot program place (.symbol name) →
      labels.get? name = otherLabels.get? name) :
    otherImage.bytes[place]? = image.bytes[place]? := by
  have hlength : otherImage.bytes.length = image.bytes.length := by
    rw [hother.length_bytes, h.length_bytes]
  by_cases hplace : place < image.bytes.length
  · rcases h.isOpcode_or_inSlot hplace with ⟨entry, hopcode⟩ | ⟨operand, hslot⟩
    · rw [h.getElem?_of_isOpcode hopcode, hother.getElem?_of_isOpcode hopcode]
    · obtain ⟨statement, position, mode, slot, hfills, hstart, hend⟩ := hslot
      apply h.getElem?_slot_eq hother hfills hfills rfl _ hstart hend
      intro name hname
      subst hname
      exact hsame name ⟨statement, position, mode, slot, hfills, hstart, hend⟩
  · rw [List.getElem?_eq_none (Nat.le_of_not_lt hplace),
      List.getElem?_eq_none (hlength ▸ Nat.le_of_not_lt hplace)]

end Machine

end TwoPass
