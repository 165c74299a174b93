import Mathlib.Data.List.Nodup
import TwoPass.Proofs.Image

/-!
# Images can be decoded in one way only

Where different instructions have different opcodes, the encoding is a prefix code: the opcode fixes
the mode, and the mode fixes how many bytes follow and how each of them is to be read.  Two programs
with the same bytes therefore have the same instructions, and their operands differ at most in what
their slots do not hold.
-/

namespace TwoPass

/-! ## Opcodes -/

namespace InstructionTable

/-- Different names have different opcodes. -/
def DistinctOpcodes (table : InstructionTable) : Prop :=
  ∀ ⦃name otherName : String⦄ ⦃entry otherEntry : Entry⦄, table.get? name = some entry →
    table.get? otherName = some otherEntry → entry.opcode = otherEntry.opcode → name = otherName

theorem mem_of_get?_foldl_insert {table : InstructionTable} {named : List (String × Entry)}
    {name : String} {entry : Entry}
    (h : (named.foldl (fun table (name, entry) ↦ table.insert name entry) table).get? name =
      some entry) :
    (name, entry) ∈ named ∨ table.get? name = some entry := by
  induction named generalizing table with
  | nil => exact .inr h
  | cons first rest ih =>
    rcases ih h with hmem | hget
    · exact .inl (List.mem_cons_of_mem _ hmem)
    · rw [get?_insert] at hget
      by_cases hname : first.1 = name
      · rw [if_pos hname, Option.some.injEq] at hget
        rw [← hname, ← hget]
        exact .inl List.mem_cons_self
      · rw [if_neg hname] at hget
        exact .inr hget

theorem mem_of_get?_ofList {named : List (String × Entry)} {name : String} {entry : Entry}
    (h : (ofList named).get? name = some entry) : (name, entry) ∈ named := by
  apply (mem_of_get?_foldl_insert h).resolve_right
  rw [get?_empty]
  intro hnone
  cases hnone

theorem distinctOpcodes_ofList {named : List (String × Entry)}
    (h : (named.map fun pair ↦ pair.2.opcode).Nodup) : (ofList named).DistinctOpcodes := by
  intro name otherName entry otherEntry hentry hother hopcode
  have hsame := List.inj_on_of_nodup_map h (mem_of_get?_ofList hentry)
    (mem_of_get?_ofList hother) hopcode
  exact congrArg Prod.fst hsame

/-- The built-in instructions have different opcodes. -/
theorem distinctOpcodes_builtin : builtin.DistinctOpcodes := by
  apply distinctOpcodes_ofList
  decide

end InstructionTable

/-! ## Slots -/

namespace Slot

/-- Two operands, each over a label table of its own, have the same content in a slot. -/
inductive Agree (labels otherLabels : LabelTable) : Slot → Operand → Operand → Prop
  | register {name : String} :
      Agree labels otherLabels .register (.register name) (.register name)
  | byte {operand other : Operand} {value otherValue : Nat} (hvalue : operand.Denotes labels value)
      (hother : other.Denotes otherLabels otherValue) (hsame : value % 256 = otherValue % 256) :
      Agree labels otherLabels .byte operand other
  | word {operand other : Operand} {value otherValue : Nat} (hvalue : operand.Denotes labels value)
      (hother : other.Denotes otherLabels otherValue) (hsame : value % 65536 = otherValue % 65536) :
      Agree labels otherLabels .word operand other

/-- The operands of two instructions have the same contents, slot by slot. -/
inductive AgreeAll (labels otherLabels : LabelTable) :
    List Slot → List Operand → List Operand → Prop
  | nil : AgreeAll labels otherLabels [] [] []
  | cons {slot : Slot} {operand other : Operand} {slots : List Slot}
      {operands others : List Operand} (hfirst : Agree labels otherLabels slot operand other)
      (hrest : AgreeAll labels otherLabels slots operands others) :
      AgreeAll labels otherLabels (slot :: slots) (operand :: operands) (other :: others)

variable {registers : RegisterFile} {labels otherLabels : LabelTable} {slot : Slot}
  {operand other : Operand} {slots : List Slot} {operands others : List Operand}
  {bytes : List UInt8}

/-- A slot holds the same bytes for operands of the same content only. -/
theorem Holds.agree (h : Holds registers labels slot operand bytes)
    (hother : Holds registers otherLabels slot other bytes) :
    Agree labels otherLabels slot operand other := by
  cases h with
  | register hname =>
    cases hother with
    | register hotherName =>
      rw [hname, Option.some.injEq] at hotherName
      subst hotherName
      exact .register
  | byte hvalue hlow =>
    cases hother with
    | byte hotherValue hotherLow => exact .byte hvalue hotherValue (hlow.symm.trans hotherLow)
  | word hvalue hword =>
    cases hother with
    | word hotherValue hotherWord => exact .word hvalue hotherValue (hword.symm.trans hotherWord)

theorem HoldAll.agreeAll {otherBytes : List UInt8}
    (h : HoldAll registers labels slots operands bytes)
    (hother : HoldAll registers otherLabels slots others otherBytes) (hbytes : bytes = otherBytes) :
    AgreeAll labels otherLabels slots operands others := by
  induction h generalizing others otherBytes with
  | nil =>
    cases hother
    exact .nil
  | cons hfirst _ ih =>
    cases hother with
    | cons hotherFirst hotherRest =>
      -- a slot takes the same number of bytes on both sides
      have hwidth := hfirst.length_eq.trans hotherFirst.length_eq.symm
      obtain ⟨hsame, hsameRest⟩ := List.append_inj hbytes hwidth
      subst hsame
      exact .cons (hfirst.agree hotherFirst) (ih hotherRest hsameRest)

end Slot

/-! ## Programs -/

namespace Machine

/-- Two instructions, each over a label table of its own, have the same name and operands of the
same contents. -/
inductive SameInstruction (machine : Machine) (labels otherLabels : LabelTable) :
    String × List Operand → String × List Operand → Prop
  | intro {mnemonic : String} {entry : Entry} {operands others : List Operand}
      (hentry : machine.instructions.get? mnemonic = some entry)
      (hoperands : Slot.AgreeAll labels otherLabels entry.mode.slots operands others) :
      SameInstruction machine labels otherLabels (mnemonic, operands) (mnemonic, others)

/-- The bytes of some instructions one after another. -/
inductive Emits (machine : Machine) (labels : LabelTable) (strict : Bool) :
    List (String × List Operand) → List UInt8 → Prop
  | nil : Emits machine labels strict [] []
  | cons {mnemonic : String} {operands : List Operand} {rest : List (String × List Operand)}
      {bytes others : List UInt8} (hbytes : machine.Encodes labels strict mnemonic operands bytes)
      (hrest : Emits machine labels strict rest others) :
      Emits machine labels strict ((mnemonic, operands) :: rest) (bytes ++ others)

variable {machine : Machine} {labels otherLabels : LabelTable} {strict otherStrict : Bool}
  {mnemonic otherMnemonic : String} {operands others : List Operand}
  {bytes otherBytes rest otherRest : List UInt8}

theorem Lays.emits {config : Config} {index offset : Nat} {program : Program} {image : Image}
    (h : machine.Lays labels config index offset program image) :
    machine.Emits labels config.strictSizes program.instructions image.bytes := by
  induction h with
  | nil => exact .nil
  | label _ ih => exact ih
  | instruction hbytes _ ih => exact .cons hbytes ih

theorem Encodes.ne_nil (h : machine.Encodes labels strict mnemonic operands bytes) :
    bytes ≠ [] := by
  cases h with
  | intro => exact List.cons_ne_nil _ _

/-- The bytes of no instruction begin with those of a different one. -/
theorem Encodes.append_inj (hdistinct : machine.instructions.DistinctOpcodes)
    (h : machine.Encodes labels strict mnemonic operands bytes)
    (hother : machine.Encodes otherLabels otherStrict otherMnemonic others otherBytes)
    (hbytes : bytes ++ rest = otherBytes ++ otherRest) :
    machine.SameInstruction labels otherLabels (mnemonic, operands) (otherMnemonic, others) ∧
      rest = otherRest := by
  cases h with
  | @intro entry body hentry hbody _ =>
    cases hother with
    | @intro otherEntry otherBody hotherEntry hotherBody _ =>
      obtain ⟨hopcode, htail⟩ := List.cons.inj hbytes
      have hname : mnemonic = otherMnemonic := hdistinct hentry hotherEntry hopcode
      subst hname
      rw [hentry, Option.some.injEq] at hotherEntry
      subst hotherEntry
      have hwidth := hbody.length_eq.trans hotherBody.length_eq.symm
      obtain ⟨hsame, hrest⟩ := List.append_inj htail hwidth
      exact ⟨.intro hentry (hbody.agreeAll hotherBody hsame), hrest⟩

theorem Emits.forall₂ {instructions otherInstructions : List (String × List Operand)}
    (hdistinct : machine.instructions.DistinctOpcodes)
    (h : machine.Emits labels strict instructions bytes)
    (hother : machine.Emits otherLabels otherStrict otherInstructions otherBytes)
    (hbytes : bytes = otherBytes) :
    List.Forall₂ (machine.SameInstruction labels otherLabels) instructions otherInstructions := by
  induction h generalizing otherInstructions otherBytes with
  | nil =>
    cases hother with
    | nil => exact .nil
    | cons hfirst _ =>
      have hempty := (List.append_eq_nil_iff.mp hbytes.symm).1
      exact absurd hempty hfirst.ne_nil
  | cons hfirst _ ih =>
    cases hother with
    | nil =>
      have hempty := (List.append_eq_nil_iff.mp hbytes).1
      exact absurd hempty hfirst.ne_nil
    | cons hotherFirst hotherRest =>
      obtain ⟨hsame, hrest⟩ := hfirst.append_inj hdistinct hotherFirst hbytes
      exact .cons hsame (ih hotherRest hrest)

/-- Two programs with the same bytes have the same instructions one by one, whatever their labels
and settings are. -/
theorem sameInstructions_of_encode {config otherConfig : Config} {program other : Program}
    {image otherImage : Image} (hdistinct : machine.instructions.DistinctOpcodes)
    (h : machine.encode labels config program = .ok image)
    (hother : machine.encode otherLabels otherConfig other = .ok otherImage)
    (hbytes : image.bytes = otherImage.bytes) :
    List.Forall₂ (machine.SameInstruction labels otherLabels) program.instructions
      other.instructions := by
  have hemits := (encode_eq_ok_iff.mp h).emits
  have hotherEmits := (encode_eq_ok_iff.mp hother).emits
  exact hemits.forall₂ hdistinct hotherEmits hbytes

/-- A symbol and two literals that are too large for their slots give the same bytes. -/
theorem sameInstructions_of_encode_truncated :
    ∃ program image other otherImage,
      small.encode ⟨[⟨"start", 0x1234⟩]⟩ ⟨0x1234, true⟩ program = .ok image ∧
      small.encode ⟨[]⟩ ⟨0, false⟩ other = .ok otherImage ∧
      image.bytes = [0x20, 0x12, 0x34, 0x21, 0x01, 0x34] ∧ image.bytes = otherImage.bytes ∧
      program ≠ other ∧
      List.Forall₂ (small.SameInstruction ⟨[⟨"start", 0x1234⟩]⟩ ⟨[]⟩) program.instructions
        other.instructions := by
  have hprogram : small.encode ⟨[⟨"start", 0x1234⟩]⟩ ⟨0x1234, true⟩
      [.label "start", .instruction "jump" [.symbol "start"],
        .instruction "low" [.register "acc", .symbol "start"]] =
      .ok ⟨[0x20, 0x12, 0x34, 0x21, 0x01, 0x34], [⟨1, 0x1234, 3⟩, ⟨2, 0x1237, 3⟩]⟩ := by
    rfl
  have hother : small.encode ⟨[]⟩ ⟨0, false⟩
      [.instruction "jump" [.literal "51234"],
        .instruction "low" [.register "acc", .literal "F34"]] =
      .ok ⟨[0x20, 0x12, 0x34, 0x21, 0x01, 0x34], [⟨0, 0, 3⟩, ⟨1, 3, 3⟩]⟩ := by
    rfl
  have hdistinct : small.instructions.DistinctOpcodes :=
    InstructionTable.distinctOpcodes_ofList (by decide)
  exact ⟨_, _, _, _, hprogram, hother, rfl, rfl, by decide,
    sameInstructions_of_encode hdistinct hprogram hother rfl⟩

end Machine

end TwoPass
