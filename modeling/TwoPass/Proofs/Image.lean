import TwoPass.Assembly
import TwoPass.Proofs.Encoding
import TwoPass.Proofs.Placement

/-!
# What the second pass makes of a program

`Machine.Lays` describes the image of a program statement by statement: labels leave no trace, and
an instruction puts its bytes and its span in front of the image of what follows.  The second pass
succeeds exactly with such an image, and it fails exactly at the first statement that breaks one of
the rules of `EncodingFault`.
-/

namespace TwoPass

/-- The number of bytes that some spans cover together. -/
def Span.totalLength : List Span → Nat
  | [] => 0
  | span :: spans => span.length + totalLength spans

@[simp]
theorem Span.totalLength_nil : totalLength [] = 0 := rfl

@[simp]
theorem Span.totalLength_cons (span : Span) (spans : List Span) :
    totalLength (span :: spans) = span.length + totalLength spans := rfl

theorem Span.totalLength_append (first second : List Span) :
    totalLength (first ++ second) = totalLength first + totalLength second := by
  induction first with
  | nil => simp
  | cons span spans ih => rw [List.cons_append, totalLength, totalLength, ih, Nat.add_assoc]

/-- The address of a span is exact as long as it fits in 32 bits. -/
theorem Span.toNat_address {origin : UInt16} {offset : Nat}
    (h : origin.toNat + offset ≤ 0xFFFFFFFF) :
    (origin.toUInt32 + UInt32.ofNat offset).toNat = origin.toNat + offset := by
  rw [UInt32.toNat_add, UInt16.toNat_toUInt32, UInt32.toNat_ofNat']
  omega

/-- Two images one after the other. -/
def Image.append (first second : Image) : Image :=
  ⟨first.bytes ++ second.bytes, first.spans ++ second.spans⟩

namespace Machine

/-- The image of a program whose first statement has the given index and follows `offset` bytes. -/
inductive Lays (machine : Machine) (labels : LabelTable) (config : Config) :
    Nat → Nat → Program → Image → Prop
  | nil {index offset : Nat} : Lays machine labels config index offset [] ⟨[], []⟩
  | label {index offset : Nat} {name : String} {rest : Program} {image : Image}
      (hrest : Lays machine labels config (index + 1) offset rest image) :
      Lays machine labels config index offset (.label name :: rest) image
  | instruction {index offset : Nat} {mnemonic : String} {operands : List Operand}
      {rest : Program} {bytes : List UInt8} {image : Image}
      (hbytes : machine.Encodes labels config.strictSizes mnemonic operands bytes)
      (hrest : Lays machine labels config (index + 1) (offset + bytes.length) rest image) :
      Lays machine labels config index offset (.instruction mnemonic operands :: rest)
        (.append
          ⟨bytes, [⟨index, config.origin.toUInt32 + UInt32.ofNat offset, bytes.length⟩]⟩ image)

variable {machine : Machine} {labels : LabelTable} {isLabel : String → Prop} {config : Config}

/-! ## Success and failure of the second pass -/

/-- The second pass over the rest of a program ends at the first fault there, and without a fault
it gives the image of the rest. -/
theorem walkEnds_encodeFrom (hlabels : ∀ name, labels.get? name = none ↔ ¬ isLabel name)
    {earlier : Program} {here : Location} (hhere : here = Location.start.following earlier)
    (offset : Nat) (rest : Program) :
    WalkEnds (EncodingFault machine isLabel config.strictSizes) earlier rest
      (machine.Lays labels config here.index offset rest)
      (machine.encodeFrom labels config here offset rest).outcome := by
  induction rest generalizing earlier here offset with
  | nil => exact .clean (fun _ ↦ FirstFault.not_nil) .nil
  | cons statement rest ih =>
    have hnext : here.after statement = Location.start.following (earlier ++ [statement]) := by
      rw [Location.following_concat, hhere]
    cases statement with
    | label name =>
      have hclean : ∀ cause,
          ¬ EncodingFault machine isLabel config.strictSizes earlier (.label name) cause := by
        intro cause hfault
        cases hfault
      have hrest := (ih hnext offset).later hclean
      rw [encodeFrom]
      apply hrest.mono
      intro image himage
      rw [Location.index_after] at himage
      exact .label himage
    | instruction mnemonic operands =>
      simp only [encodeFrom, Logged.outcome_bind, Logged.outcome_mapFailure, Logged.outcome_pure]
      cases hrun : (machine.encodeInstruction labels config.strictSizes here.index
          (config.origin.toUInt32 + UInt32.ofNat offset) mnemonic operands).outcome with
      | error cause =>
        have hfault := (encodeInstruction_eq_error_iff earlier hlabels).mp hrun
        rw [hhere]
        exact .fault (.here hfault)
      | ok bytes =>
        have hclean : ∀ cause, ¬ EncodingFault machine isLabel config.strictSizes earlier
            (.instruction mnemonic operands) cause := by
          intro cause hfault
          rw [← encodeInstruction_eq_error_iff earlier hlabels, hrun] at hfault
          cases hfault
        have hrest := (ih hnext (offset + bytes.length)).later hclean
        apply hrest.map
        intro image himage
        rw [Location.index_after] at himage
        exact .instruction (encodeInstruction_eq_ok_iff.mp hrun) himage

theorem encodeFrom_of_lays {index offset : Nat} {program : Program} {image : Image}
    (h : machine.Lays labels config index offset program image) {here : Location}
    (hindex : here.index = index) :
    (machine.encodeFrom labels config here offset program).outcome = .ok image := by
  induction h generalizing here with
  | nil => rfl
  | label _ ih =>
    rw [encodeFrom]
    apply ih
    rw [Location.index_after, hindex]
  | @instruction index offset mnemonic operands rest bytes image hbytes _ ih =>
    have hnext : (here.after (.instruction mnemonic operands)).index = index + 1 := by
      rw [Location.index_after, hindex]
    rw [encodeFrom, Logged.outcome_bind_eq_ok_iff]
    refine ⟨bytes, ?_, ?_⟩
    · rw [Logged.outcome_mapFailure, encodeInstruction_eq_ok_iff.mpr hbytes]
      rfl
    · rw [Logged.outcome_bind_eq_ok_iff, ← hindex]
      exact ⟨image, ih hnext, rfl⟩

/-- The second pass succeeds exactly with the image of its program. -/
theorem encode_eq_ok_iff {program : Program} {image : Image} :
    machine.encode labels config program = .ok image ↔
      machine.Lays labels config 0 0 program image := by
  refine ⟨?_, ?_⟩
  · intro h
    -- any set of names that the table binds will do here
    have hwalk : WalkEnds
        (EncodingFault machine (fun name ↦ ¬ labels.get? name = none) config.strictSizes) [] program
        (machine.Lays labels config 0 0 program) (machine.encode labels config program) :=
      walkEnds_encodeFrom (fun _ ↦ Decidable.not_not.symm) rfl 0 program
    exact hwalk.accepts_of_eq_ok h
  · intro h
    exact encodeFrom_of_lays h rfl

end Machine

/-- A statement is rejected for at most one cause, whatever the rules that it breaks. -/
theorem EncodingFault.unambiguous {machine : Machine} {labels : LabelTable}
    {isLabel : String → Prop} {strict : Bool}
    (hlabels : ∀ name, labels.get? name = none ↔ ¬ isLabel name) :
    Rule.Unambiguous (EncodingFault machine isLabel strict) := by
  intro earlier statement cause other hcause hother
  cases statement with
  | label name => cases hcause
  | instruction mnemonic operands =>
    have hfirst : (machine.encodeInstruction labels strict 0 0 mnemonic operands).outcome =
        .error cause := (Machine.encodeInstruction_eq_error_iff earlier hlabels).mpr hcause
    have hsecond : (machine.encodeInstruction labels strict 0 0 mnemonic operands).outcome =
        .error other := (Machine.encodeInstruction_eq_error_iff earlier hlabels).mpr hother
    rw [hfirst] at hsecond
    injection hsecond

namespace Machine

theorem encode_eq_error_iff {machine : Machine} {labels : LabelTable} {isLabel : String → Prop}
    {config : Config} (hlabels : ∀ name, labels.get? name = none ↔ ¬ isLabel name)
    {program : Program} {diagnostic : Diagnostic} :
    machine.encode labels config program = .error diagnostic ↔
      Rule.Reports (EncodingFault machine isLabel config.strictSizes) program diagnostic :=
  (walkEnds_encodeFrom hlabels rfl 0 program).eq_error_iff (EncodingFault.unambiguous hlabels)

/-! ## Sizes of images -/

variable {machine : Machine} {labels : LabelTable} {config : Config} {index offset : Nat}
  {program first second : Program} {image : Image}

theorem Encodes.exists_length_eq {strict : Bool} {mnemonic : String} {operands : List Operand}
    {bytes : List UInt8} (h : machine.Encodes labels strict mnemonic operands bytes) :
    ∃ entry, machine.instructions.get? mnemonic = some entry ∧
      bytes.length = entry.mode.encodedSize := by
  cases h with
  | @intro entry body hentry hbody _ =>
    refine ⟨entry, hentry, ?_⟩
    rw [List.length_cons, hbody.length_eq, Mode.encodedSize, Nat.add_comm]

/-- The number of an instruction's bytes is fixed by its mnemonic. -/
theorem Encodes.length_eq {otherLabels : LabelTable} {strict otherStrict : Bool} {mnemonic : String}
    {operands others : List Operand} {bytes otherBytes : List UInt8}
    (h : machine.Encodes labels strict mnemonic operands bytes)
    (hother : machine.Encodes otherLabels otherStrict mnemonic others otherBytes) :
    otherBytes.length = bytes.length := by
  obtain ⟨entry, hentry, hlength⟩ := h.exists_length_eq
  obtain ⟨otherEntry, hotherEntry, hotherLength⟩ := hother.exists_length_eq
  have hsame : entry = otherEntry := Option.some.inj (hentry.symm.trans hotherEntry)
  rw [hlength, hotherLength, hsame]

theorem Lays.length_bytes (h : machine.Lays labels config index offset program image) :
    image.bytes.length = Program.encodedSize machine.instructions program := by
  induction h with
  | nil => rfl
  | label _ ih => exact ih
  | instruction hbytes _ ih =>
    obtain ⟨entry, hentry, hlength⟩ := hbytes.exists_length_eq
    rw [Image.append, List.length_append, hlength, ih, Program.encodedSize_instruction hentry]

theorem Lays.totalLength_spans (h : machine.Lays labels config index offset program image) :
    Span.totalLength image.spans = image.bytes.length := by
  induction h with
  | nil => rfl
  | label _ ih => exact ih
  | instruction _ _ ih =>
    rw [Image.append, Span.totalLength_append, List.length_append, ih]
    rfl

/-- With strict sizes the two passes count the same bytes: every instruction that is encoded has
passed the comparison of its sizes. -/
theorem Lays.declaredSize_eq (h : machine.Lays labels config index offset program image)
    (hstrict : config.strictSizes = true) :
    Program.declaredSize machine.instructions program =
      Program.encodedSize machine.instructions program := by
  induction h with
  | nil => rfl
  | label _ ih => exact ih
  | instruction hbytes _ ih =>
    cases hbytes with
    | intro hentry _ hsize =>
      rw [Program.declaredSize_instruction hentry, Program.encodedSize_instruction hentry,
        hsize hstrict, ih]

/-! ## Images of parts of a program -/

theorem Lays.split (h : machine.Lays labels config index offset (first ++ second) image) :
    ∃ before after, image = before.append after ∧
      machine.Lays labels config index offset first before ∧
      machine.Lays labels config (index + first.length) (offset + before.bytes.length) second
        after := by
  induction first generalizing index offset image with
  | nil => exact ⟨⟨[], []⟩, image, rfl, .nil, h⟩
  | cons statement rest ih =>
    cases h with
    | label hrest =>
      obtain ⟨before, after, himage, hbefore, hafter⟩ := ih hrest
      refine ⟨before, after, himage, .label hbefore, ?_⟩
      rw [List.length_cons, Nat.add_comm rest.length 1, ← Nat.add_assoc]
      exact hafter
    | @instruction _ _ _ _ _ bytes rest' hbytes hrest =>
      obtain ⟨before, after, himage, hbefore, hafter⟩ := ih hrest
      refine ⟨_, after, ?_, .instruction hbytes hbefore, ?_⟩
      · rw [himage]
        simp only [Image.append, List.append_assoc]
      · rw [List.length_cons, Nat.add_comm rest.length 1, ← Nat.add_assoc, Image.append,
          List.length_append, ← Nat.add_assoc]
        exact hafter

/-- The bytes of an instruction stand behind those of the statements before it. -/
theorem Lays.split_instruction {position : Nat} {mnemonic : String} {operands : List Operand}
    (h : machine.Lays labels config index offset program image)
    (hstatement : program[position]? = some (.instruction mnemonic operands)) :
    ∃ before bytes after, image.bytes = before ++ bytes ++ after ∧
      before.length = Program.encodedSize machine.instructions (program.take position) ∧
      machine.Encodes labels config.strictSizes mnemonic operands bytes := by
  rw [Program.eq_take_append_drop hstatement] at h
  obtain ⟨before, after, himage, hbefore, hafter⟩ := h.split
  cases hafter with
  | @instruction _ _ _ _ _ bytes rest hbytes _ =>
    refine ⟨before.bytes, bytes, rest.bytes, ?_, hbefore.length_bytes, hbytes⟩
    rw [himage, Image.append, Image.append, List.append_assoc]

/-- Where the bytes of a slot start in the image of a program. -/
def slotOffset (machine : Machine) (program : Program) (index : Nat) (mode : Mode)
    (position : Nat) : Nat :=
  Program.encodedSize machine.instructions (program.take index) + 1 +
    Slot.totalWidth (mode.slots.take position)

theorem Lays.split_slot {statement position : Nat} {mnemonic : String} {operands : List Operand}
    {entry : Entry} {slot : Slot} {operand : Operand}
    (h : machine.Lays labels config index offset program image)
    (hstatement : program[statement]? = some (.instruction mnemonic operands))
    (hentry : machine.instructions.get? mnemonic = some entry)
    (hslot : entry.mode.slots[position]? = some slot)
    (hoperand : operands[position]? = some operand) :
    ∃ before content after, image.bytes = before ++ content ++ after ∧
      before.length = machine.slotOffset program statement entry.mode position ∧
      slot.Holds machine.registers labels operand content := by
  obtain ⟨before, bytes, after, himage, hbefore, hbytes⟩ := h.split_instruction hstatement
  cases hbytes with
  | @intro other body hother hbody _ =>
    rw [hentry, Option.some.injEq] at hother
    subst hother
    obtain ⟨left, content, right, hcontent, hleft, hholds⟩ := hbody.split hslot hoperand
    refine ⟨before ++ entry.opcode :: left, content, right ++ after, ?_, ?_, hholds⟩
    · rw [himage, hcontent]
      simp only [List.append_assoc, List.cons_append]
    · rw [List.length_append, List.length_cons, hbefore, hleft, slotOffset]
      omega

/-! ## Spans -/

theorem Lays.index_of_mem (h : machine.Lays labels config index offset program image)
    {span : Span} (hspan : span ∈ image.spans) :
    index ≤ span.index ∧ span.index < index + program.length := by
  induction h with
  | nil => cases hspan
  | label _ ih =>
    have hrest := ih hspan
    rw [List.length_cons]
    omega
  | instruction _ _ ih =>
    rw [List.length_cons]
    rcases List.mem_cons.mp hspan with hhead | hmem
    · subst hhead
      exact ⟨Nat.le_refl _, Nat.lt_add_of_pos_right (Nat.succ_pos _)⟩
    · have hrest := ih hmem
      omega

/-- The first span starts where the image does. -/
theorem Lays.address_head? (h : machine.Lays labels config index offset program image) :
    match image.spans.head? with
    | some span => span.address = config.origin.toUInt32 + UInt32.ofNat offset
    | none => image.bytes = [] := by
  induction h with
  | nil => rfl
  | label _ ih => exact ih
  | instruction _ _ _ => rfl

/-! ## Both passes -/

theorem assemble_eq_ok_iff {assembly : Assembly} :
    machine.assemble config program = .ok assembly ↔
      assembly.origin = config.origin ∧
      machine.instructions.resolve config.origin program = .ok assembly.labels ∧
      machine.Lays assembly.labels config 0 0 program ⟨assembly.bytes, assembly.spans⟩ := by
  rw [assemble_eq, ← encode_eq_ok_iff]
  obtain ⟨origin, bytes, labels, spans⟩ := assembly
  cases hlabels : machine.instructions.resolve config.origin program with
  | error diagnostic => simp [Except.bind]
  | ok found =>
    simp only [Except.bind, Except.ok.injEq]
    refine ⟨?_, ?_⟩
    · intro h
      cases himage : machine.encode found config program with
      | error diagnostic =>
        rw [himage] at h
        cases h
      | ok image =>
        rw [himage] at h
        cases h
        exact ⟨rfl, rfl, himage⟩
    · intro ⟨horigin, hfound, himage⟩
      rw [hfound, himage, horigin]

/-- A machine with three instructions, one of which declares a wrong size. -/
def small : Machine :=
  ⟨.ofList [("jump", ⟨0x20, .singleWord, 3, none⟩), ("low", ⟨0x21, .registerByte, 3, none⟩),
    ("pad", ⟨0x22, .bare, 9, none⟩)], .builtin⟩

end Machine

end TwoPass
