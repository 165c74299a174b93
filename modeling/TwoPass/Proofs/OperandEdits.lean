import TwoPass.Proofs.Addresses
import TwoPass.Proofs.Bytes
import TwoPass.Proofs.Rejection

/-!
# Editing operands

Two programs that differ in operands alone have their labels and instructions at the same places,
because the width of a slot is that of its mode, whatever the operand is.  An edit of operands
therefore changes the bytes of the edited operands and nothing else.  If it goes wrong, the first
edited instruction that has become wrong is reported, for one of its operands or for their number.
-/

namespace TwoPass

/-! ## Programs of the same shape -/

namespace Program.SameShape

variable {program edited : Program}

theorem take (h : program.SameShape edited) (index : Nat) :
    Program.SameShape (program.take index) (edited.take index) :=
  List.forall₂_take index h

theorem labelNames_eq (h : program.SameShape edited) : edited.labelNames = program.labelNames := by
  induction h with
  | nil => rfl
  | @cons _ _ rest others hfirst _ ih =>
    cases hfirst with
    | label name => exact congrArg (List.cons name) ih
    | instruction mnemonic operands others => exact ih

theorem label_mem_iff (h : program.SameShape edited) {name : String} :
    Statement.label name ∈ edited ↔ Statement.label name ∈ program := by
  rw [← mem_labelNames, h.labelNames_eq, mem_labelNames]

/-- Sizes come from the table, so operands have no part in them. -/
theorem extent_eq (h : program.SameShape edited) (size : Entry → Nat) (table : InstructionTable) :
    extent size table edited = extent size table program := by
  induction h with
  | nil => rfl
  | cons hfirst _ ih =>
    cases hfirst with
    | label name => exact ih
    | instruction mnemonic operands others => rw [extent, extent, ih]

theorem exists_instruction (h : program.SameShape edited) {index : Nat} {mnemonic : String}
    {operands : List Operand} (hstatement : program[index]? = some (.instruction mnemonic operands)) :
    ∃ others, edited[index]? = some (.instruction mnemonic others) := by
  induction h generalizing index with
  | nil => simp at hstatement
  | @cons first other _ _ hfirst _ ih =>
    cases index with
    | succ index => exact ih hstatement
    | zero =>
      rw [List.getElem?_cons_zero, Option.some.injEq] at hstatement
      subst hstatement
      cases hfirst with
      | instruction _ _ others => exact ⟨others, rfl⟩

theorem symm (h : program.SameShape edited) : edited.SameShape program := by
  apply List.Forall₂.flip
  apply h.imp
  intro statement other hshape
  cases hshape with
  | label name => exact .label name
  | instruction mnemonic operands others => exact .instruction mnemonic others operands

end Program.SameShape

namespace Machine

/-- A byte of a program's image belongs to the slot of an operand that another program has replaced
by a different one. -/
def InEdit (machine : Machine) (program edited : Program) (place : Nat) : Prop :=
  ∃ index position mode slot operand replaced,
    machine.Fills program index position mode slot operand ∧
    machine.Fills edited index position mode slot replaced ∧ operand ≠ replaced ∧
    machine.slotOffset program index mode position ≤ place ∧
    place < machine.slotOffset program index mode position + slot.width

end Machine

/-- Two assemblies of programs that differ in operands: only the bytes of those operands may
differ. -/
structure Assembly.Edited (machine : Machine) (program edited : Program)
    (assembly other : Assembly) : Prop where
  origin_eq : other.origin = assembly.origin
  labels_eq : other.labels = assembly.labels
  spans_eq : other.spans = assembly.spans
  length_eq : other.bytes.length = assembly.bytes.length
  byte : ∀ place, ¬ machine.InEdit program edited place →
    other.bytes[place]? = assembly.bytes[place]?

/-! ## Images of programs of the same shape -/

namespace Machine

variable {machine : Machine} {labels : LabelTable} {config : Config} {index offset place : Nat}
  {program edited : Program} {image editedImage : Image}

theorem slotOffset_of_sameShape (hshape : program.SameShape edited) (statement : Nat) (mode : Mode)
    (position : Nat) :
    machine.slotOffset edited statement mode position =
      machine.slotOffset program statement mode position := by
  unfold slotOffset Program.encodedSize
  rw [(hshape.take statement).extent_eq]

theorem Lays.spans_of_sameShape (hshape : program.SameShape edited)
    (h : machine.Lays labels config index offset program image)
    (hedited : machine.Lays labels config index offset edited editedImage) :
    editedImage.spans = image.spans := by
  induction h generalizing edited editedImage with
  | nil =>
    cases hshape
    cases hedited
    rfl
  | label _ ih =>
    cases hshape with
    | cons hfirst hrest =>
      cases hfirst
      cases hedited with
      | label hlater => exact ih hrest hlater
  | instruction hbytes _ ih =>
    cases hshape with
    | cons hfirst hrest =>
      cases hfirst
      cases hedited with
      | instruction hotherBytes hlater =>
        have hlength := hbytes.length_eq hotherBytes
        rw [hlength] at hlater
        have hspans := ih hrest hlater
        simp only [Image.append, hlength, hspans]

theorem Lays.length_of_sameShape (hshape : program.SameShape edited)
    (h : machine.Lays labels config index offset program image)
    (hedited : machine.Lays labels config index offset edited editedImage) :
    editedImage.bytes.length = image.bytes.length := by
  calc
    editedImage.bytes.length = Program.encodedSize machine.instructions edited :=
      hedited.length_bytes
    _ = Program.encodedSize machine.instructions program := hshape.extent_eq _ _
    _ = image.bytes.length := h.length_bytes.symm

/-- An operand of an instruction that has been encoded stands in a slot, and so does the one that
takes its place. -/
theorem Lays.exists_fills_of_sameShape (hshape : program.SameShape edited)
    (h : machine.Lays labels config index offset edited editedImage) {statement position : Nat}
    {mode : Mode} {slot : Slot} {operand : Operand}
    (hfills : machine.Fills program statement position mode slot operand) :
    ∃ replaced, machine.Fills edited statement position mode slot replaced := by
  cases hfills with
  | @intro mnemonic operands entry _ _ hstatement hentry hslot _ =>
    obtain ⟨others, hothers⟩ := hshape.exists_instruction hstatement
    obtain ⟨-, bytes, -, -, -, hbytes⟩ := h.split_instruction hothers
    cases hbytes with
    | intro hfound hholds _ =>
      rw [hentry, Option.some.injEq] at hfound
      subst hfound
      have hposition : position < others.length := by
        rw [hholds.length_operands]
        exact (List.getElem?_eq_some_iff.mp hslot).1
      exact ⟨others[position], .intro hothers hentry hslot (List.getElem?_eq_getElem hposition)⟩

theorem IsOpcode.of_sameShape (hshape : program.SameShape edited) {entry : Entry}
    (h : machine.IsOpcode program place entry) : machine.IsOpcode edited place entry := by
  obtain ⟨statement, mnemonic, operands, hstatement, hentry, hplace⟩ := h
  obtain ⟨others, hothers⟩ := hshape.exists_instruction hstatement
  refine ⟨statement, mnemonic, others, hothers, hentry, hplace.trans ?_⟩
  exact ((hshape.take statement).extent_eq _ _).symm

/-- Outside of the edited slots every byte stays: an opcode belongs to its mnemonic, and an operand
that is kept has the bytes that it had. -/
theorem Lays.getElem?_of_sameShape (hshape : program.SameShape edited)
    (h : machine.Lays labels config index offset program image)
    (hedited : machine.Lays labels config index offset edited editedImage)
    (hplace : ¬ machine.InEdit program edited place) :
    editedImage.bytes[place]? = image.bytes[place]? := by
  by_cases hinside : place < image.bytes.length
  · rcases h.isOpcode_or_inSlot hinside with ⟨entry, hopcode⟩ | ⟨operand, hslot⟩
    · rw [h.getElem?_of_isOpcode hopcode,
        hedited.getElem?_of_isOpcode (hopcode.of_sameShape hshape)]
    · obtain ⟨statement, position, mode, slot, hfills, hstart, hend⟩ := hslot
      obtain ⟨replaced, hreplaced⟩ := hedited.exists_fills_of_sameShape hshape hfills
      have hkept : operand = replaced := by
        by_contra hne
        exact hplace ⟨statement, position, mode, slot, operand, replaced, hfills, hreplaced, hne,
          hstart, hend⟩
      rw [← hkept] at hreplaced
      exact h.getElem?_slot_eq hedited hfills hreplaced
        (slotOffset_of_sameShape hshape statement mode position) (fun _ _ ↦ rfl) hstart hend
  · have houtside : image.bytes.length ≤ place := Nat.le_of_not_lt hinside
    have heditedOutside : editedImage.bytes.length ≤ place := by
      rw [h.length_of_sameShape hshape hedited]
      exact houtside
    rw [List.getElem?_eq_none houtside, List.getElem?_eq_none heditedOutside]

end Machine

/-! ## Faults of edited instructions -/

/-- A rule that is applied only where a statement differs from the one that another program has at
the same place. -/
def Rule.onEdited (rule : Rule) (program : Program) : Rule := fun earlier statement cause ↦
  program[earlier.length]? ≠ some statement ∧ rule earlier statement cause

theorem Rule.brokenAt_onEdited_iff {rule : Rule} {program edited : Program} {index : Nat}
    {cause : Cause} :
    (rule.onEdited program).BrokenAt edited index cause ↔
      program[index]? ≠ edited[index]? ∧ rule.BrokenAt edited index cause := by
  unfold BrokenAt onEdited
  cases hstatement : edited[index]? with
  | none => simp
  | some statement =>
    have hlength : (edited.take index).length = index :=
      List.length_take_of_le (Nat.le_of_lt (List.getElem?_eq_some_iff.mp hstatement).1)
    simp [hlength]

/-- A cause that is about the operands of an instruction with the given mnemonic. -/
inductive Cause.BlamesOperands (mnemonic : String) : Cause → Prop
  | malformedInstruction : BlamesOperands mnemonic (.malformedInstruction mnemonic)
  | unresolvedLabel (name : String) : BlamesOperands mnemonic (.unresolvedLabel name)
  | unknownRegister (name : String) : BlamesOperands mnemonic (.unknownRegister name)
  | invalidLiteral (digits : String) : BlamesOperands mnemonic (.invalidLiteral digits)

theorem OperandFault.blamesOperands {registers : RegisterFile} {isLabel : String → Prop}
    {mnemonic : String} {slot : Slot} {operand : Operand} {cause : Cause}
    (h : OperandFault registers isLabel mnemonic slot operand cause) :
    cause.BlamesOperands mnemonic := by
  cases h with
  | notARegister _ => exact .malformedInstruction
  | unknownRegister _ => exact .unknownRegister _
  | notAValue _ => exact .malformedInstruction
  | unresolvedLabel _ _ => exact .unresolvedLabel _
  | invalidLiteral _ _ => exact .invalidLiteral _

/-- The second pass does not look back. -/
theorem EncodingFault.of_earlier {machine : Machine} {isLabel : String → Prop} {strict : Bool}
    {earlier : Program} {statement : Statement} {cause : Cause}
    (h : EncodingFault machine isLabel strict earlier statement cause) (other : Program) :
    EncodingFault machine isLabel strict other statement cause := by
  cases h with
  | unknownMnemonic hunknown => exact .unknownMnemonic hunknown
  | arity hentry harity => exact .arity hentry harity
  | operand hentry harity hleftmost => exact .operand hentry harity hleftmost
  | size hentry harity hoperands hstrict hsize =>
    exact .size hentry harity hoperands hstrict hsize

/-- Where an instruction has been encoded, another one with its mnemonic can be rejected for its
operands only. -/
theorem EncodingFault.blamesOperands {machine : Machine} {labels : LabelTable}
    {isLabel : String → Prop} {strict : Bool} {earlier : Program} {mnemonic : String}
    {operands others : List Operand} {bytes : List UInt8} {cause : Cause}
    (h : EncodingFault machine isLabel strict earlier (.instruction mnemonic others) cause)
    (hencodes : machine.Encodes labels strict mnemonic operands bytes) :
    cause.BlamesOperands mnemonic := by
  cases hencodes with
  | intro hentry _ hsize =>
    cases h with
    | unknownMnemonic hunknown =>
      rw [hentry] at hunknown
      cases hunknown
    | arity _ _ => exact .malformedInstruction
    | operand _ _ hleftmost =>
      obtain ⟨position, ⟨slot, operand, -, -, hfault⟩, -⟩ := hleftmost
      exact hfault.blamesOperands
    | size hfound _ _ hstrict hwrong =>
      rw [hentry, Option.some.injEq] at hfound
      subst hfound
      exact absurd (hsize hstrict) hwrong

namespace Machine

variable {machine : Machine} {config : Config} {program edited : Program}
  {assembly other : Assembly} {diagnostic : Diagnostic}

theorem resolve_of_sameShape (hshape : program.SameShape edited) :
    machine.instructions.resolve config.origin edited =
      machine.instructions.resolve config.origin program := by
  unfold InstructionTable.resolve
  rw [InstructionTable.resolveLogged_of_sameShape hshape]

theorem encodingRule_of_sameShape (hshape : program.SameShape edited) :
    machine.encodingRule config edited = machine.encodingRule config program := by
  unfold encodingRule
  congr 1
  funext name
  exact propext hshape.label_mem_iff

/-- After an edit of a program that has been assembled, the second pass can only object to what has
been edited. -/
theorem assemble_edited_eq_error_iff (hshape : program.SameShape edited)
    (h : machine.assemble config program = .ok assembly) :
    machine.assemble config edited = .error diagnostic ↔
      ((machine.encodingRule config edited).onEdited program).Reports edited diagnostic := by
  obtain ⟨-, hresolve, -⟩ := assemble_eq_ok_iff.mp h
  have hlabels := (resolve_of_sameShape hshape).trans hresolve
  rw [assemble_eq_error_iff_of_resolve hlabels]
  apply Rule.reports_congr
  intro index cause
  rw [Rule.brokenAt_onEdited_iff]
  refine ⟨?_, And.right⟩
  intro hbroken
  refine ⟨?_, hbroken⟩
  -- an instruction that has been kept would have been rejected before the edit
  intro hkept
  obtain ⟨statement, hstatement, hfault⟩ := hbroken
  rw [encodingRule_of_sameShape hshape] at hfault
  exact not_brokenAt_encodingRule_of_assemble h index cause
    ⟨statement, hkept.trans hstatement, hfault.of_earlier _⟩

/-- The statement that is reported after an edit is an instruction with other operands than before,
and its operands are the cause. -/
theorem exists_edited_of_assemble (hshape : program.SameShape edited)
    (h : machine.assemble config program = .ok assembly)
    (hedited : machine.assemble config edited = .error diagnostic) :
    ∃ mnemonic operands others,
      program[diagnostic.location.index]? = some (.instruction mnemonic operands) ∧
      edited[diagnostic.location.index]? = some (.instruction mnemonic others) ∧
      operands ≠ others ∧ diagnostic.cause.BlamesOperands mnemonic := by
  obtain ⟨-, -, hlays⟩ := assemble_eq_ok_iff.mp h
  have hreports := (assemble_edited_eq_error_iff hshape h).mp hedited
  obtain ⟨hdiffers, statement, hstatement, hfault⟩ :=
    Rule.brokenAt_onEdited_iff.mp hreports.broken
  cases statement with
  | label name => cases hfault
  | instruction mnemonic others =>
    obtain ⟨operands, hoperands⟩ := hshape.symm.exists_instruction hstatement
    obtain ⟨-, bytes, -, -, -, hbytes⟩ := hlays.split_instruction hoperands
    refine ⟨mnemonic, operands, others, hoperands, hstatement, ?_, hfault.blamesOperands hbytes⟩
    intro hsame
    rw [hoperands, hstatement, hsame] at hdiffers
    exact hdiffers rfl

theorem edited_of_assemble (hshape : program.SameShape edited)
    (h : machine.assemble config program = .ok assembly)
    (hedited : machine.assemble config edited = .ok other) :
    assembly.Edited machine program edited other := by
  obtain ⟨horigin, hresolve, hlays⟩ := assemble_eq_ok_iff.mp h
  obtain ⟨hotherOrigin, hotherResolve, hotherLays⟩ := assemble_eq_ok_iff.mp hedited
  rw [resolve_of_sameShape hshape, hresolve, Except.ok.injEq] at hotherResolve
  rw [← hotherResolve] at hotherLays
  constructor
  · exact hotherOrigin.trans horigin.symm
  · exact hotherResolve.symm
  · exact hlays.spans_of_sameShape hshape hotherLays
  · exact hlays.length_of_sameShape hshape hotherLays
  · intro place hplace
    exact hlays.getElem?_of_sameShape hshape hotherLays hplace

/-- An edit of operands is local.  It changes the bytes of the edited operands at most, and if it is
rejected then for the first edited instruction that is wrong. -/
theorem operand_edits_are_local (hshape : program.SameShape edited)
    (h : machine.assemble config program = .ok assembly) :
    (∀ other, machine.assemble config edited = .ok other →
      assembly.Edited machine program edited other) ∧
    (∀ diagnostic, machine.assemble config edited = .error diagnostic ↔
      ((machine.encodingRule config edited).onEdited program).Reports edited diagnostic) ∧
    ∀ diagnostic, machine.assemble config edited = .error diagnostic →
      ∃ mnemonic operands others,
        program[diagnostic.location.index]? = some (.instruction mnemonic operands) ∧
        edited[diagnostic.location.index]? = some (.instruction mnemonic others) ∧
        operands ≠ others ∧ diagnostic.cause.BlamesOperands mnemonic := by
  refine ⟨?_, ?_, ?_⟩
  · intro other hedited
    exact edited_of_assemble hshape h hedited
  · intro diagnostic
    exact assemble_edited_eq_error_iff hshape h
  · intro diagnostic hedited
    exact exists_edited_of_assemble hshape h hedited

/-- A program with three instructions, each with operands to edit. -/
def draft : Program :=
  [.label "top", .instruction "jump" [.symbol "end"],
    .instruction "low" [.register "acc", .literal "12"], .label "end",
    .instruction "jump" [.literal "ABCD"]]

/-- The draft with two other values. -/
def revised : Program :=
  [.label "top", .instruction "jump" [.literal "10001"],
    .instruction "low" [.register "acc", .symbol "end"], .label "end",
    .instruction "jump" [.literal "ABCD"]]

/-- The draft with a good edit in front of two bad ones. -/
def spoiled : Program :=
  [.label "top", .instruction "jump" [.literal "10001"], .instruction "low" [.register "acc"],
    .label "end", .instruction "jump" [.symbol "missing"]]

theorem operand_edits_are_local_draft :
    ∃ assembly, small.assemble ⟨0x80, true⟩ draft = .ok assembly ∧
      assembly.bytes = [0x20, 0x00, 0x86, 0x21, 0x01, 0x12, 0x20, 0xAB, 0xCD] ∧
      (∃ other, small.assemble ⟨0x80, true⟩ revised = .ok other ∧
        other.bytes = [0x20, 0x00, 0x01, 0x21, 0x01, 0x86, 0x20, 0xAB, 0xCD] ∧
        assembly.Edited small draft revised other) ∧
      small.assemble ⟨0x80, true⟩ spoiled =
        .error ⟨⟨2, some "top"⟩, .malformedInstruction "low"⟩ ∧
      ((small.encodingRule ⟨0x80, true⟩ spoiled).onEdited draft).Reports spoiled
        ⟨⟨2, some "top"⟩, .malformedInstruction "low"⟩ := by
  have hdraft : small.assemble ⟨0x80, true⟩ draft =
      .ok ⟨0x80, [0x20, 0x00, 0x86, 0x21, 0x01, 0x12, 0x20, 0xAB, 0xCD],
        ⟨[⟨"top", 0x80⟩, ⟨"end", 0x86⟩]⟩, [⟨1, 0x80, 3⟩, ⟨2, 0x83, 3⟩, ⟨4, 0x86, 3⟩]⟩ := by
    rfl
  have hrevised : small.assemble ⟨0x80, true⟩ revised =
      .ok ⟨0x80, [0x20, 0x00, 0x01, 0x21, 0x01, 0x86, 0x20, 0xAB, 0xCD],
        ⟨[⟨"top", 0x80⟩, ⟨"end", 0x86⟩]⟩, [⟨1, 0x80, 3⟩, ⟨2, 0x83, 3⟩, ⟨4, 0x86, 3⟩]⟩ := by
    rfl
  have hspoiled : small.assemble ⟨0x80, true⟩ spoiled =
      .error ⟨⟨2, some "top"⟩, .malformedInstruction "low"⟩ := by
    rfl
  have hrevisedShape : draft.SameShape revised := by
    repeat constructor
  have hspoiledShape : draft.SameShape spoiled := by
    repeat constructor
  have hedit := (operand_edits_are_local hrevisedShape hdraft).1 _ hrevised
  have hreports := ((operand_edits_are_local hspoiledShape hdraft).2.1 _).mp hspoiled
  exact ⟨_, hdraft, rfl, ⟨_, hrevised, rfl, hedit⟩, hspoiled, hreports⟩

end Machine

end TwoPass
