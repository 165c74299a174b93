import TwoPass.Proofs.Image

/-!
# The layout of an image

The spans of an image follow the instructions of its program and cover its bytes without gaps.
Each of them holds an opcode and the contents of the slots behind it.  All of this is independent of
how the label table came about, and of whether the declared sizes are right.
-/

namespace TwoPass

/-- The indices of the instructions of a program whose first statement has the given index. -/
def Program.instructionIndices (start : Nat) (program : Program) : List Nat :=
  ((program.zipIdx start).filter fun (statement, _) ↦ statement.isInstruction).map Prod.snd

namespace Image

/-- The bytes of a span in an image that starts at the given address. -/
def slice (image : Image) (origin : UInt16) (span : Span) : List UInt8 :=
  (image.bytes.drop (span.address.toNat - origin.toNat)).take span.length

/-- What a span says about its instruction and the bytes of it. -/
structure Shows (machine : Machine) (labels : LabelTable) (origin : UInt16) (program : Program)
    (image : Image) (span : Span) (mnemonic : String) (operands : List Operand) (entry : Entry) :
    Prop where
  statement : program[span.index]? = some (.instruction mnemonic operands)
  entry_eq : machine.instructions.get? mnemonic = some entry
  length_eq : span.length = entry.mode.encodedSize
  content : ∃ body, image.slice origin span = entry.opcode :: body ∧
    Slot.HoldAll machine.registers labels entry.mode.slots operands body

/-- The spans are those of the program's instructions, and they cover the image from its start to
its end. -/
structure LaidOut (machine : Machine) (labels : LabelTable) (origin : UInt16) (program : Program)
    (image : Image) : Prop where
  indices : image.spans.map Span.index = program.instructionIndices 0
  address : ∀ {position : Nat} {span : Span}, image.spans[position]? = some span →
    span.address.toNat = origin.toNat + Span.totalLength (image.spans.take position)
  totalLength : Span.totalLength image.spans = image.bytes.length
  shows : ∀ {span : Span}, span ∈ image.spans → ∃ mnemonic operands entry,
    image.Shows machine labels origin program span mnemonic operands entry

theorem slice_append {origin : UInt16} {span : Span} {image : Image}
    {before bytes after : List UInt8} (himage : image.bytes = before ++ bytes ++ after)
    (haddress : span.address.toNat = origin.toNat + before.length)
    (hlength : span.length = bytes.length) : image.slice origin span = bytes := by
  rw [slice, himage, haddress, hlength, Nat.add_sub_cancel_left, List.append_assoc,
    List.drop_left, List.take_left]

end Image

namespace Machine

variable {machine : Machine} {labels : LabelTable} {config : Config} {index offset : Nat}
  {program : Program} {image : Image}

theorem Lays.map_index (h : machine.Lays labels config index offset program image) :
    image.spans.map Span.index = program.instructionIndices index := by
  induction h with
  | nil => rfl
  | label _ ih => exact ih
  | @instruction index _ _ _ rest _ image _ _ ih =>
    change index :: image.spans.map Span.index =
      index :: Program.instructionIndices (index + 1) rest
    rw [ih]

/-- The bytes of a span stand behind those of the spans before it. -/
theorem Lays.split_span (h : machine.Lays labels config index offset program image)
    {position : Nat} {span : Span} (hspan : image.spans[position]? = some span) :
    ∃ statement mnemonic operands before bytes after,
      program[statement]? = some (.instruction mnemonic operands) ∧
      machine.Encodes labels config.strictSizes mnemonic operands bytes ∧
      image.bytes = before ++ bytes ++ after ∧
      before.length = Span.totalLength (image.spans.take position) ∧
      span = ⟨index + statement, config.origin.toUInt32 + UInt32.ofNat (offset + before.length),
        bytes.length⟩ := by
  induction h generalizing position with
  | nil => simp at hspan
  | label _ ih =>
    obtain ⟨statement, mnemonic, operands, before, bytes, after, hstatement, hbytes, himage,
      hbefore, hspan⟩ := ih hspan
    rw [Nat.add_assoc, Nat.add_comm 1] at hspan
    exact ⟨statement + 1, mnemonic, operands, before, bytes, after, hstatement, hbytes, himage,
      hbefore, hspan⟩
  | @instruction index offset mnemonic operands rest bytes image hbytes _ ih =>
    cases position with
    | zero =>
      have hfirst : _ = span := Option.some.inj hspan
      exact ⟨0, mnemonic, operands, [], bytes, image.bytes, rfl, hbytes, rfl, rfl, hfirst.symm⟩
    | succ position =>
      obtain ⟨statement, name, others, before, content, after, hstatement, hcontent, himage,
        hbefore, hspan⟩ := ih hspan
      rw [Nat.add_assoc, Nat.add_comm 1, Nat.add_assoc, ← List.length_append] at hspan
      refine ⟨statement + 1, name, others, bytes ++ before, content, after, hstatement, hcontent,
        ?_, ?_, hspan⟩
      · rw [Image.append, himage, List.append_assoc, List.append_assoc, List.append_assoc]
      · rw [List.length_append, hbefore]
        rfl

/-- An image of the second pass is laid out, over whatever label table.  It has to be so short that
the addresses of its spans do not wrap around. -/
theorem laidOut_of_encode (h : machine.encode labels config program = .ok image)
    (hshort : image.bytes.length < 0xFFFF0000) :
    image.LaidOut machine labels config.origin program := by
  have hlays : machine.Lays labels config 0 0 program image := encode_eq_ok_iff.mp h
  have haddress {before bytes after : List UInt8}
      (himage : image.bytes = before ++ bytes ++ after) :
      (config.origin.toUInt32 + UInt32.ofNat (0 + before.length)).toNat =
        config.origin.toNat + before.length := by
    have horigin := config.origin.toNat_lt
    rw [himage, List.length_append, List.length_append] at hshort
    rw [Nat.zero_add, Span.toNat_address (by omega)]
  refine ⟨hlays.map_index, ?_, hlays.totalLength_spans, ?_⟩
  · intro position span hspan
    obtain ⟨_, _, _, before, _, _, -, -, himage, hbefore, hspan⟩ := hlays.split_span hspan
    rw [hspan, ← hbefore]
    exact haddress himage
  · intro span hmem
    obtain ⟨position, hspan⟩ := List.getElem?_of_mem hmem
    obtain ⟨statement, mnemonic, operands, before, bytes, after, hstatement, hbytes, himage,
      hbefore, hspan⟩ := hlays.split_span hspan
    have hslice : image.slice config.origin span = bytes := by
      apply Image.slice_append himage
      · rw [hspan]
        exact haddress himage
      · rw [hspan]
    rw [Nat.zero_add] at hspan
    cases hbytes with
    | @intro entry body hentry hbody _ =>
      refine ⟨mnemonic, operands, entry, ?_, hentry, ?_, body, hslice, hbody⟩
      · rw [hspan]
        exact hstatement
      · rw [hspan, Mode.encodedSize, ← hbody.length_eq]
        exact Nat.add_comm body.length 1

/-- A program with a wrong declared size that refers to a label of another program. -/
def detached : Program :=
  [.instruction "pad" [], .label "here", .instruction "jump" [.symbol "far"],
    .instruction "low" [.register "sp", .literal "fFe"]]

theorem laidOut_of_encode_detached :
    ∃ image, small.encode ⟨[⟨"far", 0x1234⟩]⟩ ⟨0x10, false⟩ detached = .ok image ∧
      image.bytes = [0x22, 0x20, 0x12, 0x34, 0x21, 0x0A, 0xFE] ∧
      image.LaidOut small ⟨[⟨"far", 0x1234⟩]⟩ 0x10 detached := by
  have hencode : small.encode ⟨[⟨"far", 0x1234⟩]⟩ ⟨0x10, false⟩ detached =
      .ok ⟨[0x22, 0x20, 0x12, 0x34, 0x21, 0x0A, 0xFE],
        [⟨0, 0x10, 1⟩, ⟨2, 0x11, 3⟩, ⟨3, 0x14, 3⟩]⟩ := by
    rfl
  exact ⟨_, hencode, rfl, laidOut_of_encode hencode (by decide)⟩

end Machine

end TwoPass
