import TwoPass.Listing
import TwoPass.Proofs.Decoding
import TwoPass.Proofs.HexBytes
import TwoPass.Proofs.Layout
import TwoPass.Proofs.Linking

/-!
# Listings of assembled programs

A listing walks through a program and takes the spans of an assembly as it goes.  If the program has
been assembled to it, no span is out of place: every statement has its line, and the bytes that the
lines show are those of the image from its start to its end.
-/

namespace TwoPass

/-- A text that does not end with a blank is not shortened. -/
theorem Text.trimEnd_append {front rest : List Char} {last : Char} (h : isBlank last = false) :
    trimEnd (front ++ [last] ++ rest) = front ++ [last] ++ trimEnd rest := by
  unfold trimEnd
  rw [List.reverse_append, List.dropWhile_append]
  by_cases hblank : (rest.reverse.dropWhile isBlank).isEmpty
  · rw [if_pos hblank, List.isEmpty_iff.mp hblank]
    simp [h]
  · rw [if_neg hblank]
    simp

namespace Assembly

/-- The bytes of a span. -/
def slice (assembly : Assembly) (span : Span) : List UInt8 :=
  Image.slice ⟨assembly.bytes, assembly.spans⟩ assembly.origin span

/-- Some bytes stand in an assembly behind the given number of bytes, and all addresses are so small
that they do not wrap around. -/
structure Contains (assembly : Assembly) (offset : Nat) (bytes : List UInt8) : Prop where
  split : ∃ before after, assembly.bytes = before ++ bytes ++ after ∧ before.length = offset
  short : assembly.origin.toNat + assembly.bytes.length ≤ 0xFFFFFFFF

theorem contains_bytes {assembly : Assembly} (hshort : assembly.bytes.length < 0xFFFF0000) :
    assembly.Contains 0 assembly.bytes := by
  refine ⟨⟨[], [], (List.append_nil _).symm, rfl⟩, ?_⟩
  have horigin := assembly.origin.toNat_lt
  omega

namespace Contains

variable {assembly : Assembly} {offset : Nat} {bytes others : List UInt8}

theorem left (h : assembly.Contains offset (bytes ++ others)) : assembly.Contains offset bytes := by
  obtain ⟨before, after, hbytes, hoffset⟩ := h.split
  refine ⟨⟨before, others ++ after, ?_, hoffset⟩, h.short⟩
  rw [hbytes]
  simp only [List.append_assoc]

theorem right (h : assembly.Contains offset (bytes ++ others)) :
    assembly.Contains (offset + bytes.length) others := by
  obtain ⟨before, after, hbytes, hoffset⟩ := h.split
  refine ⟨⟨before ++ bytes, after, ?_, ?_⟩, h.short⟩
  · rw [hbytes]
    simp only [List.append_assoc]
  · rw [List.length_append, hoffset]

variable {span : Span} (h : assembly.Contains offset bytes)
  (haddress : span.address = assembly.origin.toUInt32 + UInt32.ofNat offset)
  (hlength : span.length = bytes.length)
include h haddress hlength

theorem toNat_address : span.address.toNat = assembly.origin.toNat + offset := by
  obtain ⟨before, after, hbytes, hoffset⟩ := h.split
  have hshort := h.short
  rw [hbytes, List.length_append, List.length_append] at hshort
  rw [haddress, Span.toNat_address (by omega)]

theorem slice_eq : assembly.slice span = bytes := by
  obtain ⟨before, after, hbytes, hoffset⟩ := h.split
  apply Image.slice_append hbytes _ hlength
  rw [h.toNat_address haddress hlength, hoffset]

/-- A span of an assembly neither starts before the image nor ends after it. -/
theorem spanBytes_eq_ok : Listing.spanBytes assembly span = .ok bytes := by
  obtain ⟨before, after, hbytes, hoffset⟩ := h.split
  have hstart := h.toNat_address haddress hlength
  have hinside : offset + bytes.length ≤ assembly.bytes.length := by
    rw [hbytes, List.length_append, List.length_append]
    omega
  have hslice := h.slice_eq haddress hlength
  simp only [slice, Image.slice] at hslice
  unfold Listing.spanBytes
  rw [if_neg (by omega), if_neg (by omega), hslice]

end Contains

end Assembly

namespace Listing

/-! ## Lines -/

/-- An address in hexadecimal with at least four digits. -/
def addressText (address : UInt32) : List Char :=
  (Nat.toDigits 16 address.toNat).leftpad 4 '0'

/-- What a line shows behind the bytes of an instruction: the rest of their column, and the
source. -/
def sourceText (table : InstructionTable) (bytes : List UInt8) (mnemonic : String)
    (operands : List Operand) : List Char :=
  Text.trimEnd (List.replicate (15 - (hexBytes bytes).length) ' ' ++ [' '] ++
    (surface table mnemonic).toList ++ [' '] ++
    [',', ' '].intercalate (operands.map fun operand ↦ operand.source.toList))

/-- Trimming a line does not reach its bytes. -/
theorem instructionLine_eq (table : InstructionTable) (address : UInt32) {bytes : List UInt8}
    (hbytes : bytes ≠ []) (mnemonic : String) (operands : List Operand) :
    instructionLine table address bytes mnemonic operands =
      addressText address ++ [' ', ' '] ++ hexBytes bytes ++
        sourceText table bytes mnemonic operands := by
  obtain ⟨front, digit, hfront, hdigit⟩ := exists_hexBytes_eq_concat hbytes
  unfold sourceText
  rw [hfront, ← List.append_assoc _ front, ← Text.trimEnd_append hdigit, List.append_assoc _ front,
    ← hfront]
  unfold instructionLine addressText List.rightpad
  simp only [List.append_assoc]
  rfl

/-- The lines of a program whose first statement has the given index, and of whose instructions the
`k`-th one has the `k`-th span. -/
structure Lines (machine : Machine) (strict : Bool) (assembly : Assembly) (start : Nat)
    (spans : List Span) (program : Program) (lines : List (List Char)) : Prop where
  length : lines.length = program.length
  length_spans : spans.length = program.instructions.length
  label : ∀ {index : Nat} {name : String}, program[index]? = some (.label name) →
    lines[index]? = some (name.toList ++ [':'])
  instruction : ∀ {index : Nat} {mnemonic : String} {operands : List Operand},
    program[index]? = some (.instruction mnemonic operands) →
    ∃ span, spans[(Program.instructions (program.take index)).length]? = some span ∧
      span.index = start + index ∧
      machine.Encodes assembly.labels strict mnemonic operands (assembly.slice span) ∧
      lines[index]? = some (addressText span.address ++ [' ', ' '] ++
        (renderHex (assembly.slice span)).toList ++
        sourceText machine.instructions (assembly.slice span) mnemonic operands)

namespace Lines

variable {machine : Machine} {strict : Bool} {assembly : Assembly} {start : Nat}
  {spans : List Span} {program : Program} {lines : List (List Char)}

theorem nil : Lines machine strict assembly start [] [] [] where
  length := rfl
  length_spans := rfl
  label h := by simp at h
  instruction h := by simp at h

theorem cons_label (h : Lines machine strict assembly (start + 1) spans program lines)
    (name : String) :
    Lines machine strict assembly start spans (.label name :: program)
      (labelLine name :: lines) where
  length := by rw [List.length_cons, List.length_cons, h.length]
  length_spans := h.length_spans
  label := by
    intro index other hlabel
    cases index with
    | zero =>
      rw [List.getElem?_cons_zero, Option.some.injEq, Statement.label.injEq] at hlabel
      rw [← hlabel]
      rfl
    | succ index => exact h.label hlabel
  instruction := by
    intro index mnemonic operands hinstruction
    cases index with
    | zero => cases hinstruction
    | succ index =>
      obtain ⟨span, hspan, hindex, hrest⟩ := h.instruction hinstruction
      refine ⟨span, hspan, ?_, hrest⟩
      rw [hindex, Nat.add_assoc, Nat.add_comm 1]

theorem cons_instruction {span : Span} {mnemonic : String} {operands : List Operand}
    (h : Lines machine strict assembly (start + 1) spans program lines)
    (hindex : span.index = start)
    (hbytes : machine.Encodes assembly.labels strict mnemonic operands (assembly.slice span)) :
    Lines machine strict assembly start (span :: spans) (.instruction mnemonic operands :: program)
      (instructionLine machine.instructions span.address (assembly.slice span) mnemonic operands ::
        lines) where
  length := by rw [List.length_cons, List.length_cons, h.length]
  length_spans := by
    rw [Program.instructions_instruction, List.length_cons, List.length_cons, h.length_spans]
  label := by
    intro index name hlabel
    cases index with
    | zero => cases hlabel
    | succ index => exact h.label hlabel
  instruction := by
    intro index other others hinstruction
    cases index with
    | zero =>
      cases hinstruction
      refine ⟨span, rfl, hindex, hbytes, ?_⟩
      rw [List.getElem?_cons_zero, instructionLine_eq _ _ hbytes.ne_nil, toList_renderHex]
    | succ index =>
      obtain ⟨next, hnext, hnextIndex, hrest⟩ := h.instruction hinstruction
      refine ⟨next, hnext, ?_, hrest⟩
      rw [hnextIndex, Nat.add_assoc, Nat.add_comm 1]

end Lines

end Listing

/-! ## The walk through a program -/

namespace Machine

variable {machine : Machine} {config : Config} {index offset : Nat} {program : Program}
  {image : Image} {assembly : Assembly}

/-- The walk takes exactly the spans of the program, and finds the bytes of each of them. -/
theorem Lays.exists_lines (h : machine.Lays assembly.labels config index offset program image)
    (horigin : assembly.origin = config.origin) (hcontains : assembly.Contains offset image.bytes) :
    ∃ lines, Listing.linesFrom machine.instructions assembly index image.spans program = .ok lines ∧
      Listing.Lines machine config.strictSizes assembly index image.spans program lines := by
  induction h with
  | nil => exact ⟨[], rfl, .nil⟩
  | @label _ _ name _ _ _ ih =>
    obtain ⟨lines, hlines, hshown⟩ := ih hcontains
    refine ⟨Listing.labelLine name :: lines, ?_, hshown.cons_label name⟩
    rw [Listing.linesFrom, hlines]
    rfl
  | @instruction index offset mnemonic operands rest bytes image hbytes _ ih =>
    obtain ⟨lines, hlines, hshown⟩ := ih hcontains.right
    have hspan : Listing.spanBytes assembly
        ⟨index, config.origin.toUInt32 + UInt32.ofNat offset, bytes.length⟩ = .ok bytes :=
      hcontains.left.spanBytes_eq_ok (by rw [horigin]) rfl
    have hslice : assembly.slice
        ⟨index, config.origin.toUInt32 + UInt32.ofNat offset, bytes.length⟩ = bytes :=
      hcontains.left.slice_eq (by rw [horigin]) rfl
    rw [← hslice] at hbytes
    refine ⟨_, ?_, hshown.cons_instruction rfl hbytes⟩
    rw [Image.append, List.singleton_append, Listing.linesFrom, if_pos rfl, hspan, hlines, hslice]
    rfl

/-- The spans cut an image into parts, none of them empty. -/
theorem Lays.flatten_slices (h : machine.Lays assembly.labels config index offset program image)
    (horigin : assembly.origin = config.origin) (hcontains : assembly.Contains offset image.bytes) :
    (image.spans.map assembly.slice).flatten = image.bytes ∧
      ∀ part ∈ image.spans.map assembly.slice, part ≠ [] := by
  induction h with
  | nil => exact ⟨rfl, by simp⟩
  | label _ ih => exact ih hcontains
  | @instruction index offset _ _ _ bytes image hbytes _ ih =>
    obtain ⟨hflatten, hparts⟩ := ih hcontains.right
    have hslice : assembly.slice
        ⟨index, config.origin.toUInt32 + UInt32.ofNat offset, bytes.length⟩ = bytes :=
      hcontains.left.slice_eq (by rw [horigin]) rfl
    rw [Image.append, List.singleton_append, List.map_cons, hslice]
    refine ⟨?_, ?_⟩
    · rw [List.flatten_cons, hflatten]
    · intro part hpart
      rcases List.mem_cons.mp hpart with rfl | hrest
      · exact hbytes.ne_nil
      · exact hparts part hrest

theorem exists_lines_of_assemble (h : machine.assemble config program = .ok assembly)
    (hshort : assembly.bytes.length < 0xFFFF0000) :
    ∃ lines, assembly.listing machine.instructions program =
        .ok (String.ofList (lines.flatMap fun line ↦ line ++ ['\n'])) ∧
      Listing.Lines machine config.strictSizes assembly 0 assembly.spans program lines := by
  obtain ⟨horigin, -, hlays⟩ := assemble_eq_ok_iff.mp h
  obtain ⟨lines, hlines, hshown⟩ := hlays.exists_lines horigin (Assembly.contains_bytes hshort)
  refine ⟨lines, ?_, hshown⟩
  change (Listing.linesFrom machine.instructions assembly 0 assembly.spans program).map _ = _
  rw [hlines]
  rfl

/-- The listing of an assembled program has a line for every statement, and the bytes in its lines
are those of the image.  The image has to be so short that the addresses of its spans do not wrap
around. -/
theorem listing_of_assemble (h : machine.assemble config program = .ok assembly)
    (hshort : assembly.bytes.length < 0xFFFF0000) :
    ∃ lines, assembly.listing machine.instructions program =
        .ok (String.ofList (lines.flatMap fun line ↦ line ++ ['\n'])) ∧
      Listing.Lines machine config.strictSizes assembly 0 assembly.spans program lines ∧
      [' '].intercalate (assembly.spans.map fun span ↦ (renderHex (assembly.slice span)).toList) =
        (renderHex assembly.bytes).toList := by
  obtain ⟨lines, hlisting, hshown⟩ := exists_lines_of_assemble h hshort
  obtain ⟨horigin, -, hlays⟩ := assemble_eq_ok_iff.mp h
  obtain ⟨hflatten, hparts⟩ := hlays.flatten_slices horigin (Assembly.contains_bytes hshort)
  refine ⟨lines, hlisting, hshown, ?_⟩
  simp only [toList_renderHex]
  calc
    [' '].intercalate (assembly.spans.map fun span ↦ hexBytes (assembly.slice span)) =
        [' '].intercalate ((assembly.spans.map assembly.slice).map hexBytes) := by
      rw [List.map_map]
      rfl
    _ = hexBytes (assembly.spans.map assembly.slice).flatten := intercalate_map_hexBytes hparts
    _ = hexBytes assembly.bytes := by rw [hflatten]

theorem listing_of_assemble_loop :
    ∃ assembly lines, small.assemble ⟨0x1FE, true⟩ loop = .ok assembly ∧
      assembly.bytes.length < 0xFFFF0000 ∧
      assembly.listing small.instructions loop =
        .ok (String.ofList (lines.flatMap fun line ↦ line ++ ['\n'])) ∧
      Listing.Lines small true assembly 0 assembly.spans loop lines ∧
      [' '].intercalate (assembly.spans.map fun span ↦ (renderHex (assembly.slice span)).toList) =
        (renderHex assembly.bytes).toList := by
  obtain ⟨lines, hlisting, hlines, hbytes⟩ := listing_of_assemble assemble_loop (by decide)
  exact ⟨_, lines, assemble_loop, by decide, hlisting, hlines, hbytes⟩

example : (small.assemble ⟨0x1FE, true⟩ loop).toOption.map
    (fun assembly ↦ (assembly.listing small.instructions loop).toOption) =
    some (some ("01fe  20 02 04        jump !end\nloop:\n" ++
      "0201  21 01 01        low acc, !loop\nend:\n" ++
      "0204  20 02 01        jump !loop\n")) := by
  cbv

end Machine

end TwoPass
