import TwoPass.Proofs.Image

/-!
# Labels and the bytes that refer to them

The first pass places labels by declared sizes, the second one writes bytes.  With strict sizes the
two agree: a label's address is that of the first byte behind its definition, and every symbol,
whether it stands before or behind the definition, is encoded to that address.
-/

namespace TwoPass

namespace Assembly

/-- The number of bytes of the instructions before a statement. -/
def emittedBefore (assembly : Assembly) (index : Nat) : Nat :=
  Span.totalLength (assembly.spans.filter fun span ↦ span.index < index)

/-- The address of the first instruction behind a statement, or the end of the image if there is
none. -/
def addressBehind (assembly : Assembly) (index : Nat) : Nat :=
  match assembly.spans.find? fun span ↦ index < span.index with
  | some span => span.address.toNat
  | none => assembly.origin.toNat + assembly.bytes.length

/-- The bytes from the given offset on hold an address in a slot. -/
def HoldsAddress (assembly : Assembly) (offset : Nat) (address : UInt16) : Slot → Prop
  | .register => False
  | .byte => ∃ low, assembly.bytes[offset]? = some low ∧ low.toNat = address.toNat % 256
  | .word => ∃ high low, assembly.bytes[offset]? = some high ∧
      assembly.bytes[offset + 1]? = some low ∧ high.toNat * 256 + low.toNat = address.toNat

/-- Labels have the addresses at which they stand in the image, and symbols hold them. -/
structure Linked (machine : Machine) (origin : UInt16) (program : Program) (assembly : Assembly) :
    Prop where
  origin_eq : assembly.origin = origin
  /-- The bytes before a statement are those that the instructions there encode to. -/
  emitted_eq : ∀ index, assembly.emittedBefore index =
    Program.encodedSize machine.instructions (program.take index)
  label : ∀ {index : Nat} {name : String}, program[index]? = some (.label name) →
    ∃ address, assembly.labels.get? name = some address ∧
      address.toNat = origin.toNat + assembly.emittedBefore index ∧
      address.toNat = assembly.addressBehind index
  symbol : ∀ {index position : Nat} {mnemonic name : String} {operands : List Operand}
    {entry : Entry} {slot : Slot}, program[index]? = some (.instruction mnemonic operands) →
    machine.instructions.get? mnemonic = some entry →
    entry.mode.slots[position]? = some slot → operands[position]? = some (.symbol name) →
    ∃ (definition : Nat) (address : UInt16), program[definition]? = some (.label name) ∧
      assembly.labels.get? name = some address ∧
      assembly.HoldsAddress
        (assembly.emittedBefore index + 1 + Slot.totalWidth (entry.mode.slots.take position))
        address slot

end Assembly

namespace Machine

variable {machine : Machine} {labels : LabelTable} {config : Config} {program : Program}
  {image : Image} {assembly : Assembly}

/-! ## Spans on either side of a statement -/

theorem Lays.split_spans (h : machine.Lays labels config 0 0 program image) (index : Nat) :
    ∃ before after, image = before.append after ∧
      machine.Lays labels config 0 0 (program.take index) before ∧
      machine.Lays labels config (program.take index).length before.bytes.length
        (program.drop index) after ∧
      image.spans.filter (fun span ↦ span.index < index) = before.spans := by
  rw [← List.take_append_drop index program] at h
  obtain ⟨before, after, himage, hbefore, hafter⟩ := h.split
  rw [Nat.zero_add, Nat.zero_add] at hafter
  refine ⟨before, after, himage, hbefore, hafter, ?_⟩
  have hleft : before.spans.filter (fun span ↦ span.index < index) = before.spans := by
    apply List.filter_eq_self.mpr
    intro span hspan
    have hlt := (hbefore.index_of_mem hspan).2
    rw [List.length_take] at hlt
    exact decide_eq_true (by omega)
  have hright : after.spans.filter (fun span ↦ span.index < index) = [] := by
    apply List.filter_eq_nil_iff.mpr
    intro span hspan
    have hbounds := hafter.index_of_mem hspan
    rw [List.length_take, List.length_drop] at hbounds
    have hge : ¬ span.index < index := by omega
    simpa using hge
  rw [himage, Image.append, List.filter_append, hleft, hright, List.append_nil]

theorem emittedBefore_of_lays
    (h : machine.Lays labels config 0 0 program ⟨assembly.bytes, assembly.spans⟩) (index : Nat) :
    assembly.emittedBefore index =
      Program.encodedSize machine.instructions (program.take index) := by
  obtain ⟨before, after, -, hbefore, -, hfilter⟩ := h.split_spans index
  rw [Assembly.emittedBefore, hfilter, hbefore.totalLength_spans, hbefore.length_bytes]

theorem Lays.split_label (h : machine.Lays labels config 0 0 program image) {index : Nat}
    {name : String} (hlabel : program[index]? = some (.label name)) :
    ∃ before after, image = before.append after ∧
      machine.Lays labels config 0 0 (program.take index) before ∧
      machine.Lays labels config (index + 1) before.bytes.length (program.drop (index + 1)) after ∧
      image.spans.find? (fun span ↦ index < span.index) = after.spans.head? := by
  have hlt : index < program.length := (List.getElem?_eq_some_iff.mp hlabel).1
  rw [Program.eq_take_append_drop hlabel] at h
  obtain ⟨before, after, himage, hbefore, hafter⟩ := h.split
  rw [Nat.zero_add, Nat.zero_add, List.length_take, Nat.min_eq_left (Nat.le_of_lt hlt)] at hafter
  cases hafter with
  | label hafter =>
    refine ⟨before, after, himage, hbefore, hafter, ?_⟩
    have hleft : before.spans.find? (fun span ↦ index < span.index) = none := by
      apply List.find?_eq_none.mpr
      intro span hspan
      have hbound := (hbefore.index_of_mem hspan).2
      rw [List.length_take] at hbound
      have hle : ¬ index < span.index := by omega
      simpa using hle
    have hright : after.spans.find? (fun span ↦ index < span.index) = after.spans.head? := by
      cases hspans : after.spans with
      | nil => rfl
      | cons span spans =>
        have hbound := (hafter.index_of_mem (hspans ▸ List.mem_cons_self)).1
        exact List.find?_cons_of_pos (decide_eq_true (by omega))
    rw [himage, Image.append, List.find?_append, hleft, Option.none_or, hright]

/-- Behind a label the image goes on right after the bytes before the label. -/
theorem addressBehind_of_lays
    (h : machine.Lays labels config 0 0 program ⟨assembly.bytes, assembly.spans⟩)
    (horigin : assembly.origin = config.origin) {index : Nat} {name : String}
    (hlabel : program[index]? = some (.label name))
    (hle : config.origin.toNat + Program.encodedSize machine.instructions (program.take index) ≤
      0xFFFF) :
    assembly.addressBehind index =
      config.origin.toNat + Program.encodedSize machine.instructions (program.take index) := by
  obtain ⟨before, after, himage, hbefore, hafter, hfind⟩ := h.split_label hlabel
  have hhead := hafter.address_head?
  rw [← hbefore.length_bytes] at hle ⊢
  rw [Assembly.addressBehind, hfind]
  cases hfirst : after.spans.head? with
  | none =>
    have hempty : after.bytes = [] := by simpa only [hfirst] using hhead
    have hbytes : assembly.bytes = before.bytes ++ after.bytes := congrArg Image.bytes himage
    rw [hbytes, hempty, List.append_nil, horigin]
  | some span =>
    have haddress : span.address =
        config.origin.toUInt32 + UInt32.ofNat before.bytes.length := by
      simpa only [hfirst] using hhead
    change span.address.toNat = _
    rw [haddress, Span.toNat_address (by omega)]

/-! ## Symbols -/

theorem getElem?_content {offset : Nat} {bytes before content after : List UInt8}
    (hbytes : bytes = before ++ content ++ after) (hoffset : before.length = offset)
    (position : Nat) (hposition : position < content.length) :
    bytes[offset + position]? = content[position]? := by
  subst hbytes hoffset
  have hinside : before.length + position < (before ++ content).length := by
    rw [List.length_append]
    omega
  rw [List.getElem?_append_left hinside, List.getElem?_append_right (Nat.le_add_right _ _),
    Nat.add_sub_cancel_left]

theorem holdsAddress_of_holds {offset : Nat} {slot : Slot} {name : String}
    {before content after : List UInt8} (hbytes : assembly.bytes = before ++ content ++ after)
    (hoffset : before.length = offset)
    (h : slot.Holds machine.registers labels (.symbol name) content) :
    ∃ address, labels.get? name = some address ∧ assembly.HoldsAddress offset address slot := by
  have hcontent := getElem?_content hbytes hoffset
  cases h with
  | @byte _ _ low hvalue hlow =>
    cases hvalue with
    | @symbol _ address haddress =>
      exact ⟨address, haddress, low, hcontent 0 Nat.zero_lt_one, hlow⟩
  | @word _ _ high low hvalue hword =>
    cases hvalue with
    | @symbol _ address haddress =>
      refine ⟨address, haddress, high, low, hcontent 0 Nat.zero_lt_two,
        hcontent 1 Nat.one_lt_two, ?_⟩
      rw [hword, Nat.mod_eq_of_lt address.toNat_lt]

/-- With strict sizes, an assembled program is linked.  No bound on the size of the image is
needed: a span behind a label starts at the label's address, which has sixteen bits. -/
theorem linked_of_assemble (hstrict : config.strictSizes = true)
    (h : machine.assemble config program = .ok assembly) :
    assembly.Linked machine config.origin program := by
  obtain ⟨horigin, hresolve, hlays⟩ := assemble_eq_ok_iff.mp h
  have hemitted := emittedBefore_of_lays hlays
  refine ⟨horigin, hemitted, ?_, ?_⟩
  · intro index name hlabel
    obtain ⟨address, hget, hdeclared⟩ := InstructionTable.get?_of_resolve hresolve hlabel
    obtain ⟨before, -, -, hbefore, -⟩ := hlays.split_spans index
    have hencoded : address.toNat = config.origin.toNat +
        Program.encodedSize machine.instructions (program.take index) := by
      rw [hdeclared, hbefore.declaredSize_eq hstrict]
    have hle := Nat.le_of_lt_succ address.toNat_lt
    rw [hencoded] at hle
    refine ⟨address, hget, ?_, ?_⟩
    · calc
        address.toNat = config.origin.toNat +
            Program.encodedSize machine.instructions (program.take index) := hencoded
        _ = config.origin.toNat + assembly.emittedBefore index := by rw [hemitted]
    · calc
        address.toNat = config.origin.toNat +
            Program.encodedSize machine.instructions (program.take index) := hencoded
        _ = assembly.addressBehind index :=
          (addressBehind_of_lays hlays horigin hlabel hle).symm
  · intro index position mnemonic name operands entry slot hstatement hentry hslot hoperand
    obtain ⟨before, content, after, hbytes, hoffset, hholds⟩ :=
      hlays.split_slot hstatement hentry hslot hoperand
    obtain ⟨address, hget, hcontent⟩ := holdsAddress_of_holds hbytes hoffset hholds
    have hmem : Statement.label name ∈ program := by
      apply Decidable.not_not.mp
      intro hnot
      rw [← InstructionTable.get?_eq_none_iff_of_resolve hresolve, hget] at hnot
      cases hnot
    obtain ⟨definition, hdefinition⟩ := List.getElem?_of_mem hmem
    refine ⟨definition, address, hdefinition, hget, ?_⟩
    rw [hemitted]
    exact hcontent

/-- A program that refers to a label before and behind its definition. -/
def loop : Program :=
  [.instruction "jump" [.symbol "end"], .label "loop",
    .instruction "low" [.register "acc", .symbol "loop"], .label "end",
    .instruction "jump" [.symbol "loop"]]

/-- What the loop is assembled to from the address `0x1FE` on. -/
theorem assemble_loop :
    small.assemble ⟨0x1FE, true⟩ loop =
      .ok ⟨0x1FE, [0x20, 0x02, 0x04, 0x21, 0x01, 0x01, 0x20, 0x02, 0x01],
        ⟨[⟨"loop", 0x201⟩, ⟨"end", 0x204⟩]⟩,
        [⟨0, 0x1FE, 3⟩, ⟨2, 0x201, 3⟩, ⟨4, 0x204, 3⟩]⟩ := by
  rfl

theorem linked_of_assemble_loop :
    ∃ assembly, small.assemble ⟨0x1FE, true⟩ loop = .ok assembly ∧
      assembly.bytes = [0x20, 0x02, 0x04, 0x21, 0x01, 0x01, 0x20, 0x02, 0x01] ∧
      assembly.Linked small 0x1FE loop :=
  ⟨_, assemble_loop, rfl, linked_of_assemble rfl assemble_loop⟩

end Machine

end TwoPass
