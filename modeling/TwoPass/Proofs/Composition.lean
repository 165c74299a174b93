import TwoPass.Proofs.Image

/-!
# Assembling a program in parts

Where sizes are strict, a program can be assembled in two parts, the second one at the address where
the image of the first one ends.  The image of the whole is then the two images one behind the
other: the parts have no label in common, so each symbol finds in the joined label table what it
found in the table of its own part.
-/

namespace TwoPass

/-! ## Joined label tables -/

namespace LabelTable

/-- The bindings of two tables, where those of the first one come first. -/
def append (first second : LabelTable) : LabelTable :=
  ⟨first.bindings ++ second.bindings⟩

theorem get?_append (first second : LabelTable) (name : String) :
    (first.append second).get? name = (first.get? name).or (second.get? name) := by
  simp only [append, get?, List.find?_append]
  cases first.bindings.find? fun binding ↦ binding.name = name <;> rfl

/-- Whatever a table binds, another one binds to the same address. -/
def Extends (larger labels : LabelTable) : Prop :=
  ∀ ⦃name : String⦄ ⦃address : UInt16⦄, labels.get? name = some address →
    larger.get? name = some address

theorem append_extends_left (first second : LabelTable) : (first.append second).Extends first := by
  intro name address hget
  rw [get?_append, hget, Option.some_or]

theorem append_extends_right {first second : LabelTable}
    (hdisjoint : ∀ name, first.get? name = none ∨ second.get? name = none) :
    (first.append second).Extends second := by
  intro name address hget
  rw [get?_append, (hdisjoint name).resolve_right (by rw [hget]; exact Option.some_ne_none _),
    Option.none_or, hget]

end LabelTable

section

variable {registers : RegisterFile} {labels other : LabelTable}

/-- An operand keeps its value over a table that binds its symbol to the same address. -/
theorem Operand.Denotes.relabel {operand : Operand} {value : Nat}
    (hkeeps : ∀ ⦃name address⦄, operand = .symbol name → labels.get? name = some address →
      other.get? name = some address)
    (h : operand.Denotes labels value) : operand.Denotes other value := by
  cases h with
  | symbol haddress => exact .symbol (hkeeps rfl haddress)
  | literal hvalue hlimit => exact .literal hvalue hlimit

theorem Slot.Holds.relabel {slot : Slot} {operand : Operand} {bytes : List UInt8}
    (hkeeps : ∀ ⦃name address⦄, operand = .symbol name → labels.get? name = some address →
      other.get? name = some address)
    (h : slot.Holds registers labels operand bytes) :
    slot.Holds registers other operand bytes := by
  cases h with
  | register hname => exact .register hname
  | byte hvalue hlow => exact .byte (hvalue.relabel hkeeps) hlow
  | word hvalue hword => exact .word (hvalue.relabel hkeeps) hword

theorem Slot.HoldAll.relabel {slots : List Slot} {operands : List Operand} {bytes : List UInt8}
    (hkeeps : ∀ ⦃name address⦄, .symbol name ∈ operands → labels.get? name = some address →
      other.get? name = some address)
    (h : Slot.HoldAll registers labels slots operands bytes) :
    Slot.HoldAll registers other slots operands bytes := by
  induction h with
  | nil => exact .nil
  | cons hfirst _ ih =>
    refine .cons (hfirst.relabel ?_) (ih ?_)
    · intro name address hoperand
      exact hkeeps (hoperand ▸ List.mem_cons_self)
    · intro name address hmem
      exact hkeeps (List.mem_cons_of_mem _ hmem)

end

/-! ## Joined programs in the first pass -/

namespace Program

variable {first second : Program}

theorem bindings_append (table : InstructionTable) (address : Nat) (first second : Program) :
    (first ++ second).bindings table address =
      first.bindings table address ++
        second.bindings table (address + declaredSize table first) := by
  induction first generalizing address with
  | nil => rfl
  | cons statement rest ih =>
    cases statement with
    | label name =>
      rw [List.cons_append, bindings, bindings, ih]
      rfl
    | instruction mnemonic operands =>
      have hsize : declaredSize table (.instruction mnemonic operands :: rest) =
          declaredSize table [.instruction mnemonic operands] + declaredSize table rest :=
        extent_append _ table [.instruction mnemonic operands] rest
      rw [List.cons_append, bindings, bindings, ih, hsize, Nat.add_assoc]

/-- A statement of two joined programs belongs to one of them. -/
theorem getElem?_append_cases {index : Nat} {statement : Statement}
    (h : (first ++ second)[index]? = some statement) :
    (first[index]? = some statement ∧ (first ++ second).take index = first.take index) ∨
      ∃ rest, second[rest]? = some statement ∧
        (first ++ second).take index = first ++ second.take rest := by
  by_cases hindex : index < first.length
  · rw [List.getElem?_append_left hindex] at h
    exact .inl ⟨h, List.take_append_of_le_length (Nat.le_of_lt hindex)⟩
  · have hle := Nat.le_of_not_lt hindex
    rw [List.getElem?_append_right hle] at h
    refine .inr ⟨index - first.length, h, ?_⟩
    rw [List.take_append, List.take_of_length_le hle]

end Program

theorem InstructionTable.Places.append {table : InstructionTable} {origin next : UInt16}
    {first second : Program} (hfirst : table.Places origin first)
    (hsecond : table.Places next second)
    (hnext : next.toNat = origin.toNat + Program.declaredSize table first)
    (hdisjoint : ∀ name, Statement.label name ∈ first → Statement.label name ∉ second) :
    table.Places origin (first ++ second) := by
  constructor
  · intro mnemonic operands hmem
    rcases List.mem_append.mp hmem with hleft | hright
    · exact hfirst.known hleft
    · exact hsecond.known hright
  · intro index name hlabel
    rcases Program.getElem?_append_cases hlabel with ⟨hleft, htake⟩ | ⟨rest, hright, htake⟩
    · rw [htake]
      exact hfirst.fresh hleft
    · rw [htake, List.mem_append, not_or]
      refine ⟨?_, hsecond.fresh hright⟩
      intro hdefined
      exact hdisjoint name hdefined (List.mem_of_getElem? hright)
  · intro index name hlabel
    rcases Program.getElem?_append_cases hlabel with ⟨hleft, htake⟩ | ⟨rest, hright, htake⟩
    · rw [htake]
      exact hfirst.address_le hleft
    · have hle := hsecond.address_le hright
      rw [htake, Program.declaredSize, Program.extent_append]
      rw [hnext, Program.declaredSize] at hle
      omega

/-! ## Joined programs in the second pass -/

/-- The span of an instruction in front of which some statements have been put. -/
def Span.laterBy (count : Nat) (span : Span) : Span :=
  { span with index := span.index + count }

theorem Image.append_assoc (first second third : Image) :
    (first.append second).append third = first.append (second.append third) := by
  simp only [Image.append, List.append_assoc]

/-- An image whose program has some statements put in front of it. -/
def Image.laterBy (count : Nat) (image : Image) : Image :=
  ⟨image.bytes, image.spans.map (Span.laterBy count)⟩

namespace Machine

variable {machine : Machine} {labels larger : LabelTable} {config : Config} {index offset : Nat}
  {first second program : Program} {image otherImage : Image}

/-- An image keeps its bytes over a table that binds the symbols of its program as before. -/
theorem Lays.relabel {other : LabelTable}
    (hkeeps : ∀ ⦃name address⦄, program.Refers name → labels.get? name = some address →
      other.get? name = some address)
    (h : machine.Lays labels config index offset program image) :
    machine.Lays other config index offset program image := by
  induction h with
  | nil => exact .nil
  | label _ ih =>
    exact .label (ih fun _ _ hrefers ↦ hkeeps (hrefers.mono (List.subset_cons_self _ _)))
  | instruction hbytes _ ih =>
    cases hbytes with
    | intro hentry hbody hsize =>
      have hfirst := hbody.relabel fun _ _ hmem ↦ hkeeps ⟨_, _, List.mem_cons_self, hmem⟩
      have hrest := ih fun _ _ hrefers ↦ hkeeps (hrefers.mono (List.subset_cons_self _ _))
      exact .instruction (.intro hentry hfirst hsize) hrest

theorem Lays.extend (hlarger : larger.Extends labels)
    (h : machine.Lays labels config index offset program image) :
    machine.Lays larger config index offset program image :=
  h.relabel fun _ _ _ hget ↦ hlarger hget

theorem Lays.append (h : machine.Lays labels config index offset first image)
    (hother : machine.Lays labels config (index + first.length) (offset + image.bytes.length) second
      otherImage) :
    machine.Lays labels config index offset (first ++ second) (image.append otherImage) := by
  induction h with
  | nil => exact hother
  | @label index _ _ rest _ _ ih =>
    rw [List.length_cons, Nat.add_comm rest.length, ← Nat.add_assoc] at hother
    exact .label (ih hother)
  | @instruction index offset _ _ rest bytes image hbytes _ ih =>
    simp only [Image.append, List.length_append] at hother
    rw [List.length_cons, Nat.add_comm rest.length, ← Nat.add_assoc, ← Nat.add_assoc] at hother
    rw [List.cons_append, Image.append_assoc]
    exact .instruction hbytes (ih hother)

/-- An image keeps its bytes and addresses if its program is put behind others that end at its
origin. -/
theorem Lays.laterBy (h : machine.Lays labels config index offset program image) (count : Nat)
    (other : Config) {start : Nat} (hstrict : other.strictSizes = config.strictSizes)
    (horigin : config.origin.toUInt32 = other.origin.toUInt32 + UInt32.ofNat start) :
    machine.Lays labels other (index + count) (start + offset) program (image.laterBy count) := by
  induction h with
  | nil => exact .nil
  | @label index _ _ _ _ _ ih =>
    rw [Nat.add_right_comm] at ih
    exact .label ih
  | @instruction index offset mnemonic operands _ bytes image hbytes _ ih =>
    rw [Nat.add_right_comm, ← Nat.add_assoc start] at ih
    have haddress : config.origin.toUInt32 + UInt32.ofNat offset =
        other.origin.toUInt32 + UInt32.ofNat (start + offset) := by
      rw [horigin, UInt32.add_assoc, UInt32.ofNat_add]
    have himage := Lays.instruction (hstrict ▸ hbytes) ih
    simp only [← haddress] at himage
    exact himage

end Machine

/-! ## Both passes -/

theorem toNat_ofNat_add {origin : UInt16} {length : Nat} (h : origin.toNat + length ≤ 0xFFFF) :
    (UInt16.ofNat (origin.toNat + length)).toNat = origin.toNat + length := by
  rw [UInt16.toNat_ofNat']
  omega

theorem toUInt32_ofNat_add {origin : UInt16} {length : Nat} (h : origin.toNat + length ≤ 0xFFFF) :
    (UInt16.ofNat (origin.toNat + length)).toUInt32 = origin.toUInt32 + UInt32.ofNat length := by
  apply UInt32.toNat_inj.mp
  rw [UInt16.toNat_toUInt32, toNat_ofNat_add h, Span.toNat_address (by omega)]

namespace Assembly

/-- An assembly consists of two others, the second one behind the given number of statements. -/
structure Joins (count : Nat) (first second whole : Assembly) : Prop where
  origin : whole.origin = first.origin
  bytes : whole.bytes = first.bytes ++ second.bytes
  label : ∀ name address, whole.labels.get? name = some address ↔
    first.labels.get? name = some address ∨ second.labels.get? name = some address
  disjoint : ∀ name, first.labels.get? name = none ∨ second.labels.get? name = none
  size : whole.labels.size = first.labels.size + second.labels.size
  spans : whole.spans = first.spans ++ second.spans.map (Span.laterBy count)

/-- An assembly with another one behind it. -/
def append (count : Nat) (first second : Assembly) : Assembly where
  origin := first.origin
  bytes := first.bytes ++ second.bytes
  labels := first.labels.append second.labels
  spans := first.spans ++ second.spans.map (Span.laterBy count)

theorem joins_append (count : Nat) {first second : Assembly}
    (hdisjoint : ∀ name, first.labels.get? name = none ∨ second.labels.get? name = none) :
    Joins count first second (first.append count second) where
  origin := rfl
  bytes := rfl
  label name address := by
    rw [append, LabelTable.get?_append]
    rcases hdisjoint name with hnone | hnone <;> simp [hnone]
  disjoint := hdisjoint
  size := List.length_append
  spans := rfl

end Assembly

namespace Machine

variable {machine : Machine} {origin : UInt16} {first second : Program}
  {firstPart secondPart : Assembly}

/-- With strict sizes, an image ends where the first pass expects its end. -/
theorem length_bytes_eq_declaredSize
    (h : machine.assemble ⟨origin, true⟩ first = .ok firstPart) :
    firstPart.bytes.length = Program.declaredSize machine.instructions first := by
  obtain ⟨-, -, hlays⟩ := assemble_eq_ok_iff.mp h
  rw [hlays.declaredSize_eq rfl]
  exact hlays.length_bytes

theorem get?_eq_none_of_disjoint {config otherConfig : Config}
    (hfirst : machine.assemble config first = .ok firstPart)
    (hsecond : machine.assemble otherConfig second = .ok secondPart)
    (hdisjoint : ∀ name, Statement.label name ∈ first → Statement.label name ∉ second)
    (name : String) : firstPart.labels.get? name = none ∨ secondPart.labels.get? name = none := by
  obtain ⟨-, hresolve, -⟩ := assemble_eq_ok_iff.mp hfirst
  obtain ⟨-, hotherResolve, -⟩ := assemble_eq_ok_iff.mp hsecond
  rw [InstructionTable.get?_eq_none_iff_of_resolve hresolve,
    InstructionTable.get?_eq_none_iff_of_resolve hotherResolve]
  by_cases hmem : Statement.label name ∈ first
  · exact .inr (hdisjoint name hmem)
  · exact .inl hmem

/-- With strict sizes, two programs without a common label can be assembled one by one.  No bound on
the size of the images is needed. -/
theorem assemble_append (hfirst : machine.assemble ⟨origin, true⟩ first = .ok firstPart)
    (hfits : origin.toNat + firstPart.bytes.length ≤ 0xFFFF)
    (hsecond : machine.assemble ⟨UInt16.ofNat (origin.toNat + firstPart.bytes.length), true⟩
      second = .ok secondPart)
    (hdisjoint : ∀ name, Statement.label name ∈ first → Statement.label name ∉ second) :
    ∃ whole, machine.assemble ⟨origin, true⟩ (first ++ second) = .ok whole ∧
      Assembly.Joins first.length firstPart secondPart whole := by
  have hlabels := get?_eq_none_of_disjoint hfirst hsecond hdisjoint
  have hsize := length_bytes_eq_declaredSize hfirst
  obtain ⟨horigin, hresolve, hlays⟩ := assemble_eq_ok_iff.mp hfirst
  obtain ⟨-, hnextResolve, hnextLays⟩ := assemble_eq_ok_iff.mp hsecond
  obtain ⟨hplaces, hbindings⟩ := InstructionTable.resolve_eq_ok_iff.mp hresolve
  obtain ⟨hnextPlaces, hnextBindings⟩ := InstructionTable.resolve_eq_ok_iff.mp hnextResolve
  have hnext := toNat_ofNat_add hfits
  refine ⟨firstPart.append first.length secondPart, ?_, Assembly.joins_append _ hlabels⟩
  apply assemble_eq_ok_iff.mpr
  refine ⟨horigin, ?_, ?_⟩
  · apply InstructionTable.resolve_eq_ok_iff.mpr
    refine ⟨hplaces.append hnextPlaces (by rw [hnext, hsize]) hdisjoint, ?_⟩
    simp only at hbindings hnextBindings ⊢
    rw [Assembly.append, LabelTable.append, Program.bindings_append, hbindings, hnextBindings,
      hnext, hsize]
  · have hbefore := hlays.extend (LabelTable.append_extends_left _ secondPart.labels)
    have hnextExtended := hnextLays.extend (LabelTable.append_extends_right hlabels)
    have hbehind := hnextExtended.laterBy first.length ⟨origin, true⟩ rfl
      (toUInt32_ofNat_add hfits)
    rw [Nat.add_comm _ 0] at hbehind
    exact hbefore.append hbehind

/-- A label at the end of the first part has the address of one at the start of the second part. -/
theorem assemble_append_parts :
    ∃ firstPart secondPart whole,
      small.assemble ⟨0xFE, true⟩ [.instruction "jump" [.symbol "a"], .label "a"] = .ok firstPart ∧
      small.assemble ⟨0x101, true⟩ [.label "b", .instruction "low" [.register "sp", .symbol "b"]] =
        .ok secondPart ∧
      small.assemble ⟨0xFE, true⟩
        ([.instruction "jump" [.symbol "a"], .label "a"] ++
          [.label "b", .instruction "low" [.register "sp", .symbol "b"]]) = .ok whole ∧
      Assembly.Joins 2 firstPart secondPart whole ∧
      whole.bytes = [0x20, 0x01, 0x01, 0x21, 0x0A, 0x01] ∧
      whole.labels.size = 2 ∧ whole.labels.get? "a" = some 0x101 ∧
      whole.labels.get? "b" = some 0x101 ∧
      whole.spans = [⟨0, 0xFE, 3⟩, ⟨3, 0x101, 3⟩] := by
  have hfirst : small.assemble ⟨0xFE, true⟩ [.instruction "jump" [.symbol "a"], .label "a"] =
      .ok ⟨0xFE, [0x20, 0x01, 0x01], ⟨[⟨"a", 0x101⟩]⟩, [⟨0, 0xFE, 3⟩]⟩ := by
    rfl
  have hsecond : small.assemble ⟨0x101, true⟩
      [.label "b", .instruction "low" [.register "sp", .symbol "b"]] =
      .ok ⟨0x101, [0x21, 0x0A, 0x01], ⟨[⟨"b", 0x101⟩]⟩, [⟨1, 0x101, 3⟩]⟩ := by
    rfl
  obtain ⟨whole, hwhole, hjoins⟩ := assemble_append hfirst (by decide) hsecond (by simp)
  refine ⟨_, _, whole, hfirst, hsecond, hwhole, hjoins, hjoins.bytes, hjoins.size, ?_, ?_,
    hjoins.spans⟩
  · exact (hjoins.label "a" 0x101).mpr (.inl rfl)
  · exact (hjoins.label "b" 0x101).mpr (.inr rfl)

end Machine

end TwoPass
