import Mathlib.Data.List.Forall2
import TwoPass.Proofs.Bytes
import TwoPass.Proofs.Rejection

/-!
# Moving a program to another origin

The origin enters an image only through the addresses of labels.  A program that can be assembled at
one origin can be assembled at another one exactly if its labels still have sixteen bits there.  All
addresses are then moved by the distance of the two origins, and the bytes that change are those of
symbols.
-/

namespace TwoPass

/-- How far a move goes from one origin to another. -/
def distance (origin target : UInt16) : Int :=
  target.toNat - origin.toNat

/-- The cause for which a label cannot be moved: it would land beyond the last address. -/
inductive MoveFault (labels : LabelTable) (origin target : UInt16) (earlier : Program) :
    Statement → Cause → Prop
  | beyond {name : String} {address : UInt16} {landing : UInt32}
      (haddress : labels.get? name = some address)
      (hlanding : (landing.toNat : Int) = address.toNat + distance origin target)
      (hbeyond : 0xFFFF < landing.toNat) :
      MoveFault labels origin target earlier (.label name) (.addressOverflow name landing)

/-- No operand of a program is a symbol. -/
def Program.NoSymbols (program : Program) : Prop :=
  ∀ ⦃mnemonic : String⦄ ⦃operands : List Operand⦄, .instruction mnemonic operands ∈ program →
    ∀ name, .symbol name ∉ operands

/-- A span is moved as a whole. -/
structure Span.Moved (amount : Int) (span moved : Span) : Prop where
  index : moved.index = span.index
  length : moved.length = span.length
  address : (moved.address.toNat : Int) = span.address.toNat + amount

namespace Assembly

/-- Two assemblies of a program whose addresses differ by the given amount. -/
structure Moved (machine : Machine) (program : Program) (amount : Int) (assembly moved : Assembly) :
    Prop where
  label : ∀ name, (moved.labels.get? name).map (fun address ↦ (address.toNat : Int)) =
    (assembly.labels.get? name).map fun address ↦ address.toNat + amount
  spans : List.Forall₂ (Span.Moved amount) assembly.spans moved.spans
  length : moved.bytes.length = assembly.bytes.length
  /-- The bytes outside of symbols stay. -/
  byte : ∀ place, (∀ name, ¬ machine.InSlot program place (.symbol name)) →
    moved.bytes[place]? = assembly.bytes[place]?
  /-- The bytes of symbols hold the moved address. -/
  symbol : ∀ {index position : Nat} {mode : Mode} {slot : Slot} {name : String},
    machine.Fills program index position mode slot (.symbol name) →
    ∃ address landing : UInt16, assembly.labels.get? name = some address ∧
      (landing.toNat : Int) = address.toNat + amount ∧
      assembly.HoldsAddress (machine.slotOffset program index mode position) address slot ∧
      moved.HoldsAddress (machine.slotOffset program index mode position) landing slot

end Assembly

namespace Machine

/-- What becomes of a program at another origin than that of an assembly. -/
structure Movable (machine : Machine) (strict : Bool) (program : Program) (origin : UInt16)
    (assembly : Assembly) (target : UInt16) : Prop where
  ok_iff : (∃ moved, machine.assemble ⟨target, strict⟩ program = .ok moved) ↔
    ∀ name address, assembly.labels.get? name = some address →
      (address.toNat : Int) + distance origin target ≤ 0xFFFF
  error_iff : ∀ diagnostic, machine.assemble ⟨target, strict⟩ program = .error diagnostic ↔
    Rule.Reports (MoveFault assembly.labels origin target) program diagnostic
  ok_of_le : target ≤ origin → ∃ moved, machine.assemble ⟨target, strict⟩ program = .ok moved
  moved : ∀ {moved}, machine.assemble ⟨target, strict⟩ program = .ok moved →
    assembly.Moved machine program (distance origin target) moved
  bytes_eq : program.NoSymbols → ∀ {moved},
    machine.assemble ⟨target, strict⟩ program = .ok moved → moved.bytes = assembly.bytes

end Machine

/-! ## Which origins are possible -/

namespace InstructionTable

variable {table : InstructionTable} {origin target : UInt16} {program : Program}
  {labels : LabelTable}

/-- At another origin a placed program breaks the rules of the first pass only where a label does
not fit. -/
theorem brokenAt_placementFault_iff (h : table.resolve origin program = .ok labels) (index : Nat)
    (cause : Cause) :
    Rule.BrokenAt (PlacementFault table target) program index cause ↔
      Rule.BrokenAt (MoveFault labels origin target) program index cause := by
  obtain ⟨hplaces, -⟩ := resolve_eq_ok_iff.mp h
  have horigin := origin.toNat_lt
  have htarget := target.toNat_lt
  refine ⟨?_, ?_⟩
  · rintro ⟨statement, hstatement, hfault⟩
    refine ⟨statement, hstatement, ?_⟩
    cases hfault with
    | duplicateLabel hdefined => exact absurd hdefined (hplaces.fresh hstatement)
    | unknownMnemonic hunknown =>
      obtain ⟨entry, hentry⟩ := hplaces.known (List.mem_of_getElem? hstatement)
      rw [hunknown] at hentry
      cases hentry
    | addressOverflow _ hbeyond =>
      obtain ⟨address, hget, haddress⟩ := get?_of_resolve h hstatement
      have hle := hplaces.address_le hstatement
      refine .beyond hget ?_ ?_
      · rw [UInt32.toNat_ofNat', haddress, distance]
        omega
      · rw [UInt32.toNat_ofNat']
        omega
  · rintro ⟨statement, hstatement, hfault⟩
    refine ⟨statement, hstatement, ?_⟩
    cases hfault with
    | @beyond name found landing hfound hlanding hbeyond =>
      obtain ⟨address, hget, haddress⟩ := get?_of_resolve h hstatement
      rw [hget, Option.some.injEq] at hfound
      subst hfound
      rw [distance] at hlanding
      have hexact : landing.toNat =
          target.toNat + Program.declaredSize table (program.take index) := by omega
      have hsame : landing = UInt32.ofNat
          (min (target.toNat + Program.declaredSize table (program.take index)) 0xFFFFFFFF) := by
        have hbound := landing.toNat_lt
        rw [← hexact, Nat.min_eq_left (by omega), UInt32.ofNat_toNat]
      rw [hsame]
      exact .addressOverflow (hplaces.fresh hstatement) (by omega)

/-- A placed program can be moved exactly if every label has a place at the target. -/
theorem not_brokenAt_moveFault_iff (h : table.resolve origin program = .ok labels) :
    (∀ index cause, ¬ Rule.BrokenAt (MoveFault labels origin target) program index cause) ↔
      ∀ name address, labels.get? name = some address →
        (address.toNat : Int) + distance origin target ≤ 0xFFFF := by
  refine ⟨?_, ?_⟩
  · intro hclean name address hget
    obtain ⟨index, hlabel⟩ := List.getElem?_of_mem (mem_of_get?_of_resolve h hget)
    apply Int.not_lt.mp
    intro hbeyond
    have hlanding : ((UInt32.ofNat (address.toNat + distance origin target).toNat).toNat : Int) =
        address.toNat + distance origin target := by
      have haddress := address.toNat_lt
      have htarget := target.toNat_lt
      rw [UInt32.toNat_ofNat']
      rw [distance] at hbeyond ⊢
      omega
    exact hclean index _ ⟨_, hlabel, .beyond hget hlanding (by omega)⟩
  · rintro hfits index cause ⟨statement, -, hfault⟩
    cases hfault with
    | beyond hget hlanding hbeyond =>
      have hle := hfits _ _ hget
      omega

end InstructionTable

namespace Machine

variable {machine : Machine} {config : Config} {origin target : UInt16} {strict : Bool}
  {program : Program} {labels : LabelTable} {assembly moved : Assembly} {diagnostic : Diagnostic}

theorem assemble_target_eq_error_iff
    (h : machine.assemble ⟨origin, strict⟩ program = .ok assembly) :
    machine.assemble ⟨target, strict⟩ program = .error diagnostic ↔
      Rule.Reports (MoveFault assembly.labels origin target) program diagnostic := by
  obtain ⟨-, hresolve, -⟩ := assemble_eq_ok_iff.mp h
  -- the rules of the second pass do not know the origin
  have hsource := not_brokenAt_encodingRule_of_assemble h
  have htarget : ∀ index cause,
      ¬ (machine.encodingRule ⟨target, strict⟩ program).BrokenAt program index cause := hsource
  rw [assemble_eq_error_iff_of_encodes htarget]
  apply Rule.reports_congr
  exact InstructionTable.brokenAt_placementFault_iff hresolve

theorem exists_assemble_target_iff
    (h : machine.assemble ⟨origin, strict⟩ program = .ok assembly) :
    (∃ moved, machine.assemble ⟨target, strict⟩ program = .ok moved) ↔
      ∀ name address, assembly.labels.get? name = some address →
        (address.toNat : Int) + distance origin target ≤ 0xFFFF := by
  obtain ⟨-, hresolve, -⟩ := assemble_eq_ok_iff.mp h
  rw [← InstructionTable.not_brokenAt_moveFault_iff hresolve, ← Rule.not_reports_iff]
  apply exists_ok_iff_of_error_iff
  intro diagnostic
  exact assemble_target_eq_error_iff h

/-! ## What is moved -/

/-- The spans of two images of a program start at the same offsets. -/
theorem Lays.forall₂_spans {otherLabels : LabelTable} {otherConfig : Config}
    {index offset limit : Nat} {image otherImage : Image}
    (h : machine.Lays labels config index offset program image)
    (hother : machine.Lays otherLabels otherConfig index offset program otherImage)
    (hlimit : offset + image.bytes.length ≤ limit)
    (horigin : config.origin.toNat + limit ≤ 0xFFFFFFFF)
    (hotherOrigin : otherConfig.origin.toNat + limit ≤ 0xFFFFFFFF) :
    List.Forall₂ (Span.Moved (distance config.origin otherConfig.origin)) image.spans
      otherImage.spans := by
  induction h generalizing otherImage with
  | nil =>
    cases hother
    exact .nil
  | label _ ih =>
    cases hother with
    | label hrest => exact ih hrest hlimit
  | @instruction index offset _ _ _ bytes image hbytes _ ih =>
    cases hother with
    | @instruction _ _ _ _ _ otherBytes _ hotherBytes hrest =>
      have hwidth : otherBytes.length = bytes.length := hbytes.length_eq hotherBytes
      rw [hwidth] at hrest
      simp only [Image.append, List.length_append] at hlimit
      have hfirst : Span.Moved (distance config.origin otherConfig.origin)
          ⟨index, config.origin.toUInt32 + UInt32.ofNat offset, bytes.length⟩
          ⟨index, otherConfig.origin.toUInt32 + UInt32.ofNat offset, otherBytes.length⟩ := by
        refine ⟨rfl, hwidth, ?_⟩
        rw [Span.toNat_address (by omega), Span.toNat_address (by omega), distance]
        omega
      exact .cons hfirst (ih hrest (by omega))

theorem map_get?_of_resolve {table : InstructionTable} {movedLabels : LabelTable}
    (h : table.resolve origin program = .ok labels)
    (hmoved : table.resolve target program = .ok movedLabels) (name : String) :
    (movedLabels.get? name).map (fun address ↦ (address.toNat : Int)) =
      (labels.get? name).map fun address ↦ address.toNat + distance origin target := by
  by_cases hmem : Statement.label name ∈ program
  · obtain ⟨index, hlabel⟩ := List.getElem?_of_mem hmem
    obtain ⟨address, hget, haddress⟩ := InstructionTable.get?_of_resolve h hlabel
    obtain ⟨landing, hmovedGet, hlanding⟩ := InstructionTable.get?_of_resolve hmoved hlabel
    rw [hget, hmovedGet, Option.map_some, Option.map_some, haddress, hlanding, distance]
    congr 1
    omega
  · rw [(InstructionTable.get?_eq_none_iff_of_resolve h).mpr hmem,
      (InstructionTable.get?_eq_none_iff_of_resolve hmoved).mpr hmem, Option.map_none,
      Option.map_none]

/-- A slot of a symbol holds the address of the symbol's label. -/
theorem exists_holdsAddress {index position : Nat} {mode : Mode} {slot : Slot} {name : String}
    (h : machine.assemble config program = .ok assembly)
    (hfills : machine.Fills program index position mode slot (.symbol name)) :
    ∃ address, assembly.labels.get? name = some address ∧
      assembly.HoldsAddress (machine.slotOffset program index mode position) address slot := by
  obtain ⟨-, -, hlays⟩ := assemble_eq_ok_iff.mp h
  cases hfills with
  | intro hstatement hentry hslot hoperand =>
    obtain ⟨before, content, after, hbytes, hoffset, hholds⟩ :=
      hlays.split_slot hstatement hentry hslot hoperand
    exact holdsAddress_of_holds hbytes hoffset hholds

theorem moved_of_assemble (h : machine.assemble ⟨origin, strict⟩ program = .ok assembly)
    (hshort : assembly.bytes.length < 0xFFFF0000)
    (hmoved : machine.assemble ⟨target, strict⟩ program = .ok moved) :
    assembly.Moved machine program (distance origin target) moved := by
  obtain ⟨-, hresolve, hlays⟩ := assemble_eq_ok_iff.mp h
  obtain ⟨-, hmovedResolve, hmovedLays⟩ := assemble_eq_ok_iff.mp hmoved
  have hlabels := map_get?_of_resolve hresolve hmovedResolve
  have horigin := origin.toNat_lt
  have htarget := target.toNat_lt
  constructor
  · exact hlabels
  · apply hlays.forall₂_spans hmovedLays (Nat.le_of_eq (Nat.zero_add _))
    · change origin.toNat + assembly.bytes.length ≤ 0xFFFFFFFF
      omega
    · change target.toNat + assembly.bytes.length ≤ 0xFFFFFFFF
      omega
  · exact hmovedLays.length_bytes.trans hlays.length_bytes.symm
  · intro place hplace
    apply hlays.getElem?_bytes_eq hmovedLays
    intro name hslot
    exact absurd hslot (hplace name)
  · intro index position mode slot name hfills
    obtain ⟨address, hget, hholds⟩ := exists_holdsAddress h hfills
    obtain ⟨landing, hmovedGet, hmovedHolds⟩ := exists_holdsAddress hmoved hfills
    have hlanding := hlabels name
    rw [hget, hmovedGet, Option.map_some, Option.map_some, Option.some.injEq] at hlanding
    exact ⟨address, landing, hget, hlanding, hholds, hmovedHolds⟩

theorem Fills.exists_mem {index position : Nat} {mode : Mode} {slot : Slot} {operand : Operand}
    (h : machine.Fills program index position mode slot operand) :
    ∃ mnemonic operands, Statement.instruction mnemonic operands ∈ program ∧
      operand ∈ operands := by
  cases h with
  | intro hstatement _ _ hoperand =>
    exact ⟨_, _, List.mem_of_getElem? hstatement, List.mem_of_getElem? hoperand⟩

/-- An assembled program is moved to another origin as a whole, or its first label that does not fit
there is reported.  The image has to be so short that the addresses of its spans do not wrap
around. -/
theorem movable_of_assemble (h : machine.assemble ⟨origin, strict⟩ program = .ok assembly)
    (hshort : assembly.bytes.length < 0xFFFF0000) (target : UInt16) :
    machine.Movable strict program origin assembly target := by
  refine ⟨exists_assemble_target_iff h, fun _ ↦ assemble_target_eq_error_iff h, ?_,
    moved_of_assemble h hshort, ?_⟩
  · intro hle
    apply (exists_assemble_target_iff h).mpr
    intro name address _
    have haddress := address.toNat_lt
    have hdistance : distance origin target ≤ 0 := by
      rw [UInt16.le_iff_toNat_le] at hle
      rw [distance]
      exact Int.sub_nonpos_of_le (Int.ofNat_le.mpr hle)
    omega
  · intro hsymbols moved hmoved
    apply List.ext_getElem?
    intro place
    apply (moved_of_assemble h hshort hmoved).byte
    rintro name ⟨index, position, mode, slot, hfills, -⟩
    obtain ⟨mnemonic, operands, hmem, hoperand⟩ := hfills.exists_mem
    exact hsymbols hmem name hoperand

/-- Four bytes below the end of the address space, the second label has no place any more. -/
theorem movable_of_assemble_loop :
    ∃ assembly, small.assemble ⟨0x1FE, true⟩ loop = .ok assembly ∧
      assembly.bytes.length < 0xFFFF0000 ∧
      small.Movable true loop 0x1FE assembly 0x2FF ∧
      (∃ moved, small.assemble ⟨0x2FF, true⟩ loop = .ok moved ∧
        assembly.Moved small loop 0x101 moved) ∧
      small.Movable true loop 0x1FE assembly 0xFFFC ∧
      small.assemble ⟨0xFFFC, true⟩ loop =
        .error ⟨⟨3, some "loop"⟩, .addressOverflow "end" 0x10002⟩ := by
  have hmoved : small.assemble ⟨0x2FF, true⟩ loop =
      .ok ⟨0x2FF, [0x20, 0x03, 0x05, 0x21, 0x01, 0x02, 0x20, 0x03, 0x02],
        ⟨[⟨"loop", 0x302⟩, ⟨"end", 0x305⟩]⟩,
        [⟨0, 0x2FF, 3⟩, ⟨2, 0x302, 3⟩, ⟨4, 0x305, 3⟩]⟩ := by
    rfl
  have hmovable := movable_of_assemble assemble_loop (by decide)
  exact ⟨_, assemble_loop, by decide, hmovable 0x2FF, ⟨_, hmoved, (hmovable 0x2FF).moved hmoved⟩,
    hmovable 0xFFFC, rfl⟩

end Machine

end TwoPass
