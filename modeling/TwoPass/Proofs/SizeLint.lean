import TwoPass.Proofs.ByteOrder
import TwoPass.Proofs.Decoding
import TwoPass.Proofs.General
import TwoPass.Proofs.SizeCheck

/-!
# The list of wrong sizes

A table can list its entries with a wrong size before any program is assembled.  The list tells
exactly what strict sizes will find: each listed name is reported for some program, and nothing but
listed names is ever reported.  Its order is that of the names' bytes, and it does not depend on the
order in which the entries of the table are visited.
-/

namespace TwoPass

namespace InstructionTable

variable {table : InstructionTable}

/-- A table has an entry under a name. -/
def HasEntry (table : InstructionTable) (named : String × Entry) : Prop :=
  table.get? named.1 = some named.2

/-- What the list of wrong sizes says about a table, and about every run over it. -/
structure ListsWrongSizes (table : InstructionTable) : Prop where
  listed_iff : ∀ name entry, (name, entry) ∈ table.sizeMismatches ↔
    table.get? name = some entry ∧ entry.size.toNat ≠ entry.mode.encodedSize
  /-- Names come in the order of their bytes, and none comes twice. -/
  increasing : table.sizeMismatches.Pairwise fun first second ↦
    Text.utf8 first.1 < Text.utf8 second.1
  /-- Any enumeration of the table leads to the same list. -/
  of_enumerates : ∀ named, Enumerates table.HasEntry named →
    sortByKey Prod.fst (named.filter fun (_, entry) ↦ !entry.sizeAgrees) = table.sizeMismatches
  /-- The reported sizes are those of the listed entries, whatever the origin is. -/
  reported_iff : ∀ registers : RegisterFile, registers.names ≠ [] →
    ∀ (origin : UInt16) (name : String) (declared : UInt64) (emitted : Nat),
      (∃ program here, (Machine.mk table registers).assemble ⟨origin, true⟩ program =
        .error ⟨here, .sizeMismatch name declared emitted⟩) ↔
      ∃ entry, (name, entry) ∈ table.sizeMismatches ∧ declared = entry.size ∧
        emitted = entry.mode.encodedSize
  /-- With an empty list there is no such report, not even where registers are missing. -/
  silent : table.sizeMismatches = [] →
    ∀ (registers : RegisterFile) (config : Config) (program : Program) (here : Location)
      (name : String) (declared : UInt64) (emitted : Nat),
      (Machine.mk table registers).assemble config program ≠
        .error ⟨here, .sizeMismatch name declared emitted⟩

/-! ## Members and order of the list -/

theorem enumerates_toList (table : InstructionTable) :
    Enumerates table.HasEntry table.entries.toList where
  nodup := by
    apply List.Nodup.of_map Prod.fst
    rw [Std.TreeMap.map_fst_toList_eq_keys]
    exact Std.TreeMap.nodup_keys
  mem_iff _ := Std.TreeMap.mem_toList_iff_getElem?_eq_some

theorem mem_sizeMismatches_iff {name : String} {entry : Entry} :
    (name, entry) ∈ table.sizeMismatches ↔
      table.get? name = some entry ∧ entry.size.toNat ≠ entry.mode.encodedSize := by
  unfold sizeMismatches
  rw [List.mem_filter, (enumerates_toList table).mem_iff]
  simp [HasEntry, Entry.sizeAgrees]

theorem pairwise_sizeMismatches (table : InstructionTable) :
    table.sizeMismatches.Pairwise fun first second ↦ first.1 < second.1 := by
  unfold sizeMismatches
  apply List.Pairwise.filter
  have hordered := Std.TreeMap.ordered_keys_toList (t := table.entries)
  apply hordered.imp
  intro first second hless
  exact compareOfLessAndEq_eq_lt.mp hless

/-- The list does not depend on the order in which the entries are visited. -/
theorem sortByKey_eq_sizeMismatches {named : List (String × Entry)}
    (h : Enumerates table.HasEntry named) :
    sortByKey Prod.fst (named.filter fun (_, entry) ↦ !entry.sizeAgrees) =
      table.sizeMismatches := by
  apply (h.filter _).sortByKey_eq _ ((enumerates_toList table).filter _)
  · exact (pairwise_sizeMismatches table).imp le_of_lt
  · intro (name, entry) (other, otherEntry) hentry hother hname
    obtain rfl : name = other := hname
    obtain rfl : entry = otherEntry := Option.some.inj (hentry.1.symm.trans hother.1)
    rfl

end InstructionTable

/-! ## Only listed names are reported -/

theorem EncodingFault.exists_entry_of_sizeMismatch {machine : Machine} {isLabel : String → Prop}
    {strict : Bool} {earlier : Program} {statement : Statement} {name : String} {declared : UInt64}
    {emitted : Nat}
    (h : EncodingFault machine isLabel strict earlier statement
      (.sizeMismatch name declared emitted)) :
    ∃ entry, (name, entry) ∈ machine.instructions.sizeMismatches ∧ declared = entry.size ∧
      emitted = entry.mode.encodedSize := by
  cases h with
  | operand _ _ hleftmost =>
    obtain ⟨position, ⟨slot, operand, -, -, hfault⟩, -⟩ := hleftmost
    cases hfault
  | @size _ _ entry hentry _ _ _ hsize =>
    exact ⟨entry, InstructionTable.mem_sizeMismatches_iff.mpr ⟨hentry, hsize⟩, rfl, rfl⟩

namespace Machine

variable {machine : Machine} {config : Config} {program : Program} {here : Location}
  {name : String} {declared : UInt64} {emitted : Nat} {entry : Entry}

theorem exists_listed_of_assemble (h : machine.assemble config program =
      .error ⟨here, .sizeMismatch name declared emitted⟩) :
    ∃ entry, (name, entry) ∈ machine.instructions.sizeMismatches ∧ declared = entry.size ∧
      emitted = entry.mode.encodedSize := by
  rw [assemble_eq_error_iff] at h
  cases h with
  | placement hreports =>
    obtain ⟨statement, -, hfault⟩ := hreports.broken
    cases hfault
  | encoding _ hreports =>
    obtain ⟨statement, -, hfault⟩ := hreports.broken
    exact hfault.exists_entry_of_sizeMismatch

end Machine

/-! ## Every listed name is reported -/

/-- An operand that a slot takes, over register files with the given name. -/
def Operand.fitting (register : String) : Slot → Operand
  | .register => .register register
  | .byte => .literal "0"
  | .word => .literal "0"

theorem not_operandFault_fitting {registers : RegisterFile} {register : String}
    (hregister : register ∈ registers.names) {isLabel : String → Prop} {mnemonic : String}
    (slot : Slot) (cause : Cause) :
    ¬ OperandFault registers isLabel mnemonic slot (.fitting register slot) cause := by
  have hliteral : IsLiteral "0" :=
    ⟨0, Numeral.denotes_toDigits (by decide) (Nat.le_refl 16) 0, by decide⟩
  intro h
  cases slot with
  | register =>
    cases h with
    | notARegister hoperand => exact hoperand register rfl
    | unknownRegister hname => exact hname hregister
    | notAValue hslot => exact hslot rfl
  | byte =>
    cases h with
    | invalidLiteral _ hdigits => exact hdigits hliteral
  | word =>
    cases h with
    | invalidLiteral _ hdigits => exact hdigits hliteral

namespace Machine

variable {machine : Machine} {origin : UInt16} {name register : String} {entry : Entry}

/-- The program of one instruction, with operands that fit its slots. -/
def probe (name register : String) (entry : Entry) : Program :=
  [.instruction name (entry.mode.slots.map (.fitting register))]

/-- An instruction with a wrong size passes all other checks, if it has operands that fit. -/
theorem assemble_probe (hregister : register ∈ machine.registers.names)
    (hlisted : (name, entry) ∈ machine.instructions.sizeMismatches) (origin : UInt16) :
    machine.assemble ⟨origin, true⟩ (probe name register entry) =
      .error ⟨.start, .sizeMismatch name entry.size entry.mode.encodedSize⟩ := by
  obtain ⟨hentry, hsize⟩ := InstructionTable.mem_sizeMismatches_iff.mp hlisted
  have hclean : ∀ position cause, ¬ OperandFaultAt machine.registers
      (fun label ↦ .label label ∈ probe name register entry) name entry.mode.slots
      (entry.mode.slots.map (.fitting register)) position cause := by
    intro position cause ⟨slot, operand, hslot, hoperand, hfault⟩
    rw [List.getElem?_map, hslot, Option.map_some, Option.some.injEq] at hoperand
    subst hoperand
    exact not_operandFault_fitting hregister slot cause hfault
  rw [assemble_eq_error_iff]
  refine .encoding ?_ ⟨?_, ?_, rfl⟩
  · intro index cause ⟨statement, hstatement, hfault⟩
    have hmem := List.mem_of_getElem? hstatement
    rw [probe, List.mem_singleton] at hmem
    subst hmem
    cases hfault with
    | unknownMnemonic hunknown =>
      rw [hentry] at hunknown
      cases hunknown
  · exact ⟨_, rfl, .size hentry (List.length_map _) hclean rfl hsize⟩
  · intro index hindex
    exact absurd hindex (Nat.not_lt_zero index)

end Machine

/-! ## The list as a whole -/

theorem Descriptor.size_entry (descriptor : Descriptor) :
    descriptor.entry.size.toNat = descriptor.entry.mode.encodedSize := by
  unfold entry
  cases descriptor.mode <;> rfl

/-- No built-in instruction declares a wrong size. -/
theorem InstructionTable.sizeMismatches_builtin : builtin.sizeMismatches = [] := by
  apply List.eq_nil_iff_forall_not_mem.mpr
  intro (name, entry) hlisted
  obtain ⟨hentry, hsize⟩ := mem_sizeMismatches_iff.mp hlisted
  obtain ⟨descriptor, -, hdescriptor⟩ := List.mem_map.mp (mem_of_get?_ofList hentry)
  obtain ⟨-, rfl⟩ := Prod.mk.inj hdescriptor
  exact hsize descriptor.size_entry

/-- The list of a table's wrong sizes is what strict sizes report, no more and no less. -/
theorem InstructionTable.listsWrongSizes (table : InstructionTable) : table.ListsWrongSizes where
  listed_iff _ _ := mem_sizeMismatches_iff
  increasing := (pairwise_sizeMismatches table).imp Text.utf8_lt_utf8_iff.mpr
  of_enumerates _ h := sortByKey_eq_sizeMismatches h
  reported_iff registers hregisters origin name declared emitted := by
    refine ⟨?_, ?_⟩
    · intro ⟨program, here, hassemble⟩
      exact Machine.exists_listed_of_assemble hassemble
    · intro ⟨entry, hlisted, hdeclared, hemitted⟩
      obtain ⟨register, hregister⟩ := List.exists_mem_of_ne_nil _ hregisters
      rw [hdeclared, hemitted]
      refine ⟨Machine.probe name register entry, .start, ?_⟩
      apply Machine.assemble_probe hregister hlisted
  silent hempty registers config program here name declared emitted hassemble := by
    obtain ⟨entry, hlisted, -⟩ := Machine.exists_listed_of_assemble hassemble
    change (name, entry) ∈ table.sizeMismatches at hlisted
    rw [hempty] at hlisted
    cases hlisted

/-- Even at the last address the wrong size of a small machine is reported, while the built-in
instructions are never reported. -/
theorem InstructionTable.listsWrongSizes_small :
    Machine.small.instructions.sizeMismatches = [("pad", ⟨0x22, .bare, 9, none⟩)] ∧
    (∃ program here, (Machine.mk Machine.small.instructions .builtin).assemble ⟨0xFFFF, true⟩
      program = .error ⟨here, .sizeMismatch "pad" 9 1⟩) ∧
    ∀ (registers : RegisterFile) (config : Config) (program : Program) (here : Location)
      (name : String) (declared : UInt64) (emitted : Nat),
      (Machine.mk .builtin registers).assemble config program ≠
        .error ⟨here, .sizeMismatch name declared emitted⟩ := by
  have hlist : Machine.small.instructions.sizeMismatches =
      [("pad", ⟨0x22, .bare, 9, none⟩)] := by
    rfl
  refine ⟨hlist, ?_, (listsWrongSizes builtin).silent sizeMismatches_builtin⟩
  apply ((listsWrongSizes Machine.small.instructions).reported_iff .builtin (by decide) 0xFFFF
    "pad" 9 1).mpr
  exact ⟨_, hlist ▸ List.mem_cons_self, rfl, rfl⟩

end TwoPass
