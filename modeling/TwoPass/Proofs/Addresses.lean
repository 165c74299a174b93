import Mathlib.Data.List.Forall2
import TwoPass.Proofs.Placement

/-!
# Exact addresses of labels

Declared sizes have 64 bits and the address counter of the first pass has 32, but no label is ever
bound to a sum that has been cut: a counter that has stopped at its largest value is beyond every
address, so the next label is reported, with the sum as far as 32 bits can show it.  Operands have
no part in any of this.
-/

namespace TwoPass

/-- Two statements that differ at most in the operands of an instruction. -/
inductive Statement.SameShape : Statement → Statement → Prop
  | label (name : String) : SameShape (.label name) (.label name)
  | instruction (mnemonic : String) (operands others : List Operand) :
      SameShape (.instruction mnemonic operands) (.instruction mnemonic others)

/-- Two programs that differ at most in the operands of their instructions. -/
def Program.SameShape : Program → Program → Prop :=
  List.Forall₂ Statement.SameShape

namespace InstructionTable

variable {table : InstructionTable} {origin : UInt16} {program other : Program}
  {labels : LabelTable}

/-- A label table binds the labels of a program, each to the exact sum of the declared sizes before
it. -/
structure BindsExactly (table : InstructionTable) (origin : UInt16) (program : Program)
    (labels : LabelTable) : Prop where
  /-- The sums have no gaps: every instruction declares a size. -/
  known : ∀ {mnemonic operands}, Statement.instruction mnemonic operands ∈ program →
    ∃ entry, table.get? mnemonic = some entry
  bound_iff : ∀ name, (∃ address, labels.get? name = some address) ↔
    Statement.label name ∈ program
  size_eq : labels.size = program.labelNames.length
  address : ∀ {index : Nat} {name : String}, program[index]? = some (.label name) →
    ∃ address, labels.get? name = some address ∧
      address.toNat = origin.toNat + Program.declaredSize table (program.take index) ∧
      origin.toNat + Program.declaredSize table (program.take index) ≤ 0xFFFF

/-- The exact sum of the declared sizes before a label is too large, and the reported address is as
much of it as fits in 32 bits. -/
structure ExceedsAt (table : InstructionTable) (origin : UInt16) (program : Program) (index : Nat)
    (name : String) (address : UInt32) : Prop where
  statement : program[index]? = some (.label name)
  known : ∀ {mnemonic operands}, Statement.instruction mnemonic operands ∈ program.take index →
    ∃ entry, table.get? mnemonic = some entry
  beyond : 0xFFFF < origin.toNat + Program.declaredSize table (program.take index)
  address_eq : address.toNat =
    min (origin.toNat + Program.declaredSize table (program.take index)) 0xFFFFFFFF

theorem bindsExactly_of_resolve (h : table.resolve origin program = .ok labels) :
    table.BindsExactly origin program labels := by
  obtain ⟨hplaces, hbindings⟩ := resolve_eq_ok_iff.mp h
  refine ⟨hplaces.known, ?_, ?_, ?_⟩
  · intro name
    rw [← Option.ne_none_iff_exists', ne_eq, get?_eq_none_iff_of_resolve h, Decidable.not_not]
  · rw [hbindings, ← Program.names_bindings table origin.toNat, List.length_map]
    rfl
  · intro index name hlabel
    obtain ⟨address, hget, haddress⟩ := get?_of_resolve h hlabel
    exact ⟨address, hget, haddress, hplaces.address_le hlabel⟩

/-- Before a statement that the first pass reports, every instruction is known. -/
theorem exists_entry_of_reports {diagnostic : Diagnostic}
    (h : Rule.Reports (PlacementFault table origin) program diagnostic) {mnemonic : String}
    {operands : List Operand}
    (hmem : .instruction mnemonic operands ∈ program.take diagnostic.location.index) :
    ∃ entry, table.get? mnemonic = some entry := by
  obtain ⟨index, hindex⟩ := List.getElem?_of_mem hmem
  rw [List.getElem?_take, Option.ite_none_right_eq_some] at hindex
  obtain ⟨hlt, hstatement⟩ := hindex
  cases hentry : table.get? mnemonic with
  | some entry => exact ⟨entry, rfl⟩
  | none => exact absurd ⟨_, hstatement, .unknownMnemonic hentry⟩ (h.least index hlt _)

theorem exceeds_of_placementFault {earlier : Program} {statement : Statement} {name : String}
    {address : UInt32}
    (h : PlacementFault table origin earlier statement (.addressOverflow name address)) :
    statement = .label name ∧ 0xFFFF < origin.toNat + Program.declaredSize table earlier ∧
      address.toNat = min (origin.toNat + Program.declaredSize table earlier) 0xFFFFFFFF := by
  generalize hcause : Cause.addressOverflow name address = cause at h
  cases h with
  | duplicateLabel _ => cases hcause
  | unknownMnemonic _ => cases hcause
  | addressOverflow _ hbeyond =>
    obtain ⟨rfl, haddress⟩ := Cause.addressOverflow.inj hcause
    refine ⟨rfl, hbeyond, ?_⟩
    rw [haddress, UInt32.toNat_ofNat']
    omega

theorem exceedsAt_of_resolve {here : Location} {name : String} {address : UInt32}
    (h : table.resolve origin program = .error ⟨here, .addressOverflow name address⟩) :
    table.ExceedsAt origin program here.index name address := by
  have hreports := resolve_eq_error_iff.mp h
  obtain ⟨statement, hstatement, hfault⟩ := hreports.broken
  obtain ⟨rfl, hbeyond, haddress⟩ := exceeds_of_placementFault hfault
  exact ⟨hstatement, exists_entry_of_reports hreports, hbeyond, haddress⟩

/-! ## Operands -/

theorem resolveFrom_of_sameShape (h : program.SameShape other) (here : Location)
    (defined : List String) (counter : UInt32) :
    table.resolveFrom here defined counter other =
      table.resolveFrom here defined counter program := by
  induction h generalizing here defined counter with
  | nil => rfl
  | cons hfirst _ ih =>
    cases hfirst with
    | label name => simp only [resolveFrom, ih]
    | instruction mnemonic operands others =>
      simp only [resolveFrom]
      cases table.get? mnemonic with
      | none => rfl
      | some entry => exact ih _ defined (advance counter entry.size)

/-- The first pass does not look at operands, neither for its outcome nor for its events. -/
theorem resolveLogged_of_sameShape (h : program.SameShape other) :
    table.resolveLogged origin other = table.resolveLogged origin program := by
  unfold resolveLogged
  rw [resolveFrom_of_sameShape h]

/-- The first pass binds labels to exact sums or reports one that is too large, and the operands of
a program make no difference. -/
theorem resolve_exact (table : InstructionTable) (origin : UInt16) (program : Program) :
    (∀ labels, table.resolve origin program = .ok labels →
      table.BindsExactly origin program labels) ∧
    (∀ here name address,
      table.resolve origin program = .error ⟨here, .addressOverflow name address⟩ →
        table.ExceedsAt origin program here.index name address) ∧
    ∀ other, program.SameShape other →
      table.resolve origin other = table.resolve origin program := by
  refine ⟨fun _ ↦ bindsExactly_of_resolve, fun _ _ _ ↦ exceedsAt_of_resolve, ?_⟩
  intro other hshape
  unfold resolve
  rw [resolveLogged_of_sameShape hshape]

/-- A table whose sizes reach the last address, and the largest size of all. -/
def vast : InstructionTable :=
  ofList [("fill", ⟨0x30, .bare, 0xFFFF, none⟩), ("flood", ⟨0x31, .bare, 0xFFFFFFFFFFFFFFFF, none⟩)]

/-- A label at the last address is bound, one behind it is reported, and a sum of more than 64 bits
is reported as the largest address. -/
theorem resolve_exact_vast :
    (∃ labels, vast.resolve 0 [.instruction "fill" [], .label "end"] = .ok labels ∧
      labels.get? "end" = some 0xFFFF ∧
      vast.BindsExactly 0 [.instruction "fill" [], .label "end"] labels) ∧
    vast.ExceedsAt 1 [.instruction "fill" [], .label "end"] 1 "end" 0x10000 ∧
    vast.ExceedsAt 0 [.instruction "flood" [], .instruction "flood" [], .label "end"] 2 "end"
      0xFFFFFFFF ∧
    vast.resolve 0 [.instruction "fill" [.register "none"], .label "end"] =
      vast.resolve 0 [.instruction "fill" [], .label "end"] := by
  have hbound : vast.resolve 0 [.instruction "fill" [], .label "end"] =
      .ok ⟨[⟨"end", 0xFFFF⟩]⟩ := by
    rfl
  have hbehind : vast.resolve 1 [.instruction "fill" [], .label "end"] =
      .error ⟨⟨1, none⟩, .addressOverflow "end" 0x10000⟩ := by
    rfl
  have hfar : vast.resolve 0 [.instruction "flood" [], .instruction "flood" [], .label "end"] =
      .error ⟨⟨2, none⟩, .addressOverflow "end" 0xFFFFFFFF⟩ := by
    rfl
  have hshape : Program.SameShape [.instruction "fill" [], .label "end"]
      [.instruction "fill" [.register "none"], .label "end"] :=
    .cons (.instruction "fill" [] _) (.cons (.label "end") .nil)
  refine ⟨⟨_, hbound, by decide, (resolve_exact vast 0 _).1 _ hbound⟩, ?_, ?_, ?_⟩
  · exact (resolve_exact vast 1 _).2.1 _ _ _ hbehind
  · exact (resolve_exact vast 0 _).2.1 _ _ _ hfar
  · exact (resolve_exact vast 0 _).2.2 _ hshape

end InstructionTable

end TwoPass
