import TwoPass.LabelTable
import TwoPass.Proofs.FirstFault

/-!
# What the first pass decides

The first pass keeps a list of names and an address counter that stops at its largest value.
`Placing` relates both to the statements that the pass has behind it: the names are those of the
labels there, and the counter is the exact sum of the declared sizes as long as that sum can still
be the address of a label.  The pass therefore ends at the first statement that breaks one of the
rules of `PlacementFault`, and otherwise binds every label to the exact sum before it.
-/

namespace TwoPass

/-! ## The rules of the first pass -/

/-- The causes for which the first pass rejects a statement. -/
inductive PlacementFault (table : InstructionTable) (origin : UInt16) (earlier : Program) :
    Statement → Cause → Prop
  | duplicateLabel {name : String} (hdefined : .label name ∈ earlier) :
      PlacementFault table origin earlier (.label name) (.duplicateLabel name)
  | addressOverflow {name : String} (hfresh : .label name ∉ earlier)
      (hbeyond : 0xFFFF < origin.toNat + Program.declaredSize table earlier) :
      PlacementFault table origin earlier (.label name)
        (.addressOverflow name
          (UInt32.ofNat (min (origin.toNat + Program.declaredSize table earlier) 0xFFFFFFFF)))
  | unknownMnemonic {mnemonic : String} {operands : List Operand}
      (hunknown : table.get? mnemonic = none) :
      PlacementFault table origin earlier (.instruction mnemonic operands)
        (.unknownMnemonic mnemonic)

theorem PlacementFault.unambiguous (table : InstructionTable) (origin : UInt16) :
    Rule.Unambiguous (PlacementFault table origin) := by
  intro earlier statement cause other hcause hother
  cases hcause with
  | duplicateLabel hdefined =>
    cases hother with
    | duplicateLabel _ => rfl
    | addressOverflow hfresh _ => exact absurd hdefined hfresh
  | addressOverflow hfresh _ =>
    cases hother with
    | duplicateLabel hdefined => exact absurd hdefined hfresh
    | addressOverflow _ _ => rfl
  | unknownMnemonic _ =>
    cases hother with
    | unknownMnemonic _ => rfl

theorem PlacementFault.not_label_iff {table : InstructionTable} {origin : UInt16}
    {earlier : Program} {name : String} :
    (∀ cause, ¬ PlacementFault table origin earlier (.label name) cause) ↔
      Statement.label name ∉ earlier ∧
        origin.toNat + Program.declaredSize table earlier ≤ 0xFFFF := by
  refine ⟨?_, ?_⟩
  · intro h
    have hfresh : Statement.label name ∉ earlier := fun hmem ↦ h _ (.duplicateLabel hmem)
    exact ⟨hfresh, Nat.le_of_not_lt fun hbeyond ↦ h _ (.addressOverflow hfresh hbeyond)⟩
  · intro ⟨hfresh, hle⟩ cause hfault
    cases hfault with
    | duplicateLabel hmem => exact hfresh hmem
    | addressOverflow _ hbeyond => omega

/-! ## The bindings of a program -/

/-- The bindings of the labels of a program whose first instruction has the given address. -/
def Program.bindings (table : InstructionTable) : Nat → Program → List Binding
  | _, [] => []
  | address, .label name :: rest =>
    ⟨name, UInt16.ofNat address⟩ :: bindings table address rest
  | address, .instruction mnemonic operands :: rest =>
    bindings table (address + declaredSize table [.instruction mnemonic operands]) rest

namespace Program

variable {table : InstructionTable} {address : Nat} {program : Program}

theorem names_bindings (table : InstructionTable) (address : Nat) (program : Program) :
    (program.bindings table address).map Binding.name = program.labelNames := by
  induction program generalizing address with
  | nil => rfl
  | cons statement rest ih =>
    cases statement with
    | label name =>
      change name :: (bindings table address rest).map Binding.name = name :: labelNames rest
      rw [ih]
    | instruction mnemonic operands => exact ih _

theorem get?_bindings_eq_none_iff {name : String} :
    (LabelTable.mk (program.bindings table address)).get? name = none ↔
      Statement.label name ∉ program := by
  rw [← mem_labelNames, ← names_bindings table address, LabelTable.get?, Option.map_eq_none_iff,
    List.find?_eq_none, List.mem_map]
  simp

/-- Every label is bound to the address that the declared sizes before it add up to. -/
theorem mem_bindings_of_label {index : Nat} {name : String}
    (h : program[index]? = some (.label name)) :
    ⟨name, UInt16.ofNat (address + declaredSize table (program.take index))⟩ ∈
      program.bindings table address := by
  induction program generalizing address index with
  | nil => simp at h
  | cons statement rest ih =>
    cases index with
    | zero =>
      rw [List.getElem?_cons_zero, Option.some.injEq] at h
      subst h
      exact List.mem_cons_self
    | succ index =>
      rw [List.getElem?_cons_succ] at h
      cases statement with
      | label other =>
        exact List.mem_cons_of_mem _ (ih h)
      | instruction mnemonic operands =>
        have hsplit : declaredSize table
            ((Statement.instruction mnemonic operands :: rest).take (index + 1)) =
            declaredSize table [.instruction mnemonic operands] +
              declaredSize table (rest.take index) :=
          extent_append _ table [.instruction mnemonic operands] (rest.take index)
        rw [hsplit, ← Nat.add_assoc]
        exact ih h

end Program

/-- Looking up a name finds its only binding. -/
theorem LabelTable.get?_eq_some_iff {labels : LabelTable} {name : String} {address : UInt16}
    (hnodup : (labels.bindings.map Binding.name).Nodup) :
    labels.get? name = some address ↔ ⟨name, address⟩ ∈ labels.bindings := by
  obtain ⟨bindings⟩ := labels
  simp only [get?, Option.map_eq_some_iff]
  refine ⟨?_, ?_⟩
  · intro ⟨binding, hfind, haddress⟩
    subst haddress
    have hname : binding.name = name := by simpa using List.find?_some hfind
    rw [← hname]
    exact List.mem_of_find?_eq_some hfind
  · intro hmem
    induction bindings with
    | nil => cases hmem
    | cons first rest ih =>
      rw [List.map_cons, List.nodup_cons] at hnodup
      rcases List.mem_cons.mp hmem with rfl | hrest
      · exact ⟨⟨name, address⟩, by simp, rfl⟩
      · have hother : first.name ≠ name := by
          intro hname
          apply hnodup.1
          rw [hname]
          exact List.mem_map.mpr ⟨_, hrest, rfl⟩
        obtain ⟨binding, hfind, haddress⟩ := ih hnodup.2 hrest
        exact ⟨binding, by simpa [List.find?_cons, hother] using hfind, haddress⟩

/-! ## The walk of the first pass -/

namespace InstructionTable

/-- What the state of the first pass says about the statements behind it. -/
structure Placing (table : InstructionTable) (origin : UInt16) (earlier : Program)
    (here : Location) (defined : List String) (counter : UInt32) : Prop where
  location : here = Location.start.following earlier
  defined_iff : ∀ name, name ∈ defined ↔ Statement.label name ∈ earlier
  counter_eq : counter.toNat =
    min (origin.toNat + Program.declaredSize table earlier) 0xFFFFFFFF

namespace Placing

variable {table : InstructionTable} {origin : UInt16} {earlier : Program} {here : Location}
  {defined : List String} {counter : UInt32}

theorem start (table : InstructionTable) (origin : UInt16) :
    Placing table origin [] .start [] origin.toUInt32 where
  location := rfl
  defined_iff := by simp
  counter_eq := by
    have horigin := origin.toNat_lt
    simp only [UInt16.toNat_toUInt32, Program.declaredSize, Program.extent_nil]
    omega

theorem label (h : Placing table origin earlier here defined counter) (name : String) :
    Placing table origin (earlier ++ [.label name]) (here.after (.label name)) (name :: defined)
      counter where
  location := by rw [Location.following_concat, ← h.location]
  defined_iff other := by
    rw [List.mem_cons, h.defined_iff, List.mem_append, List.mem_singleton,
      Statement.label.injEq, or_comm]
  counter_eq := by
    rw [h.counter_eq, Program.declaredSize, Program.extent_append]
    rfl

theorem instruction (h : Placing table origin earlier here defined counter) {mnemonic : String}
    {entry : Entry} (hentry : table.get? mnemonic = some entry) (operands : List Operand) :
    Placing table origin (earlier ++ [.instruction mnemonic operands])
      (here.after (.instruction mnemonic operands)) defined (advance counter entry.size) where
  location := by rw [Location.following_concat, ← h.location]
  defined_iff name := by
    rw [h.defined_iff, List.mem_append, List.mem_singleton]
    simp
  counter_eq := by
    have hcounter := h.counter_eq
    rw [toNat_advance, Program.declaredSize, Program.extent_append,
      Program.extent_instruction _ table hentry, Program.extent_nil]
    rw [Program.declaredSize] at hcounter
    omega

/-- The counter passes the largest address exactly if the exact sum does. -/
theorem counter_le_iff (h : Placing table origin earlier here defined counter) :
    counter ≤ addressLimit ↔
      origin.toNat + Program.declaredSize table earlier ≤ 0xFFFF := by
  have hcounter := h.counter_eq
  rw [UInt32.le_iff_toNat_le, show addressLimit.toNat = 0xFFFF from rfl]
  omega

theorem toUInt16_counter (h : Placing table origin earlier here defined counter)
    (hle : origin.toNat + Program.declaredSize table earlier ≤ 0xFFFF) :
    counter.toUInt16 = UInt16.ofNat (origin.toNat + Program.declaredSize table earlier) := by
  have hcounter := h.counter_eq
  apply UInt16.toNat_inj.mp
  rw [UInt32.toNat_toUInt16, UInt16.toNat_ofNat', hcounter]
  omega

end Placing

variable {table : InstructionTable} {origin : UInt16}

/-- The first pass over the rest of a program ends at the first fault there, and without a fault it
gives the bindings of the rest. -/
theorem walkEnds_resolveFrom {earlier : Program} {here : Location} {defined : List String}
    {counter : UInt32} (h : table.Placing origin earlier here defined counter) (rest : Program) :
    WalkEnds (PlacementFault table origin) earlier rest
      (· = Program.bindings table (origin.toNat + Program.declaredSize table earlier) rest)
      (table.resolveFrom here defined counter rest).outcome := by
  induction rest generalizing earlier here defined counter with
  | nil => exact .clean (fun _ ↦ FirstFault.not_nil) rfl
  | cons statement rest ih =>
    cases statement with
    | label name =>
      rw [resolveFrom]
      by_cases hdefined : name ∈ defined
      · rw [if_pos hdefined, Logged.outcome_fail, h.location]
        exact .fault (.here (.duplicateLabel ((h.defined_iff name).mp hdefined)))
      rw [if_neg hdefined]
      have hfresh : .label name ∉ earlier := fun hmem ↦ hdefined ((h.defined_iff name).mpr hmem)
      by_cases hcounter : counter ≤ addressLimit
      · rw [if_pos hcounter]
        have hle := h.counter_le_iff.mp hcounter
        have hclean := PlacementFault.not_label_iff.mpr ⟨hfresh, hle⟩
        simp only [Logged.outcome_bind, Logged.outcome_emit, Logged.outcome_pure]
        apply ((ih (h.label name)).later hclean).map
        intro bindings hbindings
        subst hbindings
        have hsame : Program.declaredSize table (earlier ++ [.label name]) =
            Program.declaredSize table earlier := Program.extent_append _ _ _ _
        rw [hsame, Program.bindings, h.toUInt16_counter hle]
      · rw [if_neg hcounter, Logged.outcome_fail, h.location]
        have hbeyond : 0xFFFF < origin.toNat + Program.declaredSize table earlier :=
          Nat.lt_of_not_le fun hle ↦ hcounter (h.counter_le_iff.mpr hle)
        rw [← UInt32.ofNat_toNat (x := counter), h.counter_eq]
        exact .fault (.here (.addressOverflow hfresh hbeyond))
    | instruction mnemonic operands =>
      rw [resolveFrom]
      cases hentry : table.get? mnemonic with
      | none =>
        rw [Logged.outcome_fail, h.location]
        exact .fault (.here (.unknownMnemonic hentry))
      | some entry =>
        have hclean : ∀ cause,
            ¬ PlacementFault table origin earlier (.instruction mnemonic operands) cause := by
          intro cause hfault
          cases hfault with
          | unknownMnemonic hunknown =>
            rw [hentry] at hunknown
            cases hunknown
        have hrest := ih (h.instruction hentry operands)
        have hsum : Program.declaredSize table (earlier ++ [.instruction mnemonic operands]) =
            Program.declaredSize table earlier +
              Program.declaredSize table [.instruction mnemonic operands] :=
          Program.extent_append _ _ _ _
        rw [hsum, ← Nat.add_assoc] at hrest
        exact hrest.later hclean

/-! ## The label table of a program -/

theorem walkEnds_resolve (table : InstructionTable) (origin : UInt16) (program : Program) :
    WalkEnds (PlacementFault table origin) [] program
      (· = ⟨Program.bindings table origin.toNat program⟩) (table.resolve origin program) := by
  have hwalk := walkEnds_resolveFrom (Placing.start table origin) program
  simp only [resolve, resolveLogged, Logged.outcome_bind, Logged.outcome_pure]
  apply hwalk.map
  intro bindings hbindings
  rw [hbindings]
  rfl

theorem resolve_eq_error_iff {program : Program} {diagnostic : Diagnostic} :
    table.resolve origin program = .error diagnostic ↔
      Rule.Reports (PlacementFault table origin) program diagnostic :=
  (walkEnds_resolve table origin program).eq_error_iff (PlacementFault.unambiguous table origin)

/-- No statement of a program breaks a rule of the first pass. -/
structure Places (table : InstructionTable) (origin : UInt16) (program : Program) : Prop where
  known : ∀ {mnemonic operands}, Statement.instruction mnemonic operands ∈ program →
    ∃ entry, table.get? mnemonic = some entry
  fresh : ∀ {index : Nat} {name}, program[index]? = some (.label name) →
    Statement.label name ∉ program.take index
  address_le : ∀ {index : Nat} {name}, program[index]? = some (.label name) →
    origin.toNat + Program.declaredSize table (program.take index) ≤ 0xFFFF

theorem places_iff {program : Program} :
    table.Places origin program ↔
      ∀ index cause, ¬ Rule.BrokenAt (PlacementFault table origin) program index cause := by
  refine ⟨?_, ?_⟩
  · intro h index cause ⟨statement, hstatement, hfault⟩
    cases hfault with
    | duplicateLabel hdefined => exact h.fresh hstatement hdefined
    | addressOverflow _ hbeyond => exact absurd (h.address_le hstatement) (Nat.not_le.mpr hbeyond)
    | unknownMnemonic hunknown =>
      obtain ⟨entry, hentry⟩ := h.known (List.mem_of_getElem? hstatement)
      rw [hunknown] at hentry
      cases hentry
  · intro h
    have hfresh {index : Nat} {name : String} (hlabel : program[index]? = some (.label name)) :
        Statement.label name ∉ program.take index :=
      fun hdefined ↦ h index _ ⟨_, hlabel, .duplicateLabel hdefined⟩
    refine ⟨?_, hfresh, ?_⟩
    · intro mnemonic operands hmem
      obtain ⟨index, hstatement⟩ := List.getElem?_of_mem hmem
      cases hentry : table.get? mnemonic with
      | none => exact absurd ⟨_, hstatement, .unknownMnemonic hentry⟩ (h index _)
      | some entry => exact ⟨entry, rfl⟩
    · intro index name hlabel
      apply Nat.le_of_not_lt
      intro hbeyond
      exact h index _ ⟨_, hlabel, .addressOverflow (hfresh hlabel) hbeyond⟩

/-- The first pass succeeds exactly on the programs that break none of its rules, and its table
binds every label to its exact address. -/
theorem resolve_eq_ok_iff {program : Program} {labels : LabelTable} :
    table.resolve origin program = .ok labels ↔
      table.Places origin program ∧ labels = ⟨Program.bindings table origin.toNat program⟩ := by
  have hwalk := walkEnds_resolve table origin program
  rw [places_iff, ← hwalk.exists_ok_iff]
  refine ⟨?_, ?_⟩
  · intro hok
    exact ⟨⟨labels, hok⟩, hwalk.accepts_of_eq_ok hok⟩
  · intro ⟨⟨value, hok⟩, hlabels⟩
    rw [hok, hlabels, hwalk.accepts_of_eq_ok hok]

variable {program : Program} {labels : LabelTable}

theorem nodup_of_resolve (h : table.resolve origin program = .ok labels) :
    (labels.bindings.map Binding.name).Nodup := by
  obtain ⟨hplaces, rfl⟩ := resolve_eq_ok_iff.mp h
  rw [Program.names_bindings]
  exact Program.nodup_labelNames_of_fresh fun _ _ ↦ hplaces.fresh

/-- The address of a label is the origin and the declared sizes before the label, exactly. -/
theorem get?_of_resolve (h : table.resolve origin program = .ok labels) {index : Nat}
    {name : String} (hlabel : program[index]? = some (.label name)) :
    ∃ address, labels.get? name = some address ∧
      address.toNat = origin.toNat + Program.declaredSize table (program.take index) := by
  have hnodup := nodup_of_resolve h
  obtain ⟨hplaces, rfl⟩ := resolve_eq_ok_iff.mp h
  refine ⟨_, (LabelTable.get?_eq_some_iff hnodup).mpr (Program.mem_bindings_of_label hlabel), ?_⟩
  have hle := hplaces.address_le hlabel
  rw [UInt16.toNat_ofNat']
  omega

theorem get?_eq_none_iff_of_resolve (h : table.resolve origin program = .ok labels)
    {name : String} : labels.get? name = none ↔ Statement.label name ∉ program := by
  obtain ⟨-, rfl⟩ := resolve_eq_ok_iff.mp h
  exact Program.get?_bindings_eq_none_iff

theorem mem_of_get?_of_resolve (h : table.resolve origin program = .ok labels) {name : String}
    {address : UInt16} (hget : labels.get? name = some address) :
    Statement.label name ∈ program := by
  apply Decidable.not_not.mp
  intro hnot
  rw [← get?_eq_none_iff_of_resolve h, hget] at hnot
  cases hnot

end InstructionTable

end TwoPass
