import Mathlib.Data.Prod.Lex
import TwoPass.Interchange.LabelTable
import TwoPass.Proofs.ByteOrder
import TwoPass.Proofs.General
import TwoPass.Proofs.Image
import TwoPass.Proofs.Interchange.RoundTrip

/-!
# Exported label tables

The export of a label table lists its bindings by address, and by the bytes of the name where
addresses are equal.  No two bindings have the same name, so the list is the same in whatever order
the table is visited.  Labels with bytes between them keep the order of their definitions, and the
list is read back from its text.
-/

namespace TwoPass

/-! ## The order of bindings -/

namespace Binding

/-- What the export sorts by. -/
def exportKey (binding : Binding) : Nat ×ₗ String :=
  toLex (binding.address.toNat, binding.name)

/-- A binding comes before another one in the export. -/
def Precedes (first second : Binding) : Prop :=
  first.address < second.address ∨
    first.address = second.address ∧ Text.utf8 first.name < Text.utf8 second.name

variable {first second : Binding}

theorem exportKey_injective : Function.Injective exportKey := by
  intro first second hkey
  obtain ⟨haddress, hname⟩ := Prod.mk.inj (toLex.injective hkey)
  obtain ⟨name, address⟩ := first
  obtain ⟨otherName, otherAddress⟩ := second
  rw [Binding.mk.injEq]
  exact ⟨hname, UInt16.toNat_inj.mp haddress⟩

theorem exportLE_iff :
    LabelTable.exportLE first second = true ↔ first.exportKey ≤ second.exportKey := by
  unfold LabelTable.exportLE exportKey
  rw [Prod.Lex.toLex_le_toLex]
  simp [UInt16.lt_iff_toNat_lt, ← UInt16.toNat_inj]

theorem precedes_iff : first.Precedes second ↔ first.exportKey < second.exportKey := by
  unfold Precedes exportKey
  rw [Prod.Lex.toLex_lt_toLex, Text.utf8_lt_utf8_iff, UInt16.lt_iff_toNat_lt, UInt16.toNat_inj]

end Binding

namespace LabelTable

variable {labels : LabelTable} {visited : List Binding}

theorem sorted_eq (labels : LabelTable) :
    labels.sorted = sortByKey Binding.exportKey labels.bindings := by
  have hle : exportLE = fun first second ↦ decide (first.exportKey ≤ second.exportKey) := by
    funext first second
    rw [Bool.eq_iff_iff, Binding.exportLE_iff, decide_eq_true_eq]
  rw [sorted, hle, sortByKey]

/-- A table binds a name to an address. -/
def HasBinding (labels : LabelTable) (binding : Binding) : Prop :=
  labels.get? binding.name = some binding.address

theorem enumerates_bindings (hnodup : (labels.bindings.map Binding.name).Nodup) :
    Enumerates labels.HasBinding labels.bindings where
  nodup := .of_map _ hnodup
  mem_iff _ := (get?_eq_some_iff hnodup).symm

theorem enumerates_sorted (hnodup : (labels.bindings.map Binding.name).Nodup) :
    Enumerates labels.HasBinding labels.sorted :=
  (enumerates_bindings hnodup).of_perm (List.mergeSort_perm _ _)

/-- Sorting forgets the order in which the bindings are visited: those with equal keys are equal. -/
theorem sorted_of_enumerates (hnodup : (labels.bindings.map Binding.name).Nodup)
    (h : Enumerates labels.HasBinding visited) :
    (LabelTable.mk visited).sorted = labels.sorted := by
  rw [sorted_eq]
  apply h.sortByKey_eq _ (enumerates_sorted hnodup)
  · rw [sorted_eq]
    exact pairwise_sortByKey _ _
  · intro first second _ _ hkey
    exact Binding.exportKey_injective hkey

theorem pairwise_sorted (hnodup : (labels.bindings.map Binding.name).Nodup) :
    labels.sorted.Pairwise Binding.Precedes := by
  have hdistinct := (enumerates_sorted hnodup).nodup
  rw [sorted_eq] at hdistinct ⊢
  apply (hdistinct.and (pairwise_sortByKey _ _)).imp
  intro first second ⟨hne, hle⟩
  apply Binding.precedes_iff.mpr
  exact lt_of_le_of_ne hle fun hkey ↦ hne (Binding.exportKey_injective hkey)

/-! ## Labels in the order of their definitions -/

/-- In a list that is ordered by the export, a smaller address comes first. -/
theorem exists_lt_of_pairwise {bindings : List Binding} (h : bindings.Pairwise Binding.Precedes)
    {first second : Binding} (hfirst : first ∈ bindings) (hsecond : second ∈ bindings)
    (hless : first.address < second.address) :
    ∃ place later : Nat, place < later ∧ bindings[place]? = some first ∧
      bindings[later]? = some second := by
  obtain ⟨place, hplace, rfl⟩ := List.mem_iff_getElem.mp hfirst
  obtain ⟨later, hlater, rfl⟩ := List.mem_iff_getElem.mp hsecond
  refine ⟨place, later, ?_, List.getElem?_eq_getElem hplace, List.getElem?_eq_getElem hlater⟩
  rw [List.pairwise_iff_getElem] at h
  rcases Nat.lt_trichotomy place later with hlt | rfl | hgt
  · exact hlt
  · exact absurd hless (UInt16.lt_irrefl _)
  · rcases h later place hlater hplace hgt with hgreater | ⟨hsame, -⟩
    · exact absurd hless (UInt16.lt_asymm hgreater)
    · rw [hsame] at hless
      exact absurd hless (UInt16.lt_irrefl _)

end LabelTable

/-- The declared sizes before a statement are those before an earlier one and those between. -/
theorem Program.declaredSize_take_of_le (table : InstructionTable) (program : Program)
    {first second : Nat} (h : first ≤ second) :
    declaredSize table (program.take second) =
      declaredSize table (program.take first) +
        declaredSize table ((program.take second).drop first) := by
  have hsplit := extent_append (fun entry ↦ entry.size.toNat) table
    ((program.take second).take first) ((program.take second).drop first)
  rw [List.take_append_drop, List.take_take, Nat.min_eq_left h] at hsplit
  exact hsplit

/-! ## Texts -/

theorem Binding.ofJson?_toJson (binding : Binding) : ofJson? binding.toJson = some binding := by
  have haddress := Json.natural?_natural (Nat.le_of_lt_succ binding.address.toNat_lt)
  simp [toJson, ofJson?, ofParts?, Json.required?, Json.string?, haddress]

theorem Binding.integral_toJson (binding : Binding) : binding.toJson.Integral := by
  refine .object ?_
  simp [Json.Integral.natural, Json.Integral.string]

/-- An exported table is read back as the list that was written. -/
theorem LabelTable.parseList?_exported (labels : LabelTable) :
    Binding.parseList? labels.exported = some labels.sorted := by
  have hintegral : (Binding.listToJson labels.sorted).Integral :=
    .array (List.forall_mem_map.mpr fun binding _ ↦ binding.integral_toJson)
  unfold Binding.parseList? exported
  rw [Json.parse?_pretty hintegral]
  exact mapM_ofJson?_map_toJson Binding.ofJson?_toJson labels.sorted

/-! ## The export of a program's labels -/

/-- What the export of a program's label table lists, and that it is read back. -/
structure LabelTable.Exports (labels : LabelTable) (table : InstructionTable) (program : Program) :
    Prop where
  /-- The order in which the table is visited makes no difference. -/
  of_enumerates : ∀ visited, Enumerates labels.HasBinding visited →
    (LabelTable.mk visited).sorted = labels.sorted
  increasing : labels.sorted.Pairwise Binding.Precedes
  /-- Every label of the program is listed once. -/
  names_perm : (labels.sorted.map Binding.name).Perm program.labelNames
  address : ∀ binding ∈ labels.sorted, labels.get? binding.name = some binding.address
  /-- Labels with bytes between them are listed as they are defined. -/
  keeps_order : ∀ {first second : Nat} {name other : String}, first < second →
    program[first]? = some (.label name) → program[second]? = some (.label other) →
    0 < Program.declaredSize table ((program.take second).drop first) →
    ∃ place later : Nat, place < later ∧ (labels.sorted.map Binding.name)[place]? = some name ∧
      (labels.sorted.map Binding.name)[later]? = some other
  parsed : Binding.parseList? labels.exported = some labels.sorted

namespace InstructionTable

variable {table : InstructionTable} {origin : UInt16} {program : Program} {labels : LabelTable}

theorem address_lt_of_declaredSize (h : table.resolve origin program = .ok labels)
    {first second : Nat} {name other : String} (hlt : first < second)
    (hname : program[first]? = some (.label name)) (hother : program[second]? = some (.label other))
    (hsize : 0 < Program.declaredSize table ((program.take second).drop first)) :
    ∃ address later : UInt16, labels.get? name = some address ∧ labels.get? other = some later ∧
      address < later := by
  obtain ⟨address, hget, haddress⟩ := get?_of_resolve h hname
  obtain ⟨later, hgetOther, hlater⟩ := get?_of_resolve h hother
  refine ⟨address, later, hget, hgetOther, ?_⟩
  rw [UInt16.lt_iff_toNat_lt, haddress, hlater,
    Program.declaredSize_take_of_le table program (Nat.le_of_lt hlt)]
  omega

/-- The export of a label table is a sorted list of all labels, which does not depend on how the
table is stored and which is read back from its text. -/
theorem exports_of_resolve (h : table.resolve origin program = .ok labels) :
    labels.Exports table program := by
  have hnodup := nodup_of_resolve h
  have hmem (binding : Binding) : binding ∈ labels.sorted ↔
      labels.get? binding.name = some binding.address :=
    (LabelTable.enumerates_sorted hnodup).mem_iff binding
  constructor
  · intro visited hvisited
    exact LabelTable.sorted_of_enumerates hnodup hvisited
  · exact LabelTable.pairwise_sorted hnodup
  · obtain ⟨-, rfl⟩ := resolve_eq_ok_iff.mp h
    rw [← Program.names_bindings table origin.toNat program]
    exact (List.mergeSort_perm _ _).map Binding.name
  · intro binding hbinding
    exact (hmem binding).mp hbinding
  · intro first second name other hlt hname hother hsize
    obtain ⟨address, later, hget, hgetOther, hless⟩ :=
      address_lt_of_declaredSize h hlt hname hother hsize
    obtain ⟨place, behind, hplaces, hfirst, hsecond⟩ :=
      LabelTable.exists_lt_of_pairwise (LabelTable.pairwise_sorted hnodup)
        ((hmem ⟨name, address⟩).mpr hget) ((hmem ⟨other, later⟩).mpr hgetOther) hless
    refine ⟨place, behind, hplaces, ?_, ?_⟩
    · rw [List.getElem?_map, hfirst, Option.map_some]
    · rw [List.getElem?_map, hsecond, Option.map_some]
  · exact labels.parseList?_exported

/-- A program with two labels at each of two addresses. -/
def clustered : Program :=
  [.label "b", .label "a", .instruction "jump" [.symbol "é"], .label "é", .label "z"]

theorem exports_of_resolve_clustered :
    ∃ labels, Machine.small.instructions.resolve 0x10 clustered = .ok labels ∧
      labels.sorted = [⟨"a", 0x10⟩, ⟨"b", 0x10⟩, ⟨"z", 0x13⟩, ⟨"é", 0x13⟩] ∧
      labels.Exports Machine.small.instructions clustered := by
  have hresolve : Machine.small.instructions.resolve 0x10 clustered =
      .ok ⟨[⟨"b", 0x10⟩, ⟨"a", 0x10⟩, ⟨"é", 0x13⟩, ⟨"z", 0x13⟩]⟩ := by
    rfl
  refine ⟨_, hresolve, ?_, exports_of_resolve hresolve⟩
  simp [LabelTable.sorted, List.mergeSort, LabelTable.exportLE]

end InstructionTable

end TwoPass
