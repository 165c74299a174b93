import TwoPass.Diagnostic
import TwoPass.InstructionTable

/-!
# Extents and locations of programs

How many bytes a program takes, by the sizes that its table declares and by the sizes that its
modes encode to, and where a location stands after some statements.  All of them are sums or folds
over the statements, so that they split wherever a program is split.
-/

namespace TwoPass

/-! ## Labels and instructions -/

def Statement.isInstruction : Statement → Bool
  | .label _ => false
  | .instruction _ _ => true

namespace Program

/-- The names of a program's labels, in the order of their definitions. -/
def labelNames (program : Program) : List String :=
  program.filterMap fun
    | .label name => some name
    | .instruction _ _ => none

@[simp]
theorem mem_labelNames {name : String} {program : Program} :
    name ∈ program.labelNames ↔ Statement.label name ∈ program := by
  simp only [labelNames, List.mem_filterMap]
  refine ⟨?_, ?_⟩
  · intro ⟨statement, hmem, hname⟩
    cases statement with
    | label other =>
      injection hname with hname
      exact hname ▸ hmem
    | instruction mnemonic operands => cases hname
  · intro hmem
    exact ⟨.label name, hmem, rfl⟩

theorem nodup_labelNames_of_fresh {program : Program}
    (h : ∀ (index : Nat) (name : String), program[index]? = some (.label name) →
      Statement.label name ∉ program.take index) : program.labelNames.Nodup := by
  induction program with
  | nil => exact List.nodup_nil
  | cons statement rest ih =>
    have hrest : (labelNames rest).Nodup := by
      apply ih
      intro index name hlabel hmem
      apply h (index + 1) name hlabel
      rw [List.take_succ_cons]
      exact List.mem_cons_of_mem _ hmem
    cases statement with
    | instruction mnemonic operands => exact hrest
    | label name =>
      refine List.nodup_cons.mpr ⟨?_, hrest⟩
      intro hmem
      obtain ⟨index, hlabel⟩ := List.getElem?_of_mem (mem_labelNames.mp hmem)
      apply h (index + 1) name hlabel
      rw [List.take_succ_cons]
      exact List.mem_cons_self

/-- The instructions of a program with their operands. -/
def instructions (program : Program) : List (String × List Operand) :=
  program.filterMap fun
    | .label _ => none
    | .instruction mnemonic operands => some (mnemonic, operands)

@[simp]
theorem instructions_nil : instructions [] = [] := rfl

@[simp]
theorem instructions_label (name : String) (rest : Program) :
    instructions (.label name :: rest) = instructions rest := rfl

@[simp]
theorem instructions_instruction (mnemonic : String) (operands : List Operand) (rest : Program) :
    instructions (.instruction mnemonic operands :: rest) =
      (mnemonic, operands) :: instructions rest := rfl

/-- An operand of a program is a symbol with the given name. -/
def Refers (program : Program) (name : String) : Prop :=
  ∃ mnemonic operands, .instruction mnemonic operands ∈ program ∧ .symbol name ∈ operands

theorem Refers.mono {program larger : Program} {name : String} (h : program.Refers name)
    (hsubset : program ⊆ larger) : larger.Refers name := by
  obtain ⟨mnemonic, operands, hmem, hsymbol⟩ := h
  exact ⟨mnemonic, operands, hsubset hmem, hsymbol⟩

/-! ## Extents -/

/-- The sum of a size over the instructions of a program.  An instruction that the table does not
have counts nothing. -/
def extent (size : Entry → Nat) (table : InstructionTable) : Program → Nat
  | [] => 0
  | .label _ :: rest => extent size table rest
  | .instruction mnemonic _ :: rest =>
    ((table.get? mnemonic).map size).getD 0 + extent size table rest

/-- The number of bytes that the table declares for a program. -/
def declaredSize : InstructionTable → Program → Nat :=
  extent fun entry ↦ entry.size.toNat

/-- The number of bytes that the instructions of a program encode to. -/
def encodedSize : InstructionTable → Program → Nat :=
  extent fun entry ↦ entry.mode.encodedSize

section

variable (size : Entry → Nat) (table : InstructionTable)

@[simp]
theorem extent_nil : extent size table [] = 0 := rfl

@[simp]
theorem extent_label (name : String) (rest : Program) :
    extent size table (.label name :: rest) = extent size table rest := rfl

theorem extent_instruction {mnemonic : String} {entry : Entry}
    (h : table.get? mnemonic = some entry) (operands : List Operand) (rest : Program) :
    extent size table (.instruction mnemonic operands :: rest) =
      size entry + extent size table rest := by
  simp [extent, h]

theorem extent_append (first second : Program) :
    extent size table (first ++ second) =
      extent size table first + extent size table second := by
  induction first with
  | nil => simp
  | cons statement rest ih =>
    cases statement with
    | label name => simpa using ih
    | instruction mnemonic operands =>
      rw [List.cons_append, extent, extent, ih, Nat.add_assoc]

/-- A place within an extent belongs to one of the instructions. -/
theorem exists_instruction_of_lt_extent {program : Program} {place : Nat}
    (h : place < extent size table program) :
    ∃ (index : Nat) (mnemonic : String) (operands : List Operand) (entry : Entry),
      program[index]? = some (.instruction mnemonic operands) ∧
      table.get? mnemonic = some entry ∧ extent size table (program.take index) ≤ place ∧
      place < extent size table (program.take index) + size entry := by
  induction program generalizing place with
  | nil => exact absurd h (Nat.not_lt_zero place)
  | cons statement rest ih =>
    cases statement with
    | label name =>
      obtain ⟨index, mnemonic, operands, entry, hstatement, hentry, hle, hlt⟩ := ih h
      exact ⟨index + 1, mnemonic, operands, entry, hstatement, hentry, hle, hlt⟩
    | instruction first others =>
      rw [extent] at h
      by_cases hhere : place < ((table.get? first).map size).getD 0
      · cases hentry : table.get? first with
        | none =>
          rw [hentry] at hhere
          exact absurd hhere (Nat.not_lt_zero place)
        | some entry =>
          rw [hentry] at hhere
          refine ⟨0, first, others, entry, rfl, hentry, Nat.zero_le place, ?_⟩
          rw [List.take_zero, extent_nil, Nat.zero_add]
          exact hhere
      · obtain ⟨index, mnemonic, operands, entry, hstatement, hentry, hle, hlt⟩ :=
          ih (show place - ((table.get? first).map size).getD 0 < extent size table rest by omega)
        refine ⟨index + 1, mnemonic, operands, entry, hstatement, hentry, ?_, ?_⟩
        · rw [List.take_succ_cons, extent]
          omega
        · rw [List.take_succ_cons, extent]
          omega

end

theorem declaredSize_instruction {table : InstructionTable} {mnemonic : String} {entry : Entry}
    (h : table.get? mnemonic = some entry) (operands : List Operand) (rest : Program) :
    declaredSize table (.instruction mnemonic operands :: rest) =
      entry.size.toNat + declaredSize table rest :=
  extent_instruction _ table h operands rest

theorem encodedSize_instruction {table : InstructionTable} {mnemonic : String} {entry : Entry}
    (h : table.get? mnemonic = some entry) (operands : List Operand) (rest : Program) :
    encodedSize table (.instruction mnemonic operands :: rest) =
      entry.mode.encodedSize + encodedSize table rest :=
  extent_instruction _ table h operands rest

/-- A program around one of its statements. -/
theorem eq_take_append_drop {program : Program} {index : Nat} {statement : Statement}
    (h : program[index]? = some statement) :
    program = program.take index ++ statement :: program.drop (index + 1) := by
  obtain ⟨hlt, hstatement⟩ := List.getElem?_eq_some_iff.mp h
  rw [← hstatement, List.getElem_cons_drop, List.take_append_drop]

end Program

/-! ## Locations -/

namespace Location

/-- The location that follows some statements. -/
def following (here : Location) (program : Program) : Location :=
  program.foldl after here

@[simp]
theorem following_nil (here : Location) : here.following [] = here := rfl

@[simp]
theorem following_cons (here : Location) (statement : Statement) (rest : Program) :
    here.following (statement :: rest) = (here.after statement).following rest := rfl

theorem following_concat (here : Location) (program : Program) (statement : Statement) :
    here.following (program ++ [statement]) = (here.following program).after statement := by
  simp [following]

@[simp]
theorem index_following (here : Location) (program : Program) :
    (here.following program).index = here.index + program.length := by
  induction program generalizing here with
  | nil => rfl
  | cons statement rest ih =>
    rw [following_cons, ih, index_after, List.length_cons]
    omega

theorem label_following (here : Location) (program : Program) :
    (here.following program).label = program.labelNames.getLast?.or here.label := by
  induction program generalizing here with
  | nil => rfl
  | cons statement rest ih =>
    rw [following_cons, ih]
    cases statement with
    | instruction mnemonic operands => rfl
    | label name =>
      change (Program.labelNames rest).getLast?.or (some name) =
        (name :: Program.labelNames rest).getLast?.or here.label
      rw [List.getLast?_cons]
      cases (Program.labelNames rest).getLast? <;> rfl

/-- A location is the number of statements before it and the last label among them. -/
theorem start_following (program : Program) :
    start.following program = ⟨program.length, program.labelNames.getLast?⟩ := by
  have hindex := index_following start program
  have hlabel := label_following start program
  rw [show start.index = 0 from rfl, Nat.zero_add] at hindex
  rw [show start.label = none from rfl, Option.or_none] at hlabel
  rw [← hindex, ← hlabel]

end Location

end TwoPass
