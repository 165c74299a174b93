import TwoPass.Interchange.Config
import TwoPass.Interchange.InstructionTable
import TwoPass.Proofs.Interchange.Description
import TwoPass.Proofs.Json.Document

/-!
# Programs, entries and settings are read back

The document of a value describes that value, and it is read back from its text, since all of its
numbers are natural.  Together, a value survives being written and read.
-/

namespace TwoPass

open Json (Integral)

/-- A list is read back if each of its values is. -/
theorem mapM_ofJson?_map_toJson {Value : Type} {toJson : Value → Json}
    {ofJson? : Json → Option Value} (h : ∀ value, ofJson? (toJson value) = some value)
    (values : List Value) : (values.map toJson).mapM ofJson? = some values := by
  rw [mapM_eq_some_iff, List.forall₂_map_left_iff]
  exact List.forall₂_same.mpr fun value _ ↦ h value

theorem Json.natural?_natural {limit value : Nat} (h : value ≤ limit) :
    (Json.natural value).natural? limit = some value :=
  if_pos h

theorem Json.Integral.tagged {content : Json} (tag : String) (h : content.Integral) :
    (Json.tagged tag content).Integral := by
  refine .object ?_
  simp only [List.forall_mem_cons]
  exact ⟨.string tag, h, List.forall_mem_nil _⟩

/-! ## Programs -/

theorem Operand.integral_toJson (operand : Operand) : operand.toJson.Integral := by
  cases operand <;> exact .tagged _ (.string _)

theorem Statement.ofJson?_toJson (statement : Statement) :
    ofJson? statement.toJson = some statement := by
  cases statement with
  | label name => simp [toJson, ofJson?, ofContent?, Json.string?]
  | instruction mnemonic operands =>
    have hoperands := mapM_ofJson?_map_toJson (Operand.ofJson?_toJson .direct) operands
    simp [toJson, ofJson?, ofContent?, instructionOfJson?, operandsOfJson?, hoperands,
      Json.object?, Json.array?, Json.string?, Json.required?, Json.optional?]

theorem Statement.integral_toJson (statement : Statement) : statement.toJson.Integral := by
  cases statement with
  | label name => exact .tagged _ (.string name)
  | instruction mnemonic operands =>
    apply Integral.tagged
    refine .object ?_
    simp only [List.forall_mem_cons]
    refine ⟨.string mnemonic, .array ?_, List.forall_mem_nil _⟩
    exact List.forall_mem_map.mpr fun operand _ ↦ operand.integral_toJson

theorem Program.ofJson?_toJson (program : Program) : ofJson? program.toJson = some program :=
  mapM_ofJson?_map_toJson Statement.ofJson?_toJson program

theorem Program.integral_toJson (program : Program) : program.toJson.Integral :=
  .array (List.forall_mem_map.mpr fun statement _ ↦ statement.integral_toJson)

/-! ## Entries -/

theorem Entry.ofParts?_toJson (entry : Entry) (surface : Option Json)
    (hsurface : surfaceOfJson? surface = some entry.surface) :
    ofParts? (.natural entry.opcode.toNat) entry.mode.toJson (.natural entry.size.toNat) surface =
      some entry := by
  have hopcode : (Json.natural entry.opcode.toNat).natural? 0xFF = some entry.opcode.toNat :=
    Json.natural?_natural (Nat.le_of_lt_succ entry.opcode.toNat_lt)
  have hsize := Json.natural?_natural (Nat.le_of_lt_succ entry.size.toNat_lt)
  simp [ofParts?, hopcode, hsize, hsurface]

theorem Entry.ofJson?_toJson (entry : Entry) : ofJson? entry.toJson = some entry := by
  cases hsurface : entry.surface with
  | none =>
    have hparts := entry.ofParts?_toJson none (congrArg some hsurface.symm)
    simp [toJson, hsurface, ofJson?, Json.required?, Json.optional?, hparts]
  | some surface =>
    have hparts := entry.ofParts?_toJson (some (.string surface)) (congrArg some hsurface.symm)
    simp [toJson, hsurface, ofJson?, Json.required?, Json.optional?, hparts]

theorem Entry.integral_toJson (entry : Entry) : entry.toJson.Integral := by
  rw [toJson]
  split <;>
  · refine .object ?_
    simp [Integral.natural, Mode.toJson, Integral.string]

/-! ## Settings -/

theorem Config.ofJson?_toJson (config : Config) : ofJson? config.toJson = some config := by
  have horigin := Json.natural?_natural (Nat.le_of_lt_succ config.origin.toNat_lt)
  simp [toJson, ofJson?, ofParts?, Json.required?, Json.bool?, horigin]

theorem Config.integral_toJson (config : Config) : config.toJson.Integral := by
  refine .object ?_
  simp [Integral.natural, Integral.bool]

/-! ## Texts -/

/-- A program, an operand, an entry of an instruction table and assembly settings are read back from
the text that is written for them. -/
theorem parse?_compact_toJson :
    (∀ program : Program, Program.parse? program.toJson.compact = some program) ∧
    (∀ operand : Operand, Operand.parse? operand.toJson.compact = some operand) ∧
    (∀ entry : Entry, Entry.parse? entry.toJson.compact = some entry) ∧
    (∀ config : Config, Config.parse? config.toJson.compact = some config) := by
  refine ⟨fun program ↦ ?_, fun operand ↦ ?_, fun entry ↦ ?_, fun config ↦ ?_⟩
  · rw [Program.parse?, Json.parse?_compact program.integral_toJson]
    exact program.ofJson?_toJson
  · rw [Operand.parse?, Json.parse?_compact operand.integral_toJson]
    exact operand.ofJson?_toJson .direct
  · rw [Entry.parse?, Json.parse?_compact entry.integral_toJson]
    exact entry.ofJson?_toJson
  · rw [Config.parse?, Json.parse?_compact config.integral_toJson]
    exact config.ofJson?_toJson

end TwoPass
