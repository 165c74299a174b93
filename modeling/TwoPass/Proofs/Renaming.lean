import Mathlib.Data.Set.Function
import TwoPass.Proofs.Image

/-!
# Renaming the labels of a program

A renaming changes the names of labels wherever they are defined or used as symbols, and leaves
mnemonics, registers and literals alone, even those that are spelled like a label.  As long as it
keeps the names of a program apart, both passes do the same with the renamed program: they end with
the renamed label table and the same image, or with the renamed diagnostic.
-/

namespace TwoPass

/-! ## Renamed programs -/

def Operand.rename (relabel : String → String) : Operand → Operand
  | .register name => .register name
  | .literal digits => .literal digits
  | .symbol name => .symbol (relabel name)

def Statement.rename (relabel : String → String) : Statement → Statement
  | .label name => .label (relabel name)
  | .instruction mnemonic operands => .instruction mnemonic (operands.map (.rename relabel))

def Program.rename (relabel : String → String) (program : Program) : Program :=
  program.map (.rename relabel)

/-- The names that a statement defines or refers to. -/
def Statement.names : Statement → Set String
  | .label name => {name}
  | .instruction _ operands => {name | .symbol name ∈ operands}

/-- The names of a program's labels and symbols. -/
def Program.names (program : Program) : Set String :=
  {name | ∃ statement ∈ program, name ∈ statement.names}

@[simp]
theorem Program.rename_cons (relabel : String → String) (statement : Statement) (rest : Program) :
    Program.rename relabel (statement :: rest) =
      statement.rename relabel :: Program.rename relabel rest := rfl

theorem Program.names_subset_of_cons {statement : Statement} {rest : Program} {names : Set String}
    (h : Program.names (statement :: rest) ⊆ names) : Program.names rest ⊆ names := by
  intro name ⟨other, hother, hname⟩
  exact h ⟨other, List.mem_cons_of_mem statement hother, hname⟩

theorem Program.mem_names_of_label {program : Program} {name : String}
    (h : .label name ∈ program) : name ∈ program.names :=
  ⟨.label name, h, rfl⟩

/-! ## Renamed results -/

def Binding.rename (relabel : String → String) (binding : Binding) : Binding :=
  { binding with name := relabel binding.name }

def LabelTable.rename (relabel : String → String) (labels : LabelTable) : LabelTable :=
  ⟨labels.bindings.map (.rename relabel)⟩

def Assembly.rename (relabel : String → String) (assembly : Assembly) : Assembly :=
  { assembly with labels := assembly.labels.rename relabel }

/-- Only three causes are about a label. -/
def Cause.rename (relabel : String → String) : Cause → Cause
  | .duplicateLabel name => .duplicateLabel (relabel name)
  | .unresolvedLabel name => .unresolvedLabel (relabel name)
  | .addressOverflow name address => .addressOverflow (relabel name) address
  | .unknownMnemonic mnemonic => .unknownMnemonic mnemonic
  | .unknownRegister name => .unknownRegister name
  | .malformedInstruction mnemonic => .malformedInstruction mnemonic
  | .invalidLiteral digits => .invalidLiteral digits
  | .sizeMismatch mnemonic declared emitted => .sizeMismatch mnemonic declared emitted

def Location.rename (relabel : String → String) (here : Location) : Location :=
  { here with label := here.label.map relabel }

def Diagnostic.rename (relabel : String → String) (diagnostic : Diagnostic) : Diagnostic :=
  ⟨diagnostic.location.rename relabel, diagnostic.cause.rename relabel⟩

theorem Location.after_rename (relabel : String → String) (here : Location)
    (statement : Statement) :
    (here.rename relabel).after (statement.rename relabel) =
      (here.after statement).rename relabel := by
  cases statement <;> rfl

/-! ## Names that are kept apart -/

section

variable {relabel : String → String} {names : Set String}

theorem mem_map_iff_of_injOn (hrelabel : Set.InjOn relabel names) {defined : List String}
    (hdefined : ∀ name ∈ defined, name ∈ names) {name : String} (hname : name ∈ names) :
    relabel name ∈ defined.map relabel ↔ name ∈ defined := by
  rw [List.mem_map]
  constructor
  · intro ⟨other, hother, hsame⟩
    rw [← hrelabel (hdefined other hother) hname hsame]
    exact hother
  · intro hmem
    exact ⟨name, hmem, rfl⟩

theorem LabelTable.mem_of_get? {labels : LabelTable} {name : String} {address : UInt16}
    (h : labels.get? name = some address) : ⟨name, address⟩ ∈ labels.bindings := by
  obtain ⟨binding, hfind, haddress⟩ := Option.map_eq_some_iff.mp h
  have hname : binding.name = name := by simpa using List.find?_some hfind
  rw [← hname, ← haddress]
  exact List.mem_of_find?_eq_some hfind

/-- A renamed table binds a renamed name to the address of the name. -/
theorem LabelTable.get?_rename (hrelabel : Set.InjOn relabel names) {labels : LabelTable}
    (hlabels : ∀ binding ∈ labels.bindings, binding.name ∈ names) {name : String}
    (hname : name ∈ names) :
    (labels.rename relabel).get? (relabel name) = labels.get? name := by
  obtain ⟨bindings⟩ := labels
  simp only [LabelTable.rename, get?]
  induction bindings with
  | nil => rfl
  | cons first rest ih =>
    have hfirst : relabel first.name = relabel name ↔ first.name = name :=
      hrelabel.eq_iff (hlabels first List.mem_cons_self) hname
    have hrest := ih fun binding hbinding ↦ hlabels binding (List.mem_cons_of_mem _ hbinding)
    by_cases hsame : first.name = name
    · simp [Binding.rename, hsame]
    · simpa [List.find?_cons, Binding.rename, hfirst, hsame] using hrest

end

/-! ## The first pass -/

namespace InstructionTable

variable (table : InstructionTable) {relabel : String → String} {names : Set String}

/-- The first pass does the same with the rest of a renamed program.  The names of the labels before
it have to be kept apart from the names in it. -/
theorem outcome_resolveFrom_rename (hrelabel : Set.InjOn relabel names) (here : Location)
    {defined : List String} (counter : UInt32) {rest : Program}
    (hdefined : ∀ name ∈ defined, name ∈ names) (hrest : rest.names ⊆ names) :
    (table.resolveFrom (here.rename relabel) (defined.map relabel) counter
        (rest.rename relabel)).outcome =
      ((table.resolveFrom here defined counter rest).outcome.map
        (List.map (.rename relabel))).mapError (.rename relabel) := by
  induction rest generalizing here defined counter with
  | nil => rfl
  | cons statement rest ih =>
    have htail := Program.names_subset_of_cons hrest
    have hnext := Location.after_rename relabel here statement
    cases statement with
    | label name =>
      have hname : name ∈ names := hrest (Program.mem_names_of_label List.mem_cons_self)
      have hmem := mem_map_iff_of_injOn hrelabel hdefined hname
      have hmore : ∀ other ∈ name :: defined, other ∈ names :=
        List.forall_mem_cons.mpr ⟨hname, hdefined⟩
      rw [Program.rename_cons, Statement.rename, resolveFrom, resolveFrom]
      simp only [hmem]
      by_cases hduplicate : name ∈ defined
      · rw [if_pos hduplicate, if_pos hduplicate]
        rfl
      rw [if_neg hduplicate, if_neg hduplicate]
      by_cases hcounter : counter ≤ addressLimit
      · rw [if_pos hcounter, if_pos hcounter]
        have hbindings := ih (here.after (.label name)) counter hmore htail
        rw [← hnext, Statement.rename, List.map_cons] at hbindings
        simp only [Logged.outcome_bind, Logged.outcome_emit, Logged.outcome_pure, Except.bind,
          hbindings]
        cases (table.resolveFrom (here.after (.label name)) (name :: defined) counter
          rest).outcome <;> rfl
      · rw [if_neg hcounter, if_neg hcounter]
        rfl
    | instruction mnemonic operands =>
      rw [Program.rename_cons, Statement.rename, resolveFrom, resolveFrom]
      cases table.get? mnemonic with
      | none => rfl
      | some entry =>
        have hbindings := ih (here.after (.instruction mnemonic operands))
          (advance counter entry.size) hdefined htail
        rw [← hnext] at hbindings
        exact hbindings

theorem resolve_rename (origin : UInt16) {program : Program}
    (hrelabel : Set.InjOn relabel program.names) :
    table.resolve origin (program.rename relabel) =
      ((table.resolve origin program).map (.rename relabel)).mapError (.rename relabel) := by
  have hbindings : (table.resolveFrom .start [] origin.toUInt32 (program.rename relabel)).outcome =
      _ := table.outcome_resolveFrom_rename hrelabel .start origin.toUInt32
        (List.forall_mem_nil _) Set.Subset.rfl
  simp only [resolve, resolveLogged, Logged.outcome_bind, Logged.outcome_pure, hbindings]
  cases (table.resolveFrom .start [] origin.toUInt32 program).outcome <;> rfl

theorem label_mem_of_mem_bindings {table : InstructionTable} {origin : UInt16} {program : Program}
    {labels : LabelTable} (h : table.resolve origin program = .ok labels) {binding : Binding}
    (hbinding : binding ∈ labels.bindings) : .label binding.name ∈ program := by
  obtain ⟨-, rfl⟩ := resolve_eq_ok_iff.mp h
  rw [← Program.mem_labelNames, ← Program.names_bindings table origin.toNat program]
  exact List.mem_map_of_mem hbinding

end InstructionTable

/-! ## The second pass -/

section

variable {relabel : String → String} {names : Set String} {labels : LabelTable}

theorem Operand.registerIndex_rename (relabel : String → String) (registers : RegisterFile)
    (mnemonic : String) (operand : Operand) :
    (operand.rename relabel).registerIndex registers mnemonic =
      (operand.registerIndex registers mnemonic).mapError (.rename relabel) := by
  cases operand with
  | register name =>
    rw [Operand.rename, registerIndex]
    cases registers.indexOf? name <;> rfl
  | literal digits => rfl
  | symbol name => rfl

theorem Operand.value_rename (hrelabel : Set.InjOn relabel names)
    (hlabels : ∀ binding ∈ labels.bindings, binding.name ∈ names) (mnemonic : String)
    {operand : Operand} (hoperand : ∀ name, operand = .symbol name → name ∈ names) :
    (operand.rename relabel).value (labels.rename relabel) mnemonic =
      (operand.value labels mnemonic).mapError (.rename relabel) := by
  cases operand with
  | register name => rfl
  | literal digits =>
    rw [Operand.rename, Operand.value, Operand.value]
    cases literalValue? digits <;> rfl
  | symbol name =>
    have haddress := LabelTable.get?_rename hrelabel hlabels (hoperand name rfl)
    rw [Operand.rename, Operand.value, Operand.value, LabelTable.resolve, LabelTable.resolve,
      haddress]
    cases labels.get? name <;> rfl

end

namespace Machine

variable (machine : Machine) {relabel : String → String} {names : Set String}
  {labels : LabelTable} {operands : List Operand}

theorem outcome_encodeOperand_rename (hrelabel : Set.InjOn relabel names)
    (hlabels : ∀ binding ∈ labels.bindings, binding.name ∈ names) (mnemonic : String) (slot : Slot)
    {operand : Operand} (hoperand : ∀ name, operand = .symbol name → name ∈ names) :
    (machine.encodeOperand (labels.rename relabel) mnemonic slot
        (operand.rename relabel)).outcome =
      (machine.encodeOperand labels mnemonic slot operand).outcome.mapError (.rename relabel) := by
  have hvalue := Operand.value_rename hrelabel hlabels mnemonic hoperand
  rw [outcome_encodeOperand, outcome_encodeOperand]
  cases slot with
  | register =>
    simp only [Operand.registerIndex_rename, mapError_map]
  | byte => simp only [hvalue, mapError_map]
  | word => simp only [hvalue, mapError_map]

theorem outcome_encodeOperands_rename (hrelabel : Set.InjOn relabel names)
    (hlabels : ∀ binding ∈ labels.bindings, binding.name ∈ names) (mnemonic : String)
    (slots : List Slot) (hoperands : ∀ name, .symbol name ∈ operands → name ∈ names) :
    (machine.encodeOperands (labels.rename relabel) mnemonic
        (slots.zip (operands.map (.rename relabel)))).outcome =
      (machine.encodeOperands labels mnemonic (slots.zip operands)).outcome.mapError
        (.rename relabel) := by
  induction operands generalizing slots with
  | nil =>
    rw [List.map_nil, List.zip_nil_right]
    rfl
  | cons operand operands ih =>
    cases slots with
    | nil => rfl
    | cons slot slots =>
      have hoperand : ∀ name, operand = .symbol name → name ∈ names := by
        intro name hname
        exact hoperands name (hname ▸ List.mem_cons_self)
      have hfirst := machine.outcome_encodeOperand_rename hrelabel hlabels mnemonic slot hoperand
      have hothers := ih slots fun name hname ↦ hoperands name (List.mem_cons_of_mem _ hname)
      rw [List.map_cons, encodeOperands_cons, encodeOperands_cons]
      simp only [Logged.outcome_bind, Logged.outcome_pure, hfirst, hothers, mapError_bind]
      rfl

theorem outcome_encodeInstruction_rename (hrelabel : Set.InjOn relabel names)
    (hlabels : ∀ binding ∈ labels.bindings, binding.name ∈ names) (strict : Bool) (index : Nat)
    (address : UInt32) (mnemonic : String)
    (hoperands : ∀ name, .symbol name ∈ operands → name ∈ names) :
    (machine.encodeInstruction (labels.rename relabel) strict index address mnemonic
        (operands.map (.rename relabel))).outcome =
      (machine.encodeInstruction labels strict index address mnemonic operands).outcome.mapError
        (.rename relabel) := by
  cases hentry : machine.instructions.get? mnemonic with
  | none =>
    simp only [encodeInstruction, hentry]
    rfl
  | some entry =>
    by_cases harity : operands.length = entry.mode.arity
    · have hsame : (operands.map (Operand.rename relabel)).length = entry.mode.arity := by
        rw [List.length_map, harity]
      rw [outcome_encodeInstruction hentry harity, outcome_encodeInstruction hentry hsame,
        machine.outcome_encodeOperands_rename hrelabel hlabels mnemonic entry.mode.slots hoperands,
        mapError_bind]
      congr 1
      funext body
      split <;> rfl
    · simp only [encodeInstruction, hentry, List.length_map, if_neg harity]
      rfl

theorem outcome_encodeFrom_rename (hrelabel : Set.InjOn relabel names)
    (hlabels : ∀ binding ∈ labels.bindings, binding.name ∈ names) (config : Config)
    (here : Location) (offset : Nat) {rest : Program} (hrest : rest.names ⊆ names) :
    (machine.encodeFrom (labels.rename relabel) config (here.rename relabel) offset
        (rest.rename relabel)).outcome =
      (machine.encodeFrom labels config here offset rest).outcome.mapError (.rename relabel) := by
  induction rest generalizing here offset with
  | nil => rfl
  | cons statement rest ih =>
    have htail := Program.names_subset_of_cons hrest
    have hnext := Location.after_rename relabel here statement
    cases statement with
    | label name =>
      rw [Program.rename_cons, Statement.rename, encodeFrom, encodeFrom, ← ih _ offset htail,
        ← hnext]
      rfl
    | instruction mnemonic operands =>
      have hoperands : ∀ name, .symbol name ∈ operands → name ∈ names := by
        intro name hname
        exact hrest ⟨_, List.mem_cons_self, hname⟩
      have hbytes := machine.outcome_encodeInstruction_rename hrelabel hlabels config.strictSizes
        here.index (config.origin.toUInt32 + UInt32.ofNat offset) mnemonic hoperands
      rw [Statement.rename] at hnext
      rw [Program.rename_cons, Statement.rename, encodeFrom, encodeFrom, hnext]
      simp only [Logged.outcome_bind, Logged.outcome_mapFailure, Logged.outcome_pure,
        Location.rename, hbytes]
      cases (machine.encodeInstruction labels config.strictSizes here.index
        (config.origin.toUInt32 + UInt32.ofNat offset) mnemonic operands).outcome with
      | error cause => rfl
      | ok bytes =>
        have himage :=
          ih (here.after (.instruction mnemonic operands)) (offset + bytes.length) htail
        simp only [Except.mapError, Except.bind, Location.rename] at himage ⊢
        rw [himage]
        cases (machine.encodeFrom labels config (here.after (.instruction mnemonic operands))
          (offset + bytes.length) rest).outcome <;> rfl

theorem encode_rename (config : Config) {program : Program} (hrelabel : Set.InjOn relabel names)
    (hlabels : ∀ binding ∈ labels.bindings, binding.name ∈ names)
    (hprogram : program.names ⊆ names) :
    machine.encode (labels.rename relabel) config (program.rename relabel) =
      (machine.encode labels config program).mapError (.rename relabel) :=
  machine.outcome_encodeFrom_rename hrelabel hlabels config .start 0 hprogram

/-! ## Both passes -/

/-- Assembling a renamed program gives the renamed assembly or the renamed diagnostic. -/
theorem assemble_rename_eq (config : Config) {program : Program}
    (hrelabel : Set.InjOn relabel program.names) :
    machine.assemble config (program.rename relabel) =
      ((machine.assemble config program).map (.rename relabel)).mapError (.rename relabel) := by
  rw [assemble_eq, assemble_eq, machine.instructions.resolve_rename config.origin hrelabel]
  cases hresolve : machine.instructions.resolve config.origin program with
  | error diagnostic => rfl
  | ok labels =>
    have hlabels : ∀ binding ∈ labels.bindings, binding.name ∈ program.names := by
      intro binding hbinding
      exact Program.mem_names_of_label
        (InstructionTable.label_mem_of_mem_bindings hresolve hbinding)
    have himage := machine.encode_rename config hrelabel hlabels Set.Subset.rfl
    simp only [Except.map, Except.mapError, Except.bind] at himage ⊢
    rw [himage]
    cases machine.encode labels config program <;> rfl

end Machine

/-- An assembly of a program and one of the renamed program: the labels carry the new names, and
nothing else differs. -/
structure Assembly.Renames (relabel : String → String) (program : Program)
    (assembly renamed : Assembly) : Prop where
  origin : renamed.origin = assembly.origin
  bytes : renamed.bytes = assembly.bytes
  spans : renamed.spans = assembly.spans
  label : ∀ name, .label name ∈ program →
    renamed.labels.get? (relabel name) = assembly.labels.get? name
  /-- No other name is bound. -/
  exists_label : ∀ name address, renamed.labels.get? name = some address →
    ∃ original, .label original ∈ program ∧ relabel original = name
  size : renamed.labels.size = assembly.labels.size

namespace Machine

variable (machine : Machine) {relabel : String → String}

theorem renames_of_assemble {config : Config} {program : Program} {assembly : Assembly}
    (hrelabel : Set.InjOn relabel program.names)
    (h : machine.assemble config program = .ok assembly) :
    Assembly.Renames relabel program assembly (assembly.rename relabel) := by
  obtain ⟨-, hresolve, -⟩ := assemble_eq_ok_iff.mp h
  have hlabels {binding : Binding} (hbinding : binding ∈ assembly.labels.bindings) :=
    InstructionTable.label_mem_of_mem_bindings hresolve hbinding
  constructor
  case origin => rfl
  case bytes => rfl
  case spans => rfl
  case size => exact List.length_map _
  case label =>
    intro name hname
    apply LabelTable.get?_rename hrelabel
    · intro binding hbinding
      exact Program.mem_names_of_label (hlabels hbinding)
    · exact Program.mem_names_of_label hname
  case exists_label =>
    intro name address hget
    obtain ⟨binding, hbinding, hsame⟩ := List.mem_map.mp (LabelTable.mem_of_get? hget)
    exact ⟨binding.name, hlabels hbinding, congrArg Binding.name hsame⟩

/-- Assembling does not depend on how labels are named, as long as the new names are as different as
the old ones.  New names may be those of registers or mnemonics. -/
theorem assemble_rename (config : Config) {program : Program}
    (hrelabel : Set.InjOn relabel program.names) :
    (∀ assembly, machine.assemble config program = .ok assembly →
      ∃ renamed, machine.assemble config (program.rename relabel) = .ok renamed ∧
        Assembly.Renames relabel program assembly renamed) ∧
    ∀ diagnostic, machine.assemble config program = .error diagnostic →
      machine.assemble config (program.rename relabel) = .error (diagnostic.rename relabel) := by
  rw [machine.assemble_rename_eq config hrelabel]
  constructor
  · intro assembly hassemble
    rw [hassemble]
    exact ⟨assembly.rename relabel, rfl, machine.renames_of_assemble hrelabel hassemble⟩
  · intro diagnostic hassemble
    rw [hassemble]
    rfl

/-- New names for two labels: those of a register and of an instruction. -/
def borrowed (name : String) : String :=
  if name = "a" then "sp" else "jump"

theorem injOn_borrowed : Set.InjOn borrowed {"a", "b"} := by
  rintro first (rfl | rfl) second (rfl | rfl) hsame
  · rfl
  · exact absurd hsame (by decide)
  · exact absurd hsame (by decide)
  · rfl

def crossing : Program :=
  [.label "a", .instruction "jump" [.symbol "b"], .label "b",
    .instruction "low" [.register "sp", .symbol "a"]]

def repeated : Program :=
  [.label "a", .label "b", .label "a"]

theorem assemble_rename_borrowed :
    (∃ assembly renamed, small.assemble ⟨0, true⟩ crossing = .ok assembly ∧
      small.assemble ⟨0, true⟩
        [.label "sp", .instruction "jump" [.symbol "jump"], .label "jump",
          .instruction "low" [.register "sp", .symbol "sp"]] = .ok renamed ∧
      Assembly.Renames borrowed crossing assembly renamed) ∧
    small.assemble ⟨0, true⟩ repeated = .error ⟨⟨2, some "b"⟩, .duplicateLabel "a"⟩ ∧
      small.assemble ⟨0, true⟩ [.label "sp", .label "jump", .label "sp"] =
        .error ⟨⟨2, some "jump"⟩, .duplicateLabel "sp"⟩ := by
  have hassemble : small.assemble ⟨0, true⟩ crossing =
      .ok ⟨0, [0x20, 0x00, 0x03, 0x21, 0x0A, 0x00], ⟨[⟨"a", 0⟩, ⟨"b", 3⟩]⟩,
        [⟨1, 0, 3⟩, ⟨3, 3, 3⟩]⟩ := by
    rfl
  have hreject : small.assemble ⟨0, true⟩ repeated =
      .error ⟨⟨2, some "b"⟩, .duplicateLabel "a"⟩ := by
    rfl
  have hcrossing : Program.names crossing ⊆ {"a", "b"} := by
    simp [Program.names, Statement.names, crossing, Set.subset_def]
  have hrepeated : Program.names repeated ⊆ {"a", "b"} := by
    simp [Program.names, Statement.names, repeated, Set.subset_def]
  obtain ⟨renamed, hrenamed, hsame⟩ :=
    (small.assemble_rename ⟨0, true⟩ (injOn_borrowed.mono hcrossing)).1 _ hassemble
  have hrejected := (small.assemble_rename ⟨0, true⟩ (injOn_borrowed.mono hrepeated)).2 _ hreject
  exact ⟨⟨_, renamed, hassemble, hrenamed, hsame⟩, hreject, hrejected⟩

end Machine

end TwoPass
