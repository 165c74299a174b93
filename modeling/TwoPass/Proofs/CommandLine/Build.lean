import TwoPass.CommandLine.Build
import TwoPass.Proofs.CommandLine.Directory
import TwoPass.Proofs.General
import TwoPass.Proofs.Interchange.RoundTrip
import TwoPass.Proofs.Listing

/-!
# Builds write everything or nothing

A build whose inputs can be read and whose outputs can be written goes through five stages: program,
instruction table, register file, origin and assembly.  If a stage refuses its input, the build
fails with what the first such stage says and changes nothing.  Otherwise it succeeds, and the
image, the listing and the exported labels all come from the one assembly.
-/

namespace TwoPass.CommandLine.Build

/-! ## Stages -/

/-- The texts of the files that a build reads. -/
structure Inputs where
  program : String
  /-- The instruction table, unless it is the built-in one. -/
  table : Option String
  /-- The register file, unless it is the built-in one. -/
  registers : Option String

namespace Inputs

def table? (inputs : Inputs) : Option InstructionTable :=
  match inputs.table with
  | none => some .builtin
  | some text => InstructionTable.parse? text

def registerFile (inputs : Inputs) : Except RegisterFile.Rejection RegisterFile :=
  match inputs.registers with
  | none => .ok .builtin
  | some text => RegisterFile.parse text

/-- The files that an invocation names can be read, and have these texts. -/
structure ReadIn (inputs : Inputs) (directory : Directory) (invocation : Invocation) : Prop where
  program : directory.readText invocation.program = .ok inputs.program
  table : Option.Rel (fun path text ↦ directory.readText path = .ok text) invocation.table
    inputs.table
  registers : Option.Rel (fun path text ↦ directory.readText path = .ok text) invocation.registers
    inputs.registers

end Inputs

/-- The texts are a program and the two tables of a machine. -/
structure Inputs.Loads (inputs : Inputs) (program : Program) (machine : Machine) : Prop where
  program : Program.parse? inputs.program = some program
  table : inputs.table? = some machine.instructions
  registers : inputs.registerFile = .ok machine.registers

/-- The first stage that refuses its input, after all stages before it have accepted theirs, and
what the build says then. -/
inductive Refused (invocation : Invocation) (inputs : Inputs) : Failure → Prop
  | program (hprogram : Program.parse? inputs.program = none) :
      Refused invocation inputs (.notAProgram invocation.program)
  | table {program : Program} {path : String}
      (hprogram : Program.parse? inputs.program = some program)
      (hpath : invocation.table = some path) (htable : inputs.table? = none) :
      Refused invocation inputs (.notATable path)
  | registers {program : Program} {table : InstructionTable} {path : String}
      {rejection : RegisterFile.Rejection}
      (hprogram : Program.parse? inputs.program = some program)
      (htable : inputs.table? = some table) (hpath : invocation.registers = some path)
      (hregisters : inputs.registerFile = .error rejection) :
      Refused invocation inputs (.notRegisters path rejection)
  | origin {program : Program} {machine : Machine} {fault : Numeral.Fault}
      (hloads : inputs.Loads program machine)
      (horigin : Word.parse invocation.origin = .error fault) :
      Refused invocation inputs (.invalidOrigin fault)
  | assembly {program : Program} {machine : Machine} {origin : UInt16} {diagnostic : Diagnostic}
      (hloads : inputs.Loads program machine)
      (horigin : Word.parse invocation.origin = .ok origin)
      (hassembly : machine.assemble ⟨origin, !invocation.lenientSizes⟩ program =
        .error diagnostic) :
      Refused invocation inputs (.notAssembled invocation.program diagnostic)

/-- All stages accept their inputs, and what they make of them. -/
structure Accepted (invocation : Invocation) (inputs : Inputs) (program : Program)
    (machine : Machine) (assembly : Assembly) : Prop where
  loads : inputs.Loads program machine
  assembled : ∃ origin, Word.parse invocation.origin = .ok origin ∧
    machine.assemble ⟨origin, !invocation.lenientSizes⟩ program = .ok assembly

/-! ## Loading and assembling -/

section

variable {directory : Directory} {invocation : Invocation} {inputs : Inputs} {program : Program}
  {machine : Machine} {assembly : Assembly}

/-- A file that a build may read is either not named, or named and readable. -/
theorem Inputs.unnamed_or_load {path text : Option String}
    (h : Option.Rel (fun path text ↦ directory.readText path = .ok text) path text) :
    (path = none ∧ text = none) ∨
      ∃ name contents, path = some name ∧ text = some contents ∧
        load directory.readText name = .ok contents := by
  rcases none_or_some_of_rel h with hnone | ⟨name, contents, hpath, htext, hread⟩
  · exact .inl hnone
  · refine .inr ⟨name, contents, hpath, htext, ?_⟩
    rw [load, hread, Except.mapError]

variable (hinputs : inputs.ReadIn directory invocation)
include hinputs

theorem loadProgram_eq :
    loadProgram directory.readText invocation.program =
      match Program.parse? inputs.program with
      | some program => .ok program
      | none => .error (.notAProgram invocation.program) := by
  rw [loadProgram, load, hinputs.program]
  rfl

/-- The built-in table is not refused, so a table that is refused has a path. -/
theorem loadTable_eq :
    loadTable directory.readText invocation.table =
      match inputs.table? with
      | some table => .ok table
      | none => .error (.notATable (invocation.table.getD "")) := by
  rcases Inputs.unnamed_or_load hinputs.table with
    ⟨hpath, htext⟩ | ⟨path, text, hpath, htext, hload⟩
  · rw [hpath, loadTable, Inputs.table?, htext]
  · rw [hpath, loadTable, hload, Inputs.table?, htext, Option.getD_some]
    rfl

theorem loadRegisters_eq :
    loadRegisters directory.readText invocation.registers =
      inputs.registerFile.mapError (.notRegisters (invocation.registers.getD "")) := by
  rcases Inputs.unnamed_or_load hinputs.registers with
    ⟨hpath, htext⟩ | ⟨path, text, hpath, htext, hload⟩
  · rw [hpath, loadRegisters, Inputs.registerFile, htext, Except.mapError]
  · rw [hpath, loadRegisters, hload, Inputs.registerFile, htext, Option.getD_some]
    rfl

theorem exists_path_of_table?_eq_none (h : inputs.table? = none) :
    ∃ path, invocation.table = some path := by
  rcases Inputs.unnamed_or_load hinputs.table with ⟨-, htext⟩ | ⟨path, -, hpath, -⟩
  · rw [Inputs.table?, htext] at h
    exact nomatch h
  · exact ⟨path, hpath⟩

theorem exists_path_of_registerFile_eq_error {rejection : RegisterFile.Rejection}
    (h : inputs.registerFile = .error rejection) : ∃ path, invocation.registers = some path := by
  rcases Inputs.unnamed_or_load hinputs.registers with ⟨-, htext⟩ | ⟨path, -, hpath, -⟩
  · rw [Inputs.registerFile, htext] at h
    exact nomatch h
  · exact ⟨path, hpath⟩

/-- Once the files are loaded, the origin and the assembly remain. -/
theorem produce_of_loads (h : inputs.Loads program machine) :
    produce directory.readText invocation = (do
      let origin ← (Word.parse invocation.origin).mapError .invalidOrigin
      let assembly ← (machine.assemble ⟨origin, !invocation.lenientSizes⟩ program).mapError
        (.notAssembled invocation.program)
      return ⟨program, machine.instructions, assembly⟩) := by
  rw [produce, loadProgram_eq hinputs, loadTable_eq hinputs, loadRegisters_eq hinputs, h.program,
    h.table, h.registers]
  rfl

/-- What the first stage that refuses its input says is what the build says. -/
theorem produce_of_refused {failure : Failure} (h : Refused invocation inputs failure) :
    produce directory.readText invocation = .error failure := by
  cases h with
  | program hprogram =>
    rw [produce, loadProgram_eq hinputs, hprogram]
    rfl
  | table hprogram hpath htable =>
    rw [produce, loadProgram_eq hinputs, hprogram, loadTable_eq hinputs, htable, hpath]
    rfl
  | registers hprogram htable hpath hregisters =>
    rw [produce, loadProgram_eq hinputs, hprogram, loadTable_eq hinputs, htable,
      loadRegisters_eq hinputs, hregisters, hpath]
    rfl
  | origin hloads horigin =>
    rw [produce_of_loads hinputs hloads, horigin]
    rfl
  | assembly hloads horigin hassembly =>
    rw [produce_of_loads hinputs hloads, horigin, Except.mapError]
    simp only [bind, Except.bind, hassembly, Except.mapError]

theorem produce_of_accepted (h : Accepted invocation inputs program machine assembly) :
    produce directory.readText invocation = .ok ⟨program, machine.instructions, assembly⟩ := by
  obtain ⟨origin, horigin, hassembly⟩ := h.assembled
  rw [produce_of_loads hinputs h.loads, horigin]
  simp only [bind, Except.bind, hassembly, Except.mapError]
  rfl

/-- Either some stage is the first one that refuses its input, or there is none. -/
theorem refused_or_accepted :
    (∃ failure, Refused invocation inputs failure) ∨
      ∃ program machine assembly, Accepted invocation inputs program machine assembly := by
  cases hprogram : Program.parse? inputs.program with
  | none => exact .inl ⟨_, .program hprogram⟩
  | some program =>
  cases htable : inputs.table? with
  | none =>
    obtain ⟨path, hpath⟩ := exists_path_of_table?_eq_none hinputs htable
    exact .inl ⟨_, .table hprogram hpath htable⟩
  | some table =>
  cases hregisters : inputs.registerFile with
  | error rejection =>
    obtain ⟨path, hpath⟩ := exists_path_of_registerFile_eq_error hinputs hregisters
    exact .inl ⟨_, .registers hprogram htable hpath hregisters⟩
  | ok registers =>
  have hloads : inputs.Loads program ⟨table, registers⟩ := ⟨hprogram, htable, hregisters⟩
  cases horigin : Word.parse invocation.origin with
  | error fault => exact .inl ⟨_, .origin hloads horigin⟩
  | ok origin =>
  cases hassembly : Machine.assemble ⟨table, registers⟩ ⟨origin, !invocation.lenientSizes⟩
      program with
  | error diagnostic => exact .inl ⟨_, .assembly hloads horigin hassembly⟩
  | ok assembly =>
    exact .inr ⟨program, ⟨table, registers⟩, assembly, hloads, origin, horigin, hassembly⟩

end

/-! ## Effects -/

/-- The text that a build prints, or why it has none. -/
def printed (invocation : Invocation) (product : Product) : Except Failure String :=
  if invocation.listing then
    (product.assembly.listing product.table product.program).mapError
      (.notListed invocation.program)
  else .ok ""

theorem perform_listingEffects_append (directory : Directory) (invocation : Invocation)
    (product : Product) (rest : List Effect) :
    perform directory (listingEffects invocation product ++ rest) =
      match printed invocation product with
      | .ok text =>
        { perform directory rest with printed := text ++ (perform directory rest).printed }
      | .error failure => ⟨directory, "", some failure⟩ := by
  unfold listingEffects printed
  split
  · cases product.assembly.listing product.table product.program <;> rfl
  · simp

/-- The places that the output paths of a build lead to. -/
structure Outputs where
  image : Place
  /-- The place of the label table, if it is asked for. -/
  labels : Option Place

namespace Outputs

/-- The output paths of an invocation can be written, and lead to these places.  They are distinct
from each other. -/
structure WrittenIn (outputs : Outputs) (directory : Directory) (invocation : Invocation) :
    Prop where
  image : directory.WritesAt invocation.output outputs.image
  labels : Option.Rel directory.WritesAt invocation.labels outputs.labels
  distinct : outputs.labels ≠ some outputs.image

/-- A directory in which the outputs have the given contents. -/
def fill (outputs : Outputs) (directory : Directory) (image labels : ByteArray) : Directory :=
  match outputs.labels with
  | none => directory.put outputs.image image
  | some place => (directory.put outputs.image image).put place labels

variable {outputs : Outputs} {directory : Directory} {invocation : Invocation}
  {image labels : ByteArray}

theorem file?_fill_of_ne {place : Place} (himage : place ≠ outputs.image)
    (hlabels : outputs.labels ≠ some place) :
    (outputs.fill directory image labels).file? place = directory.file? place := by
  unfold fill
  split
  · exact Directory.file?_put_of_ne himage
  · next other hother =>
    have hne : place ≠ other := by
      rintro rfl
      exact hlabels hother
    rw [Directory.file?_put_of_ne hne, Directory.file?_put_of_ne himage]

namespace WrittenIn

variable (h : outputs.WrittenIn directory invocation)
include h

/-- A listing that cannot be had is missed when the image is already written. -/
theorem perform_effects (product : Product) :
    perform directory (effects invocation product) =
      match printed invocation product with
      | .ok text =>
        ⟨outputs.fill directory (imageContents invocation.format product.assembly.bytes)
          product.assembly.labels.exported.toUTF8, text, none⟩
      | .error failure =>
        ⟨directory.put outputs.image (imageContents invocation.format product.assembly.bytes), "",
          some failure⟩ := by
  rw [effects, List.cons_append, perform, h.image.write_eq]
  simp only [perform_listingEffects_append]
  rcases none_or_some_of_rel h.labels with ⟨hpath, hplace⟩ | ⟨path, place, hpath, hplace, hlabels⟩
  · simp [perform, fill, hpath, hplace]
  · -- writing the image does not change where the path of the label table leads to
    have hnext (contents : ByteArray) := (hlabels.put h.image contents).write_eq
    simp [perform, fill, hpath, hplace, hnext]

theorem read_image (hreal : outputs.image ≠ Directory.nullDevice) :
    (outputs.fill directory image labels).read invocation.output = .ok image := by
  have hput := h.image.put h.image image
  have hfile : (directory.put outputs.image image).file? outputs.image =
      some ⟨outputs.image, image⟩ :=
    Directory.file?_put_self hreal
  rcases none_or_some_of_rel h.labels with ⟨-, hplace⟩ | ⟨path, place, -, hplace, hlabels⟩
  · rw [fill, hplace]
    exact hput.read_eq hfile
  · -- the label table is written later, but at another place
    have hne : outputs.image ≠ place := by
      rintro rfl
      exact h.distinct hplace
    rw [← Directory.file?_put_of_ne hne] at hfile
    rw [fill, hplace]
    exact (hput.put (hlabels.put h.image image) labels).read_eq hfile

theorem read_labels {path : String} (hpath : invocation.labels = some path)
    (hreal : outputs.labels ≠ some Directory.nullDevice) :
    (outputs.fill directory image labels).read path = .ok labels := by
  rcases none_or_some_of_rel h.labels with ⟨hnone, -⟩ | ⟨other, place, hother, hplace, hlabels⟩
  · rw [hpath] at hnone
    exact nomatch hnone
  · obtain rfl := Option.some.inj (hpath.symm.trans hother)
    have hput := hlabels.put h.image image
    rw [hplace, ne_eq, Option.some.injEq] at hreal
    rw [fill, hplace]
    exact (hput.put hput labels).read_eq (Directory.file?_put_self hreal)

end WrittenIn

end Outputs

/-! ## Whole builds -/

section

variable {directory : Directory} {invocation : Invocation} {inputs : Inputs} {outputs : Outputs}
  {program : Program} {machine : Machine} {assembly : Assembly}

/-- A build has succeeded: everything that was asked for comes from one assembly, and nothing else
has changed.  What is written to the null device cannot be read back. -/
structure Completed (directory : Directory) (invocation : Invocation) (outputs : Outputs)
    (program : Program) (machine : Machine) (assembly : Assembly) (outcome : Outcome) : Prop where
  failure : outcome.failure = none
  binary : invocation.format = .binary → outputs.image ≠ Directory.nullDevice →
    outcome.directory.read invocation.output = .ok ⟨assembly.bytes.toArray⟩
  hex : invocation.format = .hex → outputs.image ≠ Directory.nullDevice →
    outcome.directory.read invocation.output = .ok (renderHex assembly.bytes ++ "\n").toUTF8
  listed : invocation.listing = true →
    assembly.listing machine.instructions program = .ok outcome.printed
  silent : invocation.listing = false → outcome.printed = ""
  labels : ∀ path, invocation.labels = some path → outputs.labels ≠ some Directory.nullDevice →
    outcome.directory.read path = .ok assembly.labels.exported.toUTF8
  unchanged : ∀ place, place ≠ outputs.image → outputs.labels ≠ some place →
    outcome.directory.file? place = directory.file? place

theorem run_of_produce {product : Product}
    (h : produce directory.readText invocation = .ok product) :
    run directory invocation = perform directory (effects invocation product) := by
  rw [run, plan, h]
  rfl

/-- What a build writes and prints is what it has produced. -/
theorem completed_of_produce {text : String} (houtputs : outputs.WrittenIn directory invocation)
    (hproduct : produce directory.readText invocation =
      .ok ⟨program, machine.instructions, assembly⟩)
    (htext : printed invocation ⟨program, machine.instructions, assembly⟩ = .ok text) :
    Completed directory invocation outputs program machine assembly
      (run directory invocation) := by
  have hrun : run directory invocation =
      ⟨outputs.fill directory (imageContents invocation.format assembly.bytes)
        assembly.labels.exported.toUTF8, text, none⟩ := by
    rw [run_of_produce hproduct, houtputs.perform_effects, htext]
  rw [hrun]
  constructor
  case failure => rfl
  case binary =>
    intro hformat hreal
    rw [houtputs.read_image hreal, hformat, imageContents]
  case hex =>
    intro hformat hreal
    rw [houtputs.read_image hreal, hformat, imageContents]
  case listed =>
    intro hflag
    rw [printed, if_pos hflag] at htext
    exact mapError_eq_ok_iff.mp htext
  case silent =>
    intro hflag
    rw [printed, hflag] at htext
    exact (Except.ok.inj htext).symm
  case labels =>
    intro path hpath hreal
    exact houtputs.read_labels hpath hreal
  case unchanged =>
    intro place himage hlabels
    exact Outputs.file?_fill_of_ne himage hlabels

theorem run_of_produce_error {failure : Failure}
    (h : produce directory.readText invocation = .error failure) :
    run directory invocation = ⟨directory, "", some failure⟩ := by
  rw [run, plan, h]
  rfl

/-- A listing is missing only if addresses of spans wrap around, and the image is written even
then. -/
theorem run_of_listing_error (hinputs : inputs.ReadIn directory invocation)
    (houtputs : outputs.WrittenIn directory invocation)
    (h : Accepted invocation inputs program machine assembly) (hflag : invocation.listing = true)
    {fault : Listing.Fault}
    (hfault : assembly.listing machine.instructions program = .error fault) :
    0xFFFF0000 ≤ assembly.bytes.length ∧
      run directory invocation =
        ⟨directory.put outputs.image (imageContents invocation.format assembly.bytes), "",
          some (.notListed invocation.program fault)⟩ := by
  constructor
  · by_contra hlong
    obtain ⟨origin, -, hassembly⟩ := h.assembled
    obtain ⟨lines, hlisting, -⟩ :=
      Machine.exists_lines_of_assemble hassembly (Nat.lt_of_not_le hlong)
    rw [hfault] at hlisting
    exact nomatch hlisting
  · have hprinted : printed invocation ⟨program, machine.instructions, assembly⟩ =
        .error (.notListed invocation.program fault) := by
      rw [printed, if_pos hflag, hfault]
      rfl
    rw [run_of_produce (produce_of_accepted hinputs h), houtputs.perform_effects, hprinted]

/-- A build with readable inputs and distinct writable outputs writes everything or nothing.  If a
stage refuses its input, the build fails with what the first such stage says, and changes nothing.
Otherwise it succeeds.  Only an image of almost four gigabytes, the addresses of whose spans wrap
around, may have no listing; a build that is asked for one then ends when it has written the
image. -/
theorem run_all_or_nothing (hinputs : inputs.ReadIn directory invocation)
    (houtputs : outputs.WrittenIn directory invocation) :
    ((∃ failure, Refused invocation inputs failure) ∨
      ∃ program machine assembly, Accepted invocation inputs program machine assembly) ∧
    (∀ failure, Refused invocation inputs failure →
      run directory invocation = ⟨directory, "", some failure⟩) ∧
    ∀ program machine assembly, Accepted invocation inputs program machine assembly →
      Completed directory invocation outputs program machine assembly (run directory invocation) ∨
        invocation.listing = true ∧ 0xFFFF0000 ≤ assembly.bytes.length ∧
          ∃ fault, assembly.listing machine.instructions program = .error fault ∧
            run directory invocation =
              ⟨directory.put outputs.image (imageContents invocation.format assembly.bytes), "",
                some (.notListed invocation.program fault)⟩ := by
  refine ⟨refused_or_accepted hinputs, ?_, ?_⟩
  · intro failure hrefused
    exact run_of_produce_error (produce_of_refused hinputs hrefused)
  · intro program machine assembly haccepted
    have hproduce := produce_of_accepted hinputs haccepted
    by_cases hflag : invocation.listing = true
    · cases hlisting : assembly.listing machine.instructions program with
      | ok listing =>
        have hprinted : printed invocation ⟨program, machine.instructions, assembly⟩ =
            .ok listing := by
          rw [printed, if_pos hflag, hlisting]
          rfl
        exact .inl (completed_of_produce houtputs hproduce hprinted)
      | error fault =>
        obtain ⟨hlong, hrun⟩ := run_of_listing_error hinputs houtputs haccepted hflag hlisting
        exact .inr ⟨hflag, hlong, fault, rfl, hrun⟩
    · exact .inl (completed_of_produce houtputs hproduce (if_neg hflag))

end

/-- The text of the instruction table of `Machine.small`. -/
def smallTable : String :=
  (Json.object [("jump", Entry.toJson ⟨0x20, .singleWord, 3, none⟩),
    ("low", Entry.toJson ⟨0x21, .registerByte, 3, none⟩),
    ("pad", Entry.toJson ⟨0x22, .bare, 9, none⟩)]).compact

/-- A directory with a program and an instruction table. -/
def workplace : Directory :=
  ⟨[⟨["loop.json"], Machine.loop.toJson.compact.toUTF8⟩, ⟨["small.json"], smallTable.toUTF8⟩]⟩

/-- A build of that program from the given address, with all outputs. -/
def buildFrom (origin : String) : Invocation where
  program := "loop.json"
  output := "loop.hex"
  table := some "small.json"
  registers := none
  origin := origin
  lenientSizes := false
  format := .hex
  listing := true
  labels := some "labels.json"

theorem parse?_smallTable :
    InstructionTable.parse? smallTable = some Machine.small.instructions := by
  rw [InstructionTable.parse?, smallTable, Json.parse?_compact]
  · rfl
  · apply Json.Integral.object
    simp only [List.forall_mem_cons]
    exact ⟨Entry.integral_toJson _, Entry.integral_toJson _, Entry.integral_toJson _,
      List.forall_mem_nil _⟩

theorem loads_workplace :
    Inputs.Loads ⟨Machine.loop.toJson.compact, some smallTable, none⟩ Machine.loop
      Machine.small where
  program := by
    rw [Program.parse?, Json.parse?_compact Machine.loop.integral_toJson]
    exact Machine.loop.ofJson?_toJson
  table := parse?_smallTable
  registers := rfl

theorem readIn_workplace (origin : String) :
    Inputs.ReadIn ⟨Machine.loop.toJson.compact, some smallTable, none⟩ workplace
      (buildFrom origin) := by
  have hloop : workplace.WritesAt "loop.json" ["loop.json"] :=
    .of_name (by decide) (by decide) (by decide) (by decide)
  have hsmall : workplace.WritesAt "small.json" ["small.json"] :=
    .of_name (by decide) (by decide) (by decide) (by decide)
  exact ⟨hloop.readText_eq rfl, .some (hsmall.readText_eq rfl), .none⟩

theorem writtenIn_workplace (origin : String) :
    Outputs.WrittenIn ⟨["loop.hex"], some ["labels.json"]⟩ workplace (buildFrom origin) := by
  have hloop : workplace.WritesAt "loop.hex" ["loop.hex"] :=
    .of_name (by decide) (by decide) (by decide) (by decide)
  have hlabels : workplace.WritesAt "labels.json" ["labels.json"] :=
    .of_name (by decide) (by decide) (by decide) (by decide)
  exact ⟨hloop, .some hlabels, by decide⟩

/-- An origin without digits is refused, and with one the build succeeds. -/
theorem run_all_or_nothing_loop :
    run workplace (buildFrom "0x") = ⟨workplace, "", some (.invalidOrigin .empty)⟩ ∧
      ∃ assembly, Completed workplace (buildFrom "0x1FE") ⟨["loop.hex"], some ["labels.json"]⟩
        Machine.loop Machine.small assembly (run workplace (buildFrom "0x1FE")) := by
  constructor
  · obtain ⟨-, hrefused, -⟩ :=
      run_all_or_nothing (readIn_workplace "0x") (writtenIn_workplace "0x")
    exact hrefused _ (.origin loads_workplace (by cbv))
  · obtain ⟨-, -, haccepted⟩ :=
      run_all_or_nothing (readIn_workplace "0x1FE") (writtenIn_workplace "0x1FE")
    rcases haccepted _ _ _ ⟨loads_workplace, 0x1FE, by cbv, Machine.assemble_loop⟩ with
      hcompleted | ⟨-, hlong, -⟩
    · exact ⟨_, hcompleted⟩
    · exact absurd hlong (by decide)

end TwoPass.CommandLine.Build
