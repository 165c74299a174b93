import TwoPass.Proofs.Image
import TwoPass.Proofs.Placement

/-!
# Which programs are rejected, and why

Assembling fails exactly on the programs with a statement that breaks a rule of one of the passes.
The first pass has the first word: a statement that breaks one of its rules is reported even if an
earlier one breaks a rule of the second pass.
-/

namespace TwoPass

namespace Machine

variable {machine : Machine} {config : Config} {program : Program} {assembly : Assembly}
  {diagnostic : Diagnostic}

/-- The rules of the first pass. -/
def placementRule (machine : Machine) (config : Config) : Rule :=
  PlacementFault machine.instructions config.origin

/-- The rules of the second pass, where the labels are those of the program itself. -/
def encodingRule (machine : Machine) (config : Config) (program : Program) : Rule :=
  EncodingFault machine (fun name ↦ .label name ∈ program) config.strictSizes

/-- The diagnostic with which a program is rejected: that of the first pass, or that of the second
one if the first one has none. -/
inductive Rejects (machine : Machine) (config : Config) (program : Program) : Diagnostic → Prop
  | placement {diagnostic : Diagnostic}
      (hreports : (machine.placementRule config).Reports program diagnostic) :
      Rejects machine config program diagnostic
  | encoding {diagnostic : Diagnostic}
      (hplaced : ∀ index cause, ¬ (machine.placementRule config).BrokenAt program index cause)
      (hreports : (machine.encodingRule config program).Reports program diagnostic) :
      Rejects machine config program diagnostic

theorem exists_rejects_iff :
    (∃ diagnostic, machine.Rejects config program diagnostic) ↔
      ∃ index cause, (machine.placementRule config).BrokenAt program index cause ∨
        (machine.encodingRule config program).BrokenAt program index cause := by
  refine ⟨?_, ?_⟩
  · intro ⟨diagnostic, h⟩
    cases h with
    | placement hreports => exact ⟨_, _, .inl hreports.broken⟩
    | encoding _ hreports => exact ⟨_, _, .inr hreports.broken⟩
  · intro ⟨index, cause, hbroken⟩
    by_cases hfirst : ∃ index cause, (machine.placementRule config).BrokenAt program index cause
    · obtain ⟨diagnostic, hreports⟩ := Rule.exists_reports_iff.mpr hfirst
      exact ⟨diagnostic, .placement hreports⟩
    · have hplaced : ∀ index cause, ¬ (machine.placementRule config).BrokenAt program index cause :=
        fun index cause hbroken ↦ hfirst ⟨index, cause, hbroken⟩
      have hsecond : (machine.encodingRule config program).BrokenAt program index cause :=
        hbroken.resolve_left (hplaced index cause)
      obtain ⟨diagnostic, hreports⟩ := Rule.exists_reports_iff.mpr ⟨index, cause, hsecond⟩
      exact ⟨diagnostic, .encoding hplaced hreports⟩

theorem assemble_eq_error_of_resolve
    (h : machine.instructions.resolve config.origin program = .error diagnostic) :
    machine.assemble config program = .error diagnostic := by
  rw [assemble_eq, h, Except.bind]

/-- Behind the first pass, only the second one can fail. -/
theorem assemble_eq_error_iff_of_resolve {labels : LabelTable}
    (h : machine.instructions.resolve config.origin program = .ok labels) :
    machine.assemble config program = .error diagnostic ↔
      (machine.encodingRule config program).Reports program diagnostic := by
  have hlabels : ∀ name, labels.get? name = none ↔ ¬ Statement.label name ∈ program :=
    fun _ ↦ InstructionTable.get?_eq_none_iff_of_resolve h
  rw [encodingRule, ← encode_eq_error_iff hlabels, assemble_eq, h, Except.bind]
  cases machine.encode labels config program <;> simp [Except.bind]

theorem assemble_eq_error_iff :
    machine.assemble config program = .error diagnostic ↔
      machine.Rejects config program diagnostic := by
  cases hresolve : machine.instructions.resolve config.origin program with
  | error first =>
    have hfirst : (machine.placementRule config).Reports program first :=
      InstructionTable.resolve_eq_error_iff.mp hresolve
    rw [assemble_eq_error_of_resolve hresolve, Except.error.injEq]
    refine ⟨?_, ?_⟩
    · intro hsame
      subst hsame
      exact .placement hfirst
    · intro h
      cases h with
      | placement hreports =>
        exact hfirst.unique (PlacementFault.unambiguous _ _) hreports
      | encoding hplaced _ => exact absurd hfirst.broken (hplaced _ _)
  | ok labels =>
    have hplaced : ∀ index cause, ¬ (machine.placementRule config).BrokenAt program index cause :=
      InstructionTable.places_iff.mp (InstructionTable.resolve_eq_ok_iff.mp hresolve).1
    rw [assemble_eq_error_iff_of_resolve hresolve]
    refine ⟨.encoding hplaced, ?_⟩
    intro h
    cases h with
    | placement hreports => exact absurd hreports.broken (hplaced _ _)
    | encoding _ hreports => exact hreports

/-- Where the second pass has nothing to report, the first one decides. -/
theorem assemble_eq_error_iff_of_encodes
    (hclean : ∀ index cause, ¬ (machine.encodingRule config program).BrokenAt program index cause) :
    machine.assemble config program = .error diagnostic ↔
      (machine.placementRule config).Reports program diagnostic := by
  rw [assemble_eq_error_iff]
  refine ⟨?_, .placement⟩
  intro h
  cases h with
  | placement hreports => exact hreports
  | encoding _ hreports => exact absurd hreports.broken (hclean _ _)

theorem not_brokenAt_encodingRule_of_assemble (h : machine.assemble config program = .ok assembly) :
    ∀ index cause, ¬ (machine.encodingRule config program).BrokenAt program index cause := by
  obtain ⟨-, hresolve, -⟩ := assemble_eq_ok_iff.mp h
  apply Rule.not_reports_iff.mp
  intro diagnostic hreports
  rw [← assemble_eq_error_iff_of_resolve hresolve, h] at hreports
  cases hreports

/-- A program is rejected exactly if a statement breaks a rule, and the diagnostic is the one that
the rules single out. -/
theorem rejection_exact (machine : Machine) (config : Config) (program : Program) :
    ((∃ diagnostic, machine.assemble config program = .error diagnostic) ↔
      ∃ index cause, (machine.placementRule config).BrokenAt program index cause ∨
        (machine.encodingRule config program).BrokenAt program index cause) ∧
    ∀ diagnostic, machine.assemble config program = .error diagnostic ↔
      machine.Rejects config program diagnostic := by
  refine ⟨?_, fun diagnostic ↦ assemble_eq_error_iff⟩
  rw [← exists_rejects_iff]
  exact exists_congr fun diagnostic ↦ assemble_eq_error_iff

-- the jump lacks its operand, but the second pass does not come to see it
example : small.assemble ⟨0, true⟩ [.instruction "jump" [], .label "twice", .label "twice"] =
    .error ⟨⟨2, some "twice"⟩, .duplicateLabel "twice"⟩ := rfl

end Machine

end TwoPass
