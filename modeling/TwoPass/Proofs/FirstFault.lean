import TwoPass.Proofs.Extent

/-!
# The first fault of a program

Both passes walk through a program and stop at the first statement that breaks one of their rules.
`FirstFault` follows such a walk; `Rule.Reports` says the same without a walk, by the least index
at which a rule is broken.  `WalkEnds` adds the value with which a walk ends that meets no fault.
-/

namespace TwoPass

/-- A rule says for which causes a statement is rejected after some earlier statements. -/
abbrev Rule := Program → Statement → Cause → Prop

/-- A walk through a program, of which `earlier` is behind it, ends at a fault. -/
inductive FirstFault (rule : Rule) : Program → Program → Diagnostic → Prop
  | here {earlier rest : Program} {statement : Statement} {cause : Cause}
      (hfault : rule earlier statement cause) :
      FirstFault rule earlier (statement :: rest) ⟨Location.start.following earlier, cause⟩
  | later {earlier rest : Program} {statement : Statement} {diagnostic : Diagnostic}
      (hclean : ∀ cause, ¬ rule earlier statement cause)
      (hrest : FirstFault rule (earlier ++ [statement]) rest diagnostic) :
      FirstFault rule earlier (statement :: rest) diagnostic

namespace FirstFault

variable {rule : Rule} {earlier rest : Program} {statement : Statement} {diagnostic : Diagnostic}

theorem not_nil : ¬ FirstFault rule earlier [] diagnostic := by
  intro h
  cases h

/-- At a statement without a fault the walk goes on. -/
theorem cons_iff_of_clean (hclean : ∀ cause, ¬ rule earlier statement cause) :
    FirstFault rule earlier (statement :: rest) diagnostic ↔
      FirstFault rule (earlier ++ [statement]) rest diagnostic := by
  refine ⟨?_, ?_⟩
  · intro h
    cases h with
    | here hfault => exact absurd hfault (hclean _)
    | later _ hrest => exact hrest
  · exact .later hclean

end FirstFault

/-! ## Faults by index -/

namespace Rule

/-- The statement with the given index is rejected for a cause. -/
def BrokenAt (rule : Rule) (program : Program) (index : Nat) (cause : Cause) : Prop :=
  ∃ statement, program[index]? = some statement ∧ rule (program.take index) statement cause

/-- Every statement is rejected for at most one cause. -/
def Unambiguous (rule : Rule) : Prop :=
  ∀ ⦃earlier statement cause other⦄,
    rule earlier statement cause → rule earlier statement other → cause = other

/-- A diagnostic is about the least index at which a rule is broken. -/
structure Reports (rule : Rule) (program : Program) (diagnostic : Diagnostic) : Prop where
  broken : rule.BrokenAt program diagnostic.location.index diagnostic.cause
  least : ∀ index < diagnostic.location.index, ∀ cause, ¬ rule.BrokenAt program index cause
  /-- The location names the last label before the statement. -/
  label : diagnostic.location.label =
    (Program.labelNames (program.take diagnostic.location.index)).getLast?

variable {rule : Rule} {program earlier rest : Program} {diagnostic : Diagnostic}

theorem reports_append_of_firstFault (h : FirstFault rule earlier rest diagnostic)
    (hearlier : ∀ index < earlier.length, ∀ cause, ¬ rule.BrokenAt (earlier ++ rest) index cause) :
    rule.Reports (earlier ++ rest) diagnostic := by
  induction h with
  | @here earlier rest statement cause hfault =>
    rw [Location.start_following]
    have htake : (earlier ++ statement :: rest).take earlier.length = earlier := by simp
    refine ⟨⟨statement, by simp, ?_⟩, hearlier, ?_⟩
    · rw [htake]
      exact hfault
    · rw [htake]
  | @later earlier rest statement diagnostic hclean _ ih =>
    rw [show earlier ++ statement :: rest = earlier ++ [statement] ++ rest by simp] at hearlier ⊢
    apply ih
    intro index hindex cause hbroken
    rw [List.length_append, List.length_singleton] at hindex
    by_cases hlast : index = earlier.length
    · obtain ⟨other, hother, hfault⟩ := hbroken
      subst hlast
      have hsame : statement = other := by simpa using hother
      rw [List.append_assoc, List.take_left, ← hsame] at hfault
      exact hclean cause hfault
    · exact hearlier index (by omega) cause hbroken

theorem exists_firstFault_of_brokenAt {index : Nat} {cause : Cause} {statement : Statement}
    (hstatement : rest[index]? = some statement)
    (hfault : rule (earlier ++ rest.take index) statement cause) :
    ∃ diagnostic, FirstFault rule earlier rest diagnostic := by
  induction rest generalizing earlier index with
  | nil => simp at hstatement
  | cons first rest ih =>
    by_cases hfirst : ∃ cause, rule earlier first cause
    · obtain ⟨cause, hcause⟩ := hfirst
      exact ⟨_, .here hcause⟩
    · have hclean : ∀ cause, ¬ rule earlier first cause := not_exists.mp hfirst
      cases index with
      | zero =>
        rw [List.getElem?_cons_zero, Option.some.injEq] at hstatement
        rw [List.take_zero, List.append_nil, ← hstatement] at hfault
        exact absurd hfault (hclean cause)
      | succ index =>
        rw [List.getElem?_cons_succ] at hstatement
        rw [List.take_succ_cons, List.append_cons] at hfault
        obtain ⟨diagnostic, hrest⟩ := ih hstatement hfault
        exact ⟨diagnostic, .later hclean hrest⟩

theorem exists_firstFault_iff :
    (∃ diagnostic, FirstFault rule [] program diagnostic) ↔
      ∃ index cause, rule.BrokenAt program index cause := by
  refine ⟨?_, ?_⟩
  · intro ⟨diagnostic, h⟩
    exact ⟨_, _, (reports_append_of_firstFault h (by simp)).broken⟩
  · intro ⟨index, cause, statement, hstatement, hfault⟩
    exact exists_firstFault_of_brokenAt hstatement hfault

/-- A program in which a rule is broken has a diagnostic. -/
theorem exists_reports_iff :
    (∃ diagnostic, rule.Reports program diagnostic) ↔
      ∃ index cause, rule.BrokenAt program index cause := by
  refine ⟨fun ⟨_, h⟩ ↦ ⟨_, _, h.broken⟩, ?_⟩
  intro hbroken
  obtain ⟨diagnostic, hfault⟩ := exists_firstFault_iff.mpr hbroken
  exact ⟨diagnostic, reports_append_of_firstFault hfault (by simp)⟩

/-- At most one diagnostic reports a program. -/
theorem Reports.unique {found : Diagnostic} (hunique : rule.Unambiguous)
    (hfound : rule.Reports program found) (h : rule.Reports program diagnostic) :
    found = diagnostic := by
  have hindex : found.location.index = diagnostic.location.index := by
    rcases Nat.lt_trichotomy found.location.index diagnostic.location.index with hlt | heq | hgt
    · exact absurd hfound.broken (h.least _ hlt _)
    · exact heq
    · exact absurd h.broken (hfound.least _ hgt _)
  have hcause : found.cause = diagnostic.cause := by
    obtain ⟨first, hfirst, hfault⟩ := hfound.broken
    obtain ⟨second, hsecond, hother⟩ := h.broken
    rw [hindex] at hfirst hfault
    rw [hfirst, Option.some.injEq] at hsecond
    subst hsecond
    exact hunique hfault hother
  have hlabel : found.location.label = diagnostic.location.label := by
    rw [hfound.label, h.label, hindex]
  obtain ⟨⟨foundIndex, foundLabel⟩, foundCause⟩ := found
  obtain ⟨⟨index, label⟩, cause⟩ := diagnostic
  simp only at hindex hcause hlabel
  rw [hindex, hcause, hlabel]

/-- A diagnostic only depends on the statements up to the one that it is about. -/
theorem Reports.of_agree {other : Rule} (h : rule.Reports program diagnostic)
    (hagree : ∀ index ≤ diagnostic.location.index, ∀ cause,
      rule.BrokenAt program index cause ↔ other.BrokenAt program index cause) :
    other.Reports program diagnostic where
  broken := (hagree _ (Nat.le_refl _) _).mp h.broken
  least index hindex cause hbroken :=
    h.least index hindex cause ((hagree index (Nat.le_of_lt hindex) cause).mpr hbroken)
  label := h.label

/-- Rules that are broken at the same places have the same diagnostics. -/
theorem reports_congr {other : Rule}
    (hagree : ∀ index cause,
      rule.BrokenAt program index cause ↔ other.BrokenAt program index cause) :
    rule.Reports program diagnostic ↔ other.Reports program diagnostic :=
  ⟨fun h ↦ h.of_agree fun index _ ↦ hagree index,
    fun h ↦ h.of_agree fun index _ cause ↦ (hagree index cause).symm⟩

theorem not_reports_iff :
    (∀ diagnostic, ¬ rule.Reports program diagnostic) ↔
      ∀ index cause, ¬ rule.BrokenAt program index cause := by
  rw [← not_exists, exists_reports_iff, not_exists]
  exact forall_congr' fun _ ↦ not_exists

/-- The walk from the start of a program ends at the least index with a fault. -/
theorem firstFault_iff_reports (hunique : rule.Unambiguous) :
    FirstFault rule [] program diagnostic ↔ rule.Reports program diagnostic := by
  refine ⟨?_, ?_⟩
  · intro h
    exact reports_append_of_firstFault h (by simp)
  · intro h
    obtain ⟨found, hfound⟩ := exists_firstFault_iff.mpr ⟨_, _, h.broken⟩
    have hreports : rule.Reports program found := reports_append_of_firstFault hfound (by simp)
    rw [← hreports.unique hunique h]
    exact hfound

end Rule

/-! ## How a walk ends -/

/-- The outcome of a walk is its first fault, or an accepted value where there is no fault. -/
inductive WalkEnds {α : Type} (rule : Rule) (earlier rest : Program) (accepts : α → Prop) :
    Except Diagnostic α → Prop
  | fault {diagnostic : Diagnostic} (hfault : FirstFault rule earlier rest diagnostic) :
      WalkEnds rule earlier rest accepts (.error diagnostic)
  | clean {value : α} (hclean : ∀ diagnostic, ¬ FirstFault rule earlier rest diagnostic)
      (haccepts : accepts value) :
      WalkEnds rule earlier rest accepts (.ok value)

namespace WalkEnds

variable {α β : Type} {rule : Rule} {earlier rest program : Program} {statement : Statement}
  {accepts : α → Prop} {outcome : Except Diagnostic α}

/-- Behind a statement without a fault a walk ends as the rest of it does. -/
theorem later (hclean : ∀ cause, ¬ rule earlier statement cause)
    (h : WalkEnds rule (earlier ++ [statement]) rest accepts outcome) :
    WalkEnds rule earlier (statement :: rest) accepts outcome := by
  cases h with
  | fault hfault => exact .fault (.later hclean hfault)
  | clean hnone haccepts =>
    refine .clean ?_ haccepts
    intro diagnostic hfault
    rw [FirstFault.cons_iff_of_clean hclean] at hfault
    exact hnone diagnostic hfault

theorem mono {acceptsMore : α → Prop} (h : WalkEnds rule earlier rest accepts outcome)
    (hmore : ∀ value, accepts value → acceptsMore value) :
    WalkEnds rule earlier rest acceptsMore outcome := by
  cases h with
  | fault hfault => exact .fault hfault
  | clean hnone haccepts => exact .clean hnone (hmore _ haccepts)

/-- The value of a walk may be changed after its end. -/
theorem map {acceptsNext : β → Prop} (h : WalkEnds rule earlier rest accepts outcome)
    (next : α → β) (hnext : ∀ value, accepts value → acceptsNext (next value)) :
    WalkEnds rule earlier rest acceptsNext (outcome.bind fun value ↦ .ok (next value)) := by
  cases h with
  | fault hfault => exact .fault hfault
  | clean hnone haccepts => exact .clean hnone (hnext _ haccepts)

theorem accepts_of_eq_ok {value : α} (h : WalkEnds rule earlier rest accepts outcome)
    (hok : outcome = .ok value) : accepts value := by
  subst hok
  cases h with
  | clean _ haccepts => exact haccepts

theorem eq_error_iff {diagnostic : Diagnostic} (h : WalkEnds rule [] program accepts outcome)
    (hunique : rule.Unambiguous) :
    outcome = .error diagnostic ↔ rule.Reports program diagnostic := by
  rw [← Rule.firstFault_iff_reports hunique]
  cases h with
  | @fault found hfault =>
    rw [Except.error.injEq]
    refine ⟨?_, ?_⟩
    · intro hsame
      subst hsame
      exact hfault
    · intro hother
      rw [Rule.firstFault_iff_reports hunique] at hfault hother
      exact Rule.Reports.unique hunique hfault hother
  | clean hnone _ =>
    refine ⟨?_, ?_⟩
    · intro hok
      cases hok
    · intro hfault
      exact absurd hfault (hnone diagnostic)

theorem exists_ok_iff (h : WalkEnds rule [] program accepts outcome) :
    (∃ value, outcome = .ok value) ↔ ∀ index cause, ¬ rule.BrokenAt program index cause := by
  have hfaults : (∃ diagnostic, FirstFault rule [] program diagnostic) ↔
      ∃ index cause, rule.BrokenAt program index cause := Rule.exists_firstFault_iff
  cases h with
  | fault hfault =>
    refine ⟨?_, ?_⟩
    · intro ⟨value, hok⟩
      cases hok
    · intro hnone
      obtain ⟨index, cause, hbroken⟩ := hfaults.mp ⟨_, hfault⟩
      exact absurd hbroken (hnone index cause)
  | @clean value hnone _ =>
    refine ⟨?_, ?_⟩
    · intro _ index cause hbroken
      obtain ⟨diagnostic, hfault⟩ := hfaults.mpr ⟨index, cause, hbroken⟩
      exact hnone diagnostic hfault
    · intro _
      exact ⟨value, rfl⟩

end WalkEnds

end TwoPass
