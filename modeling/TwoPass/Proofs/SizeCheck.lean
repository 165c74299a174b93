import TwoPass.Proofs.Linking
import TwoPass.Proofs.Rejection

/-!
# Strict and lenient sizes

Strict sizes add one rule to the second pass, which is checked behind all others: an instruction has
to declare the size that it encodes to.  A program that lenient sizes accept is therefore rejected
at its first wrong size, or assembled to the very same result.  What lenient sizes cost is the
exactness of labels, and `Program.drift` says by how much a label is off.
-/

namespace TwoPass

/-! ## Two rules one behind the other -/

namespace Rule

/-- A statement is checked by the second rule only if it breaks no part of the first one. -/
def followedBy (rule extra : Rule) : Rule := fun earlier statement cause ↦
  rule earlier statement cause ∨
    (∀ other, ¬ rule earlier statement other) ∧ extra earlier statement cause

variable {rule extra : Rule} {program : Program} {diagnostic : Diagnostic}

theorem brokenAt_followedBy {index : Nat} {cause : Cause} :
    (rule.followedBy extra).BrokenAt program index cause ↔
      rule.BrokenAt program index cause ∨
        (∀ other, ¬ rule.BrokenAt program index other) ∧ extra.BrokenAt program index cause := by
  unfold BrokenAt followedBy
  cases program[index]? <;> simp

/-- Where the first rule is never broken, only the second one counts. -/
theorem reports_followedBy_of_clean (hclean : ∀ index cause, ¬ rule.BrokenAt program index cause) :
    (rule.followedBy extra).Reports program diagnostic ↔ extra.Reports program diagnostic := by
  apply reports_congr
  intro index cause
  rw [brokenAt_followedBy]
  have hfirst := hclean index
  simp [hfirst]

/-- A diagnostic of the first rule is kept, unless the second rule is broken before it. -/
theorem reports_followedBy_or (h : rule.Reports program diagnostic) :
    (rule.followedBy extra).Reports program diagnostic ∨
      ∃ found, (rule.followedBy extra).Reports program found ∧ extra.Reports program found ∧
        found.location.index < diagnostic.location.index := by
  by_cases hearlier : ∃ index cause, index < diagnostic.location.index ∧
      extra.BrokenAt program index cause
  · right
    obtain ⟨index, cause, hindex, hbroken⟩ := hearlier
    obtain ⟨found, hfound⟩ := exists_reports_iff.mpr ⟨index, cause, hbroken⟩
    have hbefore : found.location.index < diagnostic.location.index := by
      apply Nat.lt_of_le_of_lt _ hindex
      apply Nat.le_of_not_lt
      intro hless
      exact hfound.least index hless cause hbroken
    refine ⟨found, hfound.of_agree ?_, hfound, hbefore⟩
    intro position hposition other
    have hclean := h.least position (Nat.lt_of_le_of_lt hposition hbefore)
    simp [brokenAt_followedBy, hclean]
  · left
    apply h.of_agree
    intro index hindex cause
    rw [brokenAt_followedBy]
    refine ⟨.inl, ?_⟩
    rintro (hbroken | ⟨hclean, hbroken⟩)
    · exact hbroken
    -- at the index of the diagnostic itself the first rule is broken
    · have hlt : index < diagnostic.location.index := by
        apply Nat.lt_of_le_of_ne hindex
        intro hsame
        exact hclean _ (hsame ▸ h.broken)
      exact absurd ⟨index, cause, hlt, hbroken⟩ hearlier

end Rule

/-! ## Wrong sizes -/

/-- The rule that strict sizes add. -/
inductive SizeFault (table : InstructionTable) (earlier : Program) : Statement → Cause → Prop
  | mismatch {mnemonic : String} {operands : List Operand} {entry : Entry}
      (hentry : table.get? mnemonic = some entry)
      (hsize : entry.size.toNat ≠ entry.mode.encodedSize) :
      SizeFault table earlier (.instruction mnemonic operands)
        (.sizeMismatch mnemonic entry.size entry.mode.encodedSize)

/-- Every instruction of a program declares the size that it encodes to. -/
def Program.SizesAgree (table : InstructionTable) (program : Program) : Prop :=
  ∀ ⦃mnemonic : String⦄ ⦃operands : List Operand⦄ ⦃entry : Entry⦄,
    .instruction mnemonic operands ∈ program → table.get? mnemonic = some entry →
      entry.size.toNat = entry.mode.encodedSize

theorem Program.SizesAgree.tail {table : InstructionTable} {statement : Statement}
    {program : Program} (h : Program.SizesAgree table (statement :: program)) :
    program.SizesAgree table :=
  fun _ _ _ hmem ↦ h (List.mem_cons_of_mem statement hmem)

theorem Program.sizesAgree_iff {table : InstructionTable} {program : Program} :
    program.SizesAgree table ↔
      ∀ index cause, ¬ Rule.BrokenAt (SizeFault table) program index cause := by
  refine ⟨?_, ?_⟩
  · rintro h index cause ⟨statement, hstatement, hfault⟩
    cases hfault with
    | mismatch hentry hsize => exact hsize (h (List.mem_of_getElem? hstatement) hentry)
  · intro h mnemonic operands entry hmem hentry
    obtain ⟨index, hstatement⟩ := List.getElem?_of_mem hmem
    apply Decidable.not_not.mp
    intro hsize
    exact h index _ ⟨_, hstatement, .mismatch hentry hsize⟩

/-- The rules of strict sizes are those of lenient sizes, and behind them that of the sizes. -/
theorem encodingFault_strict (machine : Machine) (isLabel : String → Prop) :
    EncodingFault machine isLabel true =
      Rule.followedBy (EncodingFault machine isLabel false) (SizeFault machine.instructions) := by
  funext earlier statement cause
  apply propext
  refine ⟨?_, ?_⟩
  · intro h
    cases h with
    | unknownMnemonic hunknown => exact .inl (.unknownMnemonic hunknown)
    | arity hentry harity => exact .inl (.arity hentry harity)
    | operand hentry harity hleftmost => exact .inl (.operand hentry harity hleftmost)
    | @size mnemonic operands entry hentry harity hoperands _ hsize =>
      refine .inr ⟨?_, .mismatch hentry hsize⟩
      intro other hother
      cases hother with
      | unknownMnemonic hunknown =>
        rw [hentry] at hunknown
        cases hunknown
      | arity hfound hwrong =>
        rw [hentry, Option.some.injEq] at hfound
        exact hwrong (hfound ▸ harity)
      | operand hfound _ hleftmost =>
        rw [hentry, Option.some.injEq] at hfound
        subst hfound
        obtain ⟨position, hfault, _⟩ := hleftmost
        exact hoperands position _ hfault
      | size _ _ _ hstrict _ => cases hstrict
  · rintro (h | ⟨hclean, hsize⟩)
    · cases h with
      | unknownMnemonic hunknown => exact .unknownMnemonic hunknown
      | arity hentry harity => exact .arity hentry harity
      | operand hentry harity hleftmost => exact .operand hentry harity hleftmost
      | size _ _ _ hstrict _ => cases hstrict
    · cases hsize with
      | @mismatch mnemonic operands entry hentry hsize =>
        have harity : operands.length = entry.mode.arity := by
          apply Decidable.not_not.mp
          intro hwrong
          exact hclean _ (.arity hentry hwrong)
        refine .size hentry harity ?_ rfl hsize
        intro position other hfault
        obtain ⟨leftmost, hleftmost⟩ := exists_leftmost_iff.mpr ⟨position, other, hfault⟩
        exact hclean leftmost (.operand hentry harity hleftmost)

/-! ## Drift -/

/-- By how much the declared size of an instruction passes the encoded one. -/
def Entry.excess (entry : Entry) : Int :=
  entry.size.toNat - entry.mode.encodedSize

namespace Program

variable {table : InstructionTable} {program : Program}

/-- The sum of the excesses of a program's instructions. -/
def drift (table : InstructionTable) : Program → Int
  | [] => 0
  | .label _ :: rest => drift table rest
  | .instruction mnemonic _ :: rest =>
    ((table.get? mnemonic).map Entry.excess).getD 0 + drift table rest

/-- The two passes count bytes that differ by the drift. -/
theorem declaredSize_eq_add_drift (table : InstructionTable) (program : Program) :
    (declaredSize table program : Int) = encodedSize table program + drift table program := by
  induction program with
  | nil => rfl
  | cons statement rest ih =>
    cases statement with
    | label name => exact ih
    | instruction mnemonic operands =>
      simp only [declaredSize, encodedSize, extent, drift] at ih ⊢
      cases table.get? mnemonic with
      | none => simpa using ih
      | some entry =>
        simp only [Option.map_some, Option.getD_some, Entry.excess]
        omega

theorem SizesAgree.drift_eq_zero (h : program.SizesAgree table) : drift table program = 0 := by
  induction program with
  | nil => rfl
  | cons statement rest ih =>
    cases statement with
    | label name => exact ih h.tail
    | instruction mnemonic operands =>
      rw [drift, ih h.tail]
      cases hentry : table.get? mnemonic with
      | none => rfl
      | some entry =>
        have hsize := h List.mem_cons_self hentry
        simp only [Option.map_some, Option.getD_some, Entry.excess]
        omega

end Program

/-! ## Strict and lenient runs -/

namespace Machine

variable {machine : Machine} {labels : LabelTable} {config : Config} {origin : UInt16}
  {program : Program} {assembly : Assembly} {diagnostic : Diagnostic}

/-- What strict sizes make of a program that lenient sizes assemble, and where its labels are. -/
structure StrictOfOk (machine : Machine) (origin : UInt16) (program : Program)
    (assembly : Assembly) : Prop where
  /-- The result is the same exactly if all sizes agree. -/
  ok_iff : machine.assemble ⟨origin, true⟩ program = .ok assembly ↔
    program.SizesAgree machine.instructions
  /-- Otherwise the first wrong size is reported. -/
  error_iff : ∀ diagnostic, machine.assemble ⟨origin, true⟩ program = .error diagnostic ↔
    Rule.Reports (SizeFault machine.instructions) program diagnostic
  label : ∀ {index : Nat} {name : String}, program[index]? = some (.label name) →
    ∃ address, assembly.labels.get? name = some address ∧
      (address.toNat : Int) - (origin.toNat + assembly.emittedBefore index) =
        Program.drift machine.instructions (program.take index) ∧
      (Program.SizesAgree machine.instructions (program.take index) →
        address.toNat = origin.toNat + assembly.emittedBefore index)

/-- What strict sizes make of a program that lenient sizes reject: the same diagnostic, or a wrong
size at an earlier statement if the first pass has nothing to report. -/
inductive StrictOfError (machine : Machine) (origin : UInt16) (program : Program)
    (diagnostic : Diagnostic) : Prop
  | same (hsame : machine.assemble ⟨origin, true⟩ program = .error diagnostic) :
      StrictOfError machine origin program diagnostic
  | earlier {labels : LabelTable} {found : Diagnostic}
      (hresolve : machine.instructions.resolve origin program = .ok labels)
      (hfound : machine.assemble ⟨origin, true⟩ program = .error found)
      (hsize : Rule.Reports (SizeFault machine.instructions) program found)
      (hindex : found.location.index < diagnostic.location.index) :
      StrictOfError machine origin program diagnostic

theorem encodingRule_strict (machine : Machine) (origin : UInt16) (program : Program) :
    machine.encodingRule ⟨origin, true⟩ program =
      (machine.encodingRule ⟨origin, false⟩ program).followedBy (SizeFault machine.instructions) :=
  encodingFault_strict machine _

theorem assemble_strict_eq_error_iff
    (h : machine.instructions.resolve origin program = .ok labels) :
    machine.assemble ⟨origin, true⟩ program = .error diagnostic ↔
      ((machine.encodingRule ⟨origin, false⟩ program).followedBy
        (SizeFault machine.instructions)).Reports program diagnostic := by
  rw [← encodingRule_strict]
  exact assemble_eq_error_iff_of_resolve h

theorem Lays.strict {index offset : Nat} {image : Image}
    (h : machine.Lays labels ⟨origin, false⟩ index offset program image)
    (hagree : program.SizesAgree machine.instructions) :
    machine.Lays labels ⟨origin, true⟩ index offset program image := by
  induction h with
  | nil => exact .nil
  | label _ ih => exact .label (ih hagree.tail)
  | instruction hbytes _ ih =>
    cases hbytes with
    | intro hentry hbody _ =>
      have hsize := hagree List.mem_cons_self hentry
      exact .instruction (.intro hentry hbody fun _ ↦ hsize) (ih hagree.tail)

/-- A label is off by the drift of the statements before it, whatever the strictness is. -/
theorem exists_address_eq_add_drift (h : machine.assemble config program = .ok assembly)
    {index : Nat} {name : String} (hlabel : program[index]? = some (.label name)) :
    ∃ address, assembly.labels.get? name = some address ∧
      (address.toNat : Int) = config.origin.toNat + assembly.emittedBefore index +
        Program.drift machine.instructions (program.take index) := by
  obtain ⟨-, hresolve, hlays⟩ := assemble_eq_ok_iff.mp h
  obtain ⟨address, hget, hdeclared⟩ := InstructionTable.get?_of_resolve hresolve hlabel
  refine ⟨address, hget, ?_⟩
  calc
    (address.toNat : Int) = config.origin.toNat +
        (Program.declaredSize machine.instructions (program.take index) : Int) := by
      rw [hdeclared, Int.natCast_add]
    _ = config.origin.toNat + (Program.encodedSize machine.instructions (program.take index) +
        Program.drift machine.instructions (program.take index)) := by
      rw [Program.declaredSize_eq_add_drift]
    _ = config.origin.toNat + assembly.emittedBefore index +
        Program.drift machine.instructions (program.take index) := by
      rw [emittedBefore_of_lays hlays, Int.add_assoc]

theorem strictOfOk (h : machine.assemble ⟨origin, false⟩ program = .ok assembly) :
    machine.StrictOfOk origin program assembly := by
  obtain ⟨horigin, hlabels, hlays⟩ := assemble_eq_ok_iff.mp h
  have hresolve : machine.instructions.resolve origin program = .ok assembly.labels := hlabels
  have herror (diagnostic : Diagnostic) :
      machine.assemble ⟨origin, true⟩ program = .error diagnostic ↔
        Rule.Reports (SizeFault machine.instructions) program diagnostic := by
    rw [assemble_strict_eq_error_iff hresolve]
    exact Rule.reports_followedBy_of_clean (not_brokenAt_encodingRule_of_assemble h)
  refine ⟨⟨?_, ?_⟩, herror, ?_⟩
  · intro hok
    apply Program.sizesAgree_iff.mpr
    apply Rule.not_reports_iff.mp
    intro diagnostic hreports
    rw [← herror, hok] at hreports
    cases hreports
  · intro hagree
    exact assemble_eq_ok_iff.mpr ⟨horigin, hresolve, hlays.strict hagree⟩
  · intro index name hlabel
    obtain ⟨address, hget, haddress⟩ := exists_address_eq_add_drift h hlabel
    simp only at haddress
    refine ⟨address, hget, ?_, ?_⟩
    · omega
    · intro hagree
      have hzero := hagree.drift_eq_zero
      omega

theorem strictOfError (h : machine.assemble ⟨origin, false⟩ program = .error diagnostic) :
    machine.StrictOfError origin program diagnostic := by
  cases hresolve : machine.instructions.resolve origin program with
  | error first =>
    have hlenient : machine.assemble ⟨origin, false⟩ program = .error first :=
      assemble_eq_error_of_resolve hresolve
    have hsame : diagnostic = first := Except.error.inj (h.symm.trans hlenient)
    rw [hsame]
    exact .same (assemble_eq_error_of_resolve hresolve)
  | ok labels =>
    rw [assemble_eq_error_iff_of_resolve hresolve] at h
    rcases Rule.reports_followedBy_or h with hsame | ⟨found, hfound, hsize, hindex⟩
    · exact .same ((assemble_strict_eq_error_iff hresolve).mpr hsame)
    · exact .earlier hresolve ((assemble_strict_eq_error_iff hresolve).mpr hfound) hsize hindex

/-- Strict sizes differ from lenient ones in the check of sizes only.  The labels of a lenient run
are off by the drift of what stands before them. -/
theorem strict_of_lenient (machine : Machine) (origin : UInt16) (program : Program) :
    (∀ assembly, machine.assemble ⟨origin, false⟩ program = .ok assembly →
      machine.StrictOfOk origin program assembly) ∧
    ∀ diagnostic, machine.assemble ⟨origin, false⟩ program = .error diagnostic →
      machine.StrictOfError origin program diagnostic :=
  ⟨fun _ ↦ strictOfOk, fun _ ↦ strictOfError⟩

/-- A program whose second label stands behind a wrong size. -/
def padded : Program :=
  [.label "start", .instruction "jump" [.symbol "end"], .instruction "pad" [], .label "end",
    .instruction "low" [.register "acc", .symbol "start"]]

/-- A program whose symbol has no label, behind a wrong size. -/
def dangling : Program :=
  [.instruction "pad" [], .instruction "jump" [.symbol "far"]]

theorem strict_of_lenient_padded :
    (∃ assembly, small.assemble ⟨0x10, false⟩ padded = .ok assembly ∧
      assembly.bytes = [0x20, 0x00, 0x1C, 0x22, 0x21, 0x01, 0x10] ∧
      small.StrictOfOk 0x10 padded assembly ∧
      small.assemble ⟨0x10, true⟩ padded =
        .error ⟨⟨2, some "start"⟩, .sizeMismatch "pad" 9 1⟩) ∧
    small.assemble ⟨0x10, false⟩ dangling = .error ⟨⟨1, none⟩, .unresolvedLabel "far"⟩ ∧
      small.StrictOfError 0x10 dangling ⟨⟨1, none⟩, .unresolvedLabel "far"⟩ ∧
      small.assemble ⟨0x10, true⟩ dangling = .error ⟨⟨0, none⟩, .sizeMismatch "pad" 9 1⟩ := by
  have hassemble : small.assemble ⟨0x10, false⟩ padded =
      .ok ⟨0x10, [0x20, 0x00, 0x1C, 0x22, 0x21, 0x01, 0x10],
        ⟨[⟨"start", 0x10⟩, ⟨"end", 0x1C⟩]⟩,
        [⟨1, 0x10, 3⟩, ⟨2, 0x13, 1⟩, ⟨4, 0x14, 3⟩]⟩ := by
    rfl
  have hreject : small.assemble ⟨0x10, false⟩ dangling =
      .error ⟨⟨1, none⟩, .unresolvedLabel "far"⟩ := by
    rfl
  refine ⟨⟨_, hassemble, rfl, ?_, rfl⟩, hreject, ?_, rfl⟩
  · exact (strict_of_lenient small 0x10 padded).1 _ hassemble
  · exact (strict_of_lenient small 0x10 dangling).2 _ hreject

end Machine

end TwoPass
