import TwoPass.Proofs.Listing

/-!
# The spans that a listing uses

An assembly need not come from a program: its spans may point at labels, beyond the program or
backwards, and its bytes may be missing.  A listing then takes the spans one by one as long as each
of them belongs to an instruction behind the one before it, and stops taking spans at the first that
does not.  The spans up to there decide everything: which instructions are shown, with which bytes,
and whether there is a listing at all.
-/

namespace TwoPass

/-! ## Statements with their indices -/

namespace Program

variable {α : Type} {find? other? : Nat → Statement → Option α} {start : Nat}
  {statement : Statement} {rest : Program}

/-- What is found for the statements of a program, one after another.  The first of them has the
given index. -/
def collect (find? : Nat → Statement → Option α) (start : Nat) (program : Program) : List α :=
  (program.zipIdx start).filterMap fun (statement, index) ↦ find? index statement

@[simp]
theorem collect_nil (find? : Nat → Statement → Option α) (start : Nat) :
    collect find? start [] = [] := rfl

theorem collect_cons_none (h : find? start statement = none) :
    collect find? start (statement :: rest) = collect find? (start + 1) rest :=
  List.filterMap_cons_none h

theorem collect_cons_some {value : α} (h : find? start statement = some value) :
    collect find? start (statement :: rest) = value :: collect find? (start + 1) rest :=
  List.filterMap_cons_some h

theorem collect_congr {program : Program}
    (h : ∀ index statement, start ≤ index → find? index statement = other? index statement) :
    program.collect find? start = program.collect other? start := by
  apply List.filterMap_congr
  intro (statement, index) hmem
  exact h index statement (List.le_snd_of_mem_zipIdx hmem)

end Program

namespace Listing

/-! ## Spans and lines of statements -/

/-- Spans that belong to instructions of a program and follow the order of these. -/
structure Usable (program : Program) (spans : List Span) : Prop where
  increasing : spans.Pairwise fun first second ↦ first.index < second.index
  instruction : ∀ span ∈ spans, ∃ mnemonic operands,
    program[span.index]? = some (.instruction mnemonic operands)

/-- A span starts before the image of an assembly, or ends behind it. -/
def Outside (assembly : Assembly) (span : Span) : Prop :=
  span.address.toNat < assembly.origin.toNat ∨
    assembly.bytes.length < span.address.toNat - assembly.origin.toNat + span.length

/-- The span that a statement is shown with. -/
def spanOf? (used : List Span) (index : Nat) : Statement → Option Span
  | .label _ => none
  | .instruction _ _ => used.find? fun span ↦ span.index = index

/-- The line of a statement, where an instruction without a span has none. -/
def lineOf? (table : InstructionTable) (assembly : Assembly) (used : List Span) (index : Nat) :
    Statement → Option (List Char)
  | .label name => some (name.toList ++ [':'])
  | .instruction mnemonic operands =>
    (spanOf? used index (.instruction mnemonic operands)).map fun span ↦
      Text.trimEnd (addressText span.address ++ [' ', ' '] ++
        (renderHex (assembly.slice span)).toList.rightpad 15 ' ' ++ [' '] ++
        (surface table mnemonic).toList ++ [' '] ++
        [',', ' '].intercalate (operands.map fun operand ↦ operand.source.toList))

/-- The listing of a program and an assembly shows exactly the given spans. -/
structure ShowsSpans (table : InstructionTable) (assembly : Assembly) (program : Program)
    (used : List Span) : Prop where
  front : used <+: assembly.spans
  usable : Usable program used
  longest : ∀ other, other <+: assembly.spans → Usable program other → other.length ≤ used.length
  /-- Each span is shown once and in its place. -/
  shown : program.collect (spanOf? used) 0 = used
  fails_iff : (∃ fault, assembly.listing table program = .error fault) ↔
    ∃ span ∈ used, Outside assembly span
  listing_eq : (∀ span ∈ used, ¬ Outside assembly span) →
    assembly.listing table program =
      .ok (String.ofList ((program.collect (lineOf? table assembly used) 0).flatMap fun line ↦
        line ++ ['\n']))

/-! ## The longest usable front -/

/-- The spans up to the first one that is below `bound`, not behind the one before it, or not at an
instruction. -/
def usedFrom (program : Program) (bound : Nat) : List Span → List Span
  | [] => []
  | span :: spans =>
    if bound ≤ span.index ∧ program[span.index]?.any Statement.isInstruction then
      span :: usedFrom program (span.index + 1) spans
    else []

theorem any_isInstruction_iff {program : Program} {index : Nat} :
    program[index]?.any Statement.isInstruction ↔
      ∃ mnemonic operands, program[index]? = some (.instruction mnemonic operands) := by
  cases program[index]? with
  | none => simp
  | some statement => cases statement <;> simp [Statement.isInstruction]

variable {program : Program} {bound : Nat} {spans : List Span}

theorem usedFrom_isPrefix (program : Program) (bound : Nat) (spans : List Span) :
    usedFrom program bound spans <+: spans := by
  induction spans generalizing bound with
  | nil => exact List.nil_prefix
  | cons span spans ih =>
    rw [usedFrom]
    split
    · exact List.prefix_cons_inj span |>.mpr (ih _)
    · exact List.nil_prefix

theorem bound_le_of_mem_usedFrom {span : Span} (h : span ∈ usedFrom program bound spans) :
    bound ≤ span.index := by
  induction spans generalizing bound with
  | nil => cases h
  | cons first spans ih =>
    rw [usedFrom] at h
    split at h
    next hfirst =>
      rcases List.mem_cons.mp h with rfl | hrest
      · exact hfirst.1
      · have hle := ih hrest
        omega
    next => cases h

theorem usable_usedFrom (program : Program) (bound : Nat) (spans : List Span) :
    Usable program (usedFrom program bound spans) := by
  induction spans generalizing bound with
  | nil => exact ⟨.nil, by simp [usedFrom]⟩
  | cons span spans ih =>
    rw [usedFrom]
    split
    next hspan =>
      have hrest := ih (span.index + 1)
      refine ⟨List.pairwise_cons.mpr ⟨?_, hrest.increasing⟩, ?_⟩
      · intro other hother
        exact bound_le_of_mem_usedFrom hother
      · intro other hother
        rcases List.mem_cons.mp hother with rfl | hmem
        · exact any_isInstruction_iff.mp hspan.2
        · exact hrest.instruction other hmem
    next => exact ⟨.nil, by simp⟩

/-- No usable front is longer, as long as its spans are not below the bound. -/
theorem length_le_usedFrom {other : List Span} (hfront : other <+: spans)
    (husable : Usable program other) (hbound : ∀ span ∈ other, bound ≤ span.index) :
    other.length ≤ (usedFrom program bound spans).length := by
  induction spans generalizing other bound with
  | nil =>
    rw [List.prefix_nil.mp hfront]
    exact Nat.zero_le _
  | cons span spans ih =>
    cases other with
    | nil => exact Nat.zero_le _
    | cons first rest =>
      obtain ⟨rfl, hrest⟩ := List.cons_prefix_cons.mp hfront
      obtain ⟨hbehind, hincreasing⟩ := List.pairwise_cons.mp husable.increasing
      have hused : bound ≤ first.index ∧ program[first.index]?.any Statement.isInstruction :=
        ⟨hbound first List.mem_cons_self,
          any_isInstruction_iff.mpr (husable.instruction first List.mem_cons_self)⟩
      rw [usedFrom, if_pos hused, List.length_cons, List.length_cons]
      apply Nat.succ_le_succ
      apply ih hrest
      · exact ⟨hincreasing, fun other hother ↦
          husable.instruction other (List.mem_cons_of_mem first hother)⟩
      · exact hbehind

/-! ## The walk through a program -/

/-- A walk through the rest of a program, whose first statement has the given index, takes spans
from the front of a list. -/
inductive Takes : Nat → List Span → Program → List Span → Prop
  | nil {index : Nat} {spans : List Span} : Takes index spans [] []
  | label {index : Nat} {spans used : List Span} {name : String} {rest : Program}
      (hrest : Takes (index + 1) spans rest used) :
      Takes index spans (.label name :: rest) used
  | take {index : Nat} {span : Span} {spans used : List Span} {mnemonic : String}
      {operands : List Operand} {rest : Program} (hindex : span.index = index)
      (hrest : Takes (index + 1) spans rest used) :
      Takes index (span :: spans) (.instruction mnemonic operands :: rest) (span :: used)
  | skip {index : Nat} {spans used : List Span} {mnemonic : String} {operands : List Operand}
      {rest : Program} (hindex : ∀ span ∈ spans.head?, span.index ≠ index)
      (hrest : Takes (index + 1) spans rest used) :
      Takes index spans (.instruction mnemonic operands :: rest) used

/-- At a statement for which no span is taken, the bound may be raised. -/
theorem usedFrom_succ
    (h : ∀ span ∈ spans.head?, span.index = bound →
      ¬ program[bound]?.any Statement.isInstruction) :
    usedFrom program bound spans = usedFrom program (bound + 1) spans := by
  cases spans with
  | nil => rfl
  | cons span spans =>
    rw [usedFrom, usedFrom]
    apply if_congr _ rfl rfl
    refine ⟨?_, fun ⟨hle, hinstruction⟩ ↦ ⟨by omega, hinstruction⟩⟩
    intro ⟨hle, hinstruction⟩
    have hne : span.index ≠ bound := by
      intro hsame
      exact h span rfl hsame (hsame ▸ hinstruction)
    exact ⟨by omega, hinstruction⟩

theorem usedFrom_eq_nil (h : program.length ≤ bound) : usedFrom program bound spans = [] := by
  cases spans with
  | nil => rfl
  | cons span spans =>
    rw [usedFrom, if_neg]
    intro ⟨hle, hinstruction⟩
    rw [List.getElem?_eq_none (Nat.le_trans h hle)] at hinstruction
    cases hinstruction

/-- The walk takes the longest usable front. -/
theorem takes_usedFrom (earlier rest : Program) (spans : List Span) :
    Takes earlier.length spans rest (usedFrom (earlier ++ rest) earlier.length spans) := by
  induction rest generalizing earlier spans with
  | nil =>
    rw [List.append_nil, usedFrom_eq_nil (Nat.le_refl _)]
    exact .nil
  | cons statement rest ih =>
    have hrest (spans : List Span) : Takes (earlier.length + 1) spans rest
        (usedFrom (earlier ++ statement :: rest) (earlier.length + 1) spans) := by
      have hnext := ih (earlier ++ [statement]) spans
      rw [List.append_assoc, List.length_append] at hnext
      exact hnext
    cases statement with
    | label name =>
      rw [usedFrom_succ (by simp [Statement.isInstruction])]
      exact .label (hrest spans)
    | instruction mnemonic operands =>
      by_cases htaken : ∃ span ∈ spans.head?, span.index = earlier.length
      · obtain ⟨span, hspan, hindex⟩ := htaken
        obtain ⟨others, rfl⟩ := List.head?_eq_some_iff.mp hspan
        rw [usedFrom, hindex, if_pos (by simp [Statement.isInstruction])]
        exact .take hindex (hrest others)
      · have hskip : ∀ span ∈ spans.head?, span.index ≠ earlier.length :=
          fun span hspan hindex ↦ htaken ⟨span, hspan, hindex⟩
        rw [usedFrom_succ fun span hspan hindex ↦ absurd hindex (hskip span hspan)]
        exact .skip hskip (hrest spans)

/-! ## What is shown -/

section

variable {table : InstructionTable} {assembly : Assembly} {index : Nat} {used : List Span}
  {span : Span}

theorem spanOf?_cons_of_ne (h : span.index ≠ index) (statement : Statement) :
    spanOf? (span :: used) index statement = spanOf? used index statement := by
  cases statement with
  | label name => rfl
  | instruction mnemonic operands => simp [spanOf?, h]

theorem lineOf?_instruction (table : InstructionTable) (assembly : Assembly) (used : List Span)
    (index : Nat) (mnemonic : String) (operands : List Operand) :
    lineOf? table assembly used index (.instruction mnemonic operands) =
      (spanOf? used index (.instruction mnemonic operands)).map fun span ↦
        instructionLine table span.address (assembly.slice span) mnemonic operands := by
  simp only [lineOf?, toList_renderHex]
  rfl

theorem lineOf?_cons_of_ne (h : span.index ≠ index) (statement : Statement) :
    lineOf? table assembly (span :: used) index statement =
      lineOf? table assembly used index statement := by
  cases statement with
  | label name => rfl
  | instruction mnemonic operands => simp only [lineOf?_instruction, spanOf?_cons_of_ne h]

theorem spanBytes_cases (assembly : Assembly) (span : Span) :
    (Outside assembly span ∧ ∃ fault, spanBytes assembly span = .error fault) ∨
      (¬ Outside assembly span ∧ spanBytes assembly span = .ok (assembly.slice span)) := by
  unfold spanBytes Outside
  by_cases hbelow : span.address.toNat < assembly.origin.toNat
  · exact .inl ⟨.inl hbelow, _, if_pos hbelow⟩
  rw [if_neg hbelow]
  by_cases hbehind :
      assembly.bytes.length < span.address.toNat - assembly.origin.toNat + span.length
  · exact .inl ⟨.inr hbehind, _, if_pos hbehind⟩
  · exact .inr ⟨not_or.mpr ⟨hbelow, hbehind⟩, if_neg hbehind⟩

theorem exists_spanBytes_eq_error_iff :
    (∃ fault, spanBytes assembly span = .error fault) ↔ Outside assembly span := by
  rcases spanBytes_cases assembly span with ⟨houtside, hfault⟩ | ⟨hinside, hbytes⟩
  · exact iff_of_true hfault houtside
  · simp [hbytes, hinside]

end

namespace Takes

variable {table : InstructionTable} {assembly : Assembly} {index : Nat} {used : List Span}

theorem index_le (h : Takes index spans program used) {span : Span} (hspan : span ∈ used) :
    index ≤ span.index := by
  induction h with
  | nil => cases hspan
  | label _ ih => exact Nat.le_of_succ_le (ih hspan)
  | take hindex _ ih =>
    rcases List.mem_cons.mp hspan with rfl | hrest
    · exact Nat.le_of_eq hindex.symm
    · exact Nat.le_of_succ_le (ih hrest)
  | skip _ _ ih => exact Nat.le_of_succ_le (ih hspan)

theorem spanOf?_eq_none (h : Takes (index + 1) spans program used) (mnemonic : String)
    (operands : List Operand) : spanOf? used index (.instruction mnemonic operands) = none := by
  apply List.find?_eq_none.mpr
  intro span hspan
  have hle := h.index_le hspan
  have hne : span.index ≠ index := by omega
  simpa using hne

/-- The spans that are taken are the spans that are shown. -/
theorem collect_spanOf? (h : Takes index spans program used) :
    program.collect (spanOf? used) index = used := by
  induction h with
  | nil => rfl
  | label _ ih =>
    rw [Program.collect_cons_none rfl]
    exact ih
  | @take index span _ used mnemonic operands _ hindex _ ih =>
    have hspan : spanOf? (span :: used) index (.instruction mnemonic operands) = some span := by
      simp [spanOf?, hindex]
    rw [Program.collect_cons_some hspan]
    congr 1
    calc
      _ = Program.collect (spanOf? used) (index + 1) _ :=
        Program.collect_congr fun other statement hle ↦ spanOf?_cons_of_ne (by omega) statement
      _ = used := ih
  | skip _ hrest ih =>
    rw [Program.collect_cons_none (hrest.spanOf?_eq_none _ _)]
    exact ih

/-- The walk looks up the bytes of the spans that it takes, and then has the lines of all
statements. -/
theorem linesFrom_eq (h : Takes index spans program used) :
    linesFrom table assembly index spans program =
      (used.mapM (spanBytes assembly)).map fun _ ↦
        program.collect (lineOf? table assembly used) index := by
  induction h with
  | nil => rfl
  | @label _ _ used _ _ _ ih =>
    rw [linesFrom, ih, Program.collect_cons_some rfl]
    cases used.mapM (spanBytes assembly) <;> rfl
  | @take index span _ used mnemonic operands _ hindex _ ih =>
    rw [linesFrom, if_pos hindex, ih, List.mapM_cons]
    rcases spanBytes_cases assembly span with ⟨-, fault, hfault⟩ | ⟨-, hbytes⟩
    · rw [hfault]
      rfl
    · have hline : lineOf? table assembly (span :: used) index (.instruction mnemonic operands) =
          some (instructionLine table span.address (assembly.slice span) mnemonic operands) := by
        simp [lineOf?_instruction, spanOf?, hindex]
      rw [hbytes, Program.collect_cons_some hline,
        Program.collect_congr fun other statement hle ↦ lineOf?_cons_of_ne (by omega) statement]
      cases used.mapM (spanBytes assembly) <;> rfl
  | @skip index spans used mnemonic operands rest hindex hrest ih =>
    have hline : lineOf? table assembly used index (.instruction mnemonic operands) = none := by
      rw [lineOf?_instruction, hrest.spanOf?_eq_none, Option.map_none]
    rw [Program.collect_cons_none hline, ← ih]
    cases spans with
    | nil => rfl
    | cons span spans => rw [linesFrom, if_neg (hindex span rfl)]

theorem listing_eq_map (h : Takes 0 assembly.spans program used) :
    assembly.listing table program =
      (used.mapM (spanBytes assembly)).map fun _ ↦
        ofLines (program.collect (lineOf? table assembly used) 0) := by
  rw [Assembly.listing, lines, h.linesFrom_eq]
  cases used.mapM (spanBytes assembly) <;> rfl

theorem exists_listing_eq_error_iff (h : Takes 0 assembly.spans program used) :
    (∃ fault, assembly.listing table program = .error fault) ↔
      ∃ span ∈ used, Outside assembly span := by
  simp only [h.listing_eq_map, map_eq_error_iff, exists_mapM_eq_error_iff,
    exists_spanBytes_eq_error_iff]

theorem listing_eq_ok (h : Takes 0 assembly.spans program used)
    (hinside : ∀ span ∈ used, ¬ Outside assembly span) :
    assembly.listing table program =
      .ok (String.ofList ((program.collect (lineOf? table assembly used) 0).flatMap fun line ↦
        line ++ ['\n'])) := by
  have hnone : ¬ ∃ fault, used.mapM (spanBytes assembly) = .error fault := by
    rw [exists_mapM_eq_error_iff]
    intro ⟨span, hspan, hfault⟩
    exact hinside span hspan (exists_spanBytes_eq_error_iff.mp hfault)
  rw [h.listing_eq_map]
  cases hbytes : used.mapM (spanBytes assembly) with
  | error fault => exact absurd ⟨fault, hbytes⟩ hnone
  | ok slices => rfl

end Takes

/-- The listing of any assembly shows the longest usable front of its spans, and fails exactly if
one of these leaves the image. -/
theorem exists_showsSpans (table : InstructionTable) (assembly : Assembly) (program : Program) :
    ∃ used, ShowsSpans table assembly program used := by
  have htakes : Takes 0 assembly.spans program (usedFrom program 0 assembly.spans) :=
    takes_usedFrom [] program assembly.spans
  refine ⟨usedFrom program 0 assembly.spans, usedFrom_isPrefix program 0 assembly.spans,
    usable_usedFrom program 0 assembly.spans, ?_, htakes.collect_spanOf?,
    htakes.exists_listing_eq_error_iff, htakes.listing_eq_ok⟩
  intro other hfront husable
  exact length_le_usedFrom hfront husable fun span _ ↦ Nat.zero_le span.index

/-- An assembly whose second span points at a label of the program and whose third one lies outside
its image. -/
def strayed : Assembly :=
  ⟨0x10, [0x20, 0x00, 0x01], ⟨[]⟩, [⟨0, 0x10, 3⟩, ⟨1, 0x11, 1⟩, ⟨2, 0, 99⟩]⟩

theorem exists_showsSpans_strayed :
    ShowsSpans Machine.small.instructions strayed Machine.loop [⟨0, 0x10, 3⟩] ∧
      strayed.listing Machine.small.instructions Machine.loop =
        .ok "0010  20 00 01        jump !end\nloop:\nend:\n" := by
  obtain ⟨used, hused⟩ := exists_showsSpans Machine.small.instructions strayed Machine.loop
  have hone : 1 ≤ used.length :=
    hused.longest [⟨0, 0x10, 3⟩] (by decide) ⟨by simp, by simp [Machine.loop]⟩
  have honly : used.length ≤ 1 := by
    by_contra hmore
    have hsecond : used[1] = ⟨1, 0x11, 1⟩ := hused.front.getElem (Nat.lt_of_not_le hmore)
    obtain ⟨_, _, hlabel⟩ := hused.usable.instruction used[1] (List.getElem_mem _)
    rw [hsecond] at hlabel
    cases hlabel
  have htake : used = [⟨0, 0x10, 3⟩] := by
    rw [List.prefix_iff_eq_take.mp hused.front, Nat.le_antisymm honly hone]
    rfl
  exact ⟨htake ▸ hused, by cbv⟩

end Listing

end TwoPass
