import TwoPass.Proofs.Composition
import TwoPass.Proofs.Rejection

/-!
# Labels take no bytes

A label may be put anywhere into a program, as long as the address there is one that a label can
have, and a label that no symbol names may be taken out.  Either way the bytes and the addresses of
all the other labels stay as they are; only the spans behind the label count one statement more or
less.  For both passes a program is split at the label, and what stands behind it is the same but
for the index of its first statement and for one name that is taken.
-/

namespace TwoPass

/-! ## Rules on split programs -/

namespace Rule

variable {rule : Rule} {first second rest : Program} {statement : Statement}

theorem brokenAt_append_iff_of_lt {index : Nat} {cause : Cause} (h : index < first.length) :
    rule.BrokenAt (first ++ second) index cause ↔ rule.BrokenAt first index cause := by
  rw [BrokenAt, BrokenAt, List.getElem?_append_left h,
    List.take_append_of_le_length (Nat.le_of_lt h)]

/-- A rule for statements in front of which some others have been put. -/
def behind (rule : Rule) (first : Program) : Rule :=
  fun earlier ↦ rule (first ++ earlier)

theorem not_brokenAt_cons_iff :
    (∀ index cause, ¬ rule.BrokenAt (statement :: rest) index cause) ↔
      (∀ cause, ¬ rule [] statement cause) ∧
        ∀ index cause, ¬ (rule.behind [statement]).BrokenAt rest index cause := by
  refine ⟨?_, ?_⟩
  · intro h
    exact ⟨fun cause hfault ↦ h 0 cause ⟨statement, rfl, hfault⟩, fun index ↦ h (index + 1)⟩
  · intro ⟨hstatement, hrest⟩ index cause hbroken
    cases index with
    | zero =>
      obtain ⟨other, hother, hfault⟩ := hbroken
      obtain rfl : statement = other := Option.some.inj hother
      exact hstatement cause hfault
    | succ index => exact hrest index cause hbroken

/-- A program breaks no rule if neither of its parts does, the second one behind the first. -/
theorem not_brokenAt_append_iff :
    (∀ index cause, ¬ rule.BrokenAt (first ++ second) index cause) ↔
      (∀ index cause, ¬ rule.BrokenAt first index cause) ∧
        ∀ index cause, ¬ (rule.behind first).BrokenAt second index cause := by
  induction first generalizing rule with
  | nil => simp [BrokenAt, behind]
  | cons statement rest ih =>
    rw [List.cons_append, not_brokenAt_cons_iff, not_brokenAt_cons_iff, ih, and_assoc]
    rfl

end Rule

/-! ## The first pass -/

section

variable {table : InstructionTable} {origin : UInt16} {earlier other first second : Program}
  {statement : Statement} {cause : Cause} {name : String}

/-- The first pass sees of the statements behind it only whether they define a label, and the sum of
their sizes. -/
theorem PlacementFault.congr (h : PlacementFault table origin earlier statement cause)
    (hdefined : ∀ name, statement = .label name → (.label name ∈ earlier ↔ .label name ∈ other))
    (hsize : Program.declaredSize table earlier = Program.declaredSize table other) :
    PlacementFault table origin other statement cause := by
  cases h with
  | duplicateLabel hmem => exact .duplicateLabel ((hdefined _ rfl).mp hmem)
  | addressOverflow hfresh hbeyond =>
    rw [hsize] at hbeyond ⊢
    exact .addressOverflow (mt (hdefined _ rfl).mpr hfresh) hbeyond
  | unknownMnemonic hunknown => exact .unknownMnemonic hunknown

theorem Program.declaredSize_insert_label (table : InstructionTable) (first second : Program)
    (name : String) :
    declaredSize table (first ++ .label name :: second) = declaredSize table (first ++ second) := by
  rw [declaredSize, extent_append, extent_label, extent_append]

theorem placementFault_insert_iff (hother : statement ≠ .label name) :
    PlacementFault table origin (first ++ .label name :: second) statement cause ↔
      PlacementFault table origin (first ++ second) statement cause := by
  have hdefined : ∀ label, statement = .label label →
      (.label label ∈ first ++ .label name :: second ↔ .label label ∈ first ++ second) := by
    rintro label rfl
    simp [hother]
  have hsize := Program.declaredSize_insert_label table first second name
  exact ⟨fun h ↦ h.congr hdefined hsize,
    fun h ↦ h.congr (fun label heq ↦ (hdefined label heq).symm) hsize.symm⟩

/-- Behind a label the first pass objects to what it objected to before, and to the same label. -/
theorem not_brokenAt_behind_label_iff :
    (∀ index cause, ¬ Rule.BrokenAt
        (Rule.behind (Rule.behind (PlacementFault table origin) first) [.label name])
        second index cause) ↔
      (∀ index cause,
        ¬ Rule.BrokenAt (Rule.behind (PlacementFault table origin) first) second index cause) ∧
      Statement.label name ∉ second := by
  have hother (hfresh : Statement.label name ∉ second) {index : Nat} {statement : Statement}
      (hstatement : second[index]? = some statement) : statement ≠ .label name :=
    fun heq ↦ hfresh (heq ▸ List.mem_of_getElem? hstatement)
  refine ⟨?_, ?_⟩
  · intro h
    have hfresh : Statement.label name ∉ second := by
      intro hmem
      obtain ⟨index, hlabel⟩ := List.getElem?_of_mem hmem
      exact h index _ ⟨_, hlabel, .duplicateLabel (by simp)⟩
    refine ⟨?_, hfresh⟩
    intro index cause ⟨statement, hstatement, hfault⟩
    exact h index cause ⟨statement, hstatement,
      (placementFault_insert_iff (hother hfresh hstatement)).mpr hfault⟩
  · intro ⟨h, hfresh⟩ index cause ⟨statement, hstatement, hfault⟩
    exact h index cause ⟨statement, hstatement,
      (placementFault_insert_iff (hother hfresh hstatement)).mp hfault⟩

/-- A label breaks no rule of the first pass if its name is new and its address is small enough. -/
theorem InstructionTable.places_insert_iff :
    table.Places origin (first ++ .label name :: second) ↔
      table.Places origin (first ++ second) ∧ Statement.label name ∉ first ++ second ∧
        origin.toNat + Program.declaredSize table first ≤ 0xFFFF := by
  have hlabel : (∀ cause,
      ¬ Rule.behind (PlacementFault table origin) first [] (.label name) cause) ↔
        Statement.label name ∉ first ∧
          origin.toNat + Program.declaredSize table first ≤ 0xFFFF := by
    rw [Rule.behind, List.append_nil, PlacementFault.not_label_iff]
  rw [places_iff, places_iff, Rule.not_brokenAt_append_iff, Rule.not_brokenAt_append_iff,
    Rule.not_brokenAt_cons_iff, hlabel, not_brokenAt_behind_label_iff, List.mem_append, not_or]
  refine ⟨?_, ?_⟩
  · intro ⟨hfirst, ⟨hnew, hle⟩, hsecond, hfresh⟩
    exact ⟨⟨hfirst, hsecond⟩, ⟨hnew, hfresh⟩, hle⟩
  · intro ⟨⟨hfirst, hsecond⟩, ⟨hnew, hfresh⟩, hle⟩
    exact ⟨hfirst, ⟨hnew, hle⟩, hsecond, hfresh⟩

end

/-! ## Label tables with one binding more -/

namespace LabelTable

/-- A table binds what another one binds, and one name more. -/
structure Gains (name : String) (address : UInt16) (labels larger : LabelTable) : Prop where
  fresh : labels.get? name = none
  get?_eq : ∀ other, larger.get? other = if other = name then some address else labels.get? other
  size_eq : larger.size = labels.size + 1

theorem Gains.get?_of_ne {name other : String} {address : UInt16} {labels larger : LabelTable}
    (h : labels.Gains name address larger) (hother : other ≠ name) :
    larger.get? other = labels.get? other := by
  rw [h.get?_eq, if_neg hother]

theorem Gains.larger_extends {name : String} {address : UInt16} {labels larger : LabelTable}
    (h : labels.Gains name address larger) : larger.Extends labels := by
  intro other found hget
  have hother : other ≠ name := by
    rintro rfl
    rw [h.fresh] at hget
    cases hget
  rw [h.get?_of_ne hother, hget]

theorem get?_singleton (name other : String) (address : UInt16) :
    get? ⟨[⟨name, address⟩]⟩ other = if other = name then some address else none := by
  by_cases hother : other = name
  · simp [get?, hother]
  · simp [get?, hother, Ne.symm hother]

theorem gains_insert {before after : LabelTable} {name : String} (address : UInt16)
    (hfresh : (before.append after).get? name = none) :
    (before.append after).Gains name address
      (before.append (.append ⟨[⟨name, address⟩]⟩ after)) where
  fresh := hfresh
  get?_eq other := by
    rw [get?_append] at hfresh
    rw [get?_append, get?_append, get?_append, get?_singleton]
    by_cases hother : other = name
    · subst hother
      rw [if_pos rfl, if_pos rfl, (Option.or_eq_none_iff.mp hfresh).1, Option.none_or,
        Option.some_or]
    · rw [if_neg hother, if_neg hother, Option.none_or]
  size_eq := by
    simp only [size, append, List.length_append, List.length_singleton]
    omega

end LabelTable

namespace InstructionTable

variable {table : InstructionTable} {origin : UInt16} {first second : Program} {name : String}
  {labels larger : LabelTable}

theorem exists_resolve_insert (h : table.resolve origin (first ++ second) = .ok labels)
    (hfresh : Statement.label name ∉ first ++ second)
    (hle : origin.toNat + Program.declaredSize table first ≤ 0xFFFF) :
    ∃ larger, table.resolve origin (first ++ .label name :: second) = .ok larger := by
  obtain ⟨hplaces, -⟩ := resolve_eq_ok_iff.mp h
  exact ⟨_, resolve_eq_ok_iff.mpr ⟨places_insert_iff.mpr ⟨hplaces, hfresh, hle⟩, rfl⟩⟩

theorem exists_resolve_of_insert
    (h : table.resolve origin (first ++ .label name :: second) = .ok larger) :
    ∃ labels, table.resolve origin (first ++ second) = .ok labels := by
  obtain ⟨hplaces, -⟩ := resolve_eq_ok_iff.mp h
  exact ⟨_, resolve_eq_ok_iff.mpr ⟨(places_insert_iff.mp hplaces).1, rfl⟩⟩

/-- The first pass binds a further label to the sum of the sizes before it, and all others as it did
without that label. -/
theorem gains_of_resolve (h : table.resolve origin (first ++ second) = .ok labels)
    (hlarger : table.resolve origin (first ++ .label name :: second) = .ok larger) :
    ∃ address, address.toNat = origin.toNat + Program.declaredSize table first ∧
      labels.Gains name address larger := by
  obtain ⟨hplaces, hbindings⟩ := resolve_eq_ok_iff.mp hlarger
  obtain ⟨-, hfresh, hle⟩ := places_insert_iff.mp hplaces
  have hnone := (get?_eq_none_iff_of_resolve h).mpr hfresh
  obtain ⟨-, hless⟩ := resolve_eq_ok_iff.mp h
  -- the bindings of the second part start at the same address, with or without the label
  rw [Program.bindings_append] at hless hbindings
  subst hless hbindings
  exact ⟨_, toNat_ofNat_add hle, LabelTable.gains_insert _ hnone⟩

end InstructionTable

/-! ## The second pass -/

/-- The span of an instruction in a program with one statement more at the given index. -/
def Span.openGap (index : Nat) (span : Span) : Span :=
  if index ≤ span.index then span.laterBy 1 else span

theorem Span.map_openGap_of_lt {index : Nat} {spans : List Span}
    (h : ∀ span ∈ spans, span.index < index) : spans.map (openGap index) = spans := by
  calc
    spans.map (openGap index) = spans.map id :=
      List.map_congr_left fun span hspan ↦ if_neg (Nat.not_le.mpr (h span hspan))
    _ = spans := List.map_id spans

theorem Span.map_openGap_of_le {index : Nat} {spans : List Span}
    (h : ∀ span ∈ spans, index ≤ span.index) :
    spans.map (openGap index) = spans.map (laterBy 1) := by
  apply List.map_congr_left
  intro span hspan
  exact if_pos (h span hspan)

/-- An image whose program has one statement more at the given index. -/
def Image.openGap (index : Nat) (image : Image) : Image :=
  ⟨image.bytes, image.spans.map (Span.openGap index)⟩

namespace Machine

variable {machine : Machine} {labels : LabelTable} {config : Config} {index offset : Nat}
  {first second program : Program} {image : Image} {name : String}

/-- A program one statement further on has the same image, but for the indices of its spans. -/
theorem lays_succ_iff :
    machine.Lays labels config (index + 1) offset program image ↔
      ∃ earlier, image = earlier.laterBy 1 ∧
        machine.Lays labels config index offset program earlier := by
  refine ⟨?_, ?_⟩
  · intro h
    induction program generalizing index offset image with
    | nil =>
      cases h
      exact ⟨⟨[], []⟩, rfl, .nil⟩
    | cons statement rest ih =>
      cases h with
      | label hrest =>
        obtain ⟨earlier, himage, hearlier⟩ := ih hrest
        exact ⟨earlier, himage, .label hearlier⟩
      | instruction hbytes hrest =>
        obtain ⟨earlier, rfl, hearlier⟩ := ih hrest
        exact ⟨_, rfl, .instruction hbytes hearlier⟩
  · intro ⟨earlier, himage, hearlier⟩
    have horigin : config.origin.toUInt32 = config.origin.toUInt32 + UInt32.ofNat 0 := by simp
    have hlater := hearlier.laterBy 1 config rfl horigin
    rw [himage]
    rwa [Nat.zero_add] at hlater

theorem openGap_append {before after : Image}
    (hbefore : machine.Lays labels config 0 0 first before)
    (hafter : machine.Lays labels config first.length offset second after) :
    (before.append after).openGap first.length = before.append (after.laterBy 1) := by
  have hleft : before.spans.map (Span.openGap first.length) = before.spans := by
    apply Span.map_openGap_of_lt
    intro span hspan
    have hbounds := hbefore.index_of_mem hspan
    omega
  have hright : after.spans.map (Span.openGap first.length) = after.spans.map (Span.laterBy 1) :=
    Span.map_openGap_of_le fun span hspan ↦ (hafter.index_of_mem hspan).1
  simp only [Image.append, Image.openGap, Image.laterBy, List.map_append, hleft, hright]

/-- A label leaves a gap in the indices of the spans, and no other trace in the image. -/
theorem lays_insert_iff :
    machine.Lays labels config 0 0 (first ++ .label name :: second) image ↔
      ∃ closed, image = closed.openGap first.length ∧
        machine.Lays labels config 0 0 (first ++ second) closed := by
  refine ⟨?_, ?_⟩
  · intro h
    obtain ⟨before, after, himage, hbefore, hafter⟩ := h.split
    cases hafter with
    | label hsecond =>
      obtain ⟨earlier, hlater, hearlier⟩ := lays_succ_iff.mp hsecond
      refine ⟨before.append earlier, ?_, hbefore.append hearlier⟩
      rw [Nat.zero_add] at hearlier
      rw [himage, hlater, openGap_append hbefore hearlier]
  · intro ⟨closed, himage, h⟩
    obtain ⟨before, after, hclosed, hbefore, hafter⟩ := h.split
    have hlater : machine.Lays labels config (0 + first.length) (0 + before.bytes.length)
        (.label name :: second) (after.laterBy 1) :=
      .label (lays_succ_iff.mpr ⟨after, rfl, hafter⟩)
    rw [Nat.zero_add] at hafter
    rw [himage, hclosed, openGap_append hbefore hafter]
    exact hbefore.append hlater

end Machine

/-! ## Both passes -/

namespace Assembly

/-- An assembly whose program has a label more than that of another one, at the given index. -/
structure GainsLabel (index : Nat) (name : String) (address : UInt16)
    (assembly inserted : Assembly) : Prop where
  origin_eq : inserted.origin = assembly.origin
  bytes_eq : inserted.bytes = assembly.bytes
  labels : assembly.labels.Gains name address inserted.labels
  spans_eq : inserted.spans = assembly.spans.map (Span.openGap index)

end Assembly

namespace Machine

variable {machine : Machine} {config : Config} {first second program : Program} {name : String}
  {assembly inserted : Assembly}

/-- The address behind a program, by the declared sizes of its instructions. -/
def endAddress (machine : Machine) (config : Config) (program : Program) : Nat :=
  config.origin.toNat + Program.declaredSize machine.instructions program

theorem exists_assemble_insert (h : machine.assemble config (first ++ second) = .ok assembly)
    (hfresh : Statement.label name ∉ first ++ second)
    (hle : machine.endAddress config first ≤ 0xFFFF) :
    ∃ inserted address,
      machine.assemble config (first ++ .label name :: second) = .ok inserted ∧
      address.toNat = machine.endAddress config first ∧
      assembly.GainsLabel first.length name address inserted := by
  obtain ⟨horigin, hresolve, hlays⟩ := assemble_eq_ok_iff.mp h
  obtain ⟨larger, hlarger⟩ := InstructionTable.exists_resolve_insert hresolve hfresh hle
  obtain ⟨address, haddress, hgains⟩ := InstructionTable.gains_of_resolve hresolve hlarger
  refine ⟨⟨config.origin, assembly.bytes, larger, assembly.spans.map (.openGap first.length)⟩,
    address, ?_, haddress, horigin.symm, rfl, hgains, rfl⟩
  apply assemble_eq_ok_iff.mpr
  refine ⟨rfl, hlarger, ?_⟩
  exact lays_insert_iff.mpr ⟨_, rfl, hlays.extend hgains.larger_extends⟩

/-- A label whose address is too large is the first statement to which the first pass objects. -/
theorem assemble_insert_eq_error (h : machine.assemble config (first ++ second) = .ok assembly)
    (hfresh : Statement.label name ∉ first ++ second)
    (hbeyond : 0xFFFF < machine.endAddress config first) :
    machine.assemble config (first ++ .label name :: second) =
      .error ⟨⟨first.length, first.labelNames.getLast?⟩, .addressOverflow name
        (UInt32.ofNat (min (machine.endAddress config first) 0xFFFFFFFF))⟩ := by
  obtain ⟨-, hresolve, -⟩ := assemble_eq_ok_iff.mp h
  obtain ⟨hplaces, -⟩ := InstructionTable.resolve_eq_ok_iff.mp hresolve
  have hclean := (Rule.not_brokenAt_append_iff.mp (InstructionTable.places_iff.mp hplaces)).1
  have hnew : Statement.label name ∉ first := fun hmem ↦ hfresh (List.mem_append_left second hmem)
  rw [← Location.start_following]
  apply assemble_eq_error_of_resolve
  apply InstructionTable.resolve_eq_error_iff.mpr
  apply Rule.reports_append_of_firstFault (.here (.addressOverflow hnew hbeyond))
  intro index hindex cause hbroken
  exact hclean index cause ((Rule.brokenAt_append_iff_of_lt hindex).mp hbroken)

theorem exists_assemble_remove
    (h : machine.assemble config (first ++ .label name :: second) = .ok inserted)
    (hunused : ¬ Program.Refers (first ++ second) name) :
    ∃ assembly address, machine.assemble config (first ++ second) = .ok assembly ∧
      assembly.GainsLabel first.length name address inserted := by
  obtain ⟨horigin, hlarger, hlays⟩ := assemble_eq_ok_iff.mp h
  obtain ⟨labels, hresolve⟩ := InstructionTable.exists_resolve_of_insert hlarger
  obtain ⟨address, -, hgains⟩ := InstructionTable.gains_of_resolve hresolve hlarger
  obtain ⟨closed, himage, hclosed⟩ := lays_insert_iff.mp hlays
  obtain ⟨hbytes, hspans⟩ := Image.mk.inj himage
  refine ⟨⟨config.origin, closed.bytes, labels, closed.spans⟩, address, ?_, ?_⟩
  · apply assemble_eq_ok_iff.mpr
    refine ⟨rfl, hresolve, hclosed.relabel ?_⟩
    -- the smaller table lacks one name, and no operand asks for it
    intro other found hrefers hget
    have hother : other ≠ name := fun heq ↦ hunused (heq ▸ hrefers)
    rw [← hget, hgains.get?_of_ne hother]
  · exact ⟨horigin, hbytes, hgains, hspans⟩

/-- Putting a label into a program changes nothing but the label table and the indices of spans, or
fails because there is no address left for it.  Taking out a label that is not used changes nothing
else either. -/
theorem labels_take_no_bytes (h : machine.assemble config program = .ok assembly) :
    (∀ index ≤ program.length, ∀ name, Statement.label name ∉ program →
      (machine.endAddress config (program.take index) ≤ 0xFFFF →
        ∃ inserted address,
          machine.assemble config (program.insertIdx index (.label name)) = .ok inserted ∧
          address.toNat = machine.endAddress config (program.take index) ∧
          assembly.GainsLabel index name address inserted) ∧
      (0xFFFF < machine.endAddress config (program.take index) →
        machine.assemble config (program.insertIdx index (.label name)) =
          .error ⟨⟨index, (Program.labelNames (program.take index)).getLast?⟩,
            .addressOverflow name (UInt32.ofNat
              (min (machine.endAddress config (program.take index)) 0xFFFFFFFF))⟩)) ∧
    ∀ index name, program[index]? = some (.label name) → ¬ program.Refers name →
      ∃ remaining address, machine.assemble config (program.eraseIdx index) = .ok remaining ∧
        remaining.GainsLabel index name address assembly := by
  refine ⟨?_, ?_⟩
  · intro index hindex name hfresh
    obtain ⟨first, second, rfl, rfl, hinsert⟩ :=
      List.exists_of_modifyTailIdx (List.cons (.label name)) hindex
    rw [List.take_left, List.insertIdx, hinsert]
    exact ⟨exists_assemble_insert h hfresh, assemble_insert_eq_error h hfresh⟩
  · intro index name hlabel hunused
    have hlt : index < program.length := (List.getElem?_eq_some_iff.mp hlabel).1
    have hlength : (program.take index).length = index := List.length_take_of_le (Nat.le_of_lt hlt)
    have hrest : ¬ Program.Refers (program.eraseIdx index) name :=
      fun hrefers ↦ hunused (hrefers.mono List.eraseIdx_subset)
    rw [List.eraseIdx_eq_take_drop_succ] at hrest ⊢
    rw [Program.eq_take_append_drop hlabel] at h
    have hremove := exists_assemble_remove h hrest
    rwa [hlength] at hremove

/-- A program near the last address, with a label that no symbol names. -/
def late : Program :=
  [.label "top", .label "idle", .instruction "pad" [], .instruction "jump" [.symbol "top"]]

/-- There is an address left in front of the jump, but none behind it. -/
theorem labels_take_no_bytes_late :
    ∃ assembly, small.assemble ⟨0xFFF5, false⟩ late = .ok assembly ∧
      (∃ inserted address,
        small.assemble ⟨0xFFF5, false⟩ (late.insertIdx 3 (.label "middle")) = .ok inserted ∧
        address.toNat = 0xFFFE ∧ assembly.GainsLabel 3 "middle" address inserted) ∧
      small.assemble ⟨0xFFF5, false⟩ (late.insertIdx 4 (.label "end")) =
        .error ⟨⟨4, some "idle"⟩, .addressOverflow "end" 0x10001⟩ ∧
      ∃ remaining address,
        small.assemble ⟨0xFFF5, false⟩ (late.eraseIdx 1) = .ok remaining ∧
        remaining.GainsLabel 1 "idle" address assembly := by
  have hlate : small.assemble ⟨0xFFF5, false⟩ late =
      .ok ⟨0xFFF5, [0x22, 0x20, 0xFF, 0xF5], ⟨[⟨"top", 0xFFF5⟩, ⟨"idle", 0xFFF5⟩]⟩,
        [⟨2, 0xFFF5, 1⟩, ⟨3, 0xFFF6, 3⟩]⟩ := by
    rfl
  have hmiddle : small.endAddress ⟨0xFFF5, false⟩ (late.take 3) = 0xFFFE := by rfl
  have hend : small.endAddress ⟨0xFFF5, false⟩ (late.take 4) = 0x10001 := by rfl
  have hidle : ¬ late.Refers "idle" := by
    intro ⟨mnemonic, operands, hmem, hsymbol⟩
    grind [late]
  obtain ⟨hinsert, hremove⟩ := labels_take_no_bytes hlate
  refine ⟨_, hlate, ?_, ?_, hremove 1 "idle" rfl hidle⟩
  · have hinserted := (hinsert 3 (by decide) "middle" (by decide)).1
    rw [hmiddle] at hinserted
    exact hinserted (by decide)
  · have herror := (hinsert 4 (by decide) "end" (by decide)).2
    rw [hend] at herror
    exact herror (by decide)

end Machine

end TwoPass
