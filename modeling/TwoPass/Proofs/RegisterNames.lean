import Mathlib.Data.List.Nodup
import Mathlib.Data.Set.Function
import TwoPass.Interchange.RegisterFile
import TwoPass.Proofs.RegisterFile

/-!
# Which names are register files

A list of names is a register file exactly if it has at most 256 names and no two of them are equal,
and the reason for which another list is rejected is determined.  In every register file, however it
was built, names and positions correspond one to one, and the index of a name is its position.
-/

namespace TwoPass.RegisterFile

/-! ## Names and positions -/

/-- The index of a register as a number. -/
def position? (registers : RegisterFile) (name : String) : Option Nat :=
  (registers.indexOf? name).map UInt8.toNat

variable {registers : RegisterFile} {names : List String} {name : String}

theorem position?_eq_some_iff {position : Nat} :
    registers.position? name = some position ↔ registers.names[position]? = some name := by
  unfold position?
  rw [Option.map_eq_some_iff]
  constructor
  · rintro ⟨index, hindex, rfl⟩
    exact indexOf?_eq_some_iff.mp hindex
  · intro h
    have hlt : position < 256 := position_lt_limit h
    have hback : (UInt8.ofNat position).toNat = position := by
      rw [UInt8.toNat_ofNat']
      exact Nat.mod_eq_of_lt hlt
    exact ⟨UInt8.ofNat position, indexOf?_eq_some_iff.mpr (hback.symm ▸ h), hback⟩

/-- What the indices of a register file have to do with its names. -/
structure Indexed (registers : RegisterFile) : Prop where
  length_le : registers.names.length ≤ registerLimit
  nodup : registers.names.Nodup
  index_iff : ∀ (name : String) (index : UInt8),
    registers.indexOf? name = some index ↔ registers.names[index.toNat]? = some name
  /-- Names and positions correspond one to one. -/
  bijOn : Set.BijOn registers.position? {name | name ∈ registers.names}
    (Set.image some {position | position < registers.size})

theorem bijOn_position? (registers : RegisterFile) :
    Set.BijOn registers.position? {name | name ∈ registers.names}
      (Set.image some {position | position < registers.size}) := by
  refine ⟨?_, ?_, ?_⟩
  · intro name hname
    obtain ⟨position, hlt, hposition⟩ := List.mem_iff_getElem.mp hname
    refine ⟨position, hlt, ?_⟩
    symm
    apply position?_eq_some_iff.mpr
    rw [List.getElem?_eq_getElem hlt, hposition]
  · intro name hname other _ hsame
    obtain ⟨position, hposition⟩ := List.getElem?_of_mem hname
    have hother : registers.position? other = some position :=
      hsame.symm.trans (position?_eq_some_iff.mpr hposition)
    rw [position?_eq_some_iff, hposition] at hother
    exact Option.some.inj hother
  · rintro _ ⟨position, hlt, rfl⟩
    have hposition := List.getElem?_eq_getElem (l := registers.names) hlt
    exact ⟨_, List.mem_of_getElem? hposition, position?_eq_some_iff.mpr hposition⟩

theorem indexed (registers : RegisterFile) : registers.Indexed where
  length_le := registers.length_le
  nodup := registers.nodup
  index_iff _ _ := indexOf?_eq_some_iff
  bijOn := registers.bijOn_position?

/-! ## Lists of names -/

/-- Why a list of names is no register file.  The number of names comes first, whether or not names
are repeated; otherwise the first name that has occurred before is reported. -/
inductive Faulty (names : List String) : Fault → Prop
  | tooMany (hlength : registerLimit < names.length) : Faulty names (.tooMany names.length)
  | repeated {before after : List String} {name : String}
      (hlength : names.length ≤ registerLimit) (hnames : names = before ++ name :: after)
      (hbefore : before.Nodup) (hname : name ∈ before) :
      Faulty names (.repeated name)

/-- Names that are not repeated are passed over, and count as having occurred before. -/
theorem firstRepeated?_append {earlier before : List String}
    (h : firstRepeated? earlier before = none) (after : List String) :
    firstRepeated? earlier (before ++ after) =
      firstRepeated? (before.reverse ++ earlier) after := by
  induction before generalizing earlier with
  | nil => rfl
  | cons first before ih =>
    rw [firstRepeated?] at h
    split at h
    case isTrue => cases h
    case isFalse hfirst =>
      rw [List.cons_append, firstRepeated?, if_neg hfirst, ih h, List.reverse_cons,
        List.append_assoc, List.singleton_append]

theorem exists_split_of_firstRepeated? {earlier : List String}
    (h : firstRepeated? earlier names = some name) :
    ∃ before after, names = before ++ name :: after ∧ firstRepeated? earlier before = none ∧
      (name ∈ earlier ∨ name ∈ before) := by
  induction names generalizing earlier with
  | nil => cases h
  | cons first rest ih =>
    rw [firstRepeated?] at h
    split at h
    case isTrue hfirst =>
      obtain rfl := Option.some.inj h
      exact ⟨[], rest, rfl, rfl, .inl hfirst⟩
    case isFalse hfirst =>
      obtain ⟨before, after, hrest, hbefore, hname⟩ := ih h
      refine ⟨first :: before, after, congrArg (List.cons first) hrest, ?_, ?_⟩
      · rw [firstRepeated?, if_neg hfirst, hbefore]
      · simp only [List.mem_cons] at hname ⊢
        tauto

/-- The first repeated name of a list stands behind different names, one of which is the same. -/
theorem firstRepeated?_eq_some_iff :
    firstRepeated? [] names = some name ↔
      ∃ before after, names = before ++ name :: after ∧ before.Nodup ∧ name ∈ before := by
  have hnodup (before : List String) : firstRepeated? [] before = none ↔ before.Nodup := by
    simp [firstRepeated?_eq_none_iff]
  constructor
  · intro h
    obtain ⟨before, after, hnames, hbefore, hname⟩ := exists_split_of_firstRepeated? h
    exact ⟨before, after, hnames, (hnodup before).mp hbefore,
      hname.resolve_left List.not_mem_nil⟩
  · rintro ⟨before, after, rfl, hbefore, hname⟩
    rw [firstRepeated?_append ((hnodup before).mpr hbefore), List.append_nil, firstRepeated?,
      if_pos (List.mem_reverse.mpr hname)]

theorem ofNames_of_nodup (hlength : names.length ≤ registerLimit) (hnodup : names.Nodup) :
    ofNames names = .ok ⟨names, hlength, hnodup⟩ := by
  have hnone : firstRepeated? [] names = none :=
    firstRepeated?_eq_none_iff.mpr ⟨hnodup, fun _ _ ↦ List.not_mem_nil⟩
  unfold ofNames
  rw [dif_pos hlength]
  split
  case h_1 name hsome =>
    rw [hnone] at hsome
    cases hsome
  case h_2 => rfl

theorem Faulty.ofNames_eq {fault : Fault} (h : Faulty names fault) :
    ofNames names = .error fault := by
  unfold ofNames
  cases h with
  | tooMany hlength => rw [dif_neg (Nat.not_le.mpr hlength)]
  | @repeated before after name hlength hnames hbefore hname =>
    have hsome : firstRepeated? [] names = some name :=
      firstRepeated?_eq_some_iff.mpr ⟨before, after, hnames, hbefore, hname⟩
    rw [dif_pos hlength]
    split
    case h_1 other hother =>
      rw [hsome, Option.some.injEq] at hother
      rw [hother]
    case h_2 hnone =>
      rw [hsome] at hnone
      cases hnone

/-- A list of names is a register file, or there is a reason why it is none. -/
theorem nodup_or_faulty (names : List String) :
    (names.length ≤ registerLimit ∧ names.Nodup) ∨ ∃ fault, Faulty names fault := by
  by_cases hlength : names.length ≤ registerLimit
  · cases hrepeated : firstRepeated? [] names with
    | none => exact .inl ⟨hlength, nodup_of_firstRepeated?_eq_none hrepeated⟩
    | some name =>
      obtain ⟨before, after, hnames, hbefore, hname⟩ := firstRepeated?_eq_some_iff.mp hrepeated
      exact .inr ⟨_, .repeated hlength hnames hbefore hname⟩
  · exact .inr ⟨_, .tooMany (Nat.lt_of_not_le hlength)⟩

theorem ofNames_eq_ok_iff : ofNames names = .ok registers ↔ registers.names = names := by
  constructor
  · intro h
    rcases nodup_or_faulty names with ⟨hlength, hnodup⟩ | ⟨fault, hfault⟩
    · rw [ofNames_of_nodup hlength hnodup, Except.ok.injEq] at h
      rw [← h]
    · rw [hfault.ofNames_eq] at h
      cases h
  · rintro rfl
    exact ofNames_of_nodup registers.length_le registers.nodup

theorem ofNames_eq_error_iff {fault : Fault} :
    ofNames names = .error fault ↔ Faulty names fault := by
  refine ⟨?_, Faulty.ofNames_eq⟩
  intro h
  rcases nodup_or_faulty names with ⟨hlength, hnodup⟩ | ⟨found, hfound⟩
  · rw [ofNames_of_nodup hlength hnodup] at h
    cases h
  · rw [hfound.ofNames_eq, Except.error.injEq] at h
    exact h ▸ hfound

theorem exists_ofNames_iff :
    (∃ registers, ofNames names = .ok registers) ↔
      names.length ≤ registerLimit ∧ names.Nodup := by
  constructor
  · rintro ⟨registers, h⟩
    rw [← ofNames_eq_ok_iff.mp h]
    exact ⟨registers.length_le, registers.nodup⟩
  · intro ⟨hlength, hnodup⟩
    exact ⟨_, ofNames_of_nodup hlength hnodup⟩

/-! ## Texts -/

/-- The names that a text lists. -/
def namesOfText? (source : String) : Option (List String) :=
  (Json.parse? source).bind namesOfJson?

theorem parse_eq_ok_iff {source : String} :
    parse source = .ok registers ↔ namesOfText? source = some registers.names := by
  unfold parse namesOfText?
  cases (Json.parse? source).bind namesOfJson? with
  | none => simp
  | some names =>
    rw [Option.some.injEq, eq_comm (a := names), ← ofNames_eq_ok_iff]
    change (ofNames names).mapError Rejection.invalid = .ok registers ↔ _
    cases ofNames names <;> simp [Except.mapError]

theorem parse_eq_invalid_iff {source : String} {fault : Fault} :
    parse source = .error (.invalid fault) ↔
      ∃ names, namesOfText? source = some names ∧ Faulty names fault := by
  unfold parse namesOfText?
  cases (Json.parse? source).bind namesOfJson? with
  | none => simp
  | some names =>
    simp only [Option.some.injEq, exists_eq_left', ← ofNames_eq_error_iff]
    cases ofNames names <;> simp [Except.mapError]

/-! ## Every register file -/

/-- A list of names becomes a register file exactly if it is short enough and has no repetition, and
otherwise the reason is determined.  In a register file, be it made from a list, read from a text or
built in, the names and their indices correspond one to one. -/
theorem register_files_are_indexed :
    (∀ names : List String,
      ((∃ registers, ofNames names = .ok registers) ↔ names.length ≤ 256 ∧ names.Nodup) ∧
      (∀ registers, ofNames names = .ok registers →
        registers.names = names ∧ registers.Indexed) ∧
      ∀ fault, ofNames names = .error fault ↔ Faulty names fault) ∧
    (∀ source : String,
      (∀ registers, parse source = .ok registers ↔
        namesOfText? source = some registers.names) ∧
      (∀ registers, parse source = .ok registers → registers.Indexed) ∧
      ∀ fault, parse source = .error (.invalid fault) ↔
        ∃ names, namesOfText? source = some names ∧ Faulty names fault) ∧
    ofNames builtin.names = .ok builtin ∧ builtin.Indexed := by
  refine ⟨?_, ?_, ofNames_eq_ok_iff.mpr rfl, builtin.indexed⟩
  · intro names
    refine ⟨exists_ofNames_iff, ?_, fun fault ↦ ofNames_eq_error_iff⟩
    intro registers h
    exact ⟨ofNames_eq_ok_iff.mp h, registers.indexed⟩
  · intro source
    exact ⟨fun registers ↦ parse_eq_ok_iff, fun registers _ ↦ registers.indexed,
      fun fault ↦ parse_eq_invalid_iff⟩

/-- The name with the given number of strokes. -/
def strokes (count : Nat) : String :=
  String.ofList (List.replicate count 'x')

/-- Different names, as many as wanted. -/
def tally (count : Nat) : List String :=
  (List.range count).map strokes

theorem length_tally (count : Nat) : (tally count).length = count := by
  simp [tally]

theorem strokes_injective : Function.Injective strokes := by
  intro first second hsame
  exact (List.replicate_inj.mp (String.ofList_injective hsame)).1

theorem nodup_tally (count : Nat) : (tally count).Nodup :=
  List.Nodup.map strokes_injective List.nodup_range

theorem getElem?_tally {count position : Nat} (h : position < count) :
    (tally count)[position]? = some (strokes position) := by
  simp [tally, h]

/-- The last of 256 names has the index 255, while a further name is too many, repeated or not. -/
theorem register_files_are_indexed_tally :
    (∃ registers, ofNames (tally 256) = .ok registers ∧ registers.Indexed ∧
      registers.indexOf? (strokes 255) = some 255) ∧
    ofNames (tally 257) = .error (.tooMany 257) ∧
    ofNames (List.replicate 257 "r") = .error (.tooMany 257) ∧
    ofNames ["a", "b", "b", "a"] = .error (.repeated "b") ∧
    ∃ registers, parse "[\"a\", \"b\"]" = .ok registers ∧ registers.names = ["a", "b"] ∧
      registers.Indexed := by
  obtain ⟨hnames, htexts, -⟩ := register_files_are_indexed
  have htooMany {names : List String} (hlength : names.length = 257) :
      ofNames names = .error (.tooMany 257) := by
    have hfault : Faulty names (.tooMany names.length) := .tooMany (by rw [hlength]; decide)
    rw [hlength] at hfault
    exact ((hnames names).2.2 _).mpr hfault
  refine ⟨?_, htooMany (length_tally 257), htooMany List.length_replicate, ?_, ?_⟩
  · have hlength : (tally 256).length ≤ 256 := Nat.le_of_eq (length_tally 256)
    obtain ⟨registers, hregisters⟩ := (hnames (tally 256)).1.mpr ⟨hlength, nodup_tally 256⟩
    obtain ⟨hsame, hindexed⟩ := (hnames (tally 256)).2.1 registers hregisters
    refine ⟨registers, hregisters, hindexed, ?_⟩
    apply (hindexed.index_iff _ _).mpr
    rw [hsame]
    exact getElem?_tally (by decide)
  · apply ((hnames ["a", "b", "b", "a"]).2.2 _).mpr
    exact @Faulty.repeated _ ["a", "b"] ["a"] "b" (by decide) rfl (by decide) (by decide)
  · have hread : parse "[\"a\", \"b\"]" = .ok ⟨["a", "b"], by decide, by decide⟩ := by
      cbv
    exact ⟨_, hread, rfl, (htexts _).2.1 _ hread⟩

end TwoPass.RegisterFile
