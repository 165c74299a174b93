import Mathlib.Data.Finset.Card
import TwoPass.Proofs.Interchange.Rewriting
import TwoPass.Proofs.Interchange.RoundTrip
import TwoPass.Proofs.SizeLint

/-!
# Loading a table is inserting its members

A table is loaded from an object by inserting its members in order, so that the last member of a
name counts.  It does not matter how the members spell their entries: keys may stand in any order
and among others, the parts may stand in an array, the mode may be spelled as an object, and a
surface mnemonic that is missing may be written as `null`.  A member that is no entry is never
overlooked, even if a later member has its name.
-/

namespace TwoPass

/-! ## Modes -/

/-- A document names a mode, in either spelling. -/
inductive Mode.Described : Json → Mode → Prop
  | text (mode : Mode) : Described (.string mode.tag) mode
  | member (mode : Mode) : Described (.object [(mode.tag, .null)]) mode

/-- The name of a mode takes the other spelling. -/
inductive Mode.Respell : Json → Json → Prop
  | toMember (tag : String) : Respell (.string tag) (.object [(tag, .null)])
  | toText (tag : String) : Respell (.object [(tag, .null)]) (.string tag)

theorem Mode.ofJson?_eq_some_iff {document : Json} {mode : Mode} :
    ofJson? document = some mode ↔ Described document mode := by
  constructor
  · intro h
    obtain ⟨tag, htag, hmode⟩ := Option.bind_eq_some_iff.mp h
    obtain rfl := tag_of_ofTag? hmode
    obtain ⟨-, hlegible⟩ := (Json.tag?_eq_some_iff []).mp htag
    cases hlegible with
    | text =>
      cases htag
      exact .text mode
    | member =>
      cases htag
      exact .member mode
    | emptyMember _ hstored => exact nomatch hstored
  · intro h
    cases h with
    | text => exact ofTag?_tag mode
    | member => exact ofTag?_tag mode

theorem Mode.Described.respell {document other : Json} {mode : Mode}
    (h : Described document mode) (hrespell : Respell document other) : Described other mode := by
  cases hrespell with
  | toMember =>
    cases h
    exact .member mode
  | toText =>
    cases h
    exact .text mode

/-! ## Entries -/

theorem Json.natural?_eq_some_iff {limit value : Nat} {document : Json} :
    natural? limit document = some value ↔ document = .natural value ∧ value ≤ limit := by
  cases document <;> simp [natural?]
  grind

namespace Entry

/-- A surface mnemonic may be missing or `null`. -/
inductive SurfaceDescribed : Option Json → Option String → Prop
  | missing : SurfaceDescribed none none
  | null : SurfaceDescribed (some .null) none
  | text (surface : String) : SurfaceDescribed (some (.string surface)) (some surface)

/-- The parts of a document describe an entry. -/
structure PartsDescribe (opcode mode size : Json) (surface : Option Json) (entry : Entry) :
    Prop where
  opcode : opcode = .natural entry.opcode.toNat
  mode : Mode.Described mode entry.mode
  size : size = .natural entry.size.toNat
  surface : SurfaceDescribed surface entry.surface

/-- A document describes an entry: an object has the parts under their keys, wherever these stand
and whatever other keys there are, and an array has them in order. -/
inductive Described : Json → Entry → Prop
  | object {members : List (String × Json)} {opcode mode size : Json} {surface : Option Json}
      {entry : Entry} (hopcode : Json.valuesOf "opcode" members = [opcode])
      (hmode : Json.valuesOf "mode" members = [mode])
      (hsize : Json.valuesOf "size" members = [size])
      (hsurface : Json.valuesOf "mnemonic" members = surface.toList)
      (hparts : PartsDescribe opcode mode size surface entry) : Described (.object members) entry
  | short {opcode mode size : Json} {entry : Entry}
      (hparts : PartsDescribe opcode mode size none entry) :
      Described (.array [opcode, mode, size]) entry
  | full {opcode mode size surface : Json} {entry : Entry}
      (hparts : PartsDescribe opcode mode size (some surface) entry) :
      Described (.array [opcode, mode, size, surface]) entry

theorem surfaceOfJson?_eq_some_iff {document : Option Json} {surface : Option String} :
    surfaceOfJson? document = some surface ↔ SurfaceDescribed document surface := by
  constructor
  · intro h
    unfold surfaceOfJson? at h
    split at h
    · cases h
      exact .missing
    · cases h
      exact .null
    · cases h
      exact .text _
    · cases h
  · intro h
    cases h <;> rfl

theorem ofParts?_eq_some_iff {opcode mode size : Json} {surface : Option Json} {entry : Entry} :
    ofParts? opcode mode size surface = some entry ↔
      PartsDescribe opcode mode size surface entry := by
  simp only [ofParts?, Option.bind_eq_bind, Option.pure_def, Option.bind_eq_some_iff,
    Option.some.injEq, Json.natural?_eq_some_iff, Mode.ofJson?_eq_some_iff,
    surfaceOfJson?_eq_some_iff]
  constructor
  · rintro ⟨number, ⟨rfl, hnumber⟩, found, hfound, declared, ⟨rfl, hdeclared⟩, shown, hshown, rfl⟩
    have hopcode : (UInt8.ofNat number).toNat = number := by
      rw [UInt8.toNat_ofNat', Nat.mod_eq_of_lt (Nat.lt_succ_of_le hnumber)]
    have hsize : (UInt64.ofNat declared).toNat = declared := by
      rw [UInt64.toNat_ofNat', Nat.mod_eq_of_lt (Nat.lt_succ_of_le hdeclared)]
    exact ⟨congrArg Json.natural hopcode.symm, hfound, congrArg Json.natural hsize.symm, hshown⟩
  · intro h
    have hopcode : entry.opcode.toNat ≤ 0xFF := Nat.le_of_lt_succ entry.opcode.toNat_lt
    have hsize : entry.size.toNat ≤ 0xFFFFFFFFFFFFFFFF := Nat.le_of_lt_succ entry.size.toNat_lt
    refine ⟨entry.opcode.toNat, ⟨h.opcode, hopcode⟩, entry.mode, h.mode, entry.size.toNat,
      ⟨h.size, hsize⟩, entry.surface, h.surface, ?_⟩
    rw [UInt8.ofNat_toNat, UInt64.ofNat_toNat]

theorem ofJson?_eq_some_iff {document : Json} {entry : Entry} :
    ofJson? document = some entry ↔ Described document entry := by
  constructor
  · intro h
    unfold ofJson? at h
    split at h
    · simp only [Option.bind_eq_bind, Option.bind_eq_some_iff, Json.required?_eq_some_iff,
        Json.optional?_eq_some_iff, ofParts?_eq_some_iff] at h
      obtain ⟨opcode, hopcode, mode, hmode, size, hsize, surface, hsurface, hparts⟩ := h
      exact .object hopcode hmode hsize hsurface hparts
    · exact .short (ofParts?_eq_some_iff.mp h)
    · exact .full (ofParts?_eq_some_iff.mp h)
    · cases h
  · intro h
    cases h with
    | object hopcode hmode hsize hsurface hparts =>
      simp only [ofJson?, Json.required?_eq_some_iff.mpr hopcode,
        Json.required?_eq_some_iff.mpr hmode, Json.required?_eq_some_iff.mpr hsize,
        Json.optional?_eq_some_iff.mpr hsurface, Option.bind_eq_bind, Option.bind_some]
      exact ofParts?_eq_some_iff.mpr hparts
    | short hparts => exact ofParts?_eq_some_iff.mpr hparts
    | full hparts => exact ofParts?_eq_some_iff.mpr hparts

/-! ### Other layouts of an entry -/

theorem surfaceDescribed_none_iff {surface : Option String} :
    SurfaceDescribed none surface ↔ SurfaceDescribed (some .null) surface := by
  simp only [← surfaceOfJson?_eq_some_iff]
  rfl

/-- The keys of the parts of an entry. -/
def keys : List String :=
  ["opcode", "mode", "size", "mnemonic"]

/-- An entry is laid out in another way.  Parts of an array are rewritten while they stand in an
object. -/
inductive Rewrite : Json → Json → Prop
  | members {members others : List (String × Json)}
      (hmembers : Json.MembersRewrite keys members others) :
      Rewrite (.object members) (.object others)
  | mode {mode other : Json} (hmode : Mode.Respell mode other) (members : List (String × Json)) :
      Rewrite (.object (("mode", mode) :: members)) (.object (("mode", other) :: members))
  | dropNull (members : List (String × Json)) :
      Rewrite (.object (("mnemonic", .null) :: members)) (.object members)
  | addNull {members : List (String × Json)} (hnone : Json.valuesOf "mnemonic" members = []) :
      Rewrite (.object members) (.object (("mnemonic", .null) :: members))
  | toArray (opcode mode size : Json) :
      Rewrite (.object [("opcode", opcode), ("mode", mode), ("size", size)])
        (.array [opcode, mode, size])
  | toObject (opcode mode size : Json) :
      Rewrite (.array [opcode, mode, size])
        (.object [("opcode", opcode), ("mode", mode), ("size", size)])
  | toLongArray (opcode mode size surface : Json) :
      Rewrite (.object [("opcode", opcode), ("mode", mode), ("size", size), ("mnemonic", surface)])
        (.array [opcode, mode, size, surface])
  | toLongObject (opcode mode size surface : Json) :
      Rewrite (.array [opcode, mode, size, surface])
        (.object [("opcode", opcode), ("mode", mode), ("size", size), ("mnemonic", surface)])

theorem ofJson?_object (opcode mode size : Json) :
    ofJson? (.object [("opcode", opcode), ("mode", mode), ("size", size)]) =
      ofJson? (.array [opcode, mode, size]) := by
  simp [ofJson?, Json.required?, Json.optional?]

theorem ofJson?_longObject (opcode mode size surface : Json) :
    ofJson? (.object [("opcode", opcode), ("mode", mode), ("size", size), ("mnemonic", surface)]) =
      ofJson? (.array [opcode, mode, size, surface]) := by
  simp [ofJson?, Json.required?, Json.optional?]

theorem Described.members {members others : List (String × Json)} {entry : Entry}
    (h : Described (.object members) entry) (hmembers : Json.MembersRewrite keys members others) :
    Described (.object others) entry := by
  cases h with
  | @object _ _ _ _ surface _ hopcode hmode hsize hsurface hparts =>
    refine .object (hmembers.valuesOf_eq (by decide) hopcode)
      (hmembers.valuesOf_eq (by decide) hmode) (hmembers.valuesOf_eq (by decide) hsize) ?_ hparts
    cases surface with
    | none =>
      have hperm := hmembers.valuesOf_perm (show "mnemonic" ∈ keys by decide)
      rw [hsurface] at hperm
      exact hperm.nil_eq.symm
    | some surface => exact hmembers.valuesOf_eq (by decide) hsurface

/-- An entry is described in all its layouts. -/
theorem Described.rewrite {document other : Json} {entry : Entry} (h : Described document entry)
    (hrewrite : Rewrite document other) : Described other entry := by
  cases hrewrite with
  | members hmembers => exact h.members hmembers
  | mode hrespell members =>
    cases h with
    | object hopcode hmode hsize hsurface hparts =>
      obtain ⟨rfl, hnone⟩ := Json.valuesOf_cons_self_eq_iff.mp hmode
      refine .object hopcode (Json.valuesOf_cons_self_eq_iff.mpr ⟨rfl, hnone⟩) hsize hsurface ?_
      exact { hparts with mode := hparts.mode.respell hrespell }
  | dropNull members =>
    cases h with
    | @object _ _ _ _ surface _ hopcode hmode hsize hsurface hparts =>
      cases surface with
      | none => exact absurd hsurface (List.cons_ne_nil _ _)
      | some surface =>
        obtain ⟨rfl, hnone⟩ := Json.valuesOf_cons_self_eq_iff.mp hsurface
        have hparts : PartsDescribe _ _ _ none entry :=
          { hparts with surface := surfaceDescribed_none_iff.mpr hparts.surface }
        refine .object hopcode hmode hsize ?_ hparts
        exact hnone
  | addNull hnone =>
    cases h with
    | @object _ _ _ _ surface _ hopcode hmode hsize hsurface hparts =>
      have hmissing : surface = none := Option.toList_eq_nil_iff.mp (hsurface.symm.trans hnone)
      subst hmissing
      have hparts : PartsDescribe _ _ _ (some .null) entry :=
        { hparts with surface := surfaceDescribed_none_iff.mp hparts.surface }
      refine .object hopcode hmode hsize ?_ hparts
      exact Json.valuesOf_cons_self_eq_iff.mpr ⟨rfl, hnone⟩
  | toArray opcode mode size =>
    rwa [← ofJson?_eq_some_iff, ← ofJson?_object, ofJson?_eq_some_iff]
  | toObject opcode mode size =>
    rwa [← ofJson?_eq_some_iff, ofJson?_object, ofJson?_eq_some_iff]
  | toLongArray opcode mode size surface =>
    rwa [← ofJson?_eq_some_iff, ← ofJson?_longObject, ofJson?_eq_some_iff]
  | toLongObject opcode mode size surface =>
    rwa [← ofJson?_eq_some_iff, ofJson?_longObject, ofJson?_eq_some_iff]

theorem Described.rewrites {document other : Json} {entry : Entry} (h : Described document entry)
    (hrewrites : Relation.ReflTransGen Rewrite document other) : Described other entry := by
  induction hrewrites with
  | refl => exact h
  | tail _ hstep ih => exact ih.rewrite hstep

end Entry

/-! ## Tables -/

namespace InstructionTable

/-- A table has the last entry of each name in a list, and nothing else. -/
structure Tabulates (table : InstructionTable) (named : List (String × Entry)) : Prop where
  get?_eq : ∀ name, table.get? name = named.reverse.lookup name
  /-- The size is the number of different names. -/
  size_eq : table.size = (named.map Prod.fst).toFinset.card
  mismatch_iff : ∀ name entry, (name, entry) ∈ table.sizeMismatches ↔
    named.reverse.lookup name = some entry ∧ entry.size.toNat ≠ entry.mode.encodedSize

theorem size_eq_card {table : InstructionTable} {names : Finset String}
    (h : ∀ name, (table.get? name).isSome ↔ name ∈ names) : table.size = names.card := by
  have hkeys : table.entries.keys.toFinset = names := by
    ext name
    rw [List.mem_toFinset, Std.TreeMap.mem_keys, ← Std.TreeMap.isSome_getElem?_iff_mem]
    exact h name
  calc
    table.size = table.entries.keys.length := Std.TreeMap.length_keys.symm
    _ = table.entries.keys.toFinset.card :=
      (List.toFinset_card_of_nodup Std.TreeMap.nodup_keys).symm
    _ = names.card := by rw [hkeys]

/-- An entry that is inserted counts for its name from then on. -/
theorem get?_insert_eq_lookup {table : InstructionTable} {named : List (String × Entry)}
    (h : ∀ name, table.get? name = named.reverse.lookup name) (name : String) (entry : Entry)
    (other : String) :
    (table.insert name entry).get? other = (named ++ [(name, entry)]).reverse.lookup other := by
  rw [get?_insert, List.reverse_concat, List.lookup_cons, h]
  by_cases hname : name = other
  · simp [hname]
  · have hne : (other == name) = false := beq_eq_false_iff_ne.mpr (Ne.symm hname)
    rw [if_neg hname, hne]

theorem get?_ofList (named : List (String × Entry)) (name : String) :
    (ofList named).get? name = named.reverse.lookup name := by
  induction named using List.reverseRecOn generalizing name with
  | nil => exact get?_empty name
  | append_singleton named pair ih =>
    unfold ofList
    rw [List.foldl_concat]
    exact get?_insert_eq_lookup ih pair.1 pair.2 name

theorem tabulates_ofList (named : List (String × Entry)) : (ofList named).Tabulates named where
  get?_eq := get?_ofList named
  size_eq := by
    apply size_eq_card
    intro name
    rw [get?_ofList, List.lookup_isSome_iff]
    simp only [List.mem_reverse, beq_iff_eq, List.mem_toFinset, List.mem_map, @eq_comm _ name]
  mismatch_iff name entry := by
    rw [mem_sizeMismatches_iff, get?_ofList]

/-! ### Members -/

/-- A member has the name of an entry and describes it. -/
structure MemberDescribed (member : String × Json) (pair : String × Entry) : Prop where
  name : member.1 = pair.1
  entry : Entry.Described member.2 pair.2

theorem memberOfJson?_eq_some_iff {member : String × Json} {pair : String × Entry} :
    memberOfJson? member = some pair ↔ MemberDescribed member pair := by
  obtain ⟨name, entry⟩ := pair
  simp only [memberOfJson?, Option.bind_eq_bind, Option.pure_def, Option.bind_eq_some_iff,
    Option.some.injEq, Prod.mk.injEq, Entry.ofJson?_eq_some_iff]
  constructor
  · rintro ⟨found, hfound, hname, rfl⟩
    exact ⟨hname, hfound⟩
  · intro h
    exact ⟨entry, h.entry, h.name, rfl⟩

theorem parse?_eq_some_iff {source : String} {table : InstructionTable} :
    parse? source = some table ↔
      ∃ members named, Json.parse? source = some (.object members) ∧
        List.Forall₂ MemberDescribed members named ∧ ofList named = table := by
  simp only [parse?, ofJson?, Option.bind_eq_bind, Option.pure_def, Option.bind_eq_some_iff,
    Json.object?_eq_some_iff, mapM_eq_some_iff, memberOfJson?_eq_some_iff, Option.some.injEq]
  grind

/-- The members of an object are all entries, or there is no list of what they describe. -/
theorem exists_forall₂_memberDescribed_iff {members : List (String × Json)} :
    (∃ named, List.Forall₂ MemberDescribed members named) ↔
      ∀ member ∈ members, ∃ entry, Entry.Described member.2 entry := by
  induction members with
  | nil => simp
  | cons member members ih =>
    rw [List.forall_mem_cons, ← ih]
    constructor
    · rintro ⟨_, hnamed⟩
      obtain ⟨pair, named, hpair, hrest, rfl⟩ := List.forall₂_cons_left_iff.mp hnamed
      exact ⟨⟨pair.2, hpair.entry⟩, named, hrest⟩
    · rintro ⟨⟨entry, hentry⟩, named, hrest⟩
      exact ⟨(member.1, entry) :: named, .cons ⟨rfl, hentry⟩ hrest⟩

/-- A text is loaded if it is an object whose members are all entries. -/
theorem exists_parse?_iff {source : String} :
    (∃ table, parse? source = some table) ↔
      ∃ members, Json.parse? source = some (.object members) ∧
        ∀ member ∈ members, ∃ entry, Entry.Described member.2 entry := by
  simp only [parse?_eq_some_iff, ← exists_forall₂_memberDescribed_iff]
  constructor
  · rintro ⟨_, members, named, hmembers, hnamed, -⟩
    exact ⟨members, hmembers, named, hnamed⟩
  · rintro ⟨members, hmembers, named, hnamed⟩
    exact ⟨ofList named, members, named, hmembers, hnamed, rfl⟩

theorem parse?_eq_none_iff {source : String} :
    parse? source = none ↔
      (∀ members, Json.parse? source ≠ some (.object members)) ∨
      ∃ members, Json.parse? source = some (.object members) ∧
        ∃ member ∈ members, ∀ entry, ¬ Entry.Described member.2 entry := by
  rw [← Option.not_isSome_iff_eq_none, Option.isSome_iff_exists, exists_parse?_iff]
  by_cases hobject : ∃ members, Json.parse? source = some (.object members)
  · obtain ⟨members, hmembers⟩ := hobject
    simp [hmembers]
  · simp_all

/-- Loading an object is the same as inserting its members one by one, in whatever layout they are
written.  It fails exactly if there is no object, or if one of its members is no entry. -/
theorem loading_inserts_members :
    (∀ {source : String} {members : List (String × Json)} {named : List (String × Entry)},
      Json.parse? source = some (.object members) →
      List.Forall₂ MemberDescribed members named →
      ∃ table, parse? source = some table ∧
        table = named.foldl (fun table (name, entry) ↦ table.insert name entry) empty ∧
        table.Tabulates named) ∧
    (∀ {entry : Entry} {document : Json},
      Relation.ReflTransGen Entry.Rewrite entry.toJson document →
      Entry.Described document entry) ∧
    ∀ source : String, parse? source = none ↔
      (∀ members, Json.parse? source ≠ some (.object members)) ∨
      ∃ members, Json.parse? source = some (.object members) ∧
        ∃ member ∈ members, ∀ entry, ¬ Entry.Described member.2 entry := by
  refine ⟨?_, ?_, fun source ↦ parse?_eq_none_iff⟩
  · intro source members named hsource hnamed
    have hload : parse? source = some (ofList named) :=
      parse?_eq_some_iff.mpr ⟨members, named, hsource, hnamed, rfl⟩
    exact ⟨ofList named, hload, rfl, tabulates_ofList named⟩
  · intro entry document hrewrites
    have hwritten : Entry.Described entry.toJson entry :=
      Entry.ofJson?_eq_some_iff.mp entry.ofJson?_toJson
    exact hwritten.rewrites hrewrites

/-- A table with one name twice and three layouts of entries. -/
def mixed : List (String × Json) :=
  [("jump", .object
    [("size", .natural 3), ("note", .array []), ("mode", .object [("single-literal", .null)]),
     ("opcode", .natural 16)]),
   ("stop", .array [.natural 255, .string "no-args", .natural 1, .null]),
   ("jump", .object
    [("opcode", .natural 17), ("mode", .string "single-literal"), ("size", .natural 4),
     ("mnemonic", .string "goto")])]

theorem integral_mixed : (Json.object mixed).Integral := by
  refine .object ?_
  simp only [mixed, List.forall_mem_cons]
  refine ⟨.object ?_, .array ?_, .object ?_, List.forall_mem_nil _⟩ <;>
    simp only [List.forall_mem_cons]
  · exact ⟨.natural 3, .array (List.forall_mem_nil _),
      .object (List.forall_mem_singleton.mpr .null), .natural 16, List.forall_mem_nil _⟩
  · exact ⟨.natural 255, .string _, .natural 1, .null, List.forall_mem_nil _⟩
  · exact ⟨.natural 17, .string _, .natural 4, .string _, List.forall_mem_nil _⟩

theorem memberDescribed_mixed : List.Forall₂ MemberDescribed mixed
    [("jump", ⟨16, .singleWord, 3, none⟩), ("stop", ⟨255, .bare, 1, none⟩),
     ("jump", ⟨17, .singleWord, 4, some "goto"⟩)] := by
  refine .cons ?_ (.cons ?_ (.cons ?_ .nil)) <;> exact memberOfJson?_eq_some_iff.mp rfl

/-- The later of two entries counts, even though its size is the wrong one. -/
theorem loading_inserts_members_mixed :
    ∃ table, parse? (Json.object mixed).compact = some table ∧
      table.get? "jump" = some ⟨17, .singleWord, 4, some "goto"⟩ ∧ table.size = 2 ∧
      ("jump", ⟨17, .singleWord, 4, some "goto"⟩) ∈ table.sizeMismatches := by
  obtain ⟨table, htable, -, htabulates⟩ :=
    loading_inserts_members.1 (Json.parse?_compact integral_mixed) memberDescribed_mixed
  refine ⟨table, htable, htabulates.get?_eq "jump", htabulates.size_eq, ?_⟩
  apply (htabulates.mismatch_iff _ _).mpr
  exact ⟨rfl, by decide⟩

end InstructionTable

end TwoPass
