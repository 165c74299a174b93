import TwoPass.Interchange.Program
import TwoPass.Proofs.General

/-!
# What a document describes, and how it spells it

Reading a program depends on two things.  One is what the document describes: which parts it has
under which keys, wherever they stand.  The other is whether the document is admissible: its tags
are spelled in a way that is understood where they stand, and a content that is met before its tag
can be stored.  A document is read as a program if and only if it describes that program and is
admissible.
-/

namespace TwoPass

theorem mapM_eq_some_iff_and {Value : Type} {ofJson? : Json → Option Value}
    {Described : Json → Value → Prop} {Admissible : Json → Prop}
    (h : ∀ document value,
      ofJson? document = some value ↔ Described document value ∧ Admissible document)
    {documents : List Json} {values : List Value} :
    documents.mapM ofJson? = some values ↔
      List.Forall₂ Described documents values ∧ ∀ document ∈ documents, Admissible document := by
  simp only [mapM_eq_some_iff, h]
  rw [and_comm, ← List.forall₂_and_left]
  simp only [and_comm]

namespace Json

/-! ## The parts of a document -/

/-- The values of a key in an object. -/
def valuesOf (key : String) (members : List (String × Json)) : List Json :=
  (members.filter fun (other, _) ↦ other = key).map Prod.snd

theorem valuesOf_cons (key other : String) (value : Json) (members : List (String × Json)) :
    valuesOf key ((other, value) :: members) =
      if other = key then value :: valuesOf key members else valuesOf key members := by
  by_cases h : other = key <;> simp [valuesOf, h]

theorem valuesOf_cons_self_eq_iff {key : String} {value found : Json}
    {members : List (String × Json)} :
    valuesOf key ((key, value) :: members) = [found] ↔
      value = found ∧ valuesOf key members = [] := by
  rw [valuesOf_cons, if_pos rfl, List.cons.injEq]

theorem required?_eq_some_iff {key : String} {members : List (String × Json)} {value : Json} :
    required? key members = some value ↔ valuesOf key members = [value] := by
  unfold required? valuesOf
  split
  · next found _ hfound => simp [hfound]
  · next hother =>
    simp only [reduceCtorEq, false_iff, List.map_eq_singleton_iff]
    rintro ⟨⟨other, _⟩, hfound, -⟩
    exact hother _ _ hfound

theorem optional?_eq_some_iff {key : String} {members : List (String × Json)}
    {value : Option Json} :
    optional? key members = some value ↔ valuesOf key members = value.toList := by
  unfold optional? valuesOf
  split
  · next hfound => cases value <;> simp [hfound]
  · next found _ hfound => cases value <;> simp [hfound]
  · next hnone hother =>
    simp only [reduceCtorEq, false_iff]
    cases value with
    | none => simpa using hnone
    | some value =>
      simp only [Option.toList_some, List.map_eq_singleton_iff]
      rintro ⟨⟨other, _⟩, hfound, -⟩
      exact hother _ _ hfound

theorem string?_eq_some_iff {document : Json} {text : String} :
    string? document = some text ↔ document = .string text := by
  cases document <;> simp [string?]

theorem array?_eq_some_iff {document : Json} {items : List Json} :
    array? document = some items ↔ document = .array items := by
  cases document <;> simp [array?]

theorem object?_eq_some_iff {document : Json} {members : List (String × Json)} :
    object? document = some members ↔ document = .object members := by
  cases document <;> simp [object?]

/-- What stands at the place of a tag. -/
def tagParts : Json → List Json
  | .object members => valuesOf "type" members
  | .array [tag, _] => [tag]
  | _ => []

/-- What stands at the place of a content. -/
def contentParts : Json → List Json
  | .object members => valuesOf "value" members
  | .array [_, content] => [content]
  | _ => []

def items : Json → List Json
  | .array items => items
  | _ => []

/-! ## Tags -/

/-- A tag in any of its spellings. -/
inductive StandsFor (tags : List String) : Json → String → Prop
  | text (tag : String) : StandsFor tags (.string tag) tag
  | member (tag : String) : StandsFor tags (.object [(tag, .null)]) tag
  | emptyMember (tag : String) : StandsFor tags (.object [(tag, .object [])]) tag
  | position {number : Nat} {tag : String} (htag : tags[number]? = some tag) :
      StandsFor tags (.natural number) tag

/-- The spellings that are understood as the value of a key. -/
inductive LegibleValue (access : Access) : Json → Prop
  | text (tag : String) : LegibleValue access (.string tag)
  | member (tag : String) : LegibleValue access (.object [(tag, .null)])
  | emptyMember (tag : String) (hstored : access = .stored) :
      LegibleValue access (.object [(tag, .object [])])

/-- The spellings that are understood at the front of an array. -/
inductive LegibleItem (access : Access) : Json → Prop
  | text (tag : String) : LegibleItem access (.string tag)
  | position (number : Nat) (hstored : access = .stored) : LegibleItem access (.natural number)

/-- The tag of a document is spelled in a way that is understood where it stands. -/
def Legible (access : Access) : Json → Prop
  | .object members => ∀ tag ∈ valuesOf "type" members, LegibleValue access tag
  | .array [tag, _] => LegibleItem access tag
  | _ => True

variable {access : Access} {tags : List String} {document : Json} {name : String}

theorem tag?_eq_some_iff (tags : List String) :
    tag? access document = some name ↔
      document.StandsFor tags name ∧ document.LegibleValue access := by
  constructor
  · intro h
    unfold tag? at h
    split at h
    · cases h
      exact ⟨.text _, .text _⟩
    · cases h
      exact ⟨.member _, .member _⟩
    · split at h
      · next hstored =>
        cases h
        exact ⟨.emptyMember _, .emptyMember _ hstored⟩
      · cases h
    · cases h
  · rintro ⟨hstands, hlegible⟩
    cases hlegible with
    | text => cases hstands; rfl
    | member => cases hstands; rfl
    | emptyMember _ hstored =>
      cases hstands
      simp [tag?, hstored]

theorem leadingTag?_eq_some_iff :
    leadingTag? access tags document = some name ↔
      document.StandsFor tags name ∧ document.LegibleItem access := by
  constructor
  · intro h
    unfold leadingTag? at h
    split at h
    · cases h
      exact ⟨.text _, .text _⟩
    · split at h
      · next hstored => exact ⟨.position h, .position _ hstored⟩
      · cases h
    · cases h
  · rintro ⟨hstands, hlegible⟩
    cases hlegible with
    | text => cases hstands; rfl
    | position number hstored =>
      cases hstands with
      | position htag => simpa [leadingTag?, hstored] using htag

/-- A document has one tag, which stands for a name, and one content. -/
@[mk_iff]
structure Carries (tags : List String) (document : Json) (name : String) (content : Json) :
    Prop where
  tag : ∃ tag, document.tagParts = [tag] ∧ tag.StandsFor tags name
  content : document.contentParts = [content]

theorem tagged?_object_eq_some_iff {members : List (String × Json)} {content : Json} :
    tagged? access tags (.object members) = some (name, content) ↔
      (Json.object members).Carries tags name content ∧ (Json.object members).Legible access := by
  simp only [tagged?, Option.bind_eq_bind, Option.pure_def, Option.bind_eq_some_iff,
    Option.some.injEq, Prod.mk.injEq, required?_eq_some_iff, tag?_eq_some_iff tags]
  constructor
  · rintro ⟨tag, htag, _, ⟨hstands, hlegible⟩, _, hcontent, rfl, rfl⟩
    refine ⟨⟨⟨tag, htag, hstands⟩, hcontent⟩, ?_⟩
    rw [Legible, htag]
    exact List.forall_mem_singleton.mpr hlegible
  · rintro ⟨⟨⟨tag, htag, hstands⟩, hcontent⟩, hlegible⟩
    rw [tagParts] at htag
    rw [Legible, htag] at hlegible
    have hlegible := List.forall_mem_singleton.mp hlegible
    exact ⟨tag, htag, name, ⟨hstands, hlegible⟩, content, hcontent, rfl, rfl⟩

theorem tagged?_array_eq_some_iff {tag inner content : Json} :
    tagged? access tags (.array [tag, inner]) = some (name, content) ↔
      (Json.array [tag, inner]).Carries tags name content ∧
        (Json.array [tag, inner]).Legible access := by
  simp only [tagged?, Option.bind_eq_bind, Option.pure_def, Option.bind_eq_some_iff,
    Option.some.injEq, Prod.mk.injEq, leadingTag?_eq_some_iff]
  constructor
  · rintro ⟨_, ⟨hstands, hlegible⟩, rfl, rfl⟩
    exact ⟨⟨⟨tag, rfl, hstands⟩, rfl⟩, hlegible⟩
  · rintro ⟨⟨⟨_, htag, hstands⟩, hcontent⟩, hlegible⟩
    cases htag
    cases hcontent
    exact ⟨name, ⟨hstands, hlegible⟩, rfl, rfl⟩

theorem tagged?_eq_some_iff {content : Json} :
    tagged? access tags document = some (name, content) ↔
      document.Carries tags name content ∧ document.Legible access := by
  rcases document with _ | _ | _ | _ | _ | _ | items | members
  case object => exact tagged?_object_eq_some_iff
  case array =>
    rcases items with _ | ⟨tag, _ | ⟨inner, _ | ⟨_, _⟩⟩⟩
    case cons.cons.nil => exact tagged?_array_eq_some_iff
    all_goals simp [tagged?, carries_iff, tagParts]
  -- Any other document has no place for a tag.
  all_goals simp [tagged?, carries_iff, tagParts]

end Json

/-! ## Operands -/

/-- A document carries the name and the text of an operand. -/
def Operand.Described (document : Json) (operand : Operand) : Prop :=
  ∃ name text, document.Carries tags name (.string text) ∧
    operand.toJson = .tagged name (.string text)

theorem Operand.ofJson?_eq_some_iff {access : Json.Access} {document : Json} {operand : Operand} :
    ofJson? access document = some operand ↔
      Described document operand ∧ document.Legible access := by
  simp only [ofJson?, Option.bind_eq_bind, Option.bind_eq_some_iff, Prod.exists,
    Json.tagged?_eq_some_iff, Json.string?_eq_some_iff]
  constructor
  · rintro ⟨name, _, ⟨hcarries, hlegible⟩, text, rfl, hoperand⟩
    refine ⟨⟨name, text, hcarries, ?_⟩, hlegible⟩
    split at hoperand <;> cases hoperand <;> rfl
  · rintro ⟨⟨name, text, hcarries, hoperand⟩, hlegible⟩
    refine ⟨name, _, ⟨hcarries, hlegible⟩, text, rfl, ?_⟩
    cases operand <;> cases hoperand <;> rfl

/-! ## Statements -/

namespace Statement

/-- The content of a document describes an instruction. -/
inductive InstructionDescribed : Json → Statement → Prop
  | bare {members : List (String × Json)} {mnemonic : String}
      (hmnemonic : Json.valuesOf "mnemonic" members = [.string mnemonic])
      (hoperands : Json.valuesOf "operands" members = []) :
      InstructionDescribed (.object members) (.instruction mnemonic [])
  | full {members : List (String × Json)} {mnemonic : String} {documents : List Json}
      {operands : List Operand} (hmnemonic : Json.valuesOf "mnemonic" members = [.string mnemonic])
      (hoperands : Json.valuesOf "operands" members = [.array documents])
      (hdocuments : List.Forall₂ Operand.Described documents operands) :
      InstructionDescribed (.object members) (.instruction mnemonic operands)

/-- The content of a document describes a statement with the given tag. -/
inductive ContentDescribed : String → Json → Statement → Prop
  | label (name : String) : ContentDescribed "label" (.string name) (.label name)
  | instruction {content : Json} {statement : Statement}
      (hcontent : InstructionDescribed content statement) :
      ContentDescribed "instruction" content statement

/-- The documents of operands in the content of a statement. -/
def operandParts : Json → List Json
  | .object members => (Json.valuesOf "operands" members).flatMap Json.items
  | _ => []

theorem instructionOfJson?_eq_some_iff {access : Json.Access} {content : Json}
    {statement : Statement} :
    instructionOfJson? access content = some statement ↔
      InstructionDescribed content statement ∧
        ∀ operand ∈ operandParts content, operand.Legible access := by
  simp only [instructionOfJson?, Option.bind_eq_bind, Option.pure_def, Option.bind_eq_some_iff,
    Option.some.injEq, Json.object?_eq_some_iff, Json.required?_eq_some_iff,
    Json.string?_eq_some_iff, Json.optional?_eq_some_iff]
  constructor
  · rintro ⟨members, rfl, _, hmnemonic, mnemonic, rfl, member, hmember, operands, hoperands, rfl⟩
    cases member with
    | none =>
      cases hoperands
      refine ⟨.bare hmnemonic hmember, ?_⟩
      simp [operandParts, hmember]
    | some document =>
      simp only [operandsOfJson?, Option.bind_eq_bind, Option.bind_eq_some_iff,
        Json.array?_eq_some_iff] at hoperands
      obtain ⟨documents, rfl, hoperands⟩ := hoperands
      have ⟨hdocuments, hlegible⟩ :=
        (mapM_eq_some_iff_and (@Operand.ofJson?_eq_some_iff access)).mp hoperands
      refine ⟨.full hmnemonic hmember hdocuments, ?_⟩
      simpa [operandParts, hmember, Json.items] using hlegible
  · rintro ⟨hdescribed, hlegible⟩
    cases hdescribed with
    | bare hmnemonic hoperands =>
      exact ⟨_, rfl, _, hmnemonic, _, rfl, none, hoperands, [], rfl, rfl⟩
    | @full members mnemonic documents operands hmnemonic hoperands hdocuments =>
      have hread : operandsOfJson? access (some (.array documents)) = some operands := by
        apply (mapM_eq_some_iff_and (@Operand.ofJson?_eq_some_iff access)).mpr
        refine ⟨hdocuments, ?_⟩
        simpa [operandParts, hoperands, Json.items] using hlegible
      exact ⟨_, rfl, _, hmnemonic, _, rfl, some _, hoperands, operands, hread, rfl⟩

theorem ofContent?_eq_some_iff {access : Json.Access} {name : String} {content : Json}
    {statement : Statement} :
    ofContent? access name content = some statement ↔
      ContentDescribed name content statement ∧
        ∀ operand ∈ operandParts content, operand.Legible access := by
  constructor
  · intro h
    unfold ofContent? at h
    split at h
    · obtain ⟨text, htext, rfl⟩ := Option.map_eq_some_iff.mp h
      obtain rfl := Json.string?_eq_some_iff.mp htext
      exact ⟨.label text, List.forall_mem_nil _⟩
    · have hparts := instructionOfJson?_eq_some_iff.mp h
      exact ⟨.instruction hparts.1, hparts.2⟩
    · cases h
  · rintro ⟨hdescribed, hlegible⟩
    cases hdescribed with
    | label text => rfl
    | instruction hcontent => exact instructionOfJson?_eq_some_iff.mpr ⟨hcontent, hlegible⟩

/-- A document carries a tag and a content that describe a statement. -/
def Described (document : Json) (statement : Statement) : Prop :=
  ∃ name content, document.Carries tags name content ∧ ContentDescribed name content statement

/-- A statement in a spelling that is understood, whatever it describes. -/
structure Admissible (document : Json) : Prop where
  legible : document.Legible .direct
  storable : document.contentAccess = .stored →
    ∀ content ∈ document.contentParts, content.isStorable storedLevels
  operands : ∀ content ∈ document.contentParts, ∀ operand ∈ operandParts content,
    operand.Legible document.contentAccess

theorem ofJson?_eq_some_iff {document : Json} {statement : Statement} :
    ofJson? document = some statement ↔ Described document statement ∧ Admissible document := by
  -- The content is read in the way in which it is met, and the limit counts only if it is stored.
  have hread : ofJson? document = some statement ↔
      ∃ name content, document.tagged? .direct tags = some (name, content) ∧
        (document.contentAccess = .stored → content.isStorable storedLevels) ∧
        ofContent? document.contentAccess name content = some statement := by
    simp only [ofJson?, Option.bind_eq_bind, Option.bind_eq_some_iff, Prod.exists]
    cases document.contentAccess <;> simp [Option.ite_none_right_eq_some]
  simp only [hread, Json.tagged?_eq_some_iff, ofContent?_eq_some_iff]
  constructor
  · rintro ⟨name, content, ⟨hcarries, hlegible⟩, hstorable, hdescribes, hoperands⟩
    refine ⟨⟨name, content, hcarries, hdescribes⟩, hlegible, ?_, ?_⟩
    · rw [hcarries.content]
      simpa using hstorable
    · rw [hcarries.content]
      simpa using hoperands
  · rintro ⟨⟨name, content, hcarries, hdescribes⟩, hlegible, hstorable, hoperands⟩
    rw [hcarries.content] at hstorable hoperands
    refine ⟨name, content, ⟨hcarries, hlegible⟩, ?_, hdescribes, ?_⟩
    · simpa using hstorable
    · simpa using hoperands

end Statement

/-! ## Programs -/

namespace Program

/-- A document is an array whose items describe the statements of a program. -/
def Described (document : Json) (program : Program) : Prop :=
  ∃ documents, document = .array documents ∧
    List.Forall₂ Statement.Described documents program

def Admissible (document : Json) : Prop :=
  ∀ statement ∈ document.items, Statement.Admissible statement

/-- A document is read as a program if it describes the program and is admissible. -/
theorem ofJson?_eq_some_iff {document : Json} {program : Program} :
    ofJson? document = some program ↔ Described document program ∧ Admissible document := by
  simp only [ofJson?, Option.bind_eq_bind, Option.bind_eq_some_iff, Json.array?_eq_some_iff,
    mapM_eq_some_iff_and @Statement.ofJson?_eq_some_iff]
  constructor
  · rintro ⟨documents, rfl, hdescribed, hadmissible⟩
    exact ⟨⟨documents, rfl, hdescribed⟩, hadmissible⟩
  · rintro ⟨⟨documents, rfl, hdescribed⟩, hadmissible⟩
    exact ⟨documents, rfl, hdescribed, hadmissible⟩

end Program

end TwoPass
