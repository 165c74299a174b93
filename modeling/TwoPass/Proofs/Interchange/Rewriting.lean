import Mathlib.Logic.Relation
import TwoPass.Proofs.Interchange.Description

/-!
# Documents of one program

A document can be rewritten without a change to the program that it describes: members may change
places, others may be added, a tag and its content may stand in an array instead of an object, a tag
may be spelled in another way, and an empty list of operands may be left out.  Whether the result is
still read depends on its spelling alone.
-/

namespace TwoPass

/-! ## Rewriting -/

namespace Json

/-- The members of an object change places, or one is added that nothing reads. -/
inductive MembersRewrite (known : List String) :
    List (String × Json) → List (String × Json) → Prop
  | permute {members others : List (String × Json)} (hperm : members.Perm others) :
      MembersRewrite known members others
  | insert {key : String} (hkey : key ∉ known) (value : Json) (members : List (String × Json)) :
      MembersRewrite known members ((key, value) :: members)

/-- A tagged document takes another form, or its content is rewritten.  Parts of an array are
rewritten while they stand in an object. -/
inductive TaggedRewrite (Content : Json → Json → Prop) : Json → Json → Prop
  | members {members others : List (String × Json)}
      (hmembers : MembersRewrite ["type", "value"] members others) :
      TaggedRewrite Content (.object members) (.object others)
  | toArray (tag content : Json) :
      TaggedRewrite Content (.object [("type", tag), ("value", content)]) (.array [tag, content])
  | toObject (tag content : Json) :
      TaggedRewrite Content (.array [tag, content]) (.object [("type", tag), ("value", content)])
  | toMember (tag : String) (members : List (String × Json)) :
      TaggedRewrite Content (.object (("type", .string tag) :: members))
        (.object (("type", .object [(tag, .null)]) :: members))
  | toText (tag : String) (members : List (String × Json)) :
      TaggedRewrite Content (.object (("type", .object [(tag, .null)]) :: members))
        (.object (("type", .string tag) :: members))
  | content {content other : Json} (hcontent : Content content other)
      (members : List (String × Json)) :
      TaggedRewrite Content (.object (("value", content) :: members))
        (.object (("value", other) :: members))

end Json

/-- The content of an operand is a text, which stays as it is. -/
def Operand.Rewrite : Json → Json → Prop :=
  Json.TaggedRewrite fun _ _ ↦ False

/-- The content of an instruction is rewritten. -/
inductive Statement.ContentRewrite : Json → Json → Prop
  | members {members others : List (String × Json)}
      (hmembers : Json.MembersRewrite ["mnemonic", "operands"] members others) :
      ContentRewrite (.object members) (.object others)
  | dropOperands (members : List (String × Json)) :
      ContentRewrite (.object (("operands", .array []) :: members)) (.object members)
  | operand {operand other : Json} (hoperand : Operand.Rewrite operand other)
      (before after : List Json) (members : List (String × Json)) :
      ContentRewrite (.object (("operands", .array (before ++ operand :: after)) :: members))
        (.object (("operands", .array (before ++ other :: after)) :: members))

def Statement.Rewrite : Json → Json → Prop :=
  Json.TaggedRewrite Statement.ContentRewrite

/-- One rewrite at one place of a program. -/
inductive Program.Rewrite : Json → Json → Prop
  | statement {statement other : Json} (hstatement : Statement.Rewrite statement other)
      (before after : List Json) :
      Rewrite (.array (before ++ statement :: after)) (.array (before ++ other :: after))

/-! ## What rewriting keeps -/

theorem forall₂_replace {Value : Type} {Described : Json → Value → Prop} {document other : Json}
    (h : ∀ value, Described document value → Described other value) {before after : List Json}
    {values : List Value} (hvalues : List.Forall₂ Described (before ++ document :: after) values) :
    List.Forall₂ Described (before ++ other :: after) values := by
  induction before generalizing values with
  | nil =>
    cases hvalues with
    | cons hdocument hafter => exact .cons (h _ hdocument) hafter
  | cons first before ih =>
    cases hvalues with
    | cons hfirst hrest => exact .cons hfirst (ih hrest)

namespace Json

theorem MembersRewrite.valuesOf_perm {known : List String} {members others : List (String × Json)}
    (h : MembersRewrite known members others) {key : String} (hkey : key ∈ known) :
    (valuesOf key members).Perm (valuesOf key others) := by
  cases h with
  | permute hperm => exact (hperm.filter _).map _
  | @insert other hother value =>
    have hne : other ≠ key := by
      rintro rfl
      exact hother hkey
    rw [valuesOf_cons, if_neg hne]

theorem MembersRewrite.valuesOf_eq {known : List String} {members others : List (String × Json)}
    (h : MembersRewrite known members others) {key : String} (hkey : key ∈ known) {value : Json}
    (hvalue : valuesOf key members = [value]) : valuesOf key others = [value] := by
  have hperm := h.valuesOf_perm hkey
  rw [hvalue] at hperm
  exact List.singleton_perm.mp hperm |>.symm

theorem Carries.retag {tags : List String} {tag other content : Json} {name : String}
    {members : List (String × Json)}
    (h : (Json.object (("type", tag) :: members)).Carries tags name content)
    (hstands : ∀ name, tag.StandsFor tags name → other.StandsFor tags name) :
    (Json.object (("type", other) :: members)).Carries tags name content := by
  obtain ⟨⟨found, hfound, hname⟩, hcontent⟩ := h
  have ⟨htag, hnone⟩ := valuesOf_cons_self_eq_iff.mp hfound
  rw [← htag] at hname
  refine ⟨⟨other, ?_, hstands name hname⟩, hcontent⟩
  exact valuesOf_cons_self_eq_iff.mpr ⟨rfl, hnone⟩

/-- A rewritten document still carries the name, and its content, which may be rewritten. -/
theorem Carries.rewrite {Content : Json → Json → Prop} {tags : List String}
    {document other content : Json} {name : String} (h : document.Carries tags name content)
    (hrewrite : TaggedRewrite Content document other) :
    other.Carries tags name content ∨
      ∃ rewritten, Content content rewritten ∧ other.Carries tags name rewritten := by
  cases hrewrite with
  | members hmembers =>
    obtain ⟨⟨tag, htag, hstands⟩, hcontent⟩ := h
    left
    refine ⟨⟨tag, ?_, hstands⟩, ?_⟩
    · exact hmembers.valuesOf_eq (by simp) htag
    · exact hmembers.valuesOf_eq (by simp) hcontent
  | toArray tag inner => exact .inl ⟨h.tag, h.content⟩
  | toObject tag inner => exact .inl ⟨h.tag, h.content⟩
  | toMember text members =>
    left
    apply h.retag
    rintro name ⟨⟩
    exact .member text
  | toText text members =>
    left
    apply h.retag
    rintro name ⟨⟩
    exact .text text
  | @content inner rewritten hinner members =>
    right
    have ⟨heq, hnone⟩ := valuesOf_cons_self_eq_iff.mp h.content
    refine ⟨rewritten, heq ▸ hinner, h.tag, ?_⟩
    exact valuesOf_cons_self_eq_iff.mpr ⟨rfl, hnone⟩

end Json

theorem Operand.Described.rewrite {document other : Json} {operand : Operand}
    (h : Described document operand) (hrewrite : Rewrite document other) :
    Described other operand := by
  obtain ⟨name, text, hcarries, hoperand⟩ := h
  rcases hcarries.rewrite hrewrite with hcarries | ⟨_, hfalse, -⟩
  · exact ⟨name, text, hcarries, hoperand⟩
  · exact hfalse.elim

namespace Statement

theorem InstructionDescribed.rewrite {content other : Json} {statement : Statement}
    (h : InstructionDescribed content statement) (hrewrite : ContentRewrite content other) :
    InstructionDescribed other statement := by
  cases h with
  | bare hmnemonic hoperands =>
    cases hrewrite with
    | members hmembers =>
      refine .bare (hmembers.valuesOf_eq (by simp) hmnemonic) ?_
      have hperm := hmembers.valuesOf_perm (show "operands" ∈ _ by simp)
      rw [hoperands] at hperm
      exact hperm.nil_eq.symm
    | dropOperands members => simp [Json.valuesOf_cons] at hoperands
    | operand hoperand before after members => simp [Json.valuesOf_cons] at hoperands
  | full hmnemonic hoperands hdocuments =>
    cases hrewrite with
    | members hmembers =>
      exact .full (hmembers.valuesOf_eq (by simp) hmnemonic)
        (hmembers.valuesOf_eq (by simp) hoperands) hdocuments
    | dropOperands members =>
      -- The member that is left out is the only one, so no operands remain.
      have ⟨hnil, hnone⟩ := Json.valuesOf_cons_self_eq_iff.mp hoperands
      cases hnil
      cases hdocuments
      exact .bare hmnemonic hnone
    | operand hoperand before after members =>
      have ⟨hreplaced, hnone⟩ := Json.valuesOf_cons_self_eq_iff.mp hoperands
      cases hreplaced
      have hrewritten := forall₂_replace (fun _ h ↦ h.rewrite hoperand) hdocuments
      refine .full hmnemonic ?_ hrewritten
      exact Json.valuesOf_cons_self_eq_iff.mpr ⟨rfl, hnone⟩

theorem Described.rewrite {document other : Json} {statement : Statement}
    (h : Described document statement) (hrewrite : Rewrite document other) :
    Described other statement := by
  obtain ⟨name, content, hcarries, hdescribed⟩ := h
  rcases hcarries.rewrite hrewrite with hcarries | ⟨rewritten, hcontent, hcarries⟩
  · exact ⟨name, content, hcarries, hdescribed⟩
  · refine ⟨name, rewritten, hcarries, ?_⟩
    cases hdescribed with
    | label text => cases hcontent
    | instruction hdescribed => exact .instruction (hdescribed.rewrite hcontent)

end Statement

namespace Program

theorem Described.rewrite {document other : Json} {program : Program}
    (h : Described document program) (hrewrite : Rewrite document other) :
    Described other program := by
  obtain ⟨documents, rfl, hdocuments⟩ := h
  cases hrewrite with
  | statement hstatement before after =>
    exact ⟨_, rfl, forall₂_replace (fun _ h ↦ h.rewrite hstatement) hdocuments⟩

theorem Described.rewrites {document other : Json} {program : Program}
    (h : Described document program) (hrewrites : Relation.ReflTransGen Rewrite document other) :
    Described other program := by
  induction hrewrites with
  | refl => exact h
  | tail _ hstep ih => exact ih.rewrite hstep

end Program

/-! ## Documents that describe no program -/

/-- An object in which one of the keys is missing or repeated. -/
def Json.Miscounts (keys : List String) (document : Json) : Prop :=
  ∃ members, document = .object members ∧ ∃ key ∈ keys, (valuesOf key members).length ≠ 1

namespace Statement

/-- A content that describes no instruction. -/
inductive MalformedContent : Json → Prop
  | array (items : List Json) : MalformedContent (.array items)
  | mnemonic {content : Json} (hmnemonic : content.Miscounts ["mnemonic"]) :
      MalformedContent content
  | operands {members : List (String × Json)}
      (hoperands : 1 < (Json.valuesOf "operands" members).length) :
      MalformedContent (.object members)
  | operand {content operand : Json} (hoperand : operand ∈ operandParts content)
      (hparts : operand.Miscounts ["type", "value"]) : MalformedContent content

/-- A statement with parts that are missing or repeated, at any depth, or with an array as its
content. -/
inductive Malformed (statement : Json) : Prop
  | parts (hparts : statement.Miscounts ["type", "value"])
  | content {content : Json} (hcontent : content ∈ statement.contentParts)
      (hmalformed : MalformedContent content)

end Statement

theorem Json.Carries.not_miscounts {tags : List String} {document content : Json} {name : String}
    (h : document.Carries tags name content) : ¬ document.Miscounts ["type", "value"] := by
  rintro ⟨members, rfl, key, hkey, hcount⟩
  obtain ⟨⟨tag, htag, -⟩, hcontent⟩ := h
  rw [tagParts] at htag
  rw [contentParts] at hcontent
  rcases List.mem_pair.mp hkey with rfl | rfl
  · exact hcount (congrArg List.length htag)
  · exact hcount (congrArg List.length hcontent)

theorem exists_described_of_mem {Value : Type} {Described : Json → Value → Prop}
    {documents : List Json} {values : List Value} (h : List.Forall₂ Described documents values) :
    ∀ document ∈ documents, ∃ value, Described document value := by
  have hboth := h.imp fun document value hvalue ↦
    (⟨⟨value, hvalue⟩, hvalue⟩ : (∃ value, Described document value) ∧ Described document value)
  exact ((List.forall₂_and_left _ _).mp hboth).1

theorem Operand.Described.not_miscounts {document : Json} {operand : Operand}
    (h : Described document operand) : ¬ document.Miscounts ["type", "value"] := by
  obtain ⟨name, text, hcarries, -⟩ := h
  exact hcarries.not_miscounts

namespace Statement

theorem InstructionDescribed.exists_members {content : Json} {statement : Statement}
    (h : InstructionDescribed content statement) :
    ∃ members mnemonic, content = .object members ∧
      Json.valuesOf "mnemonic" members = [.string mnemonic] ∧
      (Json.valuesOf "operands" members).length ≤ 1 ∧
      ∀ document ∈ operandParts content, ∃ operand, Operand.Described document operand := by
  cases h with
  | @bare members mnemonic hmnemonic hoperands =>
    refine ⟨members, mnemonic, rfl, hmnemonic, ?_, ?_⟩
    · simp [hoperands]
    · simp [operandParts, hoperands]
  | @full members mnemonic documents operands hmnemonic hoperands hdocuments =>
    refine ⟨members, mnemonic, rfl, hmnemonic, ?_, ?_⟩
    · simp [hoperands]
    · simpa [operandParts, hoperands, Json.items] using exists_described_of_mem hdocuments

theorem InstructionDescribed.not_malformedContent {content : Json} {statement : Statement}
    (h : InstructionDescribed content statement) : ¬ MalformedContent content := by
  obtain ⟨members, mnemonic, rfl, hmnemonic, hcount, hoperands⟩ := h.exists_members
  intro hmalformed
  cases hmalformed with
  | mnemonic hmiscounts =>
    obtain ⟨_, hmembers, key, hkey, hlength⟩ := hmiscounts
    cases hmembers
    rw [List.mem_singleton.mp hkey, hmnemonic] at hlength
    exact hlength rfl
  | operands hrepeated => omega
  | operand hoperand hmiscounts =>
    obtain ⟨operand, hdescribed⟩ := hoperands _ hoperand
    exact hdescribed.not_miscounts hmiscounts

theorem MalformedContent.ne_string {content : Json} (h : MalformedContent content)
    (text : String) : content ≠ .string text := by
  rintro rfl
  cases h with
  | mnemonic hmiscounts =>
    obtain ⟨_, hmembers, -⟩ := hmiscounts
    cases hmembers
  | operand hoperand => cases hoperand

theorem Described.not_malformed {document : Json} {statement : Statement}
    (h : Described document statement) : ¬ Malformed document := by
  obtain ⟨name, content, hcarries, hdescribed⟩ := h
  intro hmalformed
  cases hmalformed with
  | parts hparts => exact hcarries.not_miscounts hparts
  | content hinner hmalformed =>
    rw [hcarries.content, List.mem_singleton] at hinner
    subst hinner
    cases hdescribed with
    | label text => exact hmalformed.ne_string text rfl
    | instruction hdescribed => exact hdescribed.not_malformedContent hmalformed

end Statement

namespace Program

theorem ofJson?_eq_none_of_malformed {statements : List Json} {statement : Json}
    (hmem : statement ∈ statements) (hmalformed : Statement.Malformed statement) :
    ofJson? (.array statements) = none := by
  rw [Option.eq_none_iff_forall_ne_some]
  intro program hread
  obtain ⟨⟨_, hdocument, hdocuments⟩, -⟩ := ofJson?_eq_some_iff.mp hread
  cases hdocument
  obtain ⟨value, hvalue⟩ := exists_described_of_mem hdocuments statement hmem
  exact hvalue.not_malformed hmalformed

theorem ofJson?_eq_none_of_not_admissible {document : Json} (h : ¬ Admissible document) :
    ofJson? document = none := by
  rw [Option.eq_none_iff_forall_ne_some]
  intro program hread
  exact h (ofJson?_eq_some_iff.mp hread).2

/-- Any number of rewrites of a document leads to one that is read as the same program if it is
admissible, and rejected if it is not.  A program with a malformed statement is always rejected. -/
theorem ofJson?_rewrites :
    (∀ {document rewritten : Json} {program : Program}, ofJson? document = some program →
      Relation.ReflTransGen Rewrite document rewritten →
      (Admissible rewritten → ofJson? rewritten = some program) ∧
      (¬ Admissible rewritten → ofJson? rewritten = none)) ∧
    (∀ {statements : List Json} {statement : Json}, statement ∈ statements →
      Statement.Malformed statement → ofJson? (.array statements) = none) := by
  refine ⟨?_, fun hmem ↦ ofJson?_eq_none_of_malformed hmem⟩
  intro document rewritten program hread hrewrites
  have hdescribed := (ofJson?_eq_some_iff.mp hread).1.rewrites hrewrites
  refine ⟨fun hadmissible ↦ ?_, ofJson?_eq_none_of_not_admissible⟩
  exact ofJson?_eq_some_iff.mpr ⟨hdescribed, hadmissible⟩

/-- An instruction with its type in front and its operand as an object. -/
def typeFirst : Json :=
  .array [.tagged "instruction" (.object
    [("mnemonic", .string "INC_REG"), ("operands", .array [.tagged "register" (.string "r1")])])]

/-- The same instruction with its content in front and its operand as an array. -/
def contentFirst : Json :=
  .array [.object
    [("value", .object
      [("operands", .array [.array [.string "register", .string "r1"]]),
       ("mnemonic", .string "INC_REG")]),
     ("type", .string "instruction")]]

theorem rewrites_contentFirst : Relation.ReflTransGen Rewrite typeFirst contentFirst := by
  have hcontent {content other : Json} (h : Statement.ContentRewrite content other) :
      Rewrite (.array [.object [("value", content), ("type", .string "instruction")]])
        (.array [.object [("value", other), ("type", .string "instruction")]]) :=
    .statement (.content h _) [] []
  refine .head (.statement (.members (.permute (.swap _ _ _))) [] []) ?_
  refine .head (hcontent (.members (.permute (.swap _ _ _)))) ?_
  exact .single (hcontent (.operand (.toArray _ _) [] [] _))

theorem admissible_contentFirst : Admissible contentFirst := by
  refine List.forall_mem_singleton.mpr ⟨?_, fun _ ↦ ?_, ?_⟩
  · exact List.forall_mem_singleton.mpr (.text "instruction")
  · exact List.forall_mem_singleton.mpr rfl
  · refine List.forall_mem_singleton.mpr ?_
    exact List.forall_mem_singleton.mpr (.text "register")

/-- An instruction that is rewritten at three places, and a label that has two types. -/
theorem ofJson?_rewrites_contentFirst :
    ofJson? typeFirst = some [.instruction "INC_REG" [.register "r1"]] ∧
    Relation.ReflTransGen Rewrite typeFirst contentFirst ∧ Admissible contentFirst ∧
    ofJson? contentFirst = some [.instruction "INC_REG" [.register "r1"]] ∧
    ofJson? (.array [.tagged "label" (.string "start"),
      .object [("type", .string "label"), ("value", .string "end"), ("type", .string "label")]]) =
        none := by
  refine ⟨rfl, rewrites_contentFirst, admissible_contentFirst, ?_, ?_⟩
  · exact (ofJson?_rewrites.1 rfl rewrites_contentFirst).1 admissible_contentFirst
  · refine ofJson?_rewrites.2 (List.mem_cons_of_mem _ List.mem_cons_self) (.parts ?_)
    exact ⟨_, rfl, "type", by simp, by simp [Json.valuesOf]⟩

/-- A rewrite loses the program of a document. -/
def Loses (document rewritten : Json) : Prop :=
  (∃ program, ofJson? document = some program) ∧ Rewrite document rewritten ∧
    ofJson? rewritten = none

/-- A tag that is not a text is not understood in an array, a content in front of its type must not
hold a member that cannot be stored, and a tag that is a position is only understood there. -/
theorem loses_program :
    Loses
      (.array [.object [("type", .object [("label", .null)]), ("value", .string "x")]])
      (.array [.array [.object [("label", .null)], .string "x"]]) ∧
    Loses
      (.array [.object
        [("type", .string "instruction"),
         ("value", .object
          [("mnemonic", .string "HLT"), ("note", .decimal ⟨false, ['1'], [], 999⟩)])]])
      (.array [.object
        [("value", .object
          [("mnemonic", .string "HLT"), ("note", .decimal ⟨false, ['1'], [], 999⟩)]),
         ("type", .string "instruction")]]) ∧
    Loses
      (.array [.object
        [("value", .object
          [("mnemonic", .string "INC_REG"),
           ("operands", .array [.array [.natural 0, .string "r1"]])]),
         ("type", .string "instruction")]])
      (.array [.object
        [("type", .string "instruction"),
         ("value", .object
          [("mnemonic", .string "INC_REG"),
           ("operands", .array [.array [.natural 0, .string "r1"]])])]]) := by
  refine ⟨⟨⟨_, rfl⟩, ?_, rfl⟩, ⟨⟨_, rfl⟩, ?_, rfl⟩, ⟨⟨_, rfl⟩, ?_, rfl⟩⟩
  · exact .statement (.toArray _ _) [] []
  · exact .statement (.members (.permute (.swap _ _ _))) [] []
  · exact .statement (.members (.permute (.swap _ _ _))) [] []

end Program

end TwoPass
