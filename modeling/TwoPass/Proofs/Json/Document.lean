import TwoPass.Json.Reader
import TwoPass.Json.Writer
import TwoPass.Proofs.Json.Token

/-!
# Documents that are written are read back

The tokens of a document do not depend on its layout.  Writing puts blanks between them, and reading
builds the document from them again, inside any containers that are still open.
-/

namespace TwoPass.Json

/-! ## The tokens of a document -/

mutual

def tokens : Json → List Token
  | .null => [.null]
  | .bool value => [.bool value]
  | .natural value => [.natural value]
  | .decimal number => [.decimal number]
  | .string text => [.string text]
  | .illFormed => [.illFormed]
  | .array [] => [.openBracket, .closeBracket]
  | .array (item :: items) =>
    .openBracket :: (tokens item ++ (itemTokens items ++ [.closeBracket]))
  | .object [] => [.openBrace, .closeBrace]
  | .object ((key, value) :: members) =>
    .openBrace :: .string key :: .colon :: (tokens value ++ (memberTokens members ++ [.closeBrace]))

/-- The tokens of the items of an array after its first one. -/
def itemTokens : List Json → List Token
  | [] => []
  | item :: items => .comma :: (tokens item ++ itemTokens items)

/-- The tokens of the members of an object after its first one. -/
def memberTokens : List (String × Json) → List Token
  | [] => []
  | (key, value) :: members =>
    .comma :: .string key :: .colon :: (tokens value ++ memberTokens members)

end

/-! ## Reading -/

theorem head?_tokens_append (document : Json) (rest : List Token) :
    (tokens document ++ rest).head? ≠ some .closeBracket := by
  cases document with
  | array items => cases items <;> simp [tokens]
  | object members =>
    cases members with
    | nil => simp [tokens]
    | cons member members => simp [tokens]
  | _ => simp [tokens]

theorem readValue_openBracket (stack : List Frame) {rest : List Token}
    (h : rest.head? ≠ some .closeBracket) :
    readValue stack (.openBracket :: rest) = readValue (.array [] :: stack) rest := by
  rw [readValue]
  rintro others rfl
  exact h rfl

mutual

/-- Reading the tokens of a document gives the document, whatever is open and whatever follows. -/
theorem readValue_tokens (stack : List Frame) (rest : List Token) :
    ∀ document : Json, readValue stack (tokens document ++ rest) = readAfter document stack rest
  | .null => by simp [tokens, readValue]
  | .bool value => by simp [tokens, readValue]
  | .natural value => by simp [tokens, readValue]
  | .decimal number => by simp [tokens, readValue]
  | .string text => by simp [tokens, readValue]
  | .illFormed => by simp [tokens, readValue]
  | .array [] => by simp [tokens, readValue]
  | .array (item :: items) => by
    rw [tokens, List.cons_append, List.append_assoc,
      readValue_openBracket _ (head?_tokens_append item _), readValue_tokens _ _ item,
      List.append_assoc, List.singleton_append, readAfter_itemTokens]
    rfl
  | .object [] => by simp [tokens, readValue]
  | .object ((key, value) :: members) => by
    rw [tokens]
    simp only [List.cons_append, List.append_assoc, List.nil_append]
    rw [readValue, readValue_tokens _ _ value, readAfter_memberTokens]
    rfl

theorem readAfter_itemTokens (value : Json) (before : List Json) (outer : List Frame)
    (rest : List Token) :
    ∀ items : List Json,
      readAfter value (.array before :: outer) (itemTokens items ++ .closeBracket :: rest) =
        readAfter (.array ((value :: before).reverse ++ items)) outer rest
  | [] => by simp [itemTokens, readAfter]
  | item :: items => by
    rw [itemTokens, List.cons_append, readAfter, List.append_assoc, readValue_tokens _ _ item,
      readAfter_itemTokens]
    simp

theorem readAfter_memberTokens (value : Json) (before : List (String × Json)) (key : String)
    (outer : List Frame) (rest : List Token) :
    ∀ members : List (String × Json),
      readAfter value (.object before key :: outer)
          (memberTokens members ++ .closeBrace :: rest) =
        readAfter (.object (((key, value) :: before).reverse ++ members)) outer rest
  | [] => by simp [memberTokens, readAfter]
  | (next, other) :: members => by
    rw [memberTokens]
    simp only [List.cons_append, List.append_assoc]
    rw [readAfter, readValue_tokens _ _ other, readAfter_memberTokens]
    simp

end

theorem ofTokens?_tokens (document : Json) : ofTokens? (tokens document) = some document := by
  have hread := readValue_tokens [] [] document
  rw [List.append_nil] at hread
  rw [ofTokens?, hread, readAfter]

/-! ## Writing -/

/-- A layout that puts nothing but blanks between tokens. -/
structure Layout.Blank (layout : Layout) : Prop where
  lineBreak : ∀ depth, ∀ character ∈ layout.lineBreak depth, Token.isSpace character = true
  afterColon : ∀ character ∈ layout.afterColon, Token.isSpace character = true

theorem Layout.blank_compact : Layout.compact.Blank where
  lineBreak _ := List.forall_mem_nil _
  afterColon := List.forall_mem_nil _

theorem Layout.blank_indented : Layout.indented.Blank where
  lineBreak _ := by
    intro character hmem
    rcases List.mem_cons.mp hmem with rfl | hblank
    · rfl
    · rw [List.eq_of_mem_replicate hblank]
      rfl
  afterColon := List.forall_mem_singleton.mpr rfl

/-- A document whose numbers are all natural numbers. -/
inductive Integral : Json → Prop
  | null : Integral .null
  | bool (value : Bool) : Integral (.bool value)
  | natural (value : Nat) : Integral (.natural value)
  | string (text : String) : Integral (.string text)
  | illFormed : Integral .illFormed
  | array {items : List Json} (hitems : ∀ item ∈ items, Integral item) : Integral (.array items)
  | object {members : List (String × Json)} (hmembers : ∀ member ∈ members, Integral member.2) :
      Integral (.object members)

/-- A text that may stand behind a number and consists of the given tokens. -/
structure Follows (text : List Char) (following : List Token) : Prop where
  delimits : Number.Delimits text
  spells : Token.Spells text following

namespace Follows

variable {text : List Char} {following : List Token}

theorem nil : Follows [] [] :=
  ⟨Number.delimits_nil, .nil⟩

theorem blanks (h : Follows text following) {blanks : List Char}
    (hblanks : ∀ character ∈ blanks, Token.isSpace character = true) :
    Follows (blanks ++ text) following := by
  refine ⟨?_, h.spells.blanks hblanks⟩
  cases blanks with
  | nil => exact h.delimits
  | cons character blanks =>
    apply Number.delimits_cons
    have hspace := hblanks character List.mem_cons_self
    simp only [Token.isSpace, Bool.or_eq_true, decide_eq_true_eq] at hspace
    rcases hspace with ((rfl | rfl) | rfl) | rfl <;> decide

theorem comma (h : Token.Spells text following) :
    Follows (Token.text .comma ++ text) (.comma :: following) :=
  ⟨Number.delimits_cons (by decide) text, .token trivial h⟩

theorem closeBracket (h : Token.Spells text following) :
    Follows (Token.text .closeBracket ++ text) (.closeBracket :: following) :=
  ⟨Number.delimits_cons (by decide) text, .token trivial h⟩

theorem closeBrace (h : Token.Spells text following) :
    Follows (Token.text .closeBrace ++ text) (.closeBrace :: following) :=
  ⟨Number.delimits_cons (by decide) text, .token trivial h⟩

end Follows

section

variable {layout : Layout} (hlayout : layout.Blank)
include hlayout

mutual

/-- The text of a document consists of its tokens. -/
theorem spells_write (depth : Nat) {rest : List Char} {following : List Token}
    (hrest : Follows rest following) :
    ∀ document : Json, document.Integral →
      Token.Spells (write layout depth document ++ rest) (tokens document ++ following)
  | .null, _ => .token trivial hrest.spells
  | .bool _, _ => .token trivial hrest.spells
  | .natural _, _ => .token hrest.delimits hrest.spells
  | .decimal _, h => nomatch h
  | .string _, _ => .token trivial hrest.spells
  | .illFormed, _ => .token trivial hrest.spells
  | .array [], _ => by
    rw [write, tokens, List.append_assoc]
    exact .token trivial (.token trivial hrest.spells)
  | .array (item :: items), .array h => by
    have hparts := List.forall_mem_cons.mp h
    -- From the back: what stands behind the items, the other items, the first one.
    have hend := (Follows.closeBracket hrest.spells).blanks (hlayout.lineBreak depth)
    have hitems := follows_writeItems (depth + 1) hend items hparts.2
    have hitem := spells_write (depth + 1) hitems item hparts.1
    rw [write, tokens]
    simp only [List.append_assoc, List.cons_append, List.nil_append]
    exact .token trivial (hitem.blanks (hlayout.lineBreak (depth + 1)))
  | .object [], _ => by
    rw [write, tokens, List.append_assoc]
    exact .token trivial (.token trivial hrest.spells)
  | .object ((key, value) :: members), .object h => by
    have hparts := List.forall_mem_cons.mp h
    have hend := (Follows.closeBrace hrest.spells).blanks (hlayout.lineBreak depth)
    have hmembers := follows_writeMembers (depth + 1) hend members hparts.2
    have hvalue := (spells_write (depth + 1) hmembers value hparts.1).blanks hlayout.afterColon
    have hkey : Token.Spells _ (.string key :: .colon :: _) :=
      .token trivial (.token trivial hvalue)
    rw [write, tokens]
    simp only [List.append_assoc, List.cons_append, List.nil_append]
    exact .token trivial (hkey.blanks (hlayout.lineBreak (depth + 1)))

theorem follows_writeItems (depth : Nat) {rest : List Char} {following : List Token}
    (hrest : Follows rest following) :
    ∀ items : List Json, (∀ item ∈ items, item.Integral) →
      Follows (writeItems layout depth items ++ rest) (itemTokens items ++ following)
  | [], _ => hrest
  | item :: items, h => by
    have hparts := List.forall_mem_cons.mp h
    have hitems := follows_writeItems depth hrest items hparts.2
    have hitem := spells_write depth hitems item hparts.1
    rw [writeItems, itemTokens]
    simp only [List.append_assoc, List.cons_append]
    exact .comma (hitem.blanks (hlayout.lineBreak depth))

theorem follows_writeMembers (depth : Nat) {rest : List Char} {following : List Token}
    (hrest : Follows rest following) :
    ∀ members : List (String × Json), (∀ member ∈ members, member.2.Integral) →
      Follows (writeMembers layout depth members ++ rest) (memberTokens members ++ following)
  | [], _ => hrest
  | (key, value) :: members, h => by
    have hparts := List.forall_mem_cons.mp h
    have hmembers := follows_writeMembers depth hrest members hparts.2
    have hvalue := (spells_write depth hmembers value hparts.1).blanks hlayout.afterColon
    have hkey : Token.Spells _ (.string key :: .colon :: _) :=
      .token trivial (.token trivial hvalue)
    rw [writeMembers, memberTokens]
    simp only [List.append_assoc, List.cons_append]
    exact .comma (hkey.blanks (hlayout.lineBreak depth))

end

/-- A document without decimal numbers is read back from its text, in every layout. -/
theorem parse?_render {document : Json} (h : document.Integral) :
    parse? (render layout document) = some document := by
  have hspells := spells_write hlayout 0 .nil document h
  rw [List.append_nil, List.append_nil] at hspells
  have hscan : Token.scan? (render layout document).toList = some (tokens document) := by
    rw [render, String.toList_ofList]
    exact hspells.scan?_eq
  rw [parse?, hscan]
  exact ofTokens?_tokens document

end

theorem parse?_compact {document : Json} (h : document.Integral) :
    parse? document.compact = some document :=
  parse?_render Layout.blank_compact h

theorem parse?_pretty {document : Json} (h : document.Integral) :
    parse? document.pretty = some document :=
  parse?_render Layout.blank_indented h

end TwoPass.Json
