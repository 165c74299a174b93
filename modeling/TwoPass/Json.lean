import TwoPass.Text.Decimal

/-!
# JSON documents

A document is a tree.  Objects keep the order of their members and repeated keys, so that each
reader of a document decides what a repetition means.

A reader that knows what a document is for takes its parts directly.  One that meets a document
too early has to store it, and a stored document is taken apart by rules of its own.  `Access` says
which of the two is the case.
-/

namespace TwoPass

inductive Json where
  | null
  | bool (value : Bool)
  /-- A number written with digits alone. -/
  | natural (value : Nat)
  /-- Any other number. -/
  | decimal (number : Decimal)
  | string (text : String)
  /-- A string that spells no text, or an object that has one as a key.  It can only be skipped. -/
  | illFormed
  | array (items : List Json)
  | object (members : List (String × Json))

namespace Json

def bool? : Json → Option Bool
  | .bool value => some value
  | _ => none

def string? : Json → Option String
  | .string text => some text
  | _ => none

def array? : Json → Option (List Json)
  | .array items => some items
  | _ => none

def object? : Json → Option (List (String × Json))
  | .object members => some members
  | _ => none

/-- The number of a document that is a natural number of at most `limit`. -/
def natural? (limit : Nat) : Json → Option Nat
  | .natural value => if value ≤ limit then some value else none
  | _ => none

/-- The value of a key that has to occur exactly once. -/
def required? (key : String) (members : List (String × Json)) : Option Json :=
  match members.filter fun (other, _) ↦ other = key with
  | [(_, value)] => some value
  | _ => none

/-- The value of a key that may occur at most once. -/
def optional? (key : String) (members : List (String × Json)) : Option (Option Json) :=
  match members.filter fun (other, _) ↦ other = key with
  | [] => some none
  | [(_, value)] => some (some value)
  | _ => none

/-! ## Stored documents -/

/-- How a reader has come to a document. -/
inductive Access where
  | direct
  | stored
  deriving DecidableEq

mutual

/-- Whether a document can be stored: all of its parts are well-formed, its numbers are not too
large, and at most `levels` containers are nested in it. -/
def isStorable (levels : Nat) : Json → Bool
  | .null => true
  | .bool _ => true
  | .natural value => (Decimal.ofNat value).isStorable
  | .decimal number => number.isStorable
  | .string _ => true
  | .illFormed => false
  | .array items => 0 < levels && areStorableItems (levels - 1) items
  | .object members => 0 < levels && areStorableMembers (levels - 1) members

def areStorableItems (levels : Nat) : List Json → Bool
  | [] => true
  | item :: items => isStorable levels item && areStorableItems levels items

def areStorableMembers (levels : Nat) : List (String × Json) → Bool
  | [] => true
  | (_, value) :: members => isStorable levels value && areStorableMembers levels members

end

/-! ## Tagged documents -/

/-- The tag that a document stands for: a text, or the key of an object whose only member is `null`.
In a stored document, the only member may also be an empty object. -/
def tag? (access : Access) : Json → Option String
  | .string tag => some tag
  | .object [(tag, .null)] => some tag
  | .object [(tag, .object [])] => if access = .stored then some tag else none
  | _ => none

/-- The tag that the first item of an array stands for: a text, or, in a stored document, also its
position among the tags that are possible. -/
def leadingTag? (access : Access) (tags : List String) : Json → Option String
  | .string tag => some tag
  | .natural position => if access = .stored then tags[position]? else none
  | _ => none

/-- The tag and the content of a tagged document: an object with the members `type` and `value`, or
an array of the two. -/
def tagged? (access : Access) (tags : List String) : Json → Option (String × Json)
  | .object members => do
    let tag ← (← required? "type" members).tag? access
    let content ← required? "value" members
    return (tag, content)
  | .array [tag, content] => do
    let tag ← tag.leadingTag? access tags
    return (tag, content)
  | _ => none

/-- How a reader comes to the content of a tagged document.  It has to be stored if it is met before
the tag that tells what it is. -/
def contentAccess : Json → Access
  | .object members =>
    match (members.map Prod.fst).find? fun key ↦ key = "type" || key = "value" with
    | some "value" => .stored
    | _ => .direct
  | _ => .direct

/-- A tagged document, as an object. -/
def tagged (tag : String) (content : Json) : Json :=
  .object [("type", .string tag), ("value", content)]

@[simp]
theorem tagged?_tagged (access : Access) (tags : List String) (tag : String) (content : Json) :
    tagged? access tags (tagged tag content) = some (tag, content) := by
  simp [tagged, tagged?, required?, tag?]

@[simp]
theorem contentAccess_tagged (tag : String) (content : Json) :
    contentAccess (tagged tag content) = .direct := by
  simp [tagged, contentAccess]

end Json

end TwoPass
