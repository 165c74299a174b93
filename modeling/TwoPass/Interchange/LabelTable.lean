import TwoPass.Json.Reader
import TwoPass.Json.Writer
import TwoPass.LabelTable

/-!
# Exported label tables

The export of a label table is an array of its bindings, in the order of `LabelTable.sorted`.
-/

namespace TwoPass

namespace Binding

def ofParts? (address name : Json) : Option Binding := do
  let address ← address.natural? 0xFFFF
  let name ← name.string?
  return ⟨name, UInt16.ofNat address⟩

/-- The binding that a document describes: an object, or an array of the parts in order. -/
def ofJson? : Json → Option Binding
  | .object members => do
    let address ← Json.required? "addr" members
    let name ← Json.required? "name" members
    ofParts? address name
  | .array [address, name] => ofParts? address name
  | _ => none

def toJson (binding : Binding) : Json :=
  .object [("addr", .natural binding.address.toNat), ("name", .string binding.name)]

def listOfJson? (document : Json) : Option (List Binding) := do
  (← document.array?).mapM ofJson?

def listToJson (bindings : List Binding) : Json :=
  .array (bindings.map toJson)

def parseList? (source : String) : Option (List Binding) := do
  listOfJson? (← Json.parse? source)

end Binding

/-- The text of an exported label table. -/
def LabelTable.exported (labels : LabelTable) : String :=
  (Binding.listToJson labels.sorted).pretty

end TwoPass
