import TwoPass.Json.Reader
import TwoPass.Json.Writer
import TwoPass.Machine

/-!
# Assembly settings as JSON documents
-/

namespace TwoPass.Config

def ofParts? (origin strictSizes : Json) : Option Config := do
  let origin ← origin.natural? 0xFFFF
  let strictSizes ← strictSizes.bool?
  return ⟨UInt16.ofNat origin, strictSizes⟩

/-- The settings that a document describes: an object, or an array of the parts in order. -/
def ofJson? : Json → Option Config
  | .object members => do
    let origin ← Json.required? "origin" members
    let strictSizes ← Json.required? "strict_sizes" members
    ofParts? origin strictSizes
  | .array [origin, strictSizes] => ofParts? origin strictSizes
  | _ => none

def toJson (config : Config) : Json :=
  .object [("origin", .natural config.origin.toNat), ("strict_sizes", .bool config.strictSizes)]

def parse? (source : String) : Option Config := do
  ofJson? (← Json.parse? source)

end TwoPass.Config
