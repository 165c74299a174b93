import TwoPass.Json.Reader
import TwoPass.RegisterFile

/-!
# Register files as JSON documents

A register file is an array of the names of its registers.
-/

namespace TwoPass.RegisterFile

/-- Why a text is no register file. -/
inductive Rejection where
  /-- The text is no array of names. -/
  | unreadable
  /-- The names are no register file. -/
  | invalid (fault : Fault)
  deriving DecidableEq

def namesOfJson? (document : Json) : Option (List String) := do
  (← document.array?).mapM Json.string?

/-- Reads the text of a register file. -/
def parse (source : String) : Except Rejection RegisterFile :=
  match (Json.parse? source).bind namesOfJson? with
  | none => .error .unreadable
  | some names => (ofNames names).mapError .invalid

end TwoPass.RegisterFile
