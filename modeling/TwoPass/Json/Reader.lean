import TwoPass.Json
import TwoPass.Json.Token

/-!
# Reading JSON documents

The reader walks through the tokens of a text once.  Containers that are open at a token are held on
a stack of frames, so documents may be nested to any depth.
-/

namespace TwoPass.Json

/-- A container that is not closed yet. -/
inductive Frame where
  /-- An array and its items so far, the last one first. -/
  | array (items : List Json)
  /-- An object and its members so far, the last one first, before the value of a key. -/
  | object (members : List (String × Json)) (key : String)
  /-- An object with a key that spells no text. -/
  | illFormed

mutual

/-- Reads the document at the front of the tokens, and then the rest of the open containers. -/
def readValue (stack : List Frame) : List Token → Option Json
  | .null :: rest => readAfter .null stack rest
  | .bool value :: rest => readAfter (.bool value) stack rest
  | .natural value :: rest => readAfter (.natural value) stack rest
  | .decimal number :: rest => readAfter (.decimal number) stack rest
  | .string text :: rest => readAfter (.string text) stack rest
  | .illFormed :: rest => readAfter .illFormed stack rest
  | .openBracket :: .closeBracket :: rest => readAfter (.array []) stack rest
  | .openBracket :: rest => readValue (.array [] :: stack) rest
  | .openBrace :: .closeBrace :: rest => readAfter (.object []) stack rest
  | .openBrace :: .string key :: .colon :: rest => readValue (.object [] key :: stack) rest
  | .openBrace :: .illFormed :: .colon :: rest => readValue (.illFormed :: stack) rest
  | _ => none

/-- Reads what follows a document inside the open containers. -/
def readAfter (value : Json) : List Frame → List Token → Option Json
  | [], [] => some value
  | .array items :: outer, .comma :: rest => readValue (.array (value :: items) :: outer) rest
  | .array items :: outer, .closeBracket :: rest =>
    readAfter (.array (value :: items).reverse) outer rest
  | .object members key :: outer, .comma :: .string next :: .colon :: rest =>
    readValue (.object ((key, value) :: members) next :: outer) rest
  | .object _ _ :: outer, .comma :: .illFormed :: .colon :: rest =>
    readValue (.illFormed :: outer) rest
  | .object members key :: outer, .closeBrace :: rest =>
    readAfter (.object ((key, value) :: members).reverse) outer rest
  | .illFormed :: outer, .comma :: .string _ :: .colon :: rest =>
    readValue (.illFormed :: outer) rest
  | .illFormed :: outer, .comma :: .illFormed :: .colon :: rest =>
    readValue (.illFormed :: outer) rest
  | .illFormed :: outer, .closeBrace :: rest => readAfter .illFormed outer rest
  | _, _ => none

end

def ofTokens? (tokens : List Token) : Option Json :=
  readValue [] tokens

/-- Reads a whole text as one document. -/
def parse? (source : String) : Option Json := do
  let tokens ← Token.scan? source.toList
  ofTokens? tokens

end TwoPass.Json
