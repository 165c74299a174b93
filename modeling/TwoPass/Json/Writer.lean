import TwoPass.Json
import TwoPass.Json.Token

/-!
# Writing JSON documents

A layout says which blanks stand between the tokens of a document; the tokens themselves are the
same in every layout.
-/

namespace TwoPass.Json

/-- The blanks of a written document. -/
structure Layout where
  /-- What separates the parts of a container at the given depth. -/
  lineBreak : Nat → List Char
  /-- What follows the colon after a key. -/
  afterColon : List Char

/-- No blanks at all. -/
def Layout.compact : Layout where
  lineBreak _ := []
  afterColon := []

/-- Every part of a container on a line of its own, indented by two blanks a level. -/
def Layout.indented : Layout where
  lineBreak depth := '\n' :: List.replicate (2 * depth) ' '
  afterColon := [' ']

mutual

/-- Writes a document inside `depth` containers. -/
def write (layout : Layout) (depth : Nat) : Json → List Char
  | .null => Token.text .null
  | .bool value => Token.text (.bool value)
  | .natural value => Token.text (.natural value)
  | .decimal number => Token.text (.decimal number)
  | .string text => Token.text (.string text)
  | .illFormed => Token.text .illFormed
  | .array [] => Token.text .openBracket ++ Token.text .closeBracket
  | .array (item :: items) =>
    Token.text .openBracket ++ layout.lineBreak (depth + 1) ++ write layout (depth + 1) item ++
      writeItems layout (depth + 1) items ++ layout.lineBreak depth ++ Token.text .closeBracket
  | .object [] => Token.text .openBrace ++ Token.text .closeBrace
  | .object ((key, value) :: members) =>
    Token.text .openBrace ++ layout.lineBreak (depth + 1) ++ Token.text (.string key) ++
      Token.text .colon ++ layout.afterColon ++ write layout (depth + 1) value ++
      writeMembers layout (depth + 1) members ++ layout.lineBreak depth ++ Token.text .closeBrace

/-- Writes the items of an array after its first one. -/
def writeItems (layout : Layout) (depth : Nat) : List Json → List Char
  | [] => []
  | item :: items =>
    Token.text .comma ++ layout.lineBreak depth ++ write layout depth item ++
      writeItems layout depth items

/-- Writes the members of an object after its first one. -/
def writeMembers (layout : Layout) (depth : Nat) : List (String × Json) → List Char
  | [] => []
  | (key, value) :: members =>
    Token.text .comma ++ layout.lineBreak depth ++ Token.text (.string key) ++
      Token.text .colon ++ layout.afterColon ++ write layout depth value ++
      writeMembers layout depth members

end

/-- The text of a document in a layout. -/
def render (layout : Layout) (document : Json) : String :=
  String.ofList (write layout 0 document)

def compact (document : Json) : String :=
  render .compact document

def pretty (document : Json) : String :=
  render .indented document

end TwoPass.Json
