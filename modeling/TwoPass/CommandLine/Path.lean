/-!
# Paths

A path is a text with slashes.  What stands between them are the names that it goes through.
-/

namespace TwoPass.CommandLine

/-- A path, taken apart. -/
structure Path where
  /-- Whether the path starts at the root. -/
  rooted : Bool
  /-- The names in order, with `.` and `..` among them. -/
  names : List String
  /-- Whether a slash follows the last name. -/
  slashed : Bool
  deriving DecidableEq

namespace Path

/-- What stands between the slashes of a text. -/
def split : List Char → List (List Char)
  | [] => [[]]
  | character :: rest =>
    if character = '/' then [] :: split rest
    else
      match split rest with
      | [] => [[character]]
      | name :: names => (character :: name) :: names

/-- Takes a path apart.  Repeated slashes count as one. -/
def parse (text : String) : Path where
  rooted := text.toList.head? = some '/'
  names := ((split text.toList).filter fun name ↦ !name.isEmpty).map String.ofList
  slashed := text.toList.getLast? = some '/'

/-- Whether a name stands for a directory whatever the path has gone through before. -/
def isDots (name : String) : Bool :=
  name = "." || name = ".."

end Path

/-- The names that lead from the directory that is worked in to another place.  They start with `..`
once for each level that the place is above that directory, and with a slash if they come from the
root. -/
abbrev Place := List String

namespace Place

/-- The directory that a place is in.  The root is in itself. -/
def parent (place : Place) : Place :=
  match place.getLast? with
  | none => [".."]
  | some ".." => place ++ [".."]
  | some "/" => place
  | some _ => place.dropLast

/-- Where a name leads to from a place. -/
def follow (place : Place) (name : String) : Place :=
  if name = "." then place else if name = ".." then place.parent else place ++ [name]

/-- Where a path starts. -/
def start (path : Path) : Place :=
  if path.rooted then ["/"] else []

end Place

end TwoPass.CommandLine
