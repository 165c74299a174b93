import TwoPass.CommandLine.Path

/-!
# Directories

The directory that is worked in is a finite set of files, each at its place.  The directories inside
it are those that the places of its files go through.  Of what is outside, only the directories
above it, the root and the null device are known.

A path is walked from left to right, and each name on the way has to lead to a directory.  Reading
and writing differ in what they make of the end of a path.
-/

namespace TwoPass.CommandLine

/-- Why a file cannot be read or written. -/
inductive FileFault where
  | notFound
  | notADirectory
  | isADirectory
  | nameTooLong
  /-- The contents are not the UTF-8 form of a text. -/
  | notText
  | other (description : String)
  deriving DecidableEq

def FileFault.message : FileFault → String
  | .notFound => "No such file or directory (os error 2)"
  | .notADirectory => "Not a directory (os error 20)"
  | .isADirectory => "Is a directory (os error 21)"
  | .nameTooLong => "File name too long (os error 36)"
  | .notText => "stream did not contain valid UTF-8"
  | .other description => description

/-- The text that is the UTF-8 form of some contents. -/
def textOf (contents : ByteArray) : Except FileFault String :=
  match String.fromUTF8? contents with
  | some text => .ok text
  | none => .error .notText

/-! ## Files -/

structure File where
  place : Place
  contents : ByteArray

/-- The files of a directory. -/
structure Directory where
  files : List File

namespace Directory

/-- The place of a file that is always empty. -/
def nullDevice : Place :=
  ["/", "dev", "null"]

def file? (directory : Directory) (place : Place) : Option File :=
  if place = nullDevice then some ⟨place, .empty⟩
  else directory.files.find? fun file ↦ file.place = place

/-- Whether a place is one that something at another place is in. -/
def holds (place other : Place) : Bool :=
  place.isPrefixOf other && place ≠ other

/-- Whether there is a directory at a place: this one, one above it, or one that a file is in. -/
def isDirectory (directory : Directory) (place : Place) : Bool :=
  place.all (· = "..") || holds place nullDevice ||
    directory.files.any fun file ↦ holds place file.place

def replace (directory : Directory) (place : Place) (contents : ByteArray) : Directory :=
  ⟨directory.files.map fun file ↦ if file.place = place then ⟨place, contents⟩ else file⟩

def add (directory : Directory) (place : Place) (contents : ByteArray) : Directory :=
  ⟨directory.files ++ [⟨place, contents⟩]⟩

/-- Puts a file at a place, instead of one that is there.  The null device stays empty. -/
def put (directory : Directory) (place : Place) (contents : ByteArray) : Directory :=
  if place = nullDevice then directory
  else if (directory.file? place).isSome then directory.replace place contents
  else directory.add place contents

/-! ## Walks -/

/-- The longest name, in bytes. -/
def nameLimit : Nat :=
  255

/-- The longest path, in bytes. -/
def pathLimit : Nat :=
  4095

/-- Looks up a name in the directory at a place. -/
def lookUp (place : Place) (name : String) : Except FileFault Place :=
  if name.utf8ByteSize ≤ nameLimit then .ok (place.follow name) else .error .nameTooLong

/-- Goes from the directory at a place to another one. -/
def enter (directory : Directory) (place : Place) (name : String) : Except FileFault Place := do
  let next ← lookUp place name
  if directory.isDirectory next then return next
  else if (directory.file? next).isSome then throw .notADirectory
  else throw .notFound

def walk (directory : Directory) (place : Place) : List String → Except FileFault Place
  | [] => .ok place
  | name :: names => do
    let next ← directory.enter place name
    directory.walk next names

/-- What the end of a path stands for. -/
inductive Target where
  /-- A directory, because the path has no name at its end. -/
  | directory
  /-- What has a name in the directory at a place, if there is anything.  A slash may follow the
  name. -/
  | entry (place : Place) (name : String) (slashed : Bool)

/-- Walks along a path up to its last name. -/
def target (directory : Directory) (path : Path) : Except FileFault Target :=
  match path.names.getLast? with
  | none => if path.rooted then .ok .directory else .error .notFound
  | some name => do
    let place ← directory.walk (.start path) path.names.dropLast
    if Path.isDots name then return .directory else return .entry place name path.slashed

/-- Walks along a path that is not too long. -/
def locate (directory : Directory) (path : String) : Except FileFault Target :=
  if path.utf8ByteSize ≤ pathLimit then directory.target (.parse path) else .error .nameTooLong

def read (directory : Directory) (path : String) : Except FileFault ByteArray := do
  match ← directory.locate path with
  | .directory => throw .isADirectory
  | .entry place name true => do
    let _ ← directory.enter place name
    throw .isADirectory
  | .entry place name false => do
    let place ← lookUp place name
    match directory.file? place with
    | some file => return file.contents
    | none => if directory.isDirectory place then throw .isADirectory else throw .notFound

def readText (directory : Directory) (path : String) : Except FileFault String := do
  textOf (← directory.read path)

/-- Writes the file at a path.  Directories are not created, so a path that ends with a slash cannot
be written to. -/
def write (directory : Directory) (path : String) (contents : ByteArray) :
    Except FileFault Directory := do
  match ← directory.locate path with
  | .directory => throw .isADirectory
  | .entry _ _ true => throw .isADirectory
  | .entry place name false => do
    let place ← lookUp place name
    if directory.isDirectory place then throw .isADirectory
    else return directory.put place contents

end Directory

end TwoPass.CommandLine
