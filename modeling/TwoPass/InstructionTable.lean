import Std.Data.TreeMap
import TwoPass.Mode

/-!
# Instruction tables

A table maps the name of an instruction to its entry.  The size that an entry declares is the one by
which labels are placed; `sizeMismatches` lists the entries whose declared size is not the number of
bytes that their mode encodes to.
-/

namespace TwoPass

/-- What a table says about one instruction. -/
structure Entry where
  opcode : UInt8
  mode : Mode
  /-- The declared size in bytes. -/
  size : UInt64
  /-- The mnemonic that listings show in place of the entry's name. -/
  surface : Option String := none
  deriving DecidableEq

/-- Whether the declared size is the encoded one. -/
def Entry.sizeAgrees (entry : Entry) : Bool :=
  entry.size.toNat = entry.mode.encodedSize

/-- A finite map from names to entries, kept in the order of names. -/
structure InstructionTable where
  entries : Std.TreeMap String Entry

namespace InstructionTable

def empty : InstructionTable :=
  ⟨∅⟩

def get? (table : InstructionTable) (name : String) : Option Entry :=
  table.entries[name]?

/-- Adds an entry, in place of an earlier one of the same name. -/
def insert (table : InstructionTable) (name : String) (entry : Entry) : InstructionTable :=
  ⟨table.entries.insert name entry⟩

def size (table : InstructionTable) : Nat :=
  table.entries.size

def isEmpty (table : InstructionTable) : Bool :=
  table.entries.isEmpty

@[simp]
theorem get?_empty (name : String) : empty.get? name = none := by
  simp [empty, get?]

@[simp]
theorem get?_insert (table : InstructionTable) (name other : String) (entry : Entry) :
    (table.insert name entry).get? other =
      if name = other then some entry else table.get? other := by
  simp [insert, get?, Std.TreeMap.getElem?_insert]

/-- The table of a list of named entries, where the last entry of a name counts. -/
def ofList (named : List (String × Entry)) : InstructionTable :=
  named.foldl (fun table (name, entry) ↦ table.insert name entry) empty

/-- The entries whose declared size is not the encoded one, in the order of names. -/
def sizeMismatches (table : InstructionTable) : List (String × Entry) :=
  table.entries.toList.filter fun (_, entry) ↦ !entry.sizeAgrees

end InstructionTable

end TwoPass
