/-!
# Register files

A register file is a list of at most 256 different names; a register's index is its position, so it
fits in one byte.
-/

namespace TwoPass

/-- The most registers that a one-byte index can tell apart. -/
def registerLimit : Nat := 256

/-- A list of different register names. -/
structure RegisterFile where
  names : List String
  length_le : names.length ≤ registerLimit
  nodup : names.Nodup

namespace RegisterFile

/-- Why a list of names is no register file. -/
inductive Fault where
  | repeated (name : String)
  | tooMany (count : Nat)
  deriving DecidableEq

def Fault.message : Fault → String
  | .repeated name => s!"register `{name}` listed more than once"
  | .tooMany count => s!"{count} registers do not fit in a one-byte index"

/-- The first name that is in `earlier` or stands before itself in the list. -/
def firstRepeated? (earlier : List String) : List String → Option String
  | [] => none
  | name :: rest => if name ∈ earlier then some name else firstRepeated? (name :: earlier) rest

theorem firstRepeated?_eq_none_iff {earlier names : List String} :
    firstRepeated? earlier names = none ↔ names.Nodup ∧ ∀ name ∈ names, name ∉ earlier := by
  induction names generalizing earlier with
  | nil => simp [firstRepeated?]
  | cons name rest ih =>
    by_cases repeated : name ∈ earlier
    · simp [firstRepeated?, repeated]
    · simp only [firstRepeated?, repeated, if_false, ih, List.nodup_cons, List.mem_cons]
      grind

theorem nodup_of_firstRepeated?_eq_none {names : List String}
    (h : firstRepeated? [] names = none) : names.Nodup :=
  (firstRepeated?_eq_none_iff.mp h).1

/-- The register file of a list of names.  The number of names is checked before their being
different. -/
def ofNames (names : List String) : Except Fault RegisterFile :=
  if length_le : names.length ≤ registerLimit then
    match unrepeated : firstRepeated? [] names with
    | some name => .error (.repeated name)
    | none => .ok ⟨names, length_le, nodup_of_firstRepeated?_eq_none unrepeated⟩
  else .error (.tooMany names.length)

def indexOf? (registers : RegisterFile) (name : String) : Option UInt8 :=
  (registers.names.idxOf? name).map UInt8.ofNat

def size (registers : RegisterFile) : Nat :=
  registers.names.length

def isEmpty (registers : RegisterFile) : Bool :=
  registers.names.isEmpty

/-- The built-in registers. -/
def builtin : RegisterFile where
  names := ["ip", "acc", "r1", "r2", "r3", "r4", "r5", "r6", "r7", "r8", "sp", "fp", "mb"]
  length_le := by decide
  nodup := by decide

end RegisterFile

end TwoPass
