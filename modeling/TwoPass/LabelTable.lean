import TwoPass.InstructionTable
import TwoPass.Logged

/-!
# Label tables and the first pass

The first pass walks through a program with an address counter that starts at the origin and grows
by the declared size of every instruction.  It binds each label to the counter and writes no bytes,
so labels may be used before they are defined.
-/

namespace TwoPass

/-- A label and its address. -/
structure Binding where
  name : String
  address : UInt16
  deriving DecidableEq

/-- The bindings of a program's labels, in the order of their definitions. -/
structure LabelTable where
  bindings : List Binding
  deriving DecidableEq

namespace LabelTable

def empty : LabelTable :=
  ⟨[]⟩

/-- The address of a label. -/
def get? (labels : LabelTable) (name : String) : Option UInt16 :=
  (labels.bindings.find? fun binding ↦ binding.name = name).map Binding.address

/-- The address of a label that has to be there. -/
def resolve (labels : LabelTable) (name : String) : Except Cause UInt16 :=
  match labels.get? name with
  | some address => .ok address
  | none => .error (.unresolvedLabel name)

def size (labels : LabelTable) : Nat :=
  labels.bindings.length

def isEmpty (labels : LabelTable) : Bool :=
  labels.bindings.isEmpty

/-- The order of exported bindings: by address, and by name where addresses are equal. -/
def exportLE (first second : Binding) : Bool :=
  first.address < second.address ||
    (first.address == second.address && decide (first.name ≤ second.name))

def sorted (labels : LabelTable) : List Binding :=
  labels.bindings.mergeSort exportLE

end LabelTable

/-- The largest address of a label. -/
def addressLimit : UInt32 := 0xFFFF

/-- The address counter after an instruction of the given size.  It stops at its largest value
instead of wrapping around. -/
def advance (counter : UInt32) (size : UInt64) : UInt32 :=
  UInt32.ofNat (min (counter.toNat + size.toNat) 0xFFFFFFFF)

@[simp]
theorem toNat_advance (counter : UInt32) (size : UInt64) :
    (advance counter size).toNat = min (counter.toNat + size.toNat) 0xFFFFFFFF := by
  simp only [advance, UInt32.toNat_ofNat']
  omega

namespace InstructionTable

/-- Binds the labels of the rest of a program.  `defined` holds the names of the labels before it,
and `counter` is the address of its first instruction. -/
def resolveFrom (table : InstructionTable) (here : Location) (defined : List String)
    (counter : UInt32) : Program → Logged Diagnostic (List Binding)
  | [] => pure []
  | .label name :: rest =>
    if name ∈ defined then .fail ⟨here, .duplicateLabel name⟩
    else if counter ≤ addressLimit then do
      .emit [.labelBound name counter.toUInt16]
      let bindings ← resolveFrom table (here.after (.label name)) (name :: defined) counter rest
      return ⟨name, counter.toUInt16⟩ :: bindings
    else .fail ⟨here, .addressOverflow name counter⟩
  | .instruction mnemonic operands :: rest =>
    match table.get? mnemonic with
    | none => .fail ⟨here, .unknownMnemonic mnemonic⟩
    | some entry =>
      resolveFrom table (here.after (.instruction mnemonic operands)) defined
        (advance counter entry.size) rest

/-- The first pass, with its events. -/
def resolveLogged (table : InstructionTable) (origin : UInt16) (program : Program) :
    Logged Diagnostic LabelTable := do
  let bindings ← resolveFrom table .start [] origin.toUInt32 program
  return ⟨bindings⟩

/-- The label table of a program whose first instruction is at `origin`. -/
def resolve (table : InstructionTable) (origin : UInt16) (program : Program) :
    Except Diagnostic LabelTable :=
  (table.resolveLogged origin program).outcome

end InstructionTable

end TwoPass
