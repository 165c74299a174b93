import Mathlib.Data.List.Forall2
import TwoPass.Proofs.PassEvents

/-!
# The events of an assembly run

A run reports the labels that its first pass binds, and only then, if all of them are bound, what
its second pass does with one instruction after another.  The events of a run are therefore known
from its outcome: `Machine.Trace` lists them for a program that is assembled, and up to the
statement at which a program is rejected.  What a log shows of an event is fixed by
`Event.LoggedAs`.
-/

namespace TwoPass

/-! ## What is logged -/

/-- One event for each label of a program, in the order of the labels, with the address that the
label is bound to. -/
def LabelTable.Announces (labels : LabelTable) (program : Program) : List Event → Prop :=
  List.Forall₂ (fun name event ↦ ∃ address, labels.get? name = some address ∧
    event = .labelBound name address) program.labelNames

namespace InstructionTable

variable {table : InstructionTable} {origin : UInt16} {program : Program} {labels : LabelTable}

end InstructionTable

/-- The bytes of the instruction that an event is about, if it was encoded. -/
def Event.encodedBytes : Event → List UInt8
  | .encoded _ _ _ bytes => bytes
  | _ => []

namespace Machine

variable {machine : Machine} {config : Config} {program : Program}

end Machine

/-! ## What a log tells about its run -/

namespace Machine

variable {machine : Machine} {strict : Bool} {config : Config} {program : Program} {image : Image}
  {events : List Event}

/-- The log of a run that succeeds holds the bytes of the image, and tells of the success at its
end. -/
structure Completed (program : Program) (assembly : Assembly) (events : List Event) : Prop where
  bytes : events.flatMap Event.encodedBytes = assembly.bytes
  last : ∃ before, events = before ++
      [.assembled program.length program.labelNames.length assembly.bytes.length] ∧
    ∀ statements labels bytes, .assembled statements labels bytes ∉ before

/-- The log of a run that fails tells of no success, and of no instruction from the rejected
statement on. -/
structure Aborted (diagnostic : Diagnostic) (events : List Event) : Prop where
  not_assembled : ∀ statements labels bytes, .assembled statements labels bytes ∉ events
  encoded_lt : ∀ index address mnemonic bytes, .encoded index address mnemonic bytes ∈ events →
    index < diagnostic.location.index

theorem Aborted.append {diagnostic : Diagnostic} {others : List Event}
    (h : Aborted diagnostic events) (hothers : Aborted diagnostic others) :
    Aborted diagnostic (events ++ others) where
  not_assembled _ _ _ hmem :=
    (List.mem_append.mp hmem).elim (h.not_assembled _ _ _) (hothers.not_assembled _ _ _)
  encoded_lt _ _ _ _ hmem :=
    (List.mem_append.mp hmem).elim (h.encoded_lt _ _ _ _) (hothers.encoded_lt _ _ _ _)

-- a log with an event of each kind
example :
    (small.assembleLogged ⟨0x10, false⟩ [.label "here", .instruction "jump" [.literal "10005"],
      .instruction "pad" []]).events.map (fun event ↦
        (event.level.name, event.message, event.details)) =
    [("DEBUG", "label bound", [("label", .text "here"), ("addr", .number 0x10)]),
     ("TRACE", "operand", [("slot", .text "Lit16"), ("op", .text "Literal(\"10005\")")]),
     ("TRACE", "16-bit operand truncated", [("value", .number 0x10005)]),
     ("DEBUG", "encoded", [("index", .number 1), ("mnemonic", .text "jump"),
       ("address", .number 0x10), ("bytes", .text "[32, 0, 5]")]),
     ("WARN", "`pad` declares 9 bytes but encodes to 1; label addresses after this point are off",
       [("index", .number 2)]),
     ("DEBUG", "encoded", [("index", .number 2), ("mnemonic", .text "pad"),
       ("address", .number 0x13), ("bytes", .text "[34]")]),
     ("INFO", "assembled",
       [("statements", .number 3), ("labels", .number 1), ("bytes", .number 4)])] := by
  rfl

end Machine

end TwoPass
