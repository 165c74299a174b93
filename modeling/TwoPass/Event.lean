import TwoPass.Diagnostic
import TwoPass.Mode

/-!
# Events

What an assembly run reports about its progress, apart from its outcome.
-/

namespace TwoPass

/-- The weight of an event. -/
inductive Level where
  | trace
  | debug
  | info
  | warn
  deriving DecidableEq

def Level.name : Level → String
  | .trace => "TRACE"
  | .debug => "DEBUG"
  | .info => "INFO"
  | .warn => "WARN"

/-- A step of an assembly run. -/
inductive Event where
  /-- A label received its address. -/
  | labelBound (label : String) (address : UInt16)
  /-- An operand is about to be encoded. -/
  | encoding (slot : Slot) (operand : Operand)
  /-- The value of a word slot does not fit in sixteen bits. -/
  | truncated (value : Nat)
  /-- An instruction was kept although its declared size is wrong. -/
  | sizeMismatch (index : Nat) (mnemonic : String) (declared : UInt64) (emitted : Nat)
  /-- An instruction was encoded. -/
  | encoded (index : Nat) (address : UInt32) (mnemonic : String) (bytes : List UInt8)
  /-- The whole program was assembled; the numbers are counts. -/
  | assembled (statements labels bytes : Nat)
  deriving DecidableEq

/-- A named detail of an event. -/
inductive Detail where
  | number (value : Nat)
  | text (value : String)
  deriving DecidableEq

/-- A character inside double quotes.  A control character without an escape of its own is given by
its code, and every other character without one stands for itself. -/
def quotedCharacter (character : Char) : List Char :=
  match character with
  | '"' => ['\\', '"']
  | '\\' => ['\\', '\\']
  | '\n' => ['\\', 'n']
  | '\r' => ['\\', 'r']
  | '\t' => ['\\', 't']
  | '\x00' => ['\\', '0']
  | other =>
    let code := other.toNat
    if code < 0x20 ∨ 0x7F ≤ code ∧ code < 0xA0 then
      ['\\', 'u', '\x7b'] ++ Nat.toDigits 16 code ++ ['\x7d']
    else [other]

/-- A text in double quotes. -/
def quoted (text : String) : String :=
  String.ofList ('"' :: text.toList.flatMap quotedCharacter ++ ['"'])

/-- The text of an operand in event logs. -/
def Operand.description : Operand → String
  | .register name => "Register(" ++ quoted name ++ ")"
  | .literal digits => "Literal(" ++ quoted digits ++ ")"
  | .symbol name => "Symbol(" ++ quoted name ++ ")"

/-- The decimal values of a byte sequence, between brackets. -/
def decimalBytes (bytes : List UInt8) : String :=
  "[" ++ ", ".intercalate (bytes.map fun byte ↦ Nat.repr byte.toNat) ++ "]"

namespace Event

/-- The weight of an event. -/
def level : Event → Level
  | .labelBound .. => .debug
  | .encoding .. => .trace
  | .truncated .. => .trace
  | .sizeMismatch .. => .warn
  | .encoded .. => .debug
  | .assembled .. => .info

def message : Event → String
  | .labelBound .. => "label bound"
  | .encoding .. => "operand"
  | .truncated .. => "16-bit operand truncated"
  | .sizeMismatch _ mnemonic declared emitted =>
    (Cause.sizeMismatch mnemonic declared emitted).message ++
      "; label addresses after this point are off"
  | .encoded .. => "encoded"
  | .assembled .. => "assembled"

/-- The details of an event, in the order in which they are logged. -/
def details : Event → List (String × Detail)
  | .labelBound label address => [("label", .text label), ("addr", .number address.toNat)]
  | .encoding slot operand => [("slot", .text slot.name), ("op", .text operand.description)]
  | .truncated value => [("value", .number value)]
  | .sizeMismatch index _ _ _ => [("index", .number index)]
  | .encoded index address mnemonic bytes =>
    [("index", .number index), ("mnemonic", .text mnemonic), ("address", .number address.toNat),
     ("bytes", .text (decimalBytes bytes))]
  | .assembled statements labels bytes =>
    [("statements", .number statements), ("labels", .number labels), ("bytes", .number bytes)]

end Event

end TwoPass
