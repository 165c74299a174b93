import TwoPass.Program

/-!
# Diagnostics

A diagnostic is the cause for which a program is rejected, together with the statement at which it
was found and the last label before that statement.
-/

namespace TwoPass

/-- Why a program is rejected. -/
inductive Cause where
  | duplicateLabel (name : String)
  | unknownMnemonic (mnemonic : String)
  | unresolvedLabel (name : String)
  | unknownRegister (name : String)
  /-- The operands differ from the slots of the mode, in number or in kind. -/
  | malformedInstruction (mnemonic : String)
  /-- The text of a literal is no hexadecimal numeral of at most 64 bits. -/
  | invalidLiteral (digits : String)
  /-- A label stands beyond the last sixteen-bit address. -/
  | addressOverflow (name : String) (address : UInt32)
  /-- The declared size of an instruction is not the number of its bytes. -/
  | sizeMismatch (mnemonic : String) (declared : UInt64) (emitted : Nat)
  deriving DecidableEq

def Cause.message : Cause → String
  | .duplicateLabel name => s!"label `{name}` defined more than once"
  | .unknownMnemonic mnemonic => s!"unknown mnemonic `{mnemonic}`"
  | .unresolvedLabel name => s!"label `{name}` wasn't resolved"
  | .unknownRegister name => s!"unknown register `{name}`"
  | .malformedInstruction mnemonic =>
    s!"malformed `{mnemonic}` instruction: operands do not match its addressing mode"
  | .invalidLiteral digits => s!"`{digits}` is not a base-16 literal"
  | .addressOverflow name address =>
    let digits := String.ofList (Nat.toDigits 16 address.toNat)
    s!"label `{name}` lands at 0x{digits}, outside the 16-bit address space"
  | .sizeMismatch mnemonic declared emitted =>
    s!"`{mnemonic}` declares {declared} bytes but encodes to {emitted}"

/-- A place in a program: a statement's index and the last label before it. -/
structure Location where
  index : Nat
  label : Option String
  deriving DecidableEq

namespace Location

def start : Location :=
  ⟨0, none⟩

def after (here : Location) : Statement → Location
  | .label name => ⟨here.index + 1, some name⟩
  | .instruction _ _ => ⟨here.index + 1, here.label⟩

@[simp]
theorem index_after (here : Location) (statement : Statement) :
    (here.after statement).index = here.index + 1 := by
  cases statement <;> rfl

def text (here : Location) : String :=
  let index := here.index
  match here.label with
  | none => s!"statement {index}"
  | some label => s!"statement {index} (after `{label}`)"

end Location

/-- A cause and the place where it was found. -/
structure Diagnostic where
  location : Location
  cause : Cause
  deriving DecidableEq

def Diagnostic.message (diagnostic : Diagnostic) : String :=
  diagnostic.cause.message ++ " at " ++ diagnostic.location.text

end TwoPass
