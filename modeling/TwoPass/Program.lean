import TwoPass.Text.Numeral

/-!
# Programs

A program is a list of statements: labels, which name the place where they stand, and instructions
with their operands.
-/

namespace TwoPass

inductive Operand where
  | register (name : String)
  /-- A number, given by its hexadecimal digits. -/
  | literal (digits : String)
  /-- The address of a label. -/
  | symbol (name : String)
  deriving DecidableEq

inductive Statement where
  | label (name : String)
  | instruction (mnemonic : String) (operands : List Operand)
  deriving DecidableEq

/-- The statements of a program in order. -/
abbrev Program := List Statement

/-- The largest value of a literal. -/
def literalLimit : Nat := 0xFFFFFFFFFFFFFFFF

/-- The value of a literal, if its text is a hexadecimal numeral of at most 64 bits. -/
def literalValue? (digits : String) : Option Nat :=
  (Numeral.read 16 literalLimit digits.toList).toOption

end TwoPass
