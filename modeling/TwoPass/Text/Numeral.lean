/-!
# Positional numerals

A numeral is read from left to right in a base of at most sixteen.  Reading stops at the first
character that is no digit of the base, or that makes the value pass a limit; at one character the
first of these is found before the second.  `positional` is the value that a list of digits denotes,
whatever its length.
-/

namespace TwoPass.Numeral

/-- Why a text is no numeral within its limit. -/
inductive Fault where
  | empty
  | invalidDigit
  | tooLarge
  deriving DecidableEq

def Fault.message : Fault → String
  | .empty => "cannot parse integer from empty string"
  | .invalidDigit => "invalid digit found in string"
  | .tooLarge => "number too large to fit in target type"

/-- The value of a hexadecimal digit of either case. -/
def hexDigit? (character : Char) : Option Nat :=
  let code := character.toNat
  if 48 ≤ code ∧ code ≤ 57 then some (code - 48)
  else if 97 ≤ code ∧ code ≤ 102 then some (code - 87)
  else if 65 ≤ code ∧ code ≤ 70 then some (code - 55)
  else none

theorem hexDigit?_digitChar {digit : Nat} (h : digit < 16) :
    hexDigit? (Nat.digitChar digit) = some digit := by
  revert h digit
  decide

def digit? (base : Nat) (character : Char) : Option Nat :=
  (hexDigit? character).filter (· < base)

/-- The value of a list of digits, the most significant first. -/
def positional (base : Nat) (digits : List Nat) : Nat :=
  digits.foldl (fun total digit ↦ total * base + digit) 0

@[simp]
theorem positional_nil (base : Nat) : positional base [] = 0 := rfl

@[simp]
theorem positional_concat (base : Nat) (digits : List Nat) (digit : Nat) :
    positional base (digits ++ [digit]) = positional base digits * base + digit := by
  simp [positional]

/-- Reads the rest of a numeral whose digits so far have the value `total`. -/
def readFrom (base limit total : Nat) : List Char → Except Fault Nat
  | [] => .ok total
  | character :: rest =>
    match digit? base character with
    | none => .error .invalidDigit
    | some digit =>
      if total * base + digit ≤ limit then readFrom base limit (total * base + digit) rest
      else .error .tooLarge

/-- Reads a whole text as a numeral that may not pass `limit`. -/
def read (base limit : Nat) (text : List Char) : Except Fault Nat :=
  if text.isEmpty then .error .empty else readFrom base limit 0 text

end TwoPass.Numeral
