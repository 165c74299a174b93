/-!
# Decimal numbers

A decimal number is kept the way it is written.  A reader that stores it turns its digits into a
significand of 64 bits and a power of ten, and multiplies the two with 53 significant bits.
`Decimal.isStorable` says whether the product stays below the largest power of two that such a
number can reach; all of its arithmetic is exact.
-/

namespace TwoPass

/-- A number as it is written. -/
structure Decimal where
  negative : Bool
  /-- The digits before the point. -/
  whole : List Char
  /-- The digits behind the point. -/
  fraction : List Char
  exponent : Int
  deriving DecidableEq

namespace Decimal

/-! ## Rounding -/

/-- The multiple of a unit that is nearest to a number.  A tie goes to the even multiple. -/
def nearestMultiple (unit value : Nat) : Nat :=
  let quotient := value / unit
  let excess := value % unit
  if 2 * excess < unit ∨ (2 * excess = unit ∧ quotient % 2 = 0) then quotient * unit
  else (quotient + 1) * unit

/-- The nearest number with at most 53 significant bits. -/
def nearestBinary (value : Nat) : Nat :=
  nearestMultiple (Nat.pow 2 (value.log2 + 1 - 53)) value

/-! ## Magnitudes -/

/-- A natural number times a power of ten. -/
structure Magnitude where
  significand : Nat
  exponent : Int

/-- Whether a magnitude can be stored.  Ten has powers up to the 308th there. -/
def Magnitude.isStorable (magnitude : Magnitude) : Bool :=
  magnitude.significand = 0 || magnitude.exponent < 0 ||
    (magnitude.exponent ≤ 308 &&
      nearestBinary (nearestBinary magnitude.significand *
        nearestBinary (Nat.pow 10 magnitude.exponent.toNat)) < Nat.pow 2 1024)

/-- Appends digits to a significand as long as it fits into 64 bits, and counts those that are
left. -/
def appendDigits (significand : Nat) : List Char → Nat × Nat
  | [] => (significand, 0)
  | digit :: rest =>
    let next := 10 * significand + (digit.toNat - '0'.toNat)
    if next ≤ 0xFFFFFFFFFFFFFFFF then appendDigits next rest else (significand, rest.length + 1)

/-- The number without point, fraction and exponent. -/
def ofNat (value : Nat) : Decimal :=
  ⟨false, Nat.toDigits 10 value, [], 0⟩

/-- The magnitude that is left of a number when its significand is cut to 64 bits.  Digits before
the point that are cut off count in the exponent. -/
def magnitude (number : Decimal) : Magnitude :=
  let (whole, cutWhole) := appendDigits 0 number.whole
  let (significand, cutFraction) := appendDigits whole number.fraction
  ⟨significand, number.exponent + cutWhole - (number.fraction.length - cutFraction : Nat)⟩

/-- Whether a number can be stored. -/
def isStorable (number : Decimal) : Bool :=
  number.magnitude.isStorable

end Decimal

end TwoPass
