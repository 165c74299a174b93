import TwoPass.Text.Blank
import TwoPass.Text.Numeral

/-!
# Sixteen-bit words written by hand

An address is written in decimal, or in hexadecimal after `0x` or `0X`.  Blanks around it and one
plus sign in front of its digits are allowed.
-/

namespace TwoPass.Word

/-- The base that a text announces, and the digits that follow the announcement. -/
def splitBase : List Char → Nat × List Char
  | '0' :: 'x' :: digits => (16, digits)
  | '0' :: 'X' :: digits => (16, digits)
  | digits => (10, digits)

/-- Removes a plus sign that something follows. -/
def dropPlus : List Char → List Char
  | '+' :: digit :: digits => digit :: digits
  | digits => digits

def parse (text : String) : Except Numeral.Fault UInt16 :=
  let (base, digits) := splitBase (Text.trim text.toList)
  (Numeral.read base 0xFFFF (dropPlus digits)).map UInt16.ofNat

end TwoPass.Word
