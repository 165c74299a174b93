/-!
# Bytes in hexadecimal

A byte is written as two lower-case digits, and a sequence of bytes as its bytes with one blank
between neighbours.
-/

namespace TwoPass

def hexPair (byte : UInt8) : List Char :=
  [Nat.digitChar (byte.toNat / 16), Nat.digitChar (byte.toNat % 16)]

@[simp]
theorem length_hexPair (byte : UInt8) : (hexPair byte).length = 2 := rfl

def hexBytes (bytes : List UInt8) : List Char :=
  [' '].intercalate (bytes.map hexPair)

/-- The text of a byte sequence. -/
def renderHex (bytes : List UInt8) : String :=
  String.ofList (hexBytes bytes)

@[simp]
theorem toList_renderHex (bytes : List UInt8) : (renderHex bytes).toList = hexBytes bytes := by
  simp [renderHex]

end TwoPass
