import TwoPass.Assembly
import TwoPass.Text.Blank
import TwoPass.Text.HexBytes

/-!
# Listings

A listing shows the labels of a program and, for each instruction, its address, its bytes and its
source.  Spans are taken in order: an instruction takes the next span if that span is its own, and
is left out otherwise.
-/

namespace TwoPass

/-- The source text of an operand. -/
def Operand.source : Operand → String
  | .register name => name
  | .literal digits => "$" ++ digits
  | .symbol name => "!" ++ name

namespace Listing

/-- Why a span cannot be shown. -/
inductive Fault where
  /-- The span starts before the image. -/
  | belowOrigin (span : Span)
  /-- The span ends after the image. -/
  | outsideImage (span : Span)
  deriving DecidableEq

def spanBytes (assembly : Assembly) (span : Span) : Except Fault (List UInt8) :=
  let offset := span.address.toNat - assembly.origin.toNat
  if span.address.toNat < assembly.origin.toNat then .error (.belowOrigin span)
  else if assembly.bytes.length < offset + span.length then .error (.outsideImage span)
  else .ok ((assembly.bytes.drop offset).take span.length)

/-- The least number of digits of an address. -/
def addressDigits : Nat := 4

/-- The least width of the column of bytes. -/
def bytesWidth : Nat := 15

/-- The mnemonic that is shown for an instruction's name. -/
def surface (table : InstructionTable) (mnemonic : String) : String :=
  ((table.get? mnemonic).bind Entry.surface).getD mnemonic

/-- The line of an instruction, without its end of line. -/
def instructionLine (table : InstructionTable) (address : UInt32) (bytes : List UInt8)
    (mnemonic : String) (operands : List Operand) : List Char :=
  let addressColumn := (Nat.toDigits 16 address.toNat).leftpad addressDigits '0'
  let bytesColumn := (hexBytes bytes).rightpad bytesWidth ' '
  let operandColumn := [',', ' '].intercalate (operands.map fun operand ↦ operand.source.toList)
  Text.trimEnd (addressColumn ++ [' ', ' '] ++ bytesColumn ++ [' '] ++
    (surface table mnemonic).toList ++ [' '] ++ operandColumn)

def labelLine (name : String) : List Char :=
  name.toList ++ [':']

/-- The lines of the rest of a program, whose first statement has the given index. -/
def linesFrom (table : InstructionTable) (assembly : Assembly) :
    Nat → List Span → Program → Except Fault (List (List Char))
  | _, _, [] => .ok []
  | index, spans, .label name :: rest => do
    let lines ← linesFrom table assembly (index + 1) spans rest
    return labelLine name :: lines
  | index, [], .instruction _ _ :: rest => linesFrom table assembly (index + 1) [] rest
  | index, span :: spans, .instruction mnemonic operands :: rest =>
    if span.index = index then do
      let bytes ← spanBytes assembly span
      let lines ← linesFrom table assembly (index + 1) spans rest
      return instructionLine table span.address bytes mnemonic operands :: lines
    else linesFrom table assembly (index + 1) (span :: spans) rest

/-- The lines of a listing, without their ends of line. -/
def lines (table : InstructionTable) (assembly : Assembly) (program : Program) :
    Except Fault (List (List Char)) :=
  linesFrom table assembly 0 assembly.spans program

/-- The text of some lines, each with its end of line. -/
def ofLines (lines : List (List Char)) : String :=
  String.ofList (lines.flatMap fun line ↦ line ++ ['\n'])

end Listing

/-- The listing of a program and its assembly. -/
def Assembly.listing (assembly : Assembly) (table : InstructionTable) (program : Program) :
    Except Listing.Fault String :=
  (Listing.lines table assembly program).map Listing.ofLines

end TwoPass
