import TwoPass.Assembly
import TwoPass.CommandLine.Build
import TwoPass.CommandLine.Directory
import TwoPass.CommandLine.Path
import TwoPass.CommandLine.Request
import TwoPass.Diagnostic
import TwoPass.Event
import TwoPass.Image
import TwoPass.InstructionTable
import TwoPass.InstructionTable.Builtin
import TwoPass.Interchange.Config
import TwoPass.Interchange.InstructionTable
import TwoPass.Interchange.LabelTable
import TwoPass.Interchange.Program
import TwoPass.Interchange.RegisterFile
import TwoPass.Json
import TwoPass.Json.Reader
import TwoPass.Json.Token
import TwoPass.Json.Writer
import TwoPass.LabelTable
import TwoPass.Listing
import TwoPass.Logged
import TwoPass.Machine
import TwoPass.Main
import TwoPass.Mode
import TwoPass.Program
import TwoPass.Proofs.Bytes
import TwoPass.Proofs.Composition
import TwoPass.Proofs.Decoding
import TwoPass.Proofs.Encoding
import TwoPass.Proofs.EventLog
import TwoPass.Proofs.Extent
import TwoPass.Proofs.FirstFault
import TwoPass.Proofs.General
import TwoPass.Proofs.HexBytes
import TwoPass.Proofs.Image
import TwoPass.Proofs.InstructionEvents
import TwoPass.Proofs.Interchange.Description
import TwoPass.Proofs.Interchange.Rewriting
import TwoPass.Proofs.Interchange.RoundTrip
import TwoPass.Proofs.Json.Document
import TwoPass.Proofs.Json.Token
import TwoPass.Proofs.Layout
import TwoPass.Proofs.Linking
import TwoPass.Proofs.Listing
import TwoPass.Proofs.Numeral
import TwoPass.Proofs.PassEvents
import TwoPass.Proofs.Placement
import TwoPass.Proofs.RegisterFile
import TwoPass.Proofs.Rejection
import TwoPass.Proofs.Relocation
import TwoPass.Proofs.Renaming
import TwoPass.Proofs.SizeCheck
import TwoPass.Proofs.Slot
import TwoPass.RegisterFile
import TwoPass.Text.Blank
import TwoPass.Text.Decimal
import TwoPass.Text.HexBytes
import TwoPass.Text.Numeral
import TwoPass.Text.Word
import TwoPass.Proofs.ByteOrder
import TwoPass.Proofs.SizeLint
import TwoPass.Proofs.Addresses
import TwoPass.Proofs.SpanUse
import TwoPass.Proofs.LabelInsertion
import TwoPass.Proofs.OperandEdits
import TwoPass.Proofs.RegisterNames
import TwoPass.Proofs.Relevance
import TwoPass.Proofs.LabelExport
import TwoPass.Proofs.Literal
import TwoPass.Proofs.Word
import TwoPass.Proofs.CommandLine.Build
import TwoPass.Proofs.Interchange.TableLoading
