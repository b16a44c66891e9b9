import WasmCore.Binary.Decoder
import WasmCore.Binary.Encode
import WasmCore.Binary.Error
import WasmCore.Binary.Expression
import WasmCore.Binary.Module
import WasmCore.Binary.Names
import WasmCore.Binary.Section
import WasmCore.Cli.Command
import WasmCore.Cli.FileTree
import WasmCore.Cli.ModuleName
import WasmCore.Cli.Options
import WasmCore.Decimal.Layout
import WasmCore.Decimal.Shortest
import WasmCore.Engine
import WasmCore.Event
import WasmCore.Float.Arithmetic
import WasmCore.Float.Format
import WasmCore.Float.Rounding
import WasmCore.Host.Env
import WasmCore.Host.Program
import WasmCore.Host.Stock
import WasmCore.Instruction.Access
import WasmCore.Instruction.Basic
import WasmCore.Instruction.Numeric
import WasmCore.Instruction.Structured
import WasmCore.Integer
import WasmCore.Integer.Word
import WasmCore.Leb128
import WasmCore.Machine.Body
import WasmCore.Machine.Config
import WasmCore.Machine.Execute
import WasmCore.Machine.Frame
import WasmCore.Machine.Numeric
import WasmCore.Machine.Operands
import WasmCore.Machine.Thread
import WasmCore.Main
import WasmCore.Memory
import WasmCore.Module.Basic
import WasmCore.Module.Section
import WasmCore.Power
import WasmCore.Proofs.Binary.Assembly
import WasmCore.Proofs.Binary.Canonical
import WasmCore.Proofs.Binary.Classes
import WasmCore.Proofs.Binary.Code
import WasmCore.Proofs.Binary.Decoder
import WasmCore.Proofs.Binary.Expression
import WasmCore.Proofs.Binary.Frames
import WasmCore.Proofs.Binary.Grammar
import WasmCore.Proofs.Binary.Header
import WasmCore.Proofs.Binary.Instruction
import WasmCore.Proofs.Binary.Names
import WasmCore.Proofs.Binary.Nesting
import WasmCore.Proofs.Binary.Order
import WasmCore.Proofs.Binary.ReadFailure
import WasmCore.Proofs.Binary.Reader
import WasmCore.Proofs.Binary.RoundTrip
import WasmCore.Proofs.Binary.Section
import WasmCore.Proofs.Binary.Truncation
import WasmCore.Proofs.DebugNames
import WasmCore.Proofs.Host.GuestText
import WasmCore.Proofs.Integer
import WasmCore.Proofs.Leb128.Positional
import WasmCore.Proofs.Leb128.Shortest
import WasmCore.Proofs.Machine.Access
import WasmCore.Proofs.Machine.Arguments
import WasmCore.Proofs.Machine.Arithmetic
import WasmCore.Proofs.Machine.CallContract
import WasmCore.Proofs.Machine.Ceiling
import WasmCore.Proofs.Machine.Changes
import WasmCore.Proofs.Machine.Checked
import WasmCore.Proofs.Machine.Effects
import WasmCore.Proofs.Machine.Entry
import WasmCore.Proofs.Machine.Faults
import WasmCore.Proofs.Machine.Forward
import WasmCore.Proofs.Machine.Isolation
import WasmCore.Proofs.Machine.Life
import WasmCore.Proofs.Machine.LoadStore
import WasmCore.Proofs.Machine.Nesting
import WasmCore.Proofs.Machine.Operands
import WasmCore.Proofs.Machine.Orderly
import WasmCore.Proofs.Machine.Raise
import WasmCore.Proofs.Machine.Safety
import WasmCore.Proofs.Machine.Script
import WasmCore.Proofs.Machine.Steps
import WasmCore.Proofs.Machine.Tasks
import WasmCore.Proofs.Machine.Termination
import WasmCore.Proofs.Machine.Traps
import WasmCore.Proofs.Machine.Typing
import WasmCore.Proofs.Memory
import WasmCore.Proofs.Ranges
import WasmCore.Proofs.Store.Declarations
import WasmCore.Proofs.Store.Failure
import WasmCore.Proofs.Store.Growth
import WasmCore.Proofs.Store.History
import WasmCore.Proofs.Store.Instantiation
import WasmCore.Proofs.Store.Integrity
import WasmCore.Proofs.Store.Linkable
import WasmCore.Proofs.Store.Linking
import WasmCore.Proofs.Store.Ownership
import WasmCore.Proofs.Store.Persistence
import WasmCore.Proofs.Store.Sizes
import WasmCore.Proofs.Store.Stability
import WasmCore.Proofs.Store.Triple
import WasmCore.Proofs.Store.Upkeep
import WasmCore.Proofs.Structured.Agreement
import WasmCore.Proofs.Structured.Decoded
import WasmCore.Proofs.Structured.Layout
import WasmCore.Proofs.Structured.Matching
import WasmCore.Proofs.Structured.Placement
import WasmCore.Proofs.Structured.Recovery
import WasmCore.Proofs.Structured.Semantics
import WasmCore.Proofs.Text.Utf16
import WasmCore.Report
import WasmCore.Store.Address
import WasmCore.Store.Basic
import WasmCore.Store.Error
import WasmCore.Store.HostModule
import WasmCore.Store.Link
import WasmCore.Terminal.Block
import WasmCore.Terminal.CellWidth
import WasmCore.Terminal.ControlSequence
import WasmCore.Terminal.Wide
import WasmCore.Text.CharRanges
import WasmCore.Text.Cluster
import WasmCore.Text.Cluster.Class
import WasmCore.Text.Numeral
import WasmCore.Text.Printable
import WasmCore.Text.Quoted
import WasmCore.Text.Utf16
import WasmCore.Trap.Basic
import WasmCore.Trap.Fault
import WasmCore.Value.Basic
import WasmCore.Value.Type
