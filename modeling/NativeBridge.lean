import NativeBridge.Command.Arguments
import NativeBridge.Command.Option
import NativeBridge.Command.Run
import NativeBridge.Command.Usage
import NativeBridge.Command.Word
import NativeBridge.Emit.Bindings
import NativeBridge.Emit.Callbacks
import NativeBridge.Emit.Native
import NativeBridge.Emit.Records
import NativeBridge.Emit.Script
import NativeBridge.Emit.Support
import NativeBridge.Idl.Attributes
import NativeBridge.Idl.Declaration
import NativeBridge.Idl.Fault
import NativeBridge.Idl.Source
import NativeBridge.Idl.TypeExpr
import NativeBridge.Idl.TypeExpr.Parse
import NativeBridge.Main
import NativeBridge.Output.Disk
import NativeBridge.Output.Host
import NativeBridge.Output.Path
import NativeBridge.Output.Write
import NativeBridge.Plan.CallbackPlan
import NativeBridge.Plan.Callbacks
import NativeBridge.Plan.Event
import NativeBridge.Plan.Fault
import NativeBridge.Plan.InterfacePlan
import NativeBridge.Plan.Interfaces
import NativeBridge.Plan.Layout
import NativeBridge.Plan.Marshaling
import NativeBridge.Plan.Members
import NativeBridge.Plan.Overload
import NativeBridge.Plan.Records
import NativeBridge.Plan.Session
import NativeBridge.Proofs.Meaning
import NativeBridge.Proofs.Names
import NativeBridge.Proofs.Steady
import NativeBridge.Text.Blank
import NativeBridge.Text.Comment
import NativeBridge.Text.Digit
import NativeBridge.Text.Nesting
import NativeBridge.Text.Newline
import NativeBridge.Text.Printable
import NativeBridge.Text.Quoted
import NativeBridge.Text.Scan
import NativeBridge.Text.Word
import NativeBridge.Typing.Descriptor
import NativeBridge.Typing.Resolve
import NativeBridge.Typing.Scalar
import NativeBridge.Typing.Scope
import NativeBridge.Unvisited
import NativeBridge.Proofs.Crossing
import NativeBridge.Proofs.Overloads
import NativeBridge.Proofs.Interfaces
import NativeBridge.Proofs.Callbacks
import NativeBridge.Proofs.Inheritance
import NativeBridge.Proofs.Records
import NativeBridge.Proofs.Preparation
import NativeBridge.Proofs.Pairing
import NativeBridge.Proofs.Disk
import NativeBridge.Proofs.Writing
import NativeBridge.Proofs.Inclusion
import NativeBridge.Proofs.Independence
import NativeBridge.Proofs.Requests
import NativeBridge.Proofs.TypedefCycles
import NativeBridge.Proofs.Verdicts
import NativeBridge.Proofs.Grouping
import NativeBridge.Proofs.Dispatch
import NativeBridge.Proofs.History
import NativeBridge.Proofs.OffsetTable
import NativeBridge.Proofs.EntryNames
import NativeBridge.Proofs.Nesting
import NativeBridge.Proofs.Scanning
import NativeBridge.Proofs.TypeText
import NativeBridge.Proofs.Rendering
import NativeBridge.Proofs.Reading
import NativeBridge.Proofs.RoundTrip
import NativeBridge.Proofs.SlotOrder
import NativeBridge.Proofs.Repetition
import NativeBridge.Proofs.Bridge
import NativeBridge.Proofs.Emission
import NativeBridge.Proofs.CommandLine
import NativeBridge.Proofs.Delivery
import NativeBridge.Proofs.Expansion
import NativeBridge.Proofs.Layers
import NativeBridge.Proofs.Legibility
import NativeBridge.Proofs.Brackets
import NativeBridge.Proofs.ParentOrder
import NativeBridge.Proofs.RecordClasses
import NativeBridge.Proofs.Destruction
import NativeBridge.Proofs.CallStatements
import NativeBridge.Proofs.Splitting
import NativeBridge.Proofs.Comments
import NativeBridge.Proofs.Rollback
import NativeBridge.Proofs.Attribution
import NativeBridge.Proofs.OptionalArguments
