import BlockVM.Binary64.Basic
import BlockVM.Binary64.Layout
import BlockVM.Binary64.Reader
import BlockVM.Binary64.Shortest
import BlockVM.Builtin
import BlockVM.Code.Assembler
import BlockVM.Code.Basic
import BlockVM.Code.Listing
import BlockVM.CommandLine
import BlockVM.Constant.Encoding
import BlockVM.Duration
import BlockVM.Engine.State
import BlockVM.Engine.Step
import BlockVM.ExceptionKind
import BlockVM.Fault
import BlockVM.Heap
import BlockVM.Json.Basic
import BlockVM.Json.Parser
import BlockVM.Json.Printer
import BlockVM.Limits
import BlockVM.Machine.Binding
import BlockVM.Machine.Builtins
import BlockVM.Machine.Call
import BlockVM.Machine.Exec
import BlockVM.Machine.Execute
import BlockVM.Machine.Frame
import BlockVM.Machine.Guard
import BlockVM.Machine.Operation
import BlockVM.Machine.Run
import BlockVM.Machine.Step
import BlockVM.Machine.Traversal
import BlockVM.Machine.Unwind
import BlockVM.Machine.World
import BlockVM.Main
import BlockVM.Namespace
import BlockVM.Opcode
import BlockVM.Operator
import BlockVM.Proofs.AbsorbingBlocks
import BlockVM.Proofs.AssembledInstructions
import BlockVM.Proofs.Assembling
import BlockVM.Proofs.Assignment
import BlockVM.Proofs.CallIsolation
import BlockVM.Proofs.CallStack
import BlockVM.Proofs.CodeRoundTrip
import BlockVM.Proofs.Components
import BlockVM.Proofs.Comprehension
import BlockVM.Proofs.Decoding
import BlockVM.Proofs.DecodingInverse
import BlockVM.Proofs.EngineCallStack
import BlockVM.Proofs.EngineIntegrity
import BlockVM.Proofs.EngineRuns
import BlockVM.Proofs.EngineUnwinding
import BlockVM.Proofs.ExceptionContexts
import BlockVM.Proofs.ExceptionOrigins
import BlockVM.Proofs.Extremes
import BlockVM.Proofs.FatalExceptions
import BlockVM.Proofs.Faults
import BlockVM.Proofs.FinallyBlocks
import BlockVM.Proofs.Footprint
import BlockVM.Proofs.FrameChanges
import BlockVM.Proofs.FramePreservation
import BlockVM.Proofs.Grammar
import BlockVM.Proofs.Identity
import BlockVM.Proofs.InstructionBudgets
import BlockVM.Proofs.Instructions
import BlockVM.Proofs.Integers
import BlockVM.Proofs.InternalFaults
import BlockVM.Proofs.IteratorItems
import BlockVM.Proofs.JsonReadback
import BlockVM.Proofs.LogLimits
import BlockVM.Proofs.MixedDataOrder
import BlockVM.Proofs.NamespaceHistory
import BlockVM.Proofs.NestingDepth
import BlockVM.Proofs.ObserverStates
import BlockVM.Proofs.Observers
import BlockVM.Proofs.Parameters
import BlockVM.Proofs.Passage
import BlockVM.Proofs.PlainDataOrder
import BlockVM.Proofs.RangeElements
import BlockVM.Proofs.RangeEquality
import BlockVM.Proofs.RecordedRuns
import BlockVM.Proofs.Refinement
import BlockVM.Proofs.RefusedCalls
import BlockVM.Proofs.RegisteredRuns
import BlockVM.Proofs.RegisteredValues
import BlockVM.Proofs.Replay
import BlockVM.Proofs.ReprReadback
import BlockVM.Proofs.Reraising
import BlockVM.Proofs.ResultLimits
import BlockVM.Proofs.RetrackedRuns
import BlockVM.Proofs.Retracking
import BlockVM.Proofs.RunLimits
import BlockVM.Proofs.RunSteps
import BlockVM.Proofs.Sequences
import BlockVM.Proofs.Signals
import BlockVM.Proofs.SpentBudgets
import BlockVM.Proofs.StackBalance
import BlockVM.Proofs.StackConsumption
import BlockVM.Proofs.Subscripts
import BlockVM.Proofs.Tracebacks
import BlockVM.Proofs.TransparentHandlers
import BlockVM.Proofs.WordArithmetic
import BlockVM.Proofs.WorldOperations
import BlockVM.Range
import BlockVM.Text.Basic
import BlockVM.Text.Printable
import BlockVM.Trace.Event
import BlockVM.Trace.Tracer
import BlockVM.Value.Arithmetic
import BlockVM.Value.Basic
import BlockVM.Value.Equality
import BlockVM.Value.Order
import BlockVM.Value.Repr
import BlockVM.Value.Sequence
import BlockVM.Word
