import TapeCompiler.Text.Blank
import TapeCompiler.Text.CharClass
import TapeCompiler.Text.Digit
import TapeCompiler.Text.Letter
import TapeCompiler.Text.Lowercase
import TapeCompiler.Text.Numeric
import TapeCompiler.Text.Printable
import TapeCompiler.Text.EditDistance
import TapeCompiler.Text.Lines
import TapeCompiler.Text.Numeral
import TapeCompiler.Text.Quoted
import TapeCompiler.Text.Utf8
import TapeCompiler.Language.Display
import TapeCompiler.Language.Node
import TapeCompiler.Language.Token
import TapeCompiler.Language.Parser
import TapeCompiler.Diagnostic
import TapeCompiler.Table
import TapeCompiler.Event
import TapeCompiler.Machine.Basic
import TapeCompiler.Machine.Brackets
import TapeCompiler.Machine.Instruction
import TapeCompiler.Machine.Tape
import TapeCompiler.Compile.Cells
import TapeCompiler.Compile.Compilation
import TapeCompiler.Compile.Fault
import TapeCompiler.Compile.Functions
import TapeCompiler.Compile.Operation
import TapeCompiler.Compile.Statement
import TapeCompiler.Compile.Value
import TapeCompiler.Layout
import TapeCompiler.Program
import TapeCompiler.CommandLine.Arguments
import TapeCompiler.CommandLine.Disk
import TapeCompiler.CommandLine.Path
import TapeCompiler.CommandLine.Command
import TapeCompiler.Main
import TapeCompiler.Proofs.Layout
import TapeCompiler.Proofs.Code
import TapeCompiler.Proofs.Counting
import TapeCompiler.Proofs.Emission
import TapeCompiler.Proofs.Sound
import TapeCompiler.Proofs.Cells
import TapeCompiler.Proofs.Arithmetic
import TapeCompiler.Proofs.Index
import TapeCompiler.Proofs.Success
import TapeCompiler.Proofs.Syntax
import TapeCompiler.Proofs.Reference
import TapeCompiler.Proofs.Values
import TapeCompiler.Proofs.Assignment
import TapeCompiler.Proofs.Region
import TapeCompiler.Proofs.Frame
import TapeCompiler.Proofs.Operations
import TapeCompiler.Proofs.Statements
import TapeCompiler.Proofs.Lowering
import TapeCompiler.Proofs.Expansion
import TapeCompiler.Proofs.Brackets
import TapeCompiler.Proofs.Ticks
import TapeCompiler.Proofs.Running
import TapeCompiler.Proofs.Tracking
import TapeCompiler.Proofs.Execution
import TapeCompiler.Proofs.Agreement
import TapeCompiler.Proofs.Simulation
import TapeCompiler.Proofs.Preservation
import TapeCompiler.Proofs.Failure
import TapeCompiler.Proofs.Watch
import TapeCompiler.Proofs.Settled
import TapeCompiler.Proofs.Allocation
import TapeCompiler.Proofs.FrameLaw
import TapeCompiler.Proofs.Acceptance
import TapeCompiler.Proofs.TapeSize
import TapeCompiler.Proofs.Inlining
import TapeCompiler.Proofs.Bench
import TapeCompiler.Proofs.Ownership
import TapeCompiler.Proofs.Shadow
import TapeCompiler.Proofs.Lockstep
import TapeCompiler.Proofs.Recompilation
import TapeCompiler.Proofs.Spelling
import TapeCompiler.Proofs.Printing
import TapeCompiler.Proofs.Reading
import TapeCompiler.Proofs.Chunks
import TapeCompiler.Proofs.Context
import TapeCompiler.Proofs.Agenda
import TapeCompiler.Proofs.Nesting
import TapeCompiler.Proofs.Termination
import TapeCompiler.Proofs.Unwinding
import TapeCompiler.Proofs.Bounds
import TapeCompiler.Proofs.Silence
import TapeCompiler.Proofs.Evaluation
import TapeCompiler.Proofs.Numerals
import TapeCompiler.Proofs.Faults
import TapeCompiler.Proofs.Verdicts
import TapeCompiler.Proofs.Visits
import TapeCompiler.Proofs.Landmarks
import TapeCompiler.Proofs.Tidiness
import TapeCompiler.Proofs.Passage
import TapeCompiler.Proofs.Freshness
import TapeCompiler.Proofs.ConditionCell
import TapeCompiler.Proofs.PrivateArray
import TapeCompiler.Proofs.RawCode
import TapeCompiler.Proofs.Temporaries
import TapeCompiler.Proofs.Matching
import TapeCompiler.Proofs.StepLimit
import TapeCompiler.Proofs.Scanning
import TapeCompiler.Proofs.Continuation
import TapeCompiler.Proofs.Joining
import TapeCompiler.Proofs.Lines
import TapeCompiler.Proofs.Culprits
import TapeCompiler.Proofs.FirstFit
import TapeCompiler.Proofs.EditDistance
import TapeCompiler.Proofs.Suggestion
