import StackCode.Assembly
import StackCode.Assembly.Literal
import StackCode.Binary64
import StackCode.Bytecode
import StackCode.Bytes
import StackCode.Const
import StackCode.Container
import StackCode.Container.Error
import StackCode.Container.Field
import StackCode.Container.Section
import StackCode.Crc32
import StackCode.Decimal.Reader
import StackCode.Decimal.Shortest
import StackCode.Encoding
import StackCode.Flag
import StackCode.Instr
import StackCode.Json
import StackCode.Json.Number
import StackCode.Json.Reader
import StackCode.LineMap
import StackCode.LineTable
import StackCode.Listing
import StackCode.Machine
import StackCode.Machine.Arith
import StackCode.Mode
import StackCode.Opcode
import StackCode.Pattern
import StackCode.Pattern.Matcher
import StackCode.Pool
import StackCode.Proofs.Bytecode
import StackCode.Proofs.Fallible
import StackCode.Proofs.LineTable.Reading
import StackCode.Proofs.LineTable.Writing
import StackCode.Proofs.Machine.Agreement
import StackCode.Proofs.Machine.Simulation
import StackCode.Proofs.Pool
import StackCode.Proofs.Routine.Fields
import StackCode.Proofs.Routine.Lines
import StackCode.Proofs.Routine.Loading
import StackCode.Proofs.Routine.Represents
import StackCode.Proofs.Routine.RoundTrip
import StackCode.Proofs.Routine.Shape
import StackCode.Proofs.Routine.Storing
import StackCode.Proofs.Signature
import StackCode.Proofs.Tables
import StackCode.Routine
import StackCode.Routine.Builder
import StackCode.Routine.Load
import StackCode.Routine.Store
import StackCode.Schema
import StackCode.Signature
import StackCode.Text.CharClass
import StackCode.Text.CharClass.Alphabetic
import StackCode.Text.CharClass.Extend
import StackCode.Text.CharClass.Numeric
import StackCode.Text.CharClass.Unprintable
import StackCode.Text.Digits
import StackCode.Text.Lines
import StackCode.Text.Numeral
import StackCode.Text.Quoted
import StackCode.Transform
import StackCode.Transform.Action
import StackCode.Transform.Rule
import StackCode.Transform.Script
import StackCode.Proofs.Pattern.Language
import StackCode.Proofs.Pattern.Matching
import StackCode.Proofs.Pool.BackEdges
import StackCode.Proofs.Pool.Calls
import StackCode.Proofs.Container.Reading
import StackCode.Proofs.Container.Sections
import StackCode.Proofs.Container.Constants
import StackCode.Proofs.Container.RoundTrip
import StackCode.Proofs.Container.Spelling
import StackCode.Proofs.LineTable.Pairs
import StackCode.Proofs.Machine.Runs
import StackCode.Proofs.Machine.Safety
import StackCode.Proofs.Machine.Depth
import StackCode.Proofs.LineMap
import StackCode.Proofs.Pool.Successors
import StackCode.Proofs.Routine.Ownership
import StackCode.Proofs.Routine.Storable
import StackCode.Proofs.Pool.Deeds
import StackCode.Proofs.Transform.Firings
import StackCode.Proofs.Transform.Jumps
import StackCode.Proofs.Transform.Unwinding
import StackCode.Proofs.Transform.Agreement
import StackCode.Proofs.Transform.Modes
import StackCode.Proofs.Routine.Units
import StackCode.Proofs.Transform.Nesting
import StackCode.Proofs.Transform.Partition
import StackCode.Proofs.Transform.Recasting
import StackCode.Proofs.Transform.Recoding
import StackCode.Proofs.Pool.Steals
import StackCode.Proofs.Routine.Builder
import StackCode.Proofs.Assembly.Lines
import StackCode.Proofs.Assembly.Labels
import StackCode.Proofs.Assembly.Loading
import StackCode.Proofs.Routine.LineQuery
import StackCode.Proofs.Pool.Thieves
import StackCode.Proofs.Transform.Carrying
import StackCode.Proofs.Transform.Lines
import StackCode.Proofs.Routine.Building
import StackCode.Proofs.Transform.Order
import StackCode.Proofs.Pool.Takeover
import StackCode.Proofs.Pool.Refusals
import StackCode.Proofs.LineTable.InEffect
import StackCode.Proofs.Crc32
import StackCode.Proofs.Container.Damage
import StackCode.Proofs.Container.Fields
import StackCode.Proofs.Machine.Effects
import StackCode.Proofs.Machine.Integers
import StackCode.Proofs.Machine.Limits
import StackCode.Proofs.Pattern.Compiling
import StackCode.Proofs.Transform.Inheritance
import StackCode.Proofs.Signature.Words
import StackCode.Proofs.Text.Numeral
import StackCode.Proofs.Assembly.Quoted
import StackCode.Proofs.Assembly.Literals
import StackCode.Proofs.Assembly.Constants
import StackCode.Proofs.Assembly.Grammar
import StackCode.Proofs.Pool.Chains
import StackCode.Proofs.Routine.FailedPush
import StackCode.Proofs.Routine.Renumbering
