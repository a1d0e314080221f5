import LS8.Numeral
import LS8.Instruction
import LS8.Registers
import LS8.Memory
import LS8.Listing
import LS8.Error
import LS8.Sink
import LS8.Stats
import LS8.Arithmetic
import LS8.Operation
import LS8.Config
import LS8.Event
import LS8.Text.Blank
import LS8.Text.Utf8
import LS8.Source.Line
import LS8.Source
import LS8.Machine
import LS8.Machine.Step
import LS8.Machine.Run
import LS8.Loading
import LS8.Json.Token
import LS8.Json.Value
import LS8.Json.Record
import LS8.Config.Reading
import LS8.LogFilter
import LS8.Folder
import LS8.Command
import LS8.Command.Arguments
import LS8.Command.Help
import LS8.Command.Response
import LS8.Main
import LS8.Proofs.Step
import LS8.Proofs.Run
import LS8.Proofs.Core
import LS8.Proofs.Stack
import LS8.Proofs.Table
import LS8.Proofs.Session
import LS8.Proofs.Fault
import LS8.Proofs.Accounting
import LS8.Proofs.Bounded
import LS8.Proofs.Unplugged
import LS8.Proofs.Refusal
import LS8.Proofs.Parse
import LS8.Proofs.Significant
import LS8.Proofs.Numeral
import LS8.Proofs.Literal
import LS8.Proofs.RoundTrip
import LS8.Proofs.Effect
import LS8.Proofs.Footprint
import LS8.Proofs.Saving
import LS8.Proofs.StackBase
import LS8.Proofs.Code
import LS8.Proofs.StraightLine
import LS8.Proofs.Repetition
import LS8.Proofs.Policy
import LS8.Proofs.InPlace
import LS8.Proofs.Cause
import LS8.Proofs.Halting
import LS8.Proofs.Logging
import LS8.Proofs.Observation
import LS8.Proofs.Loading
import LS8.Proofs.Concatenation
import LS8.Proofs.Mirror
import LS8.Proofs.Console
import LS8.Proofs.Delivery
import LS8.Proofs.LimitedWriter
import LS8.Proofs.Reporting
import LS8.Proofs.Tracing
import LS8.Proofs.Json.Spelling
import LS8.Proofs.Json.Nesting
import LS8.Proofs.Json.Record
import LS8.Proofs.Json.Layout
import LS8.Proofs.Json.Numeric
import LS8.Proofs.Config.Members
import LS8.Proofs.Config.Written
import LS8.Proofs.Config.Integers
import LS8.Proofs.Config.Positional
import LS8.Proofs.Folder
import LS8.Proofs.Command.Arguments
import LS8.Proofs.Command.Configuration
import LS8.Proofs.Command.Response
import LS8.Proofs.Statement
import LS8.Proofs.Statistics
import LS8.Proofs.Tiling
import LS8.Proofs.Listing
import LS8.Proofs.Grammar
import LS8.Proofs.TextLines
