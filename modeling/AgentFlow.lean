import AgentFlow.Activity.Basic
import AgentFlow.Activity.Host
import AgentFlow.Answer
import AgentFlow.Approval
import AgentFlow.Chat.Message
import AgentFlow.Chat.Turn
import AgentFlow.Condition.Basic
import AgentFlow.Condition.Eval
import AgentFlow.Condition.Expr
import AgentFlow.Condition.Lexer
import AgentFlow.Condition.Parser
import AgentFlow.Condition.Token
import AgentFlow.Config.Basic
import AgentFlow.Config.Environment
import AgentFlow.Config.Load
import AgentFlow.Error
import AgentFlow.FanOut.Basic
import AgentFlow.FanOut.Pool
import AgentFlow.FanOut.Slice
import AgentFlow.Field
import AgentFlow.Fields
import AgentFlow.Flow.Check
import AgentFlow.Flow.Compile
import AgentFlow.Flow.Definition
import AgentFlow.Flow.Edge
import AgentFlow.Flow.Node
import AgentFlow.Flow.Problem
import AgentFlow.Json.Fault
import AgentFlow.Json.Printer
import AgentFlow.Json.Reader
import AgentFlow.Number.Binary64
import AgentFlow.Number.Notation
import AgentFlow.Number.Power
import AgentFlow.Number.Reading
import AgentFlow.Number.Shortest
import AgentFlow.Record
import AgentFlow.Retry
import AgentFlow.Run.Basic
import AgentFlow.Run.Command
import AgentFlow.Run.Event
import AgentFlow.Run.Runner
import AgentFlow.Script.Model
import AgentFlow.Script.Tool
import AgentFlow.Script.World
import AgentFlow.Step.Basic
import AgentFlow.Step.Conversation
import AgentFlow.Step.Input
import AgentFlow.Step.Model
import AgentFlow.Step.Output
import AgentFlow.Step.Tool
import AgentFlow.Step.Update
import AgentFlow.Store
import AgentFlow.Template
import AgentFlow.Text.Blank
import AgentFlow.Text.DecimalDigit
import AgentFlow.Text.Glyph
import AgentFlow.Text.Literal
import AgentFlow.Text.Search
import AgentFlow.Toml.Document
import AgentFlow.Toml.Scalar
import AgentFlow.Tool.Basic
import AgentFlow.Tool.Invoke
import AgentFlow.Value.Basic
import AgentFlow.Value.Equivalence
import AgentFlow.Value.Rendering
import AgentFlow.Proofs.Contract
import AgentFlow.Proofs.Reachability
import AgentFlow.Proofs.WellFormed
import AgentFlow.Proofs.Compile
import AgentFlow.Proofs.ApprovalGate
import AgentFlow.Proofs.Safety
import AgentFlow.Proofs.Monitor
import AgentFlow.Proofs.Footprint
import AgentFlow.Proofs.Cancellation
import AgentFlow.Proofs.Refusal
import AgentFlow.Proofs.Unrolling
import AgentFlow.Proofs.Ungated
import AgentFlow.Proofs.Transparency
import AgentFlow.Proofs.Crew
import AgentFlow.Proofs.Pool
import AgentFlow.Proofs.FanOut
import AgentFlow.Proofs.Writes
import AgentFlow.Proofs.Ledger
import AgentFlow.Proofs.Course
import AgentFlow.Proofs.Moves
import AgentFlow.Proofs.Budget
import AgentFlow.Proofs.Counting
import AgentFlow.Proofs.Visits
import AgentFlow.Proofs.Frame
import AgentFlow.Proofs.Chronicle
import AgentFlow.Proofs.Results
import AgentFlow.Proofs.Grammar
import AgentFlow.Proofs.Parsing
import AgentFlow.Proofs.Turns
import AgentFlow.Proofs.Capture
import AgentFlow.Proofs.Alike
import AgentFlow.Proofs.Supplied
import AgentFlow.Proofs.Transcript
import AgentFlow.Proofs.Announced
import AgentFlow.Proofs.Progress
import AgentFlow.Proofs.Rounds
import AgentFlow.Proofs.Retries
import AgentFlow.Proofs.Documents
import AgentFlow.Proofs.Rounding
import AgentFlow.Proofs.Numerals
import AgentFlow.Proofs.JsonText
import AgentFlow.Proofs.Schema
import AgentFlow.Proofs.References
import AgentFlow.Proofs.Leaves
import AgentFlow.Proofs.Conversion
import AgentFlow.Proofs.Fences
import AgentFlow.Proofs.Answers
import AgentFlow.Proofs.Channels
import AgentFlow.Proofs.TokenText
import AgentFlow.Proofs.WholeNumbers
import AgentFlow.Proofs.Comparisons
import AgentFlow.Proofs.Increment
import AgentFlow.Proofs.Expansion
import AgentFlow.Proofs.Routing
import AgentFlow.Proofs.Tally
import AgentFlow.Proofs.Reports
import AgentFlow.Proofs.DeclaredResults
import AgentFlow.Proofs.FencedBodies
import AgentFlow.Proofs.Occurrences
import AgentFlow.Proofs.Wording
import AgentFlow.Proofs.PartialAnswers
import AgentFlow.Proofs.Stripping
import AgentFlow.Proofs.Indexing
