import TaskContract.Decimal.Shortest
import TaskContract.Text.Printable
import TaskContract.Json.Printer
import TaskContract.Text.Lines
import TaskContract.Text.CodePoint
import TaskContract.Text.Similarity
import TaskContract.Text.WordCharacter
import TaskContract.Json.Reader
import TaskContract.Json.Equality
import TaskContract.Pattern.Match
import TaskContract.Script.Escape
import TaskContract.Script.Source
import TaskContract.Script.Cursor
import TaskContract.Script.Grammar.Pattern
import TaskContract.Script.Grammar.Expression
import TaskContract.Script.Grammar.Statement
import TaskContract.Analysis.Task
import TaskContract.Schema.Validator
import TaskContract.Files.Name
import TaskContract.Files.Tree
import TaskContract.Yaml.Document
import TaskContract.Settings.Project
import TaskContract.Settings.EnvironmentFile
import TaskContract.Chat.Client
import TaskContract.Inference.Resolution
import TaskContract.Inference.Deduction
import TaskContract.Store.ContractFile
import TaskContract.Store.SchemaFiles
import TaskContract.Pipeline.Run
import TaskContract.CommandLine.Program
import TaskContract.Main
import TaskContract.Proofs.Text
import TaskContract.Proofs.Decimal.Rounding
import TaskContract.Proofs.Decimal.Shortest
import TaskContract.Proofs.Json.Literals
import TaskContract.Proofs.Json.Decimals
import TaskContract.Proofs.Json.Written
import TaskContract.Proofs.Json.RoundTrip
import TaskContract.Proofs.Json.Readable
import TaskContract.Proofs.Json.Texts
import TaskContract.Proofs.Chat.Replies
import TaskContract.Proofs.Json.Surrounded
import TaskContract.Proofs.Json.Objects
import TaskContract.Proofs.Chat.Fences
import TaskContract.Proofs.Chat.Prose
import TaskContract.Proofs.Chat.Exchanges
import TaskContract.Proofs.Chat.Requests
import TaskContract.Proofs.Chat.Tries
import TaskContract.Proofs.Chat.Breaks
import TaskContract.Proofs.Script.Lines
import TaskContract.Proofs.Script.EarlyError
import TaskContract.Proofs.Analysis.Exports
import TaskContract.Proofs.Analysis.Descent
import TaskContract.Proofs.Analysis.Extraction
import TaskContract.Proofs.Analysis.Origin
import TaskContract.Proofs.Analysis.Quotation
import TaskContract.Proofs.Analysis.Outcome
import TaskContract.Proofs.Analysis.ModelCalls
import TaskContract.Proofs.Files.Name
import TaskContract.Proofs.Files.Tree
import TaskContract.Proofs.Files.Lookup
import TaskContract.Proofs.Files.Spelling
import TaskContract.Proofs.Files.Growth
import TaskContract.Proofs.Files.Repetition
import TaskContract.Proofs.Store.SchemaFiles
import TaskContract.Proofs.Store.Room
import TaskContract.Proofs.Store.ContractFile
import TaskContract.Proofs.Store.Failure
import TaskContract.Proofs.Pipeline.Lock
import TaskContract.Proofs.Pipeline.Exclusion
import TaskContract.Proofs.Pipeline.Slug
import TaskContract.Proofs.Pipeline.Acts
import TaskContract.Proofs.Pipeline.Moves
import TaskContract.Proofs.Pipeline.Courses
import TaskContract.Proofs.Pipeline.Gathered
import TaskContract.Proofs.Pipeline.EarlyFailure
import TaskContract.Proofs.Pipeline.RunCourse
import TaskContract.Proofs.Pipeline.Trace
import TaskContract.Proofs.Pipeline.Numbering
import TaskContract.Proofs.Pipeline.Failure
import TaskContract.Proofs.Pipeline.Order
import TaskContract.Proofs.Pipeline.Containment
import TaskContract.Proofs.Pipeline.References
import TaskContract.Proofs.Pipeline.Serialization
import TaskContract.Proofs.Pipeline.Success
import TaskContract.Proofs.Pipeline.Outputs
import TaskContract.Proofs.Pipeline.Inputs
import TaskContract.Proofs.Pipeline.Rerun
import TaskContract.Proofs.Pipeline.Stored
import TaskContract.Proofs.Pipeline.Elsewhere
import TaskContract.Proofs.Pipeline.Passage
import TaskContract.Proofs.CommandLine.Arguments
import TaskContract.Proofs.CommandLine.Deductions
import TaskContract.Proofs.CommandLine.Session
import TaskContract.Proofs.CommandLine.Again
import TaskContract.Proofs.CommandLine.TaskAnalysis
import TaskContract.Proofs.Script.Spelling
import TaskContract.Proofs.Analysis.Stages
import TaskContract.Proofs.Analysis.Places
import TaskContract.Proofs.Inference.Deduction
import TaskContract.Proofs.Schema.Registry
import TaskContract.Proofs.Decimal.Order
import TaskContract.Proofs.Inference.Resolution
import TaskContract.Proofs.Settings.Limits
import TaskContract.Proofs.CommandLine.Attempts
import TaskContract.Proofs.CommandLine.Printed
