import RepoDocs.Analysis.Controller
import RepoDocs.Analysis.Fetch
import RepoDocs.Analysis.Generate
import RepoDocs.Analysis.Run
import RepoDocs.CommandLine.Arguments
import RepoDocs.CommandLine.Configuration
import RepoDocs.CommandLine.Run
import RepoDocs.Config
import RepoDocs.Decimal.Parse
import RepoDocs.Decimal.Shortest
import RepoDocs.Documentation.Api
import RepoDocs.Documentation.Artifact
import RepoDocs.Documentation.Basic
import RepoDocs.Documentation.Prompt
import RepoDocs.Failure
import RepoDocs.GitHub.Client
import RepoDocs.GitHub.Rejection
import RepoDocs.Grammar.Node
import RepoDocs.Grammar.Pattern
import RepoDocs.Http.Exchange
import RepoDocs.Http.Host
import RepoDocs.Http.Status
import RepoDocs.Http.Url
import RepoDocs.Job.Basic
import RepoDocs.Job.Checkpoint
import RepoDocs.Json.Decode
import RepoDocs.Json.Document
import RepoDocs.Json.Value
import RepoDocs.LanguageModel.Client
import RepoDocs.Main
import RepoDocs.Outline.Basic
import RepoDocs.Outline.Literal
import RepoDocs.Outline.Python
import RepoDocs.Outline.Script
import RepoDocs.Outline.SourceKind
import RepoDocs.Process.Conduct
import RepoDocs.Process.Effect
import RepoDocs.Process.Engine
import RepoDocs.Process.Program
import RepoDocs.Proofs.Analysis.Answers
import RepoDocs.Proofs.Analysis.Completion
import RepoDocs.Proofs.Analysis.Failure
import RepoDocs.Proofs.Analysis.JobCourse
import RepoDocs.Proofs.Analysis.Requests
import RepoDocs.Proofs.Analysis.Submission
import RepoDocs.Proofs.Job.Course
import RepoDocs.Proofs.Process.Alone
import RepoDocs.Proofs.Process.Faults
import RepoDocs.Proofs.Process.Weakest
import RepoDocs.Proofs.Repository.Address
import RepoDocs.Proofs.Session.Basic
import RepoDocs.Proofs.Session.Engine
import RepoDocs.Proofs.Session.Fairness
import RepoDocs.Proofs.Session.Keeping
import RepoDocs.Proofs.Session.Play
import RepoDocs.Proofs.Session.Turns
import RepoDocs.Proofs.Store.Orderly
import RepoDocs.Proofs.Store.Records
import RepoDocs.Proofs.Store.Tidy
import RepoDocs.Repository.Basic
import RepoDocs.Repository.Coordinates
import RepoDocs.Script.Expressions
import RepoDocs.Script.Lexeme
import RepoDocs.Script.LineEnd
import RepoDocs.Script.Rule
import RepoDocs.Script.Statements
import RepoDocs.Script.Types
import RepoDocs.Store.Basic
import RepoDocs.Store.Call
import RepoDocs.Store.Identifier
import RepoDocs.Text.Blank
import RepoDocs.Text.Quoted
import RepoDocs.Text.Split
import RepoDocs.Text.Word
import RepoDocs.Time.Instant
import RepoDocs.Tree.Basic
import RepoDocs.Tree.Listing
import RepoDocs.Tree.MainFiles
import RepoDocs.Tree.Order
import RepoDocs.Yaml.Character
import RepoDocs.Yaml.Decode
import RepoDocs.Yaml.Node
import RepoDocs.Yaml.Scalar
import RepoDocs.Yaml.Tag
import RepoDocs.Yaml.Token
import RepoDocs.Proofs.Outline.Blocks
import RepoDocs.Proofs.Outline.Joining
import RepoDocs.Proofs.Store.Standing
import RepoDocs.Proofs.Session.Relying
import RepoDocs.Proofs.Analysis.RepositoryStatus
import RepoDocs.Proofs.Process.Duo
import RepoDocs.Proofs.Store.Account
import RepoDocs.Proofs.Analysis.Independence
import RepoDocs.Proofs.Text.ByteOrder
import RepoDocs.Proofs.Tree.Path
import RepoDocs.Proofs.Tree.Preorder
import RepoDocs.Proofs.Tree.Listing
import RepoDocs.Proofs.Grammar.Places
import RepoDocs.Proofs.Outline.Declarations
import RepoDocs.Proofs.Outline.Dialects
import RepoDocs.Proofs.Outline.Headers
import RepoDocs.Proofs.Outline.RoundTrip
import RepoDocs.Proofs.Process.Course
import RepoDocs.Proofs.Analysis.Generation
import RepoDocs.Proofs.Analysis.Description
import RepoDocs.Proofs.Process.Crowd
import RepoDocs.Proofs.Analysis.Drafting
import RepoDocs.Proofs.Json.Lexical
import RepoDocs.Proofs.Json.Numeral
import RepoDocs.Proofs.Json.Writing
import RepoDocs.Proofs.Json.Reading
import RepoDocs.Proofs.Json.Decoding
import RepoDocs.Proofs.Documentation.Suggestions
import RepoDocs.Proofs.Analysis.Contents
import RepoDocs.Proofs.Store.History
import RepoDocs.Proofs.Store.Tables
import RepoDocs.Proofs.Session.Register
import RepoDocs.Proofs.Process.Deadline
import RepoDocs.Proofs.Analysis.Timeliness
import RepoDocs.Proofs.Json.Coding
import RepoDocs.Proofs.Outline.Encoding
import RepoDocs.Proofs.Grammar.Rows
import RepoDocs.Proofs.Grammar.Notes
import RepoDocs.Proofs.Script.Rows
import RepoDocs.Proofs.Tree.Order
import RepoDocs.Proofs.Tree.MainFiles
import RepoDocs.Proofs.Process.Passing
import RepoDocs.Proofs.Process.Likeness
import RepoDocs.Proofs.Analysis.Canonical
import RepoDocs.Proofs.Documentation.Encoding
import RepoDocs.Proofs.Analysis.Watching
import RepoDocs.Proofs.Analysis.Polling
import RepoDocs.Proofs.Repository.Coordinates
import RepoDocs.Proofs.Outline.Exports
import RepoDocs.Proofs.GitHub.Files
import RepoDocs.Proofs.Analysis.Attending
import RepoDocs.Proofs.Analysis.Lone
import RepoDocs.Proofs.CommandLine.Requests
import RepoDocs.Proofs.CommandLine.Commands
import RepoDocs.Proofs.Grammar.Faults
import RepoDocs.Proofs.Job.Events
import RepoDocs.Proofs.Outline.Numerals
import RepoDocs.Proofs.Outline.Quotations
import RepoDocs.Proofs.Outline.Defaults
import RepoDocs.Proofs.Documentation.Excerpts
