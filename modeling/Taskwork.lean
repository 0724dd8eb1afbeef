import Taskwork.Bounds
import Taskwork.Cache.Layout
import Taskwork.Cache.Store
import Taskwork.Decimal.Fixed
import Taskwork.Decimal.Nearest
import Taskwork.Decimal.Shortest
import Taskwork.Decimal.Text
import Taskwork.Execution.Basic
import Taskwork.Execution.Fault
import Taskwork.Execution.Freshness
import Taskwork.Execution.Progress
import Taskwork.FileTools.Arguments
import Taskwork.FileTools.Basic
import Taskwork.Files.Basic
import Taskwork.Files.Change
import Taskwork.Files.Fault
import Taskwork.Files.Open
import Taskwork.Files.Text
import Taskwork.Glob.Literal
import Taskwork.Glob.Pattern
import Taskwork.Glob.Resolve
import Taskwork.Glob.Walk
import Taskwork.Host
import Taskwork.Json.Fault
import Taskwork.Json.Read
import Taskwork.Json.Value
import Taskwork.Number
import Taskwork.Path
import Taskwork.Program.Call
import Taskwork.Program.Format
import Taskwork.Program.Native
import Taskwork.Program.Sample
import Taskwork.Program.Tools
import Taskwork.Project.Discovery
import Taskwork.Recipe.Builtin
import Taskwork.Recipe.Draft
import Taskwork.Recipe.Eval
import Taskwork.Recipe.Evaluation
import Taskwork.Recipe.Expr
import Taskwork.Recipe.Grammar
import Taskwork.Recipe.Operation
import Taskwork.Recipe.Problem
import Taskwork.Recipe.Shown
import Taskwork.Recipe.TaskKeys
import Taskwork.Recipe.Token
import Taskwork.Recipe.Value
import Taskwork.Recipe.Words
import Taskwork.Session.Arguments
import Taskwork.Session.Basic
import Taskwork.Session.Fault
import Taskwork.Shell.Builtin
import Taskwork.Shell.Cursor
import Taskwork.Shell.Field
import Taskwork.Shell.Handlers
import Taskwork.Shell.Interpreter
import Taskwork.Shell.Parser
import Taskwork.Shell.Quoted
import Taskwork.Shell.Script
import Taskwork.Shell.State
import Taskwork.Shell.SyntaxError
import Taskwork.Table
import Taskwork.Task.Basic
import Taskwork.Task.Declaration
import Taskwork.Task.Registry
import Taskwork.Text.Blank
import Taskwork.Text.Hex
import Taskwork.Text.Integer
import Taskwork.Text.Shown
import Taskwork.Text.Unseen
import Taskwork.Text.Utf8
import Taskwork.Yaml.Document
import Taskwork.Yaml.Event
import Taskwork.Yaml.Fault
import Taskwork.Yaml.Lexer
import Taskwork.Yaml.Lookup
import Taskwork.Yaml.Node
import Taskwork.Yaml.Place
import Taskwork.Yaml.Plain
import Taskwork.Yaml.Scalar
import Taskwork.Yaml.Token
import Taskwork.Proofs.Cache.RoundTrip
import Taskwork.Proofs.Shell.Reading
import Taskwork.Proofs.Shell.Quoting
import Taskwork.Proofs.Execution.Order
import Taskwork.Proofs.Shell.Status
import Taskwork.Proofs.Shell.Composition
import Taskwork.Proofs.Execution.Cycles
import Taskwork.Proofs.Shell.Errexit
import Taskwork.Proofs.Shell.Input
import Taskwork.Proofs.Shell.Diagnostics
import Taskwork.Proofs.Shell.Grouping
import Taskwork.Proofs.Shell.Inert
import Taskwork.Proofs.Recipe.Words
import Taskwork.Proofs.Shell.Exits
import Taskwork.Proofs.Shell.Variables
import Taskwork.Proofs.Shell.Copies
import Taskwork.Proofs.Shell.Trees
import Taskwork.Proofs.Execution.Calls
import Taskwork.Proofs.Execution.DryRun
import Taskwork.Proofs.Task.Unknown
import Taskwork.Proofs.Execution.Unknown
import Taskwork.Proofs.Cache.Truncation
import Taskwork.Proofs.Execution.Parsing
import Taskwork.Proofs.Session.Options
import Taskwork.Proofs.Session.Freshness
import Taskwork.Proofs.Execution.Failures
import Taskwork.Proofs.Execution.Staleness
import Taskwork.Proofs.Recipe.Names
import Taskwork.Proofs.Execution.Skipping
import Taskwork.Proofs.Recipe.Options
import Taskwork.Proofs.Yaml.Tags
import Taskwork.Proofs.Path.Clean
import Taskwork.Proofs.Glob.Literal
import Taskwork.Proofs.Recipe.Patterns
import Taskwork.Proofs.Path.Fragments
import Taskwork.Proofs.Path.Relative
import Taskwork.Proofs.Recipe.PathWords
import Taskwork.Proofs.Glob.Escape
import Taskwork.Proofs.Glob.Fragments
import Taskwork.Proofs.Shell.Directory
import Taskwork.Proofs.Shell.Descriptors
import Taskwork.Proofs.Shell.Errors
import Taskwork.Proofs.Shell.Pathnames
import Taskwork.Proofs.Shell.Conditions
import Taskwork.Proofs.Shell.Missing
import Taskwork.Proofs.Shell.Wordless
import Taskwork.Proofs.Shell.Splitting
import Taskwork.Proofs.Shell.Books
import Taskwork.Proofs.FileTools.Removing
import Taskwork.Proofs.FileTools.Moving
import Taskwork.Proofs.Shell.Texts
import Taskwork.Proofs.Task.Indexed
import Taskwork.Proofs.Cache.Indexed
import Taskwork.Proofs.Shell.Advance
