import Conformance.Case
import Conformance.CommandLine.Arguments
import Conformance.CommandLine.Scan
import Conformance.Directive
import Conformance.Errno
import Conformance.Error
import Conformance.Host.Builtin
import Conformance.Host.CommandWord
import Conformance.Host.FileTree
import Conformance.Host.Glob
import Conformance.Host.Image
import Conformance.Host.Interpret
import Conformance.Host.Jobs
import Conformance.Host.Launch
import Conformance.Host.Proceed
import Conformance.Host.Redirection
import Conformance.Host.Run
import Conformance.Host.Signal
import Conformance.Host.SimpleCommand
import Conformance.Host.Standard
import Conformance.Host.Step
import Conformance.Host.Streaming
import Conformance.Host.Tool.Catalog
import Conformance.Host.Tool.Dump
import Conformance.Host.Tool.Edit.Program
import Conformance.Host.Tool.Edit.Run
import Conformance.Host.Tool.Files
import Conformance.Host.Tool.Invoke
import Conformance.Host.Tool.Lines
import Conformance.Host.Tool.Listing
import Conformance.Host.Tool.Plan
import Conformance.Host.Tool.Regex
import Conformance.Host.Tool.Search
import Conformance.Host.Tool.Sort
import Conformance.Host.Tool.Stream
import Conformance.Host.Tool.Transfer
import Conformance.Host.Tool.Value
import Conformance.Host.Unwinding
import Conformance.Host.World
import Conformance.Json.Quoted
import Conformance.Json.Record
import Conformance.Lookup
import Conformance.Main
import Conformance.Path.Basic
import Conformance.Path.Component
import Conformance.Program
import Conformance.Proofs.CommandLine.Grammar
import Conformance.Proofs.CommandLine.Reading
import Conformance.Proofs.Host.Computer
import Conformance.Proofs.Host.Links
import Conformance.Proofs.Host.LookUp
import Conformance.Proofs.Host.Resolution
import Conformance.Proofs.Host.Verdicts
import Conformance.Proofs.Json.Reader
import Conformance.Proofs.Json.RoundTrip
import Conformance.Proofs.Path.Ending
import Conformance.Proofs.Path.Naming
import Conformance.Proofs.Path.Order
import Conformance.Proofs.Path.Shown
import Conformance.Proofs.Program.Diagnostics
import Conformance.Proofs.Program.Exit
import Conformance.Proofs.Program.Presentation
import Conformance.Proofs.Regrouping
import Conformance.Proofs.Report.Calls
import Conformance.Proofs.Report.Color
import Conformance.Proofs.Report.Emissions
import Conformance.Proofs.Report.JsonLines
import Conformance.Proofs.Report.Records
import Conformance.Proofs.Report.Recovery
import Conformance.Proofs.Report.Summary
import Conformance.Proofs.Report.TextLines
import Conformance.Proofs.Script.Reading
import Conformance.Proofs.Script.Sequence
import Conformance.Proofs.Script.Sleeping
import Conformance.Proofs.Script.Steps
import Conformance.Proofs.Script.Verdict
import Conformance.Proofs.Supervisor.Account
import Conformance.Proofs.Supervisor.Behaviour
import Conformance.Proofs.Supervisor.Judgement
import Conformance.Proofs.Supervisor.Result
import Conformance.Proofs.Supervisor.Scene
import Conformance.Proofs.Supervisor.Warnings
import Conformance.Proofs.Text.Lines
import Conformance.Proofs.Text.Lossy
import Conformance.Proofs.Text.Segments
import Conformance.Proofs.Text.Utf8
import Conformance.Proofs.Time.Binary64
import Conformance.Proofs.Time.Decimal
import Conformance.Proofs.Time.Exactness
import Conformance.Proofs.Time.Rounding
import Conformance.Proofs.Time.Shown
import Conformance.Proofs.Time.Timeout
import Conformance.Proofs.Totals
import Conformance.Proofs.Walk.Aborts
import Conformance.Proofs.Walk.Below
import Conformance.Proofs.Walk.Completion
import Conformance.Proofs.Walk.Depth
import Conformance.Proofs.Walk.Encounters
import Conformance.Proofs.Walk.Follows
import Conformance.Proofs.Walk.Independence
import Conformance.Proofs.Walk.Limited
import Conformance.Proofs.Walk.Listings
import Conformance.Proofs.Walk.Log
import Conformance.Proofs.Walk.Mirror
import Conformance.Proofs.Walk.Noninterference
import Conformance.Proofs.Walk.Notes
import Conformance.Proofs.Walk.Order
import Conformance.Proofs.Walk.Outcome
import Conformance.Proofs.Walk.Reordering
import Conformance.Proofs.Walk.Run
import Conformance.Proofs.Walk.Selection
import Conformance.Proofs.Walk.Stopping
import Conformance.Proofs.Walk.Trail
import Conformance.Proofs.Walk.Transcript
import Conformance.Report.Reporter
import Conformance.Report.Sink
import Conformance.Runner
import Conformance.Settings
import Conformance.Shell.Arithmetic
import Conformance.Shell.Command
import Conformance.Shell.Condition
import Conformance.Shell.Decimal
import Conformance.Shell.Effect
import Conformance.Shell.Expansion
import Conformance.Shell.Fields
import Conformance.Shell.Options
import Conformance.Shell.Parser
import Conformance.Shell.Pattern
import Conformance.Shell.Printing
import Conformance.Shell.Source
import Conformance.Shell.State
import Conformance.Shell.Token
import Conformance.Supervisor
import Conformance.Text.Blank
import Conformance.Text.Utf8
import Conformance.Time.Binary64
import Conformance.Time.Duration
import Conformance.Time.Numeral
import Conformance.Time.Stamp
import Conformance.Time.Timeout
import Conformance.Totals
import Conformance.Verdict
import Conformance.Walk
import Conformance.Warning
