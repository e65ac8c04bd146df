import TypeIgnore.Command.Arguments
import TypeIgnore.Command.Basic
import TypeIgnore.Command.Invocation
import TypeIgnore.Command.Schema
import TypeIgnore.Config.Settings
import TypeIgnore.Config.Toml
import TypeIgnore.Diagnostic.Basic
import TypeIgnore.Diagnostic.Path
import TypeIgnore.Diagnostic.Reason
import TypeIgnore.Digest.Sha256
import TypeIgnore.Edit.Partition
import TypeIgnore.Edit.Policy
import TypeIgnore.Edit.Silence
import TypeIgnore.Glob.Expression
import TypeIgnore.Glob.Match
import TypeIgnore.Glob.Syntax
import TypeIgnore.Json.Basic
import TypeIgnore.Json.Printer
import TypeIgnore.Json.Reader
import TypeIgnore.Json.Token
import TypeIgnore.Log.Plain
import TypeIgnore.Log.Record
import TypeIgnore.Main
import TypeIgnore.Marker.CodeSet
import TypeIgnore.Marker.Comment
import TypeIgnore.Marker.Quoted
import TypeIgnore.Marker.Request
import TypeIgnore.Marker.Synthesis
import TypeIgnore.Path.Basic
import TypeIgnore.Proofs.Edit.Changes
import TypeIgnore.Proofs.Edit.LineBreaks
import TypeIgnore.Proofs.Edit.Order
import TypeIgnore.Proofs.Edit.Partition
import TypeIgnore.Proofs.Edit.Structure
import TypeIgnore.Proofs.Edit.Suppression
import TypeIgnore.Proofs.Edit.Verdicts
import TypeIgnore.Proofs.Json.RoundTrip
import TypeIgnore.Proofs.Marker.Blanket
import TypeIgnore.Proofs.Marker.Codes
import TypeIgnore.Proofs.Marker.Coverage
import TypeIgnore.Proofs.Marker.Descriptions
import TypeIgnore.Proofs.Marker.Maintenance
import TypeIgnore.Proofs.Marker.Reading
import TypeIgnore.Proofs.Marker.Removal
import TypeIgnore.Proofs.Marker.Requests
import TypeIgnore.Proofs.Marker.Stability
import TypeIgnore.Proofs.Marker.Synthesis
import TypeIgnore.Proofs.Marker.Undo
import TypeIgnore.Proofs.Marker.Union
import TypeIgnore.Proofs.Path.NormalForm
import TypeIgnore.Proofs.Path.Order
import TypeIgnore.Proofs.Path.Reported
import TypeIgnore.Proofs.Path.Resolution
import TypeIgnore.Proofs.Receipt.RoundTrip
import TypeIgnore.Proofs.Render.Annotations
import TypeIgnore.Proofs.Report.Codes
import TypeIgnore.Proofs.Report.Grammar
import TypeIgnore.Proofs.Report.Printing
import TypeIgnore.Proofs.Report.Reading
import TypeIgnore.Proofs.Run.Accounting
import TypeIgnore.Proofs.Run.DryRun
import TypeIgnore.Proofs.Run.Effects
import TypeIgnore.Proofs.Run.Independence
import TypeIgnore.Proofs.Run.Outcome
import TypeIgnore.Proofs.Run.Planning
import TypeIgnore.Proofs.Run.Spellings
import TypeIgnore.Proofs.Run.Stages
import TypeIgnore.Proofs.Run.Tasks
import TypeIgnore.Proofs.Source.ByteLines
import TypeIgnore.Proofs.Source.ByteMap
import TypeIgnore.Proofs.Source.ByteReading
import TypeIgnore.Proofs.Source.ByteScanner
import TypeIgnore.Proofs.Source.ByteSimulation
import TypeIgnore.Proofs.Source.Classification
import TypeIgnore.Proofs.Source.Composition
import TypeIgnore.Proofs.Source.LineEnds
import TypeIgnore.Proofs.Source.Lines
import TypeIgnore.Proofs.Source.Literals
import TypeIgnore.Proofs.Source.Lookahead
import TypeIgnore.Proofs.Source.Nesting
import TypeIgnore.Proofs.Source.Reading
import TypeIgnore.Proofs.Source.Regions
import TypeIgnore.Proofs.Source.Statements
import TypeIgnore.Proofs.Text.Number
import TypeIgnore.Proofs.Text.Pieces
import TypeIgnore.Proofs.Text.Trim
import TypeIgnore.Proofs.Text.Utf8
import TypeIgnore.Proofs.Time.RoundTrip
import TypeIgnore.Proofs.Tree.Programs
import TypeIgnore.Proofs.Tree.Replacement
import TypeIgnore.Receipt.Basic
import TypeIgnore.Receipt.Format
import TypeIgnore.Render.Annotation
import TypeIgnore.Render.Basic
import TypeIgnore.Render.Explain
import TypeIgnore.Render.Markdown
import TypeIgnore.Render.Summary
import TypeIgnore.Report.Basic
import TypeIgnore.Report.Entry
import TypeIgnore.Run.Basic
import TypeIgnore.Run.FileTask
import TypeIgnore.Run.Notice
import TypeIgnore.Run.Scope
import TypeIgnore.Source.Line
import TypeIgnore.Source.Map
import TypeIgnore.Source.Scanner
import TypeIgnore.Text.Basic
import TypeIgnore.Text.Number
import TypeIgnore.Text.Utf8
import TypeIgnore.Time.Timestamp
import TypeIgnore.Tree.Access
import TypeIgnore.Tree.Basic
import TypeIgnore.Tree.Disk
