import EventAudit.Command.Arguments
import EventAudit.Command.Run
import EventAudit.Config.Basic
import EventAudit.Config.Json
import EventAudit.Config.Search
import EventAudit.Decimal.Shortest
import EventAudit.Disk
import EventAudit.Event.Basic
import EventAudit.Event.Json
import EventAudit.Event.Registry
import EventAudit.Exclude
import EventAudit.Failure
import EventAudit.FileTree.Basic
import EventAudit.FileTree.Resolve
import EventAudit.FileTree.Walk
import EventAudit.Issue.Audit
import EventAudit.Issue.Basic
import EventAudit.Issue.Report
import EventAudit.Json.Chars
import EventAudit.Json.Fault
import EventAudit.Json.Layout
import EventAudit.Json.Number
import EventAudit.Json.Reader
import EventAudit.Json.Skip
import EventAudit.Keyed
import EventAudit.Main
import EventAudit.Path
import EventAudit.Pattern.Basic
import EventAudit.Pattern.Match
import EventAudit.Plugin
import EventAudit.RawText
import EventAudit.Scan.Basic
import EventAudit.Scan.Files
import EventAudit.Scan.Notice
import EventAudit.Source.Extraction
import EventAudit.Source.Line
import EventAudit.Source.Markers
import EventAudit.Source.Observation
import EventAudit.Text.Blank
import EventAudit.Text.Digits
import EventAudit.Text.Hidden
import EventAudit.Text.Lines
import EventAudit.Text.Quoted
import EventAudit.Text.Search
import EventAudit.Text.Style
import EventAudit.Text.Utf8
import EventAudit.Proofs.Source.CommentScanner
import EventAudit.Proofs.Event.History
import EventAudit.Proofs.Event.Evidence
import EventAudit.Proofs.Issue.Rules
import EventAudit.Proofs.Scan.Observed
import EventAudit.Proofs.Verdict
import EventAudit.Proofs.Issue.ArityReference
import EventAudit.Proofs.Event.Takeover
import EventAudit.Proofs.Reordering
import EventAudit.Proofs.Source.MarkerCall
import EventAudit.Proofs.Text.ByteOrder
import EventAudit.Proofs.Path.Components
import EventAudit.Proofs.Path.Relative
import EventAudit.Proofs.Scan.FileOrder
import EventAudit.Proofs.Scan.Ascending
import EventAudit.Proofs.Issue.Isolation
import EventAudit.Proofs.Issue.Sorted
import EventAudit.Proofs.Issue.Backing
import EventAudit.Proofs.Text.Margin
import EventAudit.Proofs.Source.Formatting
import EventAudit.Proofs.Source.Names
import EventAudit.Proofs.Event.Listing
import EventAudit.Proofs.FileTree.Reach
import EventAudit.Proofs.Scan.Selection
import EventAudit.Proofs.FileTree.Lookup
import EventAudit.Proofs.Path.Plain
import EventAudit.Proofs.Scan.Spelling
import EventAudit.Proofs.Config.RoundTrip
import EventAudit.Proofs.FileTree.Write
import EventAudit.Proofs.Text.Encoding
import EventAudit.Proofs.Source.FirstCall
import EventAudit.Proofs.Source.FireCall
import EventAudit.Proofs.Source.FireName
import EventAudit.Proofs.Path.Ancestors
import EventAudit.Proofs.Source.CreationCall
import EventAudit.Proofs.PluginOwner
import EventAudit.Proofs.Issue.Disagreement
import EventAudit.Proofs.Source.MacroCall
import EventAudit.Proofs.Source.HiddenBlock
import EventAudit.Proofs.FileTree.Place
import EventAudit.Proofs.Config.Upward
import EventAudit.Proofs.Path.Parent
import EventAudit.Proofs.Config.Rounds
import EventAudit.Proofs.Issue.ReadBack
import EventAudit.Proofs.Scan.ByteLines
import EventAudit.Proofs.Text.Lossy
import EventAudit.Proofs.Scan.Display
import EventAudit.Proofs.Text.Ascii
import EventAudit.Proofs.RawText
import EventAudit.Proofs.Path.Shown
import EventAudit.Proofs.Text.Quoted
