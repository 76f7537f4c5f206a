import TemporalMonitor.Arguments
import TemporalMonitor.Arguments.Similarity
import TemporalMonitor.Binary64
import TemporalMonitor.Binary64.Fraction
import TemporalMonitor.ByteStream
import TemporalMonitor.Command
import TemporalMonitor.Command.Run
import TemporalMonitor.Csv
import TemporalMonitor.Csv.Scan
import TemporalMonitor.Csv.Sheet
import TemporalMonitor.Csv.Writer
import TemporalMonitor.FileTree
import TemporalMonitor.Formula
import TemporalMonitor.Formula.Text
import TemporalMonitor.Gzip
import TemporalMonitor.Gzip.Bits
import TemporalMonitor.Gzip.Checksum
import TemporalMonitor.Gzip.Deflate
import TemporalMonitor.Gzip.Huffman
import TemporalMonitor.Gzip.Inflate
import TemporalMonitor.Json.Token
import TemporalMonitor.Json.Value
import TemporalMonitor.Log
import TemporalMonitor.Main
import TemporalMonitor.Monitor
import TemporalMonitor.Observer
import TemporalMonitor.Oracle
import TemporalMonitor.Path
import TemporalMonitor.Progression
import TemporalMonitor.Progression.Binding
import TemporalMonitor.Progression.Lookup
import TemporalMonitor.Proofs.Batch
import TemporalMonitor.Proofs.ConstantStream
import TemporalMonitor.Proofs.Counts
import TemporalMonitor.Proofs.Fragment
import TemporalMonitor.Proofs.History
import TemporalMonitor.Proofs.InfiniteTrace
import TemporalMonitor.Proofs.OnDemand
import TemporalMonitor.Proofs.Parallel
import TemporalMonitor.Proofs.Reading
import TemporalMonitor.Proofs.Residual
import TemporalMonitor.Proofs.RunOutcome
import TemporalMonitor.Proofs.Session
import TemporalMonitor.Proofs.ThreeValued
import TemporalMonitor.Properties
import TemporalMonitor.Properties.Build
import TemporalMonitor.Properties.Load
import TemporalMonitor.Properties.Reader
import TemporalMonitor.Report
import TemporalMonitor.Run
import TemporalMonitor.Signature
import TemporalMonitor.Source
import TemporalMonitor.Statistics
import TemporalMonitor.Text.Blank
import TemporalMonitor.Text.Digits
import TemporalMonitor.Text.GraphemeExtender
import TemporalMonitor.Text.Quoted
import TemporalMonitor.Text.Ranges
import TemporalMonitor.Text.Unprintable
import TemporalMonitor.Text.Utf8
import TemporalMonitor.Trace.File
import TemporalMonitor.Trace.Printer
import TemporalMonitor.Trace.Reader
import TemporalMonitor.Proofs.FiniteTrace
import TemporalMonitor.Proofs.Building
import TemporalMonitor.Proofs.Independence
import TemporalMonitor.Proofs.Selection
import TemporalMonitor.Proofs.Compression
import TemporalMonitor.Proofs.Records
import TemporalMonitor.Proofs.AnnotatedTrace
import TemporalMonitor.Proofs.Files
import TemporalMonitor.Proofs.ReadBack
import TemporalMonitor.Proofs.Calls
import TemporalMonitor.Proofs.Lookahead
import TemporalMonitor.Proofs.Protocol
import TemporalMonitor.Proofs.Faithfulness
import TemporalMonitor.Proofs.Columns
import TemporalMonitor.Proofs.Duality
import TemporalMonitor.Proofs.Verdicts
import TemporalMonitor.Proofs.Growth
import TemporalMonitor.Proofs.Sharing
import TemporalMonitor.Proofs.JsonForm
import TemporalMonitor.Proofs.ReportCounts
import TemporalMonitor.Proofs.Unambiguity
import TemporalMonitor.Proofs.OutputNames
