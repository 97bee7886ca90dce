import SprintLedger.Main
import SprintLedger.Proofs.Json.Spelling
import SprintLedger.Proofs.Json.Strings
import SprintLedger.Proofs.Json.Numerals
import SprintLedger.Proofs.Json.Values
import SprintLedger.Proofs.Json.Reading
import SprintLedger.Proofs.Json.Documents
import SprintLedger.Proofs.Json.Records
import SprintLedger.Proofs.Json.Printing
import SprintLedger.Proofs.Json.Doubles
import SprintLedger.Proofs.Json.NumberTexts
import SprintLedger.Proofs.Ledger.Reading
import SprintLedger.Proofs.Ledger.Representable
import SprintLedger.Proofs.Ledger.RoundTrip
import SprintLedger.Proofs.FileTree.Writing
import SprintLedger.Proofs.Ledger.Runs
import SprintLedger.Proofs.Workspace.Runs
import SprintLedger.Proofs.Ledger.Tidying
import SprintLedger.Proofs.Workspace.Preservation
import SprintLedger.Proofs.Sprint.Documents
import SprintLedger.Proofs.Report.Records
import SprintLedger.Proofs.Report.Table
import SprintLedger.Proofs.FileTree.Entries
import SprintLedger.Proofs.Workspace.Warnings
import SprintLedger.Proofs.Workspace.Reports
import SprintLedger.Proofs.Program.Atomicity
import SprintLedger.Proofs.Workspace.Interleavings
import SprintLedger.Proofs.Text.Decimals
import SprintLedger.Proofs.Calendar
import SprintLedger.Proofs.Instant
import SprintLedger.Proofs.Ledger.Building
import SprintLedger.Proofs.Json.Rearranging
import SprintLedger.Proofs.Ledger.Canonical
import SprintLedger.Proofs.Workspace.Canonical
import SprintLedger.Proofs.Json.NumberCuts
import SprintLedger.Proofs.Json.Truncation
import SprintLedger.Proofs.Ledger.Truncation
import SprintLedger.Proofs.Workspace.Truncation
import SprintLedger.Proofs.Json.Unambiguous
import SprintLedger.Proofs.Json.Members
import SprintLedger.Proofs.Json.NumberRange
import SprintLedger.Proofs.Ledger.Format
import SprintLedger.Proofs.Workspace.Discovery
import SprintLedger.Proofs.Sprint.NumberTexts
import SprintLedger.Proofs.Ledger.Addressing
import SprintLedger.Proofs.Stamps
import SprintLedger.Proofs.Report.Colors
import SprintLedger.Proofs.Workspace.DocumentNames
import SprintLedger.Proofs.Report.Agreement
import SprintLedger.Proofs.Json.Grammar
import SprintLedger.Proofs.Json.Skipping
import SprintLedger.Proofs.Config.Reading
import SprintLedger.Proofs.Config.Settings
import SprintLedger.Proofs.CommandLine.Arguments
import SprintLedger.Proofs.CommandLine.Placement
import SprintLedger.Proofs.CommandLine.Directory
import SprintLedger.Proofs.Sprint.Rejection
import SprintLedger.Proofs.Workspace.Order
