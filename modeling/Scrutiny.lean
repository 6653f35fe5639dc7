import Scrutiny.Analysis.Commit
import Scrutiny.Analysis.Error
import Scrutiny.Analysis.Report
import Scrutiny.Analysis.Run
import Scrutiny.CommandLine.Invocation
import Scrutiny.CommandLine.Options
import Scrutiny.CommandLine.Reply
import Scrutiny.Config.Basic
import Scrutiny.Config.File
import Scrutiny.Criticism
import Scrutiny.Detect.Clones
import Scrutiny.Detect.Coverage
import Scrutiny.Detect.Imports
import Scrutiny.Detect.Normal
import Scrutiny.Detect.Rules
import Scrutiny.Detect.Scope
import Scrutiny.Detect.Secrets
import Scrutiny.Digest.Fingerprint
import Scrutiny.Digest.Sha256
import Scrutiny.Finding
import Scrutiny.Json.Parser
import Scrutiny.Json.Printer
import Scrutiny.Json.Value
import Scrutiny.Main
import Scrutiny.Path
import Scrutiny.Preference.Entry
import Scrutiny.Preference.Log
import Scrutiny.Proofs.Criticism
import Scrutiny.Proofs.Detect.Clones
import Scrutiny.Proofs.Detect.Secrets
import Scrutiny.Proofs.Firsts
import Scrutiny.Proofs.Identity
import Scrutiny.Proofs.Json.RoundTrip
import Scrutiny.Proofs.Path
import Scrutiny.Proofs.Preference.Bullet
import Scrutiny.Proofs.Preference.File
import Scrutiny.Proofs.Preference.Log
import Scrutiny.Proofs.Preference.RoundTrip
import Scrutiny.Proofs.State.Progress
import Scrutiny.Proofs.State.Rejection
import Scrutiny.Proofs.State.Run
import Scrutiny.Proofs.State.Steps
import Scrutiny.Proofs.Text.Lines
import Scrutiny.Proofs.Text.Matcher
import Scrutiny.Proofs.Time.Calendar
import Scrutiny.Proofs.Time.Date
import Scrutiny.Proofs.Time.Instant
import Scrutiny.Proofs.Tree.Flat
import Scrutiny.Proofs.Tree.Resolution
import Scrutiny.Proofs.Tree.Saving
import Scrutiny.Proofs.Tree.View
import Scrutiny.Proofs.Watch.Accounts
import Scrutiny.Proofs.Watch.Interleaving
import Scrutiny.Proofs.Watch.Ledger
import Scrutiny.Proofs.Worklist.Document
import Scrutiny.Proofs.Worklist.File
import Scrutiny.Proofs.Worklist.History
import Scrutiny.Review
import Scrutiny.SourceFile
import Scrutiny.Text.CharClass
import Scrutiny.Text.CharRanges
import Scrutiny.Text.Lines
import Scrutiny.Text.Matcher
import Scrutiny.Time.Date
import Scrutiny.Time.Instant
import Scrutiny.Tree.Basic
import Scrutiny.Tree.Glob
import Scrutiny.Tree.IgnoreFile
import Scrutiny.Tree.Node
import Scrutiny.Tree.Walk
import Scrutiny.Watch.Batcher
import Scrutiny.Watch.Classification
import Scrutiny.Watch.Event
import Scrutiny.Watch.Filter
import Scrutiny.Watch.Session
import Scrutiny.Watch.Timeline
import Scrutiny.Watch.Watcher
import Scrutiny.Worklist.Basic
import Scrutiny.Worklist.File
import Scrutiny.Proofs.Detect.Scope
import Scrutiny.Proofs.Analysis.Incremental
import Scrutiny.Proofs.Watch.Chronicle
import Scrutiny.Proofs.Watch.Debounce
import Scrutiny.Proofs.Detect.Words
import Scrutiny.Proofs.Text.CharClass
import Scrutiny.Proofs.Detect.ImportClause
import Scrutiny.Proofs.Detect.ImportForm
import Scrutiny.Proofs.Detect.Imports
import Scrutiny.Proofs.Worklist.RoundTrip
import Scrutiny.Proofs.State.Failure
import Scrutiny.Proofs.Tree.Descent
import Scrutiny.Proofs.Tree.Resaving
import Scrutiny.Proofs.Tree.Walk
import Scrutiny.Proofs.Analysis.Collection
import Scrutiny.Proofs.Tree.Filling
import Scrutiny.Proofs.Analysis.Repetition
import Scrutiny.Proofs.Stripping
import Scrutiny.Proofs.Joining
import Scrutiny.Proofs.Watch.Notices
import Scrutiny.Proofs.Analysis.Clock
import Scrutiny.Proofs.Analysis.Isolation
import Scrutiny.Proofs.Watch.RuleDocuments
import Scrutiny.Proofs.Watch.Settling
import Scrutiny.Proofs.Detect.Scanning
import Scrutiny.Proofs.Detect.Normal
import Scrutiny.Proofs.Detect.Erasure
import Scrutiny.Proofs.Detect.Involvement
import Scrutiny.Proofs.State.Reviewing
import Scrutiny.Proofs.Detect.ImportRanges
import Scrutiny.Proofs.Preference.Layout
import Scrutiny.Proofs.Detect.PackageImports
import Scrutiny.Proofs.Detect.SecretLines
import Scrutiny.Proofs.Text.LineEndings
import Scrutiny.Proofs.Detect.ImportAgreement
import Scrutiny.Proofs.Detect.RuleAttribution
import Scrutiny.Proofs.Analysis.Pruning
import Scrutiny.Proofs.Watch.ColdScan
import Scrutiny.Proofs.Detect.Candidates
import Scrutiny.Proofs.Detect.Negation
import Scrutiny.Proofs.Digest.Polynomial
import Scrutiny.Proofs.Digest.Numeral
import Scrutiny.Proofs.Detect.Fingerprints
import Scrutiny.Proofs.Detect.ImportSpacing
