import CodeGauge.Json.Reader
import CodeGauge.Main
import CodeGauge.Proofs.Coordinator.Debounce
import CodeGauge.Proofs.Coordinator.Kept
import CodeGauge.Proofs.Coordinator.LastRead
import CodeGauge.Proofs.Coordinator.LateTimers
import CodeGauge.Proofs.Source.Contents
import CodeGauge.Proofs.Coordinator.Accounts
import CodeGauge.Proofs.Coordinator.Lane
import CodeGauge.Proofs.Coordinator.Isolation
import CodeGauge.Proofs.Source.Lines
import CodeGauge.Proofs.Pattern.Reading
import CodeGauge.Proofs.Pattern.Language
import CodeGauge.Proofs.Source.Clean
import CodeGauge.Proofs.Source.TypeRef
import CodeGauge.Proofs.Source.Headers
import CodeGauge.Proofs.FileTree
import CodeGauge.Proofs.Path
import CodeGauge.Proofs.Workspace.Belonging
import CodeGauge.Proofs.Workspace.Assembly
import CodeGauge.Proofs.Coordinator.Drain
import CodeGauge.Proofs.CommandLine.Scan
import CodeGauge.Proofs.Metric.MethodChunks
import CodeGauge.Proofs.Metric.MethodOrder
import CodeGauge.Proofs.Json.Tokens
import CodeGauge.Proofs.Json.RoundTrip
import CodeGauge.Proofs.Time.Reader
import CodeGauge.Proofs.Bundle.Export
import CodeGauge.Proofs.Metric.ClassNames
import CodeGauge.Proofs.Source.Declarators
import CodeGauge.Proofs.Source.FieldLines
import CodeGauge.Proofs.Metric.Nesting
import CodeGauge.Proofs.FileTree.Walks
import CodeGauge.Proofs.Path.Steps
import CodeGauge.Proofs.Workspace.Spellings
import CodeGauge.Proofs.CommandLine.Analysis
import CodeGauge.Proofs.Pattern.Leads
import CodeGauge.Proofs.Source.DeclaredNames
import CodeGauge.Proofs.Metric.References
import CodeGauge.Proofs.Hierarchy
import CodeGauge.Proofs.Metric.FieldUses
import CodeGauge.Proofs.Pattern.Separation
import CodeGauge.Proofs.Metric.DecisionPoints
import CodeGauge.Proofs.Source.NextLine
import CodeGauge.Proofs.Metric.HigherLevels
import CodeGauge.Proofs.Metric.MethodWeights
import CodeGauge.Proofs.Metric.MethodPairs
import CodeGauge.Proofs.Coordinator.Idleness
import CodeGauge.Proofs.Path.Keys
import CodeGauge.Proofs.Coordinator.Published
import CodeGauge.Proofs.Source.ImportLines
import CodeGauge.Proofs.Metric.ImportEffect
import CodeGauge.Proofs.Pattern.Free
import CodeGauge.Proofs.Source.MethodLines
import CodeGauge.Proofs.Source.ListItems
import CodeGauge.Proofs.Source.CanonicalSpelling
import CodeGauge.Proofs.Source.MethodSegments
import CodeGauge.Proofs.Workspace.Siblings
import CodeGauge.Proofs.Metric.MethodEnds
import CodeGauge.Proofs.Source.Drafts
import CodeGauge.Proofs.Metric.ManyMethods
import CodeGauge.Text.Utf8
import CodeGauge.Proofs.Text.Utf8
