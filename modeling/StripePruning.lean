import StripePruning.Bitmap.Roaring
import StripePruning.CommandLine.Parse
import StripePruning.Delimited.Load
import StripePruning.Evaluation.Evaluator
import StripePruning.Index.Config
import StripePruning.Lookup.Series
import StripePruning.Main
import StripePruning.Settings.Document
import StripePruning.Sweep.Run
import StripePruning.Table.Rearrangement
import StripePruning.Workload.Replay
import StripePruning.Proofs.Evaluation.Acceptance
import StripePruning.Proofs.Workload.Groups
import StripePruning.Proofs.Workload.Ranges
import StripePruning.Proofs.Index.Construction
import StripePruning.Proofs.Sweep.Failures
import StripePruning.Proofs.Sweep.Restriction
import StripePruning.Proofs.Table.Rearrangements
import StripePruning.Proofs.Table.Order
import StripePruning.Proofs.Bitmap.Counts
import StripePruning.Proofs.Index.Runs
import StripePruning.Proofs.Index.StripeSets
import StripePruning.Proofs.Evaluation.Denials
import StripePruning.Proofs.Evaluation.Counts
import StripePruning.Proofs.Index.Coarsening
import StripePruning.Proofs.Column.Words
import StripePruning.Lookup.Checked
import StripePruning.Proofs.Random.Checked
import StripePruning.Proofs.Number.Order
import StripePruning.Proofs.Lookup.Checked
import StripePruning.Proofs.Table.Uniform
import StripePruning.Proofs.Workload.Grammar
import StripePruning.Proofs.Workload.Traces
import StripePruning.Proofs.Workload.Prefixes
import StripePruning.Proofs.Delimited.RoundTrip
import StripePruning.Proofs.Bitmap.Portable
import StripePruning.Proofs.CommandLine.Settings
import StripePruning.Proofs.Bitmap.Runs
import StripePruning.Proofs.Bitmap.Means
