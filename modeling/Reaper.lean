import Reaper.Path.Printer
import Reaper.Selector.Grammar
import Reaper.Settings.Wire
import Reaper.Bucket.Waiting
import Reaper.Json.Pointer
import Reaper.Controller
import Reaper.Main
import Reaper.Proofs.Lease.SelfFencing
import Reaper.Proofs.Lease.Contest
import Reaper.Proofs.Evaluation.RateOfCalls
import Reaper.Proofs.Evaluation.Isolation
import Reaper.Proofs.Bucket.Window
import Reaper.Proofs.Reconciler.Removal
import Reaper.Proofs.Reconciler.Pacing
import Reaper.Proofs.Reconciler.Totals
import Reaper.Proofs.Selector.Fields
import Reaper.Proofs.Selector.Labels
import Reaper.Proofs.Selector.Agreement
import Reaper.Proofs.Binary64.Grid
import Reaper.Proofs.Binary64.Values
import Reaper.Proofs.Retry.Draws
import Reaper.Proofs.Retry.Delays
import Reaper.Proofs.Bucket.Rounded
import Reaper.Proofs.Lease.FirstTick
import Reaper.Proofs.Reconciler.Finalizing
import Reaper.Proofs.Registry.Budget
import Reaper.Proofs.Evaluation.Batches
import Reaper.Proofs.Evaluation.Counters
import Reaper.Proofs.Retry.Course
import Reaper.Proofs.Ttl.Monotone
import Reaper.Proofs.Ttl.CreationTime
import Reaper.Proofs.Path.Addresses
import Reaper.Proofs.Path.QuotedKeys
import Reaper.Proofs.Policy.Resolution
import Reaper.Proofs.Condition.MalformedPaths
import Reaper.Proofs.Condition.Integers
import Reaper.Proofs.Bucket.Waits
import Reaper.Proofs.Bucket.Ideal
import Reaper.Proofs.Registry.FailedEnsure
import Reaper.Proofs.Json.RoundTrip
import Reaper.Proofs.Policy.RoundTrip
import Reaper.Proofs.View.Edges
import Reaper.Proofs.Lease.StepDown
import Reaper.Proofs.Reconciler.Pruning
