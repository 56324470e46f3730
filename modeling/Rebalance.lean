import Rebalance.Keyed
import Rebalance.KeyMap
import Rebalance.Fault
import Rebalance.Text.Listing
import Rebalance.Text.Printable
import Rebalance.Text.Quoted
import Rebalance.Binary64
import Rebalance.Decimal.Shortest
import Rebalance.Clock
import Rebalance.Topology.Node
import Rebalance.Topology.Basic
import Rebalance.Topology.Json
import Rebalance.Json.Value
import Rebalance.Json.Write
import Rebalance.Json.Error
import Rebalance.Json.Scan
import Rebalance.Json.Read
import Rebalance.Settings
import Rebalance.Token
import Rebalance.Distinct
import Rebalance.Movement.Basic
import Rebalance.Movement.Record
import Rebalance.Plan
import Rebalance.Decimal.Fixed
import Rebalance.Text.Duration
import Rebalance.Report
import Rebalance.Error
import Rebalance.Cluster
import Rebalance.Commit
import Rebalance.Migration
import Rebalance.Workers
import Rebalance.Run
import Rebalance.Console
import Rebalance.Main
import Rebalance.Proofs.ClockOrder
import Rebalance.Proofs.Delivery
import Rebalance.Proofs.CommitPaths
import Rebalance.Proofs.CommitContract
import Rebalance.Proofs.Interleaving
import Rebalance.Proofs.HaltedRun
import Rebalance.Proofs.Progress
import Rebalance.Proofs.AbortedRun
import Rebalance.Proofs.TopologyChanges
import Rebalance.Proofs.PlannedTasks
import Rebalance.Proofs.JsonReadBack
import Rebalance.Proofs.TopologyDocument
import Rebalance.Proofs.RecordRoundTrip
import Rebalance.Proofs.CachedTopology
import Rebalance.Proofs.ValidTopology
import Rebalance.Proofs.OutcomeLedger
import Rebalance.Proofs.PartitionOwners
import Rebalance.Proofs.PlanLines
import Rebalance.Proofs.MonotoneViews
import Rebalance.Proofs.RetryPlan
import Rebalance.Proofs.ClockLaws
import Rebalance.Proofs.ClockConflicts
import Rebalance.Proofs.MergedNodes
import Rebalance.Proofs.PartitionMoves
import Rebalance.Proofs.BuildVerdict
import Rebalance.Proofs.PlanSelection
import Rebalance.Proofs.MovementProgress
import Rebalance.Proofs.RecordChecks
import Rebalance.Proofs.StoreMigration
