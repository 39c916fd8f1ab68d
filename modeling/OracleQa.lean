import OracleQa.Interaction.Timeout
import OracleQa.Spec.Profile
import OracleQa.Model.Calls
import OracleQa.Model.Pipeline
import OracleQa.Spec.Settlement
import OracleQa.Model.Chain
import OracleQa.Model.Server
import OracleQa.Model.World
import OracleQa.Interaction.Machine
import OracleQa.Model.System
import OracleQa.Spec.Footprint
import OracleQa.Spec.Agreement
import OracleQa.Interaction.Gate
import OracleQa.Spec.Closing
import OracleQa.Spec.SettledRow
import OracleQa.Spec.FailedRow
import OracleQa.Spec.Sequential
import OracleQa.Spec.DeliveryJob
import OracleQa.Spec.LedgerMode
import OracleQa.Spec.Lifecycle
import OracleQa.Spec.Dedupe
import OracleQa.Spec.Watermark
import OracleQa.Spec.RunBudget
import OracleQa.Spec.MemoryWorker
import OracleQa.Spec.Detection
import OracleQa.Spec.Snapshot
import OracleQa.Spec.Recording
import OracleQa.Spec.SettledComplete
import OracleQa.Spec.AuditTrail
import OracleQa.Spec.ResolutionHash
import OracleQa.Spec.Approved
import OracleQa.Spec.Readable
import OracleQa.Text.Schema
import OracleQa.Model.Documents
import OracleQa.Interaction.SlidingWindow
import OracleQa.Spec.RateLimit
import OracleQa.Spec.UpsertFold
import OracleQa.Spec.Lookup
import OracleQa.Text.Base64
import OracleQa.Spec.LogEvents
import OracleQa.Spec.Failover
import OracleQa.Interaction.Paging
import OracleQa.Spec.Backfill
import OracleQa.Spec.BackfillCut
import OracleQa.Spec.RateConcurrent
import OracleQa.Spec.SlotOrder
import OracleQa.Spec.Candidates
import OracleQa.Interaction.Marks
import OracleQa.Spec.BackfillBudget
import OracleQa.Model.Config
import OracleQa.Spec.OperatorToken
import OracleQa.Spec.RetrySchedule
import OracleQa.Model.Fleet
import OracleQa.Spec.FleetAgreement
import OracleQa.Spec.Scrape
import OracleQa.Spec.Outcome
import OracleQa.Spec.Response
import OracleQa.Spec.Escrow
import OracleQa.Spec.CatchUp
import OracleQa.Spec.Isolation
import OracleQa.Spec.Recovery
import OracleQa.Spec.Relaxation
import OracleQa.Spec.Settings
import OracleQa.Spec.Restart
