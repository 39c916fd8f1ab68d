import OracleQa.Interaction.Prog
import OracleQa.Model.Types
import OracleQa.Text.Exposition

/-! The endpoints of `server.rs` that only read: health, statistics and metrics. Each takes its
snapshots one after the other. -/

namespace OracleQa.Server
open Interaction Text

/-- The part of `RuntimeHealth` that the log monitor alone writes. -/
structure MonitorHealth where
  websocketConnected : Bool
  lastWebsocketConnectedAt : Option String
  lastWebsocketMessageAt : Option String
  lastMonitorError : Option String
  deriving DecidableEq

def MonitorHealth.default : MonitorHealth := ⟨false, none, none, none⟩

structure HealthSnapshot where
  monitor : MonitorHealth
  runtime : RuntimeHealth

structure StatsSnapshot where
  stats : OracleStats
  lastEvaluationAt : Option String

inductive Probe
  | getSlot
  | getBalance (key : Pubkey)
  | head (url : String)
  | readHealth
  | readStats
  | elapsedSecs

@[reducible] def Probe.Reply : Probe → Type
  | getSlot => Except String Nat
  | getBalance _ => Except String Nat
  | head _ => Except String Nat
  | readHealth => HealthSnapshot
  | readStats => StatsSnapshot
  | elapsedSecs => Nat

abbrev Handler (α : Type) := Prog Probe Probe.Reply α

def probe (p : Probe) : Handler p.Reply := Prog.ask p

inductive Body
  | json (j : Json)
  | text (s : String)

structure Response where
  status : Nat
  body : Body

section
variable (crates : Crates) (cfg : OracleConfig)

/-- Not found, say, is still an answer: both 2xx and 4xx count as reachable. -/
def registryProbe : Handler Bool := do
  match cfg.evidenceRegistryUrls with
  | [] => return false
  | base :: _ =>
    match ← probe (.head (String.ofList (base.toList.rdropWhile (· == '/')))) with
    | .ok status => return (200 ≤ status && status < 300) || (400 ≤ status && status < 500)
    | .error _ => return false

def optionJson {α : Type} (f : α → Json) : Option α → Json
  | some a => f a
  | none => .null

def natJson (n : Nat) : Json := .number (.posInt (.ofNat n))

/-- The members are in the order of the sorted map that `json!` builds. -/
def healthJson (chainOk registryOk : Bool) (balance : Option Nat) (h : HealthSnapshot) : Json :=
  .object [
    ("chain_connected", .bool chainOk),
    ("database_enabled", .bool cfg.databaseEnabled),
    ("deliveries_observed", natJson h.runtime.deliveriesObserved),
    ("last_monitor_error", optionJson .string h.monitor.lastMonitorError),
    ("last_seen_slot", natJson h.runtime.lastSeenSlot),
    ("last_websocket_connected_at", optionJson .string h.monitor.lastWebsocketConnectedAt),
    ("last_websocket_message_at", optionJson .string h.monitor.lastWebsocketMessageAt),
    ("oracle_balance_lamports", optionJson natJson balance),
    ("oracle_pubkey", .string (crates.pubkeyToString cfg.oraclePubkey)),
    ("program_id", .string (crates.pubkeyToString cfg.escrowProgramId)),
    ("queue_depth", natJson h.runtime.queueDepth),
    ("registry_reachable", .bool registryOk),
    -- told by the chain alone
    ("status", .string (if chainOk then "healthy" else "degraded")),
    ("strict_profile", .bool cfg.strictProfile),
    ("websocket_connected", .bool h.monitor.websocketConnected)]

def isOk {ε α : Type} : Except ε α → Bool
  | .ok _ => true
  | .error _ => false

def health : Handler Response := do
  let slot ← probe .getSlot
  let balance ← probe (.getBalance cfg.oraclePubkey)
  let registryOk ← registryProbe cfg
  let runtime ← probe .readHealth
  let chainOk := isOk slot
  return ⟨if chainOk && runtime.monitor.websocketConnected then 200 else 503,
    .json (healthJson crates cfg chainOk registryOk balance.toOption runtime)⟩

end

def statsJson (s : StatsSnapshot) (uptime : Nat) : Json :=
  .object [
    ("total_evaluated", natJson s.stats.totalEvaluated),
    ("total_approved", natJson s.stats.totalApproved),
    ("total_rejected", natJson s.stats.totalRejected),
    ("total_errors", natJson s.stats.totalErrors),
    ("total_dead_letter", natJson s.stats.totalDeadLetter),
    ("total_evidence_fetch_failures", natJson s.stats.totalEvidenceFetchFailures),
    ("uptime_seconds", natJson uptime),
    ("last_evaluation_at", optionJson .string s.lastEvaluationAt)]

def stats : Handler Response := do
  let stats ← probe .readStats
  let uptime ← probe .elapsedSecs
  return ⟨200, .json (statsJson stats uptime)⟩

def exposition (name help kind : String) (value : Nat) : String :=
  "# HELP " ++ name ++ " " ++ help ++ "\n# TYPE " ++ name ++ " " ++ kind ++ "\n" ++ name ++ " " ++
    value.repr ++ "\n"

def metricsBody (stats : OracleStats) (runtime : HealthSnapshot) (uptime : Nat) : String :=
  exposition "oracle_qa_uptime_seconds" "Process uptime in seconds" "counter" uptime ++
  exposition "oracle_qa_total_evaluated" "Total evaluations completed" "counter"
    stats.totalEvaluated ++
  exposition "oracle_qa_total_approved" "Total evaluations approved" "counter"
    stats.totalApproved ++
  exposition "oracle_qa_total_rejected" "Total evaluations rejected" "counter"
    stats.totalRejected ++
  exposition "oracle_qa_total_errors" "Total pipeline errors" "counter" stats.totalErrors ++
  exposition "oracle_qa_total_dead_letter" "Total jobs moved to dead_letter" "counter"
    stats.totalDeadLetter ++
  exposition "oracle_qa_total_evidence_fetch_failures"
    "Total evidence registry fetch failures (post-retry)" "counter"
    stats.totalEvidenceFetchFailures ++
  exposition "oracle_qa_queue_depth" "Current job channel queue depth" "gauge"
    runtime.runtime.queueDepth ++
  exposition "oracle_qa_websocket_connected"
    "1 when the chain WebSocket subscription is active" "gauge"
    (if runtime.monitor.websocketConnected then 1 else 0) ++
  exposition "oracle_qa_deliveries_observed"
    "Monotonic count of delivery events accepted into the pipeline" "counter"
    runtime.runtime.deliveriesObserved ++
  exposition "oracle_qa_last_seen_slot" "Highest Solana slot observed by the chain monitor" "gauge"
    runtime.runtime.lastSeenSlot

def metrics : Handler Response := do
  let stats ← probe .readStats
  let runtime ← probe .readHealth
  let uptime ← probe .elapsedSecs
  return ⟨200, .text (metricsBody stats.stats runtime uptime)⟩

inductive Endpoint
  | health
  | stats
  | metrics
  deriving DecidableEq

def Endpoint.handler (crates : Crates) (cfg : OracleConfig) : Endpoint → Handler Response
  | health => Server.health crates cfg
  | stats => Server.stats
  | metrics => Server.metrics

end OracleQa.Server
