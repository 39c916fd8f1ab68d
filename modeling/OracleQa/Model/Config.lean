import OracleQa.Model.Types

/-! `config.rs`: the configuration, from the environment of the process. -/

namespace OracleQa.Config
open Text

/-- What `from_env` and the ledger pool find on the host. A variable that is not set, or no Unicode,
is `none`. -/
structure Host where
  env : String → Option String
  readKeypairFile : String → Except String Pubkey
  /-- `sla_escrow_api::ID` -/
  escrowApiId : Pubkey
  connect : String → Bool

inductive ConfigError
  | failed (msg : String)
  | panicked (msg : String)
  deriving DecidableEq

def trimText (s : String) : String := String.ofList (trim s.toList)

def splitList (s : String) : List String :=
  ((s.toList.splitOn ',').map fun part => String.ofList (trim part)).filter (· ≠ "")

def parseU32 (s : String) : Option Nat := (parseU64 s).filter (· < 2 ^ 32)

section
variable (env : String → Option String)

def nonBlank (name : String) : Option String := ((env name).map trimText).filter (· ≠ "")

/-- `parse().ok()` and `unwrap_or`. -/
def number (parse : String → Option Nat) (name : String) (default : Nat) : Nat :=
  ((env name).bind parse).getD default

def envBool (name : String) (default : Bool) : Bool :=
  ((env name).map fun s => decide ((trimText s).map Char.toLower ∈ ["1", "true", "yes", "on"])).getD
    default

def evidenceRegistryUrls : List String :=
  let single := [(env "EVIDENCE_REGISTRY_URL").getD "http://localhost:4021"]
  match env "EVIDENCE_REGISTRY_URLS" with
  | some s => if splitList s = [] then single else splitList s
  | none => single

/-- The operator's digest as it is given, or else that of the operator's token. -/
def operatorTokenSha256 (crates : Crates) : Except ConfigError (Option Bytes32) :=
  match nonBlank env "ORACLE_OPERATOR_TOKEN_SHA256" with
  | some hex =>
    match hexDecode hex.toList with
    | none => .error (.failed "ORACLE_OPERATOR_TOKEN_SHA256 must be 64 hex characters")
    | some decoded =>
      if h : decoded.length = 32 then .ok (some ⟨decoded, h⟩)
      else .error (.failed "ORACLE_OPERATOR_TOKEN_SHA256 must decode to 32 bytes")
  | none => .ok ((nonBlank env "ORACLE_OPERATOR_TOKEN").map fun token =>
      crates.sha256 token.toUTF8.data.toList)

end

def oraclePubkey (host : Host) : Except ConfigError Pubkey :=
  match host.env "ORACLE_KEYPAIR_PATH" with
  | none => .error (.failed "ORACLE_KEYPAIR_PATH is required")
  | some path =>
    match host.readKeypairFile path with
    | .ok key => .ok key
    | .error e => .error (.failed ("Failed to read oracle keypair at " ++ path ++ ": " ++ e))

def escrowProgramId (crates : Crates) (host : Host) : Except ConfigError Pubkey :=
  match host.env "ESCROW_PROGRAM_ID" with
  | none => .ok host.escrowApiId
  | some s =>
    match crates.pubkeyFromStr s with
    | some key => .ok key
    | none => .error (.panicked "Invalid ESCROW_PROGRAM_ID")

def fromEnv (crates : Crates) (host : Host) : Except ConfigError OracleConfig := do
  let env := host.env
  let oraclePubkey ← oraclePubkey host
  let escrowProgramId ← escrowProgramId crates host
  let operatorTokenSha256 ← operatorTokenSha256 env crates
  return {
    oraclePubkey, escrowProgramId, operatorTokenSha256
    evaluationTimeoutMs := .ofNat (number env parseU64 "EVALUATION_TIMEOUT_MS" 30000)
    evidenceRegistryUrls := evidenceRegistryUrls env
    evidenceRegistryAuthHeader := nonBlank env "EVIDENCE_REGISTRY_AUTH_HEADER"
    evidenceFetchMaxRetries := .ofNat (number env parseU32 "EVIDENCE_FETCH_MAX_RETRIES" 3)
    evidenceFetchRetryBaseMs := .ofNat (number env parseU64 "EVIDENCE_FETCH_RETRY_BASE_MS" 200)
    databaseEnabled := (nonBlank env "DATABASE_URL").any host.connect
    allowUnauthenticatedManualEvaluate :=
      envBool env "ORACLE_ALLOW_UNAUTHENTICATED_MANUAL_EVALUATE" false
    manualEvaluateRateLimit := number env parseU64 "ORACLE_MANUAL_EVALUATE_RATE_LIMIT" 30
    manualEvaluateRateWindowMs := number env parseU64 "ORACLE_MANUAL_EVALUATE_RATE_WINDOW_MS" 60000
    strictProfile := envBool env "ORACLE_STRICT_PROFILE" true
    deadLetterMaxAttempts := .ofNat (number env parseU32 "ORACLE_DEAD_LETTER_MAX_ATTEMPTS" 5)
    jobChannelCapacity := number env parseU64 "ORACLE_JOB_CHANNEL_CAPACITY" 256
    requireEventMatch := envBool env "ORACLE_REQUIRE_EVENT_MATCH" false
    backfillLookbackSignatures := number env parseU64 "ORACLE_BACKFILL_LOOKBACK_SIGNATURES" 2000 }

/-- `OracleConfig` with the fields that only say where to connect and whom to serve. -/
structure Configuration extends OracleConfig where
  solanaRpcUrl : String
  solanaWsUrl : String
  bindAddr : String
  databaseUrl : Option String
  corsAllowedOrigins : List String

def Configuration.fromEnv (crates : Crates) (host : Host) :
    Except ConfigError Configuration := do
  let env := host.env
  let config ← Config.fromEnv crates host
  return { config with
    solanaRpcUrl := (env "SOLANA_RPC_URL").getD "https://api.devnet.solana.com"
    solanaWsUrl := (env "SOLANA_WS_URL").getD "wss://api.devnet.solana.com"
    bindAddr := (env "BIND_ADDR").getD "127.0.0.1:4020"
    databaseUrl := nonBlank env "DATABASE_URL"
    corsAllowedOrigins := splitList ((env "ORACLE_CORS_ALLOWED_ORIGINS").getD "") }

variable {crates : Crates} {host : Host} {cfg : OracleConfig}

theorem evidenceRegistryUrls_ne_nil (env : String → Option String) :
    evidenceRegistryUrls env ≠ [] := by
  unfold evidenceRegistryUrls
  dsimp only
  split
  · split
    · exact List.cons_ne_nil _ _
    · assumption
  · exact List.cons_ne_nil _ _

theorem fromEnv_ok (h : fromEnv crates host = .ok cfg) :
    oraclePubkey host = .ok cfg.oraclePubkey ∧
      escrowProgramId crates host = .ok cfg.escrowProgramId ∧
      operatorTokenSha256 host.env crates = .ok cfg.operatorTokenSha256 ∧
      cfg.evidenceRegistryUrls = evidenceRegistryUrls host.env := by
  unfold fromEnv at h
  dsimp only at h
  cases hpubkey : oraclePubkey host with
  | error e =>
    rw [hpubkey] at h
    cases h
  | ok pubkey =>
    cases hprogram : escrowProgramId crates host with
    | error e =>
      rw [hpubkey, hprogram] at h
      cases h
    | ok program =>
      cases hdigest : operatorTokenSha256 host.env crates with
      | error e =>
        rw [hpubkey, hprogram, hdigest] at h
        cases h
      | ok digest =>
        rw [hpubkey, hprogram, hdigest] at h
        cases h
        exact ⟨rfl, rfl, rfl, rfl⟩

end OracleQa.Config
