import OracleQa.Model.Worker

/-! The operator endpoint of `server.rs`: authorization, rate limit, and a manual evaluation that
runs the same pipeline as the worker. -/

namespace OracleQa.Server
open Interaction Pipeline Text Worker

/-- The two token headers of a request, as raw header bytes. -/
structure Headers where
  authorization : Option Bytes
  xOracleToken : Option Bytes

structure ManualEvaluateResponse where
  status : Nat
  approved : Bool
  signature : Option String
  checks : List CheckResult
  error : Option String

def refusal (status : Nat) (msg : String) : ManualEvaluateResponse :=
  ⟨status, false, none, [], some msg⟩

/-- `HeaderValue::to_str`: visible ASCII, space and tab. -/
def headerToStr (raw : Bytes) : Option (List Char) :=
  if raw.all fun b => (32 ≤ b && b < 127) || b == 9 then
    some (raw.map fun b => Char.ofNat b.toNat)
  else none

def bearerToken (headers : Headers) : Option (List Char) :=
  match headers.authorization.bind headerToStr with
  | none => none
  | some raw => (stripPrefix "Bearer ".toList raw).map trim

def suppliedToken (headers : Headers) : Option (List Char) :=
  (bearerToken headers).or (headers.xOracleToken.bind headerToStr)

section
variable (crates : Crates) (cfg : OracleConfig)

def checkToken (headers : Headers) : Except (Nat × String) Unit :=
  if cfg.operatorTokenSha256.isNone && !cfg.allowUnauthenticatedManualEvaluate then
    .error (503, "Manual evaluation is disabled until ORACLE_OPERATOR_TOKEN_SHA256 or " ++
      "ORACLE_OPERATOR_TOKEN is configured")
  else match cfg.operatorTokenSha256 with
    | none => .ok ()
    | some expectedHash =>
      match suppliedToken headers with
      | none => .error (401, "Missing operator token")
      | some token =>
        if crates.sha256 (String.ofList token).toUTF8.data.toList ≠ expectedHash then
          .error (401, "Invalid operator token")
        else .ok ()

/-- Instants are in nanoseconds. -/
def rateWindowNs : Nat := max cfg.manualEvaluateRateWindowMs 1 * 1000000

def authorizeManualEvaluate (headers : Headers) : Async (Except (Nat × String) Unit) := do
  match checkToken crates cfg headers with
  | .error e => return .error e
  | .ok () =>
    let now ← ask .instantNow
    if ← ask (.admitRequest now (rateWindowNs cfg) cfg.manualEvaluateRateLimit) then return .ok ()
    else return .error (429, "Rate limit exceeded")

variable (job : EvaluationJob)

def recordManualFailure (errorMsg : String) : TaskCode Unit := do
  if cfg.databaseEnabled then
    let _ ← (Db.recordFailed crates job errorMsg).lift
    await (.countError false)
  else await (.countError false)

def recordManualSettled (outcome : PipelineOutcome) : TaskCode Unit := do
  if cfg.databaseEnabled then
    let _ ← (Db.recordSettled crates job outcome.result outcome.signature
      outcome.resolutionHash).lift
    await (.countSettled outcome.result.approved)
  else await (.countSettled outcome.result.approved)

def finishManual : RunResult → TaskCode ManualEvaluateResponse
  | some (.ok outcome) => do
    recordManualSettled crates cfg job outcome
    return ⟨200, outcome.result.approved, outcome.signature, outcome.result.checks, none⟩
  | some (.error e) => do
    recordManualFailure crates cfg job e.toString
    return refusal 500 e.toString
  | none => do
    recordManualFailure crates cfg job "manual pipeline timeout"
    return refusal 500 ("Pipeline timed out after " ++ toString cfg.evaluationTimeoutMs ++ "ms")

def evaluateManually (run : TaskCode RunResult) : TaskCode ManualEvaluateResponse := do
  if cfg.databaseEnabled then
    let _ ← (Db.recordQueued crates job).lift
    let result ← run
    finishManual crates cfg job result
  else
    let result ← run
    finishManual crates cfg job result

def manualEvaluate (headers : Headers) (paymentPubkey : String) :
    TaskCode ManualEvaluateResponse := do
  match ← (authorizeManualEvaluate crates cfg headers).lift with
  | .error (status, msg) => return refusal status msg
  | .ok () =>
  match crates.pubkeyFromStr paymentPubkey with
  | none => return refusal 400 ("Invalid pubkey: " ++ crates.pubkeyParseError paymentPubkey)
  | some key =>
  match ← (Chain.readPayment crates cfg key).lift with
  | .error e => return refusal 500 ("Chain read error: " ++ e.toString)
  | .ok none => return refusal 404 "Payment not found or not assigned to this oracle"
  | .ok (some job) => evaluateManually crates cfg job (timedPipeline crates cfg job)

end
end OracleQa.Server
