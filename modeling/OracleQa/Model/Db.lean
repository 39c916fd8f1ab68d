import OracleQa.Model.Calls

/-! `db.rs`: each `record_*` is an upsert of the job row followed by further statements, every one
on its own connection, and the first error ends it. -/

namespace OracleQa.Db
open Text

variable (crates : Crates)

def jobColumns (job : EvaluationJob) : JobColumns where
  paymentPubkey := crates.pubkeyToString job.paymentPubkey
  mint := crates.pubkeyToString job.mint
  amount := if job.amount.toNat < 2 ^ 63 then job.amount.toNat else 2 ^ 63 - 1
  slaHash := hexEncode job.slaHash.toList
  deliveryHash := hexEncode job.deliveryHash.toList
  oracleAuthority := crates.pubkeyToString job.oracleAuthority
  expiresAt := job.expiresAt

def upsertArgs (job : EvaluationJob) (status : JobStatus)
    (lastError signature resolutionHash : Option String) : JobUpsert :=
  ⟨uidHex job.paymentUid, jobColumns crates job, status, lastError, signature, resolutionHash⟩

def upsertJob (job : EvaluationJob) (status : JobStatus)
    (lastError signature resolutionHash : Option String) : Async (Except DbError Unit) :=
  ask (.sql (.upsertJob (upsertArgs crates job status lastError signature resolutionHash)))

def insertEvent (job : EvaluationJob) (event : LifecycleEvent) (payload : EventPayload) :
    Async (Except DbError Unit) :=
  ask (.sql (.insertEvent ⟨uidHex job.paymentUid, event, payload⟩))

/-- `self.upsert_job(..).await?; self.insert_event(..).await` -/
def recordStatus (job : EvaluationJob) (status : JobStatus) (lastError : Option String)
    (event : LifecycleEvent) (payload : EventPayload) : Async (Except DbError Unit) := do
  match ← upsertJob crates job status lastError none none with
  | .error e => return .error e
  | .ok () => insertEvent job event payload

def recordDetected (job : EvaluationJob) : Async (Except DbError Unit) :=
  recordStatus crates job .detected none .detected .empty

def recordQueued (job : EvaluationJob) : Async (Except DbError Unit) :=
  recordStatus crates job .queued none .queued .empty

def recordStarted (job : EvaluationJob) : Async (Except DbError Unit) :=
  recordStatus crates job .running none .started .empty

def recordFailed (job : EvaluationJob) (errorMsg : String) : Async (Except DbError Unit) :=
  recordStatus crates job .failed (some errorMsg) .failed (.error errorMsg)

def recordDeadLetter (job : EvaluationJob) (errorMsg : String) : Async (Except DbError Unit) :=
  recordStatus crates job .deadLetter (some errorMsg) .deadLetter (.error errorMsg)

def verdictArgs (job : EvaluationJob) (result : EvaluationResult) (signature : Option String)
    (resolutionHash : Bytes32) : VerdictUpsert :=
  ⟨uidHex job.paymentUid, result.approved, result.resolutionReason.toNat,
    hexEncode resolutionHash.toList, result.checks, signature⟩

def recordSettled (job : EvaluationJob) (result : EvaluationResult) (signature : Option String)
    (resolutionHash : Bytes32) : Async (Except DbError Unit) := do
  let hashHex := hexEncode resolutionHash.toList
  let payload := EventPayload.settled result.approved result.resolutionReason hashHex signature
  match ← upsertJob crates job .settled none signature (some hashHex) with
  | .error e => return .error e
  | .ok () =>
    match ← ask (.sql (.upsertVerdict (verdictArgs job result signature resolutionHash))) with
    | .error e => return .error e
    | .ok () => insertEvent job .settled payload

def isTerminal (paymentUid : Bytes32) : Async (Except DbError Bool) :=
  ask (.sql (.isTerminal (uidHex paymentUid)))

def attemptCount (paymentUid : Bytes32) : Async (Except DbError Nat) :=
  ask (.sql (.attemptCount (uidHex paymentUid)))

def getParameter (name : String) : Async (Except DbError (Option String)) :=
  ask (.sql (.getParameter name))

def setParameter (name value : String) : Async (Except DbError Unit) :=
  ask (.sql (.setParameter name value))

end OracleQa.Db
