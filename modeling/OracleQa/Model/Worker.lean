import OracleQa.Model.Chain
import OracleQa.Model.Pipeline

/-! The body of the worker loop in `main.rs`, for a pipeline run that may succeed, fail or miss
its deadline. -/

namespace OracleQa.Worker
open Interaction Pipeline

/-- How the timed pipeline run ended; `none` is the timeout. -/
abbrev RunResult := Option (Except OracleError PipelineOutcome)

inductive JobReport
  | skipped
  | settled (attemptCount : UInt32) (approved : Bool)
  | failed (attemptCount : UInt32) (deadLetter : Bool)
  deriving DecidableEq

def await (c : Call) : TaskCode c.Reply := Prog.ask (Timed.await c)

section
variable (crates : Crates) (cfg : OracleConfig) (job : EvaluationJob)

/-- Dedupe: the ledger when there is one, else the set in memory. A failed probe does not skip. -/
def skipDuplicate : TaskCode Bool := do
  if cfg.databaseEnabled then
    match ← (Db.isTerminal job.paymentUid).lift with
    | .ok true => return true
    | .ok false => return false
    | .error _ => return false
  else
    let inserted ← await (.processedInsert job.paymentUid)
    return !inserted

def recordIntake : TaskCode Unit := do
  if cfg.databaseEnabled then
    -- failures are logged, and the job goes on
    let _ ← (Db.recordDetected crates job).lift
    let _ ← (Db.recordQueued crates job).lift
    return ()
  else return ()

/-- The post-increment attempt count: 1 whenever the ledger does not tell. -/
def startAttempt : TaskCode UInt32 := do
  if cfg.databaseEnabled then
    match ← (Db.recordStarted crates job).lift with
    | .ok () =>
      match ← (Db.attemptCount job.paymentUid).lift with
      | .ok n => return if n > 0 then UInt32.ofNat n else 1
      | .error _ => return 1
    | .error _ => return 1
  else await (.attemptsIncrement job.paymentUid)

def finishSettled (outcome : PipelineOutcome) : TaskCode Unit := do
  if cfg.databaseEnabled then
    let _ ← (Db.recordSettled crates job outcome.result outcome.signature
      outcome.resolutionHash).lift
    Chain.persistSlotWatermark.lift
  else return ()

def recordFailure (shouldDeadLetter : Bool) (errorMsg : String) : TaskCode Unit := do
  if cfg.databaseEnabled then
    if shouldDeadLetter then
      let _ ← (Db.recordDeadLetter crates job errorMsg).lift
      return ()
    else
      let _ ← (Db.recordFailed crates job errorMsg).lift
      return ()
  else return ()

def countFailure (shouldDeadLetter : Bool) : TaskCode Unit := do
  if shouldDeadLetter then
    let _ ← await (.countError true)
    await (.attemptsRemove job.paymentUid)
  else
    -- released, so that a retriggered event can run again
    let _ ← await (.processedRemove job.paymentUid)
    await (.countError false)

def finishFailed (attemptCount : UInt32) (errorMsg : String) : TaskCode JobReport := do
  let shouldDeadLetter := decide (attemptCount ≥ cfg.deadLetterMaxAttempts)
  recordFailure crates cfg job shouldDeadLetter errorMsg
  countFailure job shouldDeadLetter
  return .failed attemptCount shouldDeadLetter

def finish (attemptCount : UInt32) : RunResult → TaskCode JobReport
  | some (.ok outcome) => do
    finishSettled crates cfg job outcome
    let _ ← await (.countSettled outcome.result.approved)
    let _ ← await (.attemptsRemove job.paymentUid)
    return .settled attemptCount outcome.result.approved
  | some (.error e) => finishFailed crates cfg job attemptCount e.toString
  | none => finishFailed crates cfg job attemptCount "pipeline timeout"

def evaluateJob (run : TaskCode RunResult) : TaskCode JobReport := do
  recordIntake crates cfg job
  let attemptCount ← startAttempt crates cfg job
  let result ← run
  finish crates cfg job attemptCount result

def handleJob (run : TaskCode RunResult) : TaskCode JobReport := do
  let _ ← await .setQueueDepth
  if ← skipDuplicate cfg job then return .skipped
  else evaluateJob crates cfg job run

def timedPipeline : TaskCode RunResult := (runPipeline crates cfg job).timeout

end
end OracleQa.Worker
