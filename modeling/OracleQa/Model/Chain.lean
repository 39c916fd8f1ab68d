import Mathlib.Data.List.Destutter
import Mathlib.Data.List.Sort
import OracleQa.Model.Db
import OracleQa.Model.Settler

/-! `chain.rs`: from program logs and transactions to evaluation jobs, live and on startup. -/

namespace OracleQa.Chain
open Text

section
variable (crates : Crates) (cfg : OracleConfig)

/-! ## Transactions -/

def parseDeliveryEvent (line : String) : Option DeliverySubmittedEvent :=
  match stripPrefix "Program data: ".toList (trim line.toList) with
  | none => none
  | some b64 =>
    match crates.base64Decode (String.ofList (trim b64)) with
    | none => none
    | some bytes => if bytes.length ≠ crates.eventSize then none else crates.eventFromBytes bytes

def parseDeliveryEventsFromLogs (logs : List String) : List DeliverySubmittedEvent :=
  logs.filterMap (parseDeliveryEvent crates)

def isSubmitDelivery (data : String) : Bool :=
  match crates.bs58Decode data with
  | some bytes => bytes.head? == some crates.submitDeliveryDiscriminant
  | none => false

def paymentFromPartialIx (escrowProgram programId : String) (accounts : List String)
    (data : String) : Option Pubkey :=
  if programId ≠ escrowProgram then none
  else if !isSubmitDelivery crates data then none
  else accounts[4]?.bind crates.pubkeyFromStr

def paymentFromCompiledIx (accountKeys : List String) (escrowProgram : Pubkey)
    (programIdIndex : UInt8) (accounts : List UInt8) (data : String) : Option Pubkey :=
  match accountKeys[programIdIndex.toNat]?.bind crates.pubkeyFromStr with
  | none => none
  | some programId =>
    if programId ≠ escrowProgram then none
    else if !isSubmitDelivery crates data then none
    else match accounts[4]? with
      | none => none
      | some payIdx => accountKeys[payIdx.toNat]?.bind crates.pubkeyFromStr

def paymentFromInstruction (accountKeys : List String) (escrowProgram : Pubkey) :
    UiInstruction → Option Pubkey
  | .partiallyDecoded programId accounts data =>
    paymentFromPartialIx crates (crates.pubkeyToString escrowProgram) programId accounts data
  | .parsed => none
  | .compiled programIdIndex accounts data =>
    paymentFromCompiledIx crates accountKeys escrowProgram programIdIndex accounts data

def collectPaymentCandidates (instructions : List UiInstruction) (accountKeys : List String)
    (escrowProgram : Pubkey) : List Pubkey :=
  instructions.filterMap (paymentFromInstruction crates accountKeys escrowProgram)

/-- `sort_by_key(to_string)` and `dedup`. -/
def sortDedup (candidates : List Pubkey) : List Pubkey :=
  (candidates.insertionSort fun a b => crates.pubkeyToString a ≤ crates.pubkeyToString b).destutter
    (· ≠ ·)

def paymentCandidates (enc : EncodedTransaction) (accountKeys : List String)
    (instructions : List UiInstruction) : List Pubkey :=
  let topLevel := collectPaymentCandidates crates instructions accountKeys cfg.escrowProgramId
  let inner := match enc.txMeta.bind (·.innerInstructions) with
    | some groups => groups.flatMap fun g =>
        collectPaymentCandidates crates g accountKeys cfg.escrowProgramId
    | none => []
  sortDedup crates (topLevel ++ inner)

def logEvents (enc : EncodedTransaction) : List DeliverySubmittedEvent :=
  match enc.txMeta.bind (·.logMessages) with
  | some logs => parseDeliveryEventsFromLogs crates logs
  | none => []

def jobOfPayment (key : Pubkey) (payment : Payment) : EvaluationJob :=
  ⟨payment.paymentUid, key, payment.slaHash, payment.deliveryHash, payment.amount, payment.mint,
    payment.oracleAuthority, payment.expiresAt⟩

/-- What `read_payment` makes of the account data. -/
def jobOfAccount (oraclePubkey key : Pubkey) (account : Account) :
    Except OracleError (Option EvaluationJob) :=
  match Settler.paymentImage crates account with
  | none => .error (.chain "Payment account data too short")
  | some payment =>
    if payment.oracleAuthority ≠ oraclePubkey then .ok none
    else if payment.deliveryTimestamp = 0 ∨ payment.resolutionState ≠ 0 then .ok none
    else .ok (some (jobOfPayment key payment))

def jobOfReply (oraclePubkey key : Pubkey) :
    Except String (Option Account) → Except OracleError (Option EvaluationJob)
  | .error e => .error (.chain e)
  | .ok none =>
    .error (.chain ("Payment account " ++ crates.pubkeyToString key ++ " not found"))
  | .ok (some account) => jobOfAccount crates oraclePubkey key account

def readPayment (key : Pubkey) : Async (Except OracleError (Option EvaluationJob)) := do
  let reply ← ask (.getAccount key)
  return jobOfReply crates cfg.oraclePubkey key reply

def eventMatchesJob (events : List DeliverySubmittedEvent) (job : EvaluationJob) : Bool :=
  if events.isEmpty then true
  else events.any fun e => e.paymentUid = job.paymentUid ∧ e.deliveryHash = job.deliveryHash

def tryCandidates (events : List DeliverySubmittedEvent) :
    List Pubkey → Async (Option EvaluationJob)
  | [] => return none
  | key :: keys => do
    match ← readPayment crates cfg key with
    | .ok (some job) =>
      if eventMatchesJob events job then return some job
      -- no events: the job has matched already
      else if !cfg.requireEventMatch && events.isEmpty then return some job
      else tryCandidates events keys
    | _ => tryCandidates events keys

def tryAccountKeys (events : List DeliverySubmittedEvent) :
    List Pubkey → Async (Option EvaluationJob)
  | [] => return none
  | key :: keys => do
    match ← readPayment crates cfg key with
    | .ok (some job) =>
      if eventMatchesJob events job || events.isEmpty then return some job
      else tryAccountKeys events keys
    | _ => tryAccountKeys events keys

def deliveryJob (enc : EncodedTransaction) : Async (Option EvaluationJob) := do
  match enc.message with
  | some (.parsed accountKeys instructions) =>
    let events := logEvents crates enc
    match ← tryCandidates crates cfg events
        (paymentCandidates crates cfg enc accountKeys instructions) with
    | some job => return some job
    | none =>
      -- strict: no fallback to the account keys
      if cfg.requireEventMatch then return none
      else tryAccountKeys crates cfg events (accountKeys.filterMap crates.pubkeyFromStr)
  | _ => return none

def fetchDeliveryJob (sig : Signature) : Async (Except OracleError (Option EvaluationJob)) := do
  match ← ask (.getTransaction sig) with
  | .error e =>
    return .error (.chain ("Failed to fetch tx " ++ crates.signatureToString sig ++ ": " ++ e))
  | .ok enc =>
    let job ← deliveryJob crates cfg enc
    return .ok job

structure LogNotification where
  slot : Nat
  signature : String
  logs : List String

def hasDelivery (logs : List String) : Bool :=
  logs.any fun l =>
    "DeliverySubmittedEvent".toList <:+: l.toList || "Program data:".toList <:+: l.toList

/-- The body of the notification loop; `false` when the monitor stops for good. -/
def monitorNotification (note : LogNotification) : Async Bool := do
  let _ ← ask (.observeSlot note.slot)
  if !hasDelivery note.logs then return true
  else match crates.signatureFromStr note.signature with
    | none => return true
    | some sig =>
      match ← fetchDeliveryJob crates cfg sig with
      | .ok (some job) => do
        let _ ← ask .observeDelivery
        ask (.sendJob job)
      | _ => return true

/-! ## Startup backfill -/

/-- How the scan of one page ends: by leaving both loops, or with the cursor for the next page. -/
inductive PageEnd
  | stopped (highestSlot : Nat)
  | scanned (before : Option Signature) (highestSlot : Nat)

def scanEntries (lastSeenSlot : Nat) :
    List SignatureEntry → (before : Option Signature) → (highestSlot : Nat) → Async PageEnd
  | [], before, highestSlot => return .scanned before highestSlot
  | entry :: entries, before, highestSlot =>
    let highestSlot := if entry.slot > highestSlot then entry.slot else highestSlot
    if lastSeenSlot > 0 ∧ entry.slot ≤ lastSeenSlot then return .stopped highestSlot
    -- a failed or unparseable entry leaves the cursor where it was
    else if entry.err then scanEntries lastSeenSlot entries before highestSlot
    else match crates.signatureFromStr entry.signature with
      | none => scanEntries lastSeenSlot entries before highestSlot
      | some sig => do
        match ← fetchDeliveryJob crates cfg sig with
        | .ok (some job) =>
          -- a closed channel leaves both loops
          if ← ask (.sendJob job) then scanEntries lastSeenSlot entries (some sig) highestSlot
          else return .stopped highestSlot
        | _ => scanEntries lastSeenSlot entries (some sig) highestSlot

/-- The page loop with `left = max - scanned`; returns the highest slot seen. -/
def scanPages (lastSeenSlot left : Nat) (before : Option Signature) (highestSlot : Nat) :
    Async Nat :=
  let want := min left 1000
  if _hwant : want = 0 then return highestSlot
  else do
    match ← ask (.getSignatures before want) with
    -- the scan ends here, but its slot is still persisted
    | .error _ => return highestSlot
    | .ok batch =>
      if _hbatch : batch.entries.length = 0 then return highestSlot
      else match ← scanEntries crates cfg lastSeenSlot batch.entries before highestSlot with
        | .stopped highestSlot => return highestSlot
        | .scanned before highestSlot =>
          -- the node has no more than this
          if batch.entries.length < want then return highestSlot
          else scanPages lastSeenSlot (left - batch.entries.length) before highestSlot
termination_by left
decreasing_by
  have := batch.length_le
  omega

def readWatermark : Async Nat := do
  if cfg.databaseEnabled then
    match ← Db.getParameter PARAM_LAST_SEEN_SLOT with
    -- a text that is no number counts as none
    | .ok (some raw) => return (parseU64 raw).getD 0
    | _ => return 0
  else return 0

def finishBackfill (highestSlot : Nat) : Async Unit := do
  if highestSlot > 0 then
    if cfg.databaseEnabled then
      -- a failure is logged, and nothing else
      let _ ← Db.setParameter PARAM_LAST_SEEN_SLOT highestSlot.repr
      ask (.raiseLastSeenSlot highestSlot)
    else ask (.raiseLastSeenSlot highestSlot)
  else return ()

def backfillMissedDeliveries : Async Unit := do
  if cfg.backfillLookbackSignatures = 0 then return ()
  else
    let lastSeenSlot ← readWatermark cfg
    let highestSlot ← scanPages crates cfg lastSeenSlot cfg.backfillLookbackSignatures none
      lastSeenSlot
    finishBackfill cfg highestSlot

end

def persistSlotWatermark : Async Unit := do
  let slot ← ask .lastSeenSlot
  if slot = 0 then return ()
  else do
    let _ ← Db.setParameter PARAM_LAST_SEEN_SLOT slot.repr
    return ()

end OracleQa.Chain
