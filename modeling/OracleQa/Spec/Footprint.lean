import OracleQa.Model.Server

/-! Which calls each part of the program can make, and a rule for a run of the pipeline between the
ledger writes before it and those after it. -/

namespace OracleQa
open Interaction

def Call.isLookup : Call → Bool
  | getAccount _ => true
  | httpSend _ _ => true
  | httpBytes _ => true
  | sleepMs _ => true
  | utcNow => true
  | countEvidenceFailure => true
  | _ => false

def Call.isPipeline : Call → Bool
  | getLatestBlockhash => true
  | sendAndConfirm _ => true
  | c => c.isLookup

def Call.isFeed : Call → Bool
  | getAccount _ => true
  | getTransaction _ => true
  | getSignatures _ _ => true
  | observeSlot _ => true
  | observeDelivery => true
  | lastSeenSlot => true
  | raiseLastSeenSlot _ => true
  | sendJob _ => true
  | sql (.getParameter _) => true
  | sql (.setParameter _ _) => true
  | _ => false

def Call.isLocal : Call → Bool
  | instantNow => true
  | setQueueDepth => true
  | lastSeenSlot => true
  | countSettled _ => true
  | countError _ => true
  | processedInsert _ => true
  | processedRemove _ => true
  | attemptsIncrement _ => true
  | attemptsRemove _ => true
  | admitRequest _ _ _ => true
  | _ => false

section
variable {crates : Crates} {cfg : OracleConfig} {job : EvaluationJob}

/-! ## The pipeline -/

namespace Pipeline
variable {T : Type} {hash : Bytes32} {parse : Bytes → Except String T}
  {parseError : String → OracleError}

theorem fetchAttempts_calls (auth : Option String) (url lastErr : String) :
    (fetchAttempts crates cfg hash parse parseError auth url cfg.evidenceFetchMaxRetries.toNat
      lastErr).Calls (·.isLookup = true) := by
  apply Prog.Wp.calls
  refine fetchAttempts_rule (Q := fun _ _ => True) (fun _ _ => True) (fun _ _ => True) ?_ ?_ ?_
    (fun _ _ _ _ => trivial) (fun _ _ _ => trivial) le_rfl trivial
  · exact fun _ _ _ => ⟨rfl, fun _ _ _ => trivial⟩
  · exact fun _ _ _ => ⟨rfl, fun _ _ _ => ⟨trivial, fun _ _ => trivial⟩⟩
  · exact fun _ _ _ _ _ _ => ⟨rfl, fun _ _ _ => trivial⟩

theorem fetchMirrors_calls (auth : Option String) (bases : List String) (lastErr : String) :
    (fetchMirrors crates cfg hash parse parseError auth bases lastErr).Calls
      (·.isLookup = true) := by
  induction bases generalizing lastErr with
  | nil => exact ⟨rfl, fun _ _ => trivial⟩
  | cons base bases ih =>
    unfold fetchMirrors
    refine (fetchAttempts_calls auth _ lastErr).bind fun r => ?_
    cases r with
    | done r => trivial
    | next e => exact ih e

theorem fetchEvidence_calls :
    (fetchEvidence crates cfg hash parse parseError).Calls (·.isLookup = true) := by
  unfold fetchEvidence
  split
  · trivial
  · exact fetchMirrors_calls _ _ _

end Pipeline

theorem Settler.chainUnixTimestamp_calls :
    (chainUnixTimestamp crates).Calls (·.isLookup = true) := by
  unfold chainUnixTimestamp
  refine Prog.Calls.ask_bind rfl fun r => ?_
  rcases r with e | _ | account
  · exact ⟨rfl, fun _ _ => trivial⟩
  · exact ⟨rfl, fun _ _ => trivial⟩
  · dsimp only
    split
    · trivial
    · exact ⟨rfl, fun _ _ => trivial⟩

theorem Settler.isEligible_calls : (isEligible crates cfg job).Calls (·.isLookup = true) := by
  unfold isEligible
  refine Prog.Calls.ask_bind rfl fun r => ?_
  rcases r with e | _ | account
  · trivial
  · trivial
  dsimp only
  split
  · trivial
  split
  · trivial
  split
  · trivial
  split
  · trivial
  refine chainUnixTimestamp_calls.bind fun now => ?_
  split <;> trivial

theorem Call.isPipeline_of_isLookup {c : Call} (h : c.isLookup = true) : c.isPipeline = true := by
  cases c <;> first | rfl | cases h

theorem Settler.settle_calls (approved : Bool) (reason : UInt16) (hash : Bytes32) :
    (settle crates cfg job approved reason hash).Calls (·.isPipeline = true) := by
  unfold settle
  refine Prog.Calls.ask_bind rfl fun r => ?_
  cases r with
  | error e => trivial
  | ok blockhash =>
    refine Prog.Calls.ask_bind rfl fun r => ?_
    cases r <;> trivial

theorem Pipeline.runPipeline_calls : (runPipeline crates cfg job).Calls (·.isPipeline = true) := by
  unfold runPipeline
  refine (Settler.isEligible_calls.mono fun _ => Call.isPipeline_of_isLookup).bind fun r => ?_
  rcases r with e | _ | _
  · trivial
  · trivial
  refine (fetchEvidence_calls.mono fun _ => Call.isPipeline_of_isLookup).bind fun r => ?_
  rcases r with e | sla
  · trivial
  refine (fetchEvidence_calls.mono fun _ => Call.isPipeline_of_isLookup).bind fun r => ?_
  rcases r with e | evidence
  · trivial
  dsimp only
  split
  · trivial
  split
  · trivial
  refine (Settler.settle_calls _ _ _).bind fun r => ?_
  cases r <;> trivial

/-- A run that is `ready` once its gate has let it pass, stays so through its lookups, and then
settles. -/
theorem Pipeline.runPipeline_wp {S : Type} {next : S → (c : Call) → c.Reply → S → Prop}
    {ok : S → Call → Prop} {ready : S → Prop} {Q : Except OracleError PipelineOutcome → S → Prop}
    (hok : ∀ s c, ready s → c.isLookup = true → ok s c)
    (hnext : ∀ s c r s', ready s → c.isLookup = true → next s c r s' → ready s')
    (hstop : ∀ s, ready s → ∀ e, Q (.error e) s)
    (hsettle : ∀ s, ready s → ∀ (result : EvaluationResult) (hash : Bytes32),
      (Settler.settle crates cfg job result.approved result.resolutionReason hash).Wp next ok
        (fun r => Q (r.map fun sig => ⟨result, some sig, hash⟩)) s)
    {s : S} (hgate : (Settler.isEligible crates cfg job).Wp next ok
      (fun r s => (r = .ok true → ready s) ∧ ∀ e, Q (.error e) s) s) :
    (runPipeline crates cfg job).Wp next ok Q s := by
  unfold runPipeline
  refine hgate.bind fun r s₁ h₁ => ?_
  rcases r with e | _ | _
  · exact h₁.2 e
  · exact h₁.2 _
  refine (fetchEvidence_calls.wp hok hnext (h₁.1 rfl)).bind fun r s₂ h₂ => ?_
  rcases r with e | sla
  · exact hstop s₂ h₂ e
  refine (fetchEvidence_calls.wp hok hnext h₂).bind fun r s₃ h₃ => ?_
  rcases r with e | evidence
  · exact hstop s₃ h₃ e
  -- neither the evaluation nor the hash makes a call
  dsimp only
  split
  · exact hstop s₃ h₃ _
  next result _ =>
  split
  · exact hstop s₃ h₃ _
  next hash _ =>
  refine (hsettle s₃ h₃ result hash).bind fun r s₄ h₄ => ?_
  cases r <;> exact h₄

/-! ## The monitor and the backfill -/

namespace Chain

theorem readPayment_calls (key : Pubkey) :
    (readPayment crates cfg key).Calls (· = .getAccount key) := ⟨rfl, fun _ _ => trivial⟩

def IsRead (c : Call) : Prop := ∃ key, c = .getAccount key

theorem tryCandidates_calls (events : List DeliverySubmittedEvent) (keys : List Pubkey) :
    (tryCandidates crates cfg events keys).Calls IsRead := by
  induction keys with
  | nil => trivial
  | cons key keys ih =>
    unfold tryCandidates
    refine ((readPayment_calls key).mono fun c hc => ⟨key, hc⟩).bind fun r => ?_
    rcases r with e | _ | job
    · exact ih
    · exact ih
    · dsimp only
      split
      · trivial
      split
      · trivial
      · exact ih

theorem tryAccountKeys_calls (events : List DeliverySubmittedEvent) (keys : List Pubkey) :
    (tryAccountKeys crates cfg events keys).Calls IsRead := by
  induction keys with
  | nil => trivial
  | cons key keys ih =>
    unfold tryAccountKeys
    refine ((readPayment_calls key).mono fun c hc => ⟨key, hc⟩).bind fun r => ?_
    rcases r with e | _ | job
    · exact ih
    · exact ih
    · dsimp only
      split
      · trivial
      · exact ih

theorem deliveryJob_calls (enc : EncodedTransaction) :
    (deliveryJob crates cfg enc).Calls IsRead := by
  unfold deliveryJob
  split
  · refine (tryCandidates_calls _ _).bind fun r => ?_
    cases r with
    | some job => trivial
    | none =>
      dsimp only
      split
      · trivial
      · exact tryAccountKeys_calls _ _
  · trivial

theorem deliveryJob_feed (enc : EncodedTransaction) :
    (deliveryJob crates cfg enc).Calls (·.isFeed = true) := by
  refine (deliveryJob_calls enc).mono ?_
  rintro c ⟨key, rfl⟩
  rfl

theorem fetchDeliveryJob_calls (sig : Signature) :
    (fetchDeliveryJob crates cfg sig).Calls (·.isFeed = true) := by
  refine Prog.Calls.ask_bind rfl fun r => ?_
  cases r with
  | error e => trivial
  | ok enc => exact (deliveryJob_feed enc).bind fun _ => trivial

theorem monitorNotification_calls (note : LogNotification) :
    (monitorNotification crates cfg note).Calls (·.isFeed = true) := by
  refine Prog.Calls.ask_bind rfl fun _ => ?_
  split
  · trivial
  split
  · trivial
  refine (fetchDeliveryJob_calls _).bind fun r => ?_
  rcases r with e | _ | job
  · trivial
  · trivial
  · exact ⟨rfl, fun _ _ => ⟨rfl, fun _ _ => trivial⟩⟩

/-! A rule for the scan: `I` holds of the highest slot so far, before and after each fetch. -/

section Scan
variable {S : Type} {next : S → (c : Call) → c.Reply → S → Prop} {ok : S → Call → Prop}
  {Q : PageEnd → S → Prop} (I : Nat → S → Prop) {w : Nat}

theorem scanEntries_rule {es : List SignatureEntry}
    (hraise : ∀ e ∈ es, ∀ highest s, I highest s →
      I (if e.slot > highest then e.slot else highest) s)
    (hfetch : ∀ sig highest s, I highest s → (fetchDeliveryJob crates cfg sig).Wp next ok
      (fun r s' => I highest s' ∧ ∀ job, r = .ok (some job) → ok s' (.sendJob job) ∧
        ∀ sent s'', next s' (.sendJob job) sent s'' → I highest s'') s)
    (hstopped : ∀ highest s, I highest s → Q (.stopped highest) s)
    (hscanned : ∀ before highest s, I highest s → Q (.scanned before highest) s)
    {before : Option Signature} {highest : Nat} {s : S} (hs : I highest s) :
    (scanEntries crates cfg w es before highest).Wp next ok Q s := by
  induction es generalizing before highest s with
  | nil => exact hscanned before highest s hs
  | cons e es ih =>
    obtain ⟨hraise, hrest⟩ := List.forall_mem_cons.mp hraise
    have hs' := hraise highest s hs
    rw [scanEntries]
    split
    · exact hstopped _ s hs'
    split
    · exact ih hrest hs'
    split
    · exact ih hrest hs'
    refine (hfetch _ _ s hs').bind fun r s₁ h => ?_
    rcases r with e' | _ | job
    · exact ih hrest h.1
    · exact ih hrest h.1
    · obtain ⟨hok, hsent⟩ := h.2 job rfl
      refine ⟨hok, fun sent s₂ hnext => ?_⟩
      cases sent with
      | true => exact ih hrest (hsent true s₂ hnext)
      | false => exact hstopped _ s₂ (hsent false s₂ hnext)

theorem scanPages_rule
    (hpage : ∀ before limit highest s, I highest s → ok s (.getSignatures before limit) ∧
      ∀ reply s', next s (.getSignatures before limit) reply s' → I highest s' ∧
        ∀ page, reply = .ok page →
          (scanEntries crates cfg w page.entries before highest).Wp next ok Q s')
    (hstopped : ∀ highest s, Q (.stopped highest) s → I highest s)
    (hscanned : ∀ before highest s, Q (.scanned before highest) s → I highest s)
    {left : Nat} {before : Option Signature} {highest : Nat} {s : S} (hs : I highest s) :
    (scanPages crates cfg w left before highest).Wp next ok I s := by
  induction left using Nat.strong_induction_on generalizing before highest s with
  | h left ih =>
    obtain ⟨hok, hread⟩ := hpage before (min left 1000) highest s hs
    rw [scanPages]
    split
    · exact hs
    refine ⟨hok, fun reply s₁ hreply => ?_⟩
    obtain ⟨hs₁, hscan⟩ := hread reply s₁ hreply
    rcases reply with e | batch
    · exact hs₁
    dsimp only [Prog.bind]
    split
    · exact hs₁
    next hbatch =>
    -- what the scan of the page leaves is where the next one starts
    refine (hscan batch rfl).bind fun pageEnd s₂ h => ?_
    cases pageEnd with
    | stopped highest' => exact hstopped highest' s₂ h
    | scanned before' highest' =>
      have hs₂ := hscanned before' highest' s₂ h
      dsimp only
      split
      · exact hs₂
      · exact ih _ (by omega) hs₂

variable {called : Call → Prop}

theorem scanEntries_calls_of (hfetch : ∀ sig, (fetchDeliveryJob crates cfg sig).Calls called)
    (hsend : ∀ job, called (.sendJob job)) (es : List SignatureEntry) (before : Option Signature)
    (highest : Nat) : (scanEntries crates cfg w es before highest).Calls called := by
  apply Prog.Wp.calls
  refine scanEntries_rule (Q := fun _ _ => True) (fun _ _ => True) (fun _ _ _ _ _ => trivial)
    (fun sig _ _ _ => ?_) (fun _ _ _ => trivial) (fun _ _ _ _ => trivial) trivial
  exact (hfetch sig).wp_unit.mono fun _ _ _ =>
    ⟨trivial, fun job _ => ⟨hsend job, fun _ _ _ => trivial⟩⟩

theorem scanPages_calls_of (hfetch : ∀ sig, (fetchDeliveryJob crates cfg sig).Calls called)
    (hsend : ∀ job, called (.sendJob job))
    (hpage : ∀ before limit, called (.getSignatures before limit)) (left : Nat)
    (before : Option Signature) (highest : Nat) :
    (scanPages crates cfg w left before highest).Calls called := by
  apply Prog.Wp.calls
  refine scanPages_rule (Q := fun _ _ => True) (fun _ _ => True)
    (fun before limit highest _ _ => ?_) (fun _ _ _ => trivial) (fun _ _ _ _ => trivial) trivial
  exact ⟨hpage before limit, fun _ _ _ => ⟨trivial, fun page _ =>
    (scanEntries_calls_of hfetch hsend page.entries before highest).wp_unit⟩⟩

end Scan

theorem scanPages_calls (lastSeenSlot left : Nat) (before : Option Signature) (highestSlot : Nat) :
    (scanPages crates cfg lastSeenSlot left before highestSlot).Calls (·.isFeed = true) :=
  scanPages_calls_of fetchDeliveryJob_calls (fun _ => rfl) (fun _ _ => rfl) left before highestSlot

theorem backfillMissedDeliveries_calls :
    (backfillMissedDeliveries crates cfg).Calls (·.isFeed = true) := by
  unfold backfillMissedDeliveries
  split
  · trivial
  have hread : (readWatermark cfg).Calls (·.isFeed = true) := by
    unfold readWatermark
    split
    · refine Prog.Calls.ask_bind rfl fun r => ?_
      rcases r with e | _ | raw <;> trivial
    · trivial
  refine hread.bind fun lastSeenSlot => (scanPages_calls _ _ _ _).bind fun highestSlot => ?_
  unfold finishBackfill
  split
  · split
    · exact ⟨rfl, fun _ _ => ⟨rfl, fun _ _ => trivial⟩⟩
    · exact ⟨rfl, fun _ _ => trivial⟩
  · trivial

end Chain
/-! ## The worker and the handlers -/

section
variable (crates job)

/-- What is done for `job` besides the pipeline, with upserts to one of `statuses`. -/
inductive Writes (statuses : List JobStatus) : TCall → Prop
  | job {status : JobStatus} (lastError : Option String) (h : status ∈ statuses) :
      Writes statuses (.await (.sql (.upsertJob
        (Db.upsertArgs crates job status lastError none none))))
  | event (e : EventRow) : Writes statuses (.await (.sql (.insertEvent e)))
  | count : Writes statuses (.await (.sql (.attemptCount (uidHex job.paymentUid))))
  | memory {c : Call} (h : c.isLocal = true) : Writes statuses (.await c)

inductive Settles (outcome : Pipeline.PipelineOutcome) : TCall → Prop
  | job : Settles outcome (.await (.sql (.upsertJob (Db.upsertArgs crates job .settled none
      outcome.signature (some (Text.hexEncode outcome.resolutionHash.toList))))))
  | verdict : Settles outcome (.await (.sql (.upsertVerdict
      (Db.verdictArgs job outcome.result outcome.signature outcome.resolutionHash))))
  | event (e : EventRow) : Settles outcome (.await (.sql (.insertEvent e)))
  | parameter (value : String) :
      Settles outcome (.await (.sql (.setParameter PARAM_LAST_SEEN_SLOT value)))
  | memory {c : Call} (h : c.isLocal = true) : Settles outcome (.await c)

def Finishes : Worker.RunResult → TCall → Prop
  | some (.ok outcome) => Settles crates job outcome
  | _ => Writes crates job [.failed, .deadLetter]

end

theorem Writes.mono {l l' : List JobStatus} (hl : l ⊆ l') {c : TCall} (h : Writes crates job l c) :
    Writes crates job l' c := by
  cases h with
  | job lastError h => exact .job lastError (hl h)
  | event e => exact .event e
  | count => exact .count
  | memory h => exact .memory h

theorem Db.recordStatus_calls (status : JobStatus) (lastError : Option String)
    (event : LifecycleEvent) (payload : EventPayload) :
    (recordStatus crates job status lastError event payload).lift.Calls
      (Writes crates job [status]) := by
  refine ⟨.job _ List.mem_cons_self, fun r _ => ?_⟩
  cases r with
  | error e => trivial
  | ok u => exact ⟨.event _, fun _ _ => trivial⟩

theorem Db.recordSettled_calls (outcome : Pipeline.PipelineOutcome) :
    (recordSettled crates job outcome.result outcome.signature outcome.resolutionHash).lift.Calls
      (Settles crates job outcome) := by
  refine ⟨.job, fun r _ => ?_⟩
  cases r with
  | error e => trivial
  | ok u =>
    refine ⟨.verdict, fun r _ => ?_⟩
    cases r with
    | error e => trivial
    | ok u => exact ⟨.event _, fun _ _ => trivial⟩

theorem Chain.persistSlotWatermark_calls : persistSlotWatermark.Calls fun c =>
    c = .lastSeenSlot ∨ ∃ value, c = .sql (.setParameter PARAM_LAST_SEEN_SLOT value) := by
  refine Prog.Calls.ask_bind (Or.inl rfl) fun slot => ?_
  split
  · trivial
  · exact ⟨Or.inr ⟨_, rfl⟩, fun _ _ => trivial⟩

namespace Worker

theorem recordIntake_calls :
    (recordIntake crates cfg job).Calls (Writes crates job [.detected, .queued]) := by
  unfold recordIntake
  split
  · refine ((Db.recordStatus_calls _ _ _ _).mono fun _ h => h.mono (by simp)).bind fun _ => ?_
    exact ((Db.recordStatus_calls _ _ _ _).mono fun _ h => h.mono (by simp)).bind fun _ => trivial
  · trivial

theorem startAttempt_calls :
    (startAttempt crates cfg job).Calls (Writes crates job [.running]) := by
  unfold startAttempt
  split
  · have hcount : (Db.attemptCount job.paymentUid).lift.Calls (Writes crates job [.running]) :=
      ⟨.count, fun _ _ => trivial⟩
    refine (Db.recordStatus_calls _ _ _ _).bind fun r => ?_
    cases r with
    | error e => trivial
    | ok u =>
      refine hcount.bind fun r => ?_
      cases r <;> trivial
  · exact ⟨.memory rfl, fun _ _ => trivial⟩

theorem finishFailed_calls (attemptCount : UInt32) (msg : String) :
    (finishFailed crates cfg job attemptCount msg).Calls
      (Writes crates job [.failed, .deadLetter]) := by
  have hrecord : ∀ dead, (recordFailure crates cfg job dead msg).Calls
      (Writes crates job [.failed, .deadLetter]) := by
    intro dead
    unfold recordFailure
    split
    · split
      · exact ((Db.recordStatus_calls _ _ _ _).mono fun _ h => h.mono (by simp)).bind
          fun _ => trivial
      · exact ((Db.recordStatus_calls _ _ _ _).mono fun _ h => h.mono (by simp)).bind
          fun _ => trivial
    · trivial
  have hcount : ∀ dead, (countFailure job dead).Calls
      (Writes crates job [.failed, .deadLetter]) := by
    intro dead
    unfold countFailure
    split <;> exact ⟨.memory rfl, fun _ _ => ⟨.memory rfl, fun _ _ => trivial⟩⟩
  exact (hrecord _).bind fun _ => (hcount _).bind fun _ => trivial

theorem finishSettled_calls (outcome : Pipeline.PipelineOutcome) :
    (finishSettled crates cfg job outcome).Calls (Settles crates job outcome) := by
  unfold finishSettled
  split
  · refine (Db.recordSettled_calls outcome).bind fun _ => ?_
    refine Prog.calls_lift Chain.persistSlotWatermark_calls ?_
    rintro c (rfl | ⟨value, rfl⟩)
    · exact .memory rfl
    · exact .parameter value
  · trivial

theorem finish_calls (attemptCount : UInt32) (result : RunResult) :
    (finish crates cfg job attemptCount result).Calls (Finishes crates job result) := by
  rcases result with _ | e | outcome
  · exact finishFailed_calls _ _
  · exact finishFailed_calls _ _
  · exact (finishSettled_calls outcome).bind fun _ =>
      ⟨.memory rfl, fun _ _ => ⟨.memory rfl, fun _ _ => trivial⟩⟩

end Worker

namespace Server

theorem recordManualFailure_calls (msg : String) :
    (recordManualFailure crates cfg job msg).Calls (Writes crates job [.failed, .deadLetter]) := by
  unfold recordManualFailure
  split
  · exact ((Db.recordStatus_calls _ _ _ _).mono fun _ h => h.mono (by simp)).bind
      fun _ => ⟨.memory rfl, fun _ _ => trivial⟩
  · exact ⟨.memory rfl, fun _ _ => trivial⟩

theorem finishManual_calls (result : Worker.RunResult) :
    (finishManual crates cfg job result).Calls (Finishes crates job result) := by
  rcases result with _ | e | outcome
  · exact (recordManualFailure_calls _).bind fun _ => trivial
  · exact (recordManualFailure_calls _).bind fun _ => trivial
  · have hsettled : (recordManualSettled crates cfg job outcome).Calls
        (Settles crates job outcome) := by
      unfold recordManualSettled
      split
      · exact (Db.recordSettled_calls outcome).bind fun _ => ⟨.memory rfl, fun _ _ => trivial⟩
      · exact ⟨.memory rfl, fun _ _ => trivial⟩
    exact hsettled.bind fun _ => trivial

theorem authorizeManualEvaluate_calls (headers : Headers) :
    (authorizeManualEvaluate crates cfg headers).Calls (·.isLocal = true) := by
  unfold authorizeManualEvaluate
  split
  · trivial
  · refine ⟨rfl, fun now _ => ⟨rfl, fun admitted _ => ?_⟩⟩
    cases admitted <;> trivial

end Server

/-- `P` holds until the run ends, and `Q` of its result from then on. -/
structure RunRule {S : Type} (next : S → (c : TCall) → TReply c → S → Prop) (ok : S → TCall → Prop)
    (crates : Crates) (job : EvaluationJob) (run : TaskCode Worker.RunResult) (P : S → Prop)
    (Q : Worker.RunResult → S → Prop) : Prop where
  before_ok : ∀ s c, P s → Writes crates job [.detected, .queued, .running] c → ok s c
  before_next : ∀ s c r s', P s → Writes crates job [.detected, .queued, .running] c →
    next s c r s' → P s'
  run : ∀ s, P s → run.Wp next ok Q s
  after_ok : ∀ result s c, Q result s → Finishes crates job result c → ok s c
  after_next : ∀ result s c r s', Q result s → Finishes crates job result c → next s c r s' →
    Q result s'

namespace RunRule
variable {S : Type} {next : S → (c : TCall) → TReply c → S → Prop} {ok : S → TCall → Prop}
  {run : TaskCode Worker.RunResult} {P : S → Prop} {Q : Worker.RunResult → S → Prop} {s : S}

theorem evaluateJob (h : RunRule next ok crates job run P Q) (hs : P s) :
    (Worker.evaluateJob crates cfg job run).Wp next ok (fun _ _ => True) s := by
  have hbefore : ∀ {α : Type} {p : TaskCode α} {l : List JobStatus},
      l ⊆ [.detected, .queued, .running] → p.Calls (Writes crates job l) → ∀ s, P s →
      p.Wp next ok (fun _ s => P s) s := fun hl hp s hs =>
    (hp.mono fun _ hc => hc.mono hl).wp h.before_ok h.before_next hs
  unfold Worker.evaluateJob
  refine (hbefore (by simp) Worker.recordIntake_calls s hs).bind fun _ s₁ hs₁ => ?_
  refine (hbefore (by simp) Worker.startAttempt_calls s₁ hs₁).bind fun attemptCount s₂ hs₂ => ?_
  refine (h.run s₂ hs₂).bind fun result s₃ hs₃ => ?_
  have hfinish : (Worker.finish crates cfg job attemptCount result).Calls
      (Finishes crates job result) := Worker.finish_calls attemptCount result
  exact (hfinish.wp (h.after_ok result) (h.after_next result) hs₃).mono fun _ _ _ => trivial

theorem evaluateManually (h : RunRule next ok crates job run P Q) (hs : P s) :
    (Server.evaluateManually crates cfg job run).Wp next ok (fun _ _ => True) s := by
  have hrun : ∀ s, P s → (run >>= Server.finishManual crates cfg job).Wp next ok
      (fun _ _ => True) s := by
    intro s hs
    refine (h.run s hs).bind fun result s₁ hs₁ => ?_
    have hfinish : (Server.finishManual crates cfg job result).Calls
        (Finishes crates job result) := Server.finishManual_calls result
    exact (hfinish.wp (h.after_ok result) (h.after_next result) hs₁).mono fun _ _ _ => trivial
  unfold Server.evaluateManually
  split
  · have hqueued : (Db.recordQueued crates job).lift.Calls
        (Writes crates job [.detected, .queued, .running]) :=
      (Db.recordStatus_calls _ _ _ _).mono fun _ hc => hc.mono (by simp)
    exact (hqueued.wp h.before_ok h.before_next hs).bind fun _ s₁ hs₁ => hrun s₁ hs₁
  · exact hrun s hs

end RunRule

/-! ## Without a ledger -/

def NoSql (c : TCall) : Prop := ∀ q, c.base ≠ .sql q

theorem noSql_of_isLocal {c : Call} (h : c.isLocal = true) : NoSql (.await c) := by
  rintro q rfl
  cases h

theorem noSql_of_isPipeline {c : Call} (h : c.isPipeline = true) : NoSql (.race c) := by
  rintro q rfl
  cases h

theorem timedPipeline_noSql : (Worker.timedPipeline crates cfg job).Calls NoSql :=
  Prog.calls_timeout Pipeline.runPipeline_calls fun _ => noSql_of_isPipeline

section Disabled
variable (hdb : cfg.databaseEnabled = false)
include hdb

theorem Worker.handleJob_noSql {run : TaskCode RunResult} (hrun : run.Calls NoSql) :
    (handleJob crates cfg job run).Calls NoSql := by
  have hlocal : ∀ c : Call, c.isLocal = true → (await c).Calls NoSql :=
    fun c hc => ⟨noSql_of_isLocal hc, fun _ _ => trivial⟩
  have hfailed : ∀ attemptCount msg,
      (finishFailed crates cfg job attemptCount msg).Calls NoSql := by
    intro attemptCount msg
    unfold finishFailed recordFailure countFailure
    simp only [hdb, Bool.false_eq_true, if_false]
    split
    · exact (hlocal _ rfl).bind fun _ => (hlocal _ rfl).bind fun _ => trivial
    · exact (hlocal _ rfl).bind fun _ => (hlocal _ rfl).bind fun _ => trivial
  unfold handleJob skipDuplicate evaluateJob recordIntake startAttempt
  simp only [hdb, Bool.false_eq_true, if_false]
  refine (hlocal _ rfl).bind fun _ => Prog.Calls.ask_bind (noSql_of_isLocal rfl) fun inserted => ?_
  cases inserted with
  | false => trivial
  | true =>
    refine (hlocal _ rfl).bind fun attemptCount => hrun.bind fun result => ?_
    rcases result with _ | e | outcome
    · exact hfailed _ _
    · exact hfailed _ _
    · unfold finish finishSettled
      simp only [hdb, Bool.false_eq_true, if_false]
      exact (hlocal _ rfl).bind fun _ => (hlocal _ rfl).bind fun _ => trivial

end Disabled

section Entry
variable {S : Type} {next : S → (c : TCall) → TReply c → S → Prop} {ok : S → TCall → Prop}
  {run : TaskCode Worker.RunResult} {P : S → Prop} {Q : Worker.RunResult → S → Prop} {s : S}

theorem RunRule.handleJob (h : RunRule next ok crates job run P Q)
    (hdepth : (Worker.await .setQueueDepth).Wp next ok
      (fun _ s => (Worker.skipDuplicate cfg job).Wp next ok (fun skip s => skip = false → P s) s)
      s) :
    (Worker.handleJob crates cfg job run).Wp next ok (fun _ _ => True) s := by
  unfold Worker.handleJob
  refine hdepth.bind fun _ s₁ hskip => hskip.bind fun skip s₂ hs₂ => ?_
  cases skip with
  | true => trivial
  | false => exact h.evaluateJob (hs₂ rfl)

theorem RunRule.manualEvaluate {headers : Server.Headers} {paymentPubkey : String}
    (hauthorize : (Server.authorizeManualEvaluate crates cfg headers).lift.Wp next ok
      (fun _ s => ∀ key, crates.pubkeyFromStr paymentPubkey = some key →
        (Chain.readPayment crates cfg key).lift.Wp next ok (fun r s => ∀ job, r = .ok (some job) →
          ∃ P Q, RunRule next ok crates job (Worker.timedPipeline crates cfg job) P Q ∧ P s) s) s) :
    (Server.manualEvaluate crates cfg headers paymentPubkey).Wp next ok (fun _ _ => True) s := by
  unfold Server.manualEvaluate
  refine hauthorize.bind fun r s₁ hread => ?_
  rcases r with ⟨status, msg⟩ | u
  · trivial
  dsimp only
  cases hkey : crates.pubkeyFromStr paymentPubkey with
  | none => trivial
  | some key =>
    refine (hread key hkey).bind fun r s₂ hs₂ => ?_
    rcases r with e | _ | job
    · trivial
    · trivial
    · obtain ⟨P, Q, hrule, hP⟩ := hs₂ job rfl
      exact hrule.evaluateManually hP

end Entry
end
end OracleQa
