import OracleQa.Model.Fleet
import OracleQa.Spec.Backfill

/-! The rows of the ledger, in every state that any number of processes can bring about: what the
columns of a row have to do with one another, which rows belong to which, and that a verdict is the
evaluator's on documents with the hashes of its job. -/

namespace OracleQa.Integrity
open Interaction Pipeline Text Watermark

section Rows
variable (crates : Crates) (profile : Bool → Prop)

/-- The evaluator gives `result` on documents with the hashes of the job, and `hash` binds it. -/
def Reproduces (job : EvaluationJob) (result : EvaluationResult) (hash : Bytes32) : Prop :=
  ∃ rawSla rawDelivery sla evidence strictProfile,
    crates.sha256 rawSla = job.slaHash ∧ crates.parseSla rawSla = .ok sla ∧
    crates.sha256 rawDelivery = job.deliveryHash ∧
    crates.parseDelivery rawDelivery = .ok evidence ∧ profile strictProfile ∧
    Evaluator.evaluate crates strictProfile sla evidence = .ok result ∧
    Settler.computeResolutionHash crates job sla result = .ok hash

structure RowFits (key : String) (row : JobRow) : Prop where
  job : ∃ job : EvaluationJob, uidHex job.paymentUid = key ∧ row.columns = Db.jobColumns crates job
  amount : 0 ≤ row.columns.amount ∧ row.columns.amount < 2 ^ 63
  range : row.attempts < 2 ^ 31
  started : row.startedAt.isSome = true ↔ 0 < row.attempts
  running : row.status = .running → 0 < row.attempts
  completed : row.completedAt.isSome = true ↔
    row.lastError.isSome = true ∨ row.resolutionHash.isSome = true
  failed : row.status = .failed ∨ row.status = .deadLetter → row.lastError.isSome = true
  settled : row.status = .settled → row.resolutionHash.isSome = true
  signature : row.settlementSignature.isSome = row.resolutionHash.isSome

def VerdictFits (key : String) (v : VerdictRow) : Prop :=
  v.settlementSignature.isSome = true ∧ ∃ job result hash, uidHex job.paymentUid = key ∧
    Reproduces crates profile job result hash ∧ v.approved = result.approved ∧
    v.resolutionReason = result.resolutionReason.toNat ∧ v.checks = result.checks ∧
    v.resolutionHash = hexEncode hash.toList

def PayloadFits : LifecycleEvent → EventPayload → Prop
  | .detected, p => p = .empty
  | .queued, p => p = .empty
  | .started, p => p = .empty
  | .failed, p => ∃ msg, p = .error msg
  | .deadLetter, p => ∃ msg, p = .error msg
  | .settled, p => ∃ approved reason hash sig, p = .settled approved reason hash (some sig)

structure LedgerFits (l : Ledger) : Prop where
  rows : ∀ key row, l.jobs key = some row → RowFits crates key row
  verdicts : ∀ key v, l.verdicts key = some v → HasRow l key ∧ VerdictFits crates profile key v
  events : ∀ e ∈ l.events, HasRow l e.paymentUid ∧ PayloadFits e.event e.payload
  parameters : ∀ name row, l.parameters name = some row → name = PARAM_LAST_SEEN_SLOT ∧
    row.inactive = false ∧ ∃ slot : Nat, 0 < slot ∧ row.value = slot.repr

/-! ## Statements -/

structure UpsertFits (u : JobUpsert) : Prop where
  job : ∃ job : EvaluationJob, uidHex job.paymentUid = u.paymentUid ∧
    u.columns = Db.jobColumns crates job
  error : u.lastError.isSome = true ↔ u.status = .failed ∨ u.status = .deadLetter
  hash : u.resolutionHash.isSome = true ↔ u.status = .settled
  signature : u.signature.isSome = u.resolutionHash.isSome

def StmtFits : Stmt → Prop
  | .upsertJob u => UpsertFits crates u
  | .upsertVerdict v => VerdictFits crates profile v.paymentUid v.verdict
  | .insertEvent e => PayloadFits e.event e.payload
  | .setParameter name value => name = PARAM_LAST_SEEN_SLOT ∧
      ∃ slot : Nat, 0 < slot ∧ value = slot.repr
  | _ => True

variable {crates profile} {l : Ledger}

theorem completion_iff (status : JobStatus) : status.isCompletion = true ↔
    (status = .failed ∨ status = .deadLetter) ∨ status = .settled := by
  cases status <;> simp [JobStatus.isCompletion]

theorem UpsertFits.amount {u : JobUpsert} (hu : UpsertFits crates u) :
    0 ≤ u.columns.amount ∧ u.columns.amount < 2 ^ 63 := by
  obtain ⟨job, -, hcolumns⟩ := hu.job
  rw [hcolumns]
  show 0 ≤ (if job.amount.toNat < 2 ^ 63 then (job.amount.toNat : Int) else 2 ^ 63 - 1) ∧
    (if job.amount.toNat < 2 ^ 63 then (job.amount.toNat : Int) else 2 ^ 63 - 1) < 2 ^ 63
  split <;> omega

theorem insertRow_fits {u : JobUpsert} (hu : UpsertFits crates u) (now : Int) :
    RowFits crates u.paymentUid (u.insertRow now) where
  job := hu.job
  amount := hu.amount
  range := by
    show (if u.status = .running then 1 else 0) < 2 ^ 31
    split <;> decide
  started := by
    show (if u.status = .running then some now else none).isSome = true ↔
      0 < if u.status = .running then 1 else 0
    split <;> simp
  running hrunning := by
    have hstatus : u.status = .running := hrunning
    show 0 < if u.status = .running then 1 else 0
    rw [if_pos hstatus]
    exact Nat.one_pos
  completed := by
    show (if u.status.isCompletion then some now else none).isSome = true ↔
      u.lastError.isSome = true ∨ u.resolutionHash.isSome = true
    rw [hu.error, hu.hash, ← completion_iff]
    split <;> simp_all
  failed := hu.error.mpr
  settled := hu.hash.mpr
  signature := hu.signature

theorem updateRow_fits {u : JobUpsert} (hu : UpsertFits crates u) (now : Int) {row : JobRow}
    (hrow : RowFits crates u.paymentUid row) (hrange : (u.updateRow now row).attempts < 2 ^ 31) :
    RowFits crates u.paymentUid (u.updateRow now row) where
  job := hu.job
  amount := hu.amount
  range := hrange
  started := by
    show (if u.status = .running then some now else row.startedAt).isSome = true ↔
      0 < row.attempts + if u.status = .running then 1 else 0
    split
    · simp
    · exact hrow.started
  running hrunning := by
    have hstatus : u.status = .running := hrunning
    show 0 < row.attempts + if u.status = .running then 1 else 0
    rw [if_pos hstatus]
    exact Nat.succ_pos _
  completed := by
    show (if u.status.isCompletion then some now else row.completedAt).isSome = true ↔
      (u.lastError.or row.lastError).isSome = true ∨
        (u.resolutionHash.or row.resolutionHash).isSome = true
    rw [Option.isSome_or, Option.isSome_or, Bool.or_eq_true, Bool.or_eq_true]
    split
    · next hcompletion =>
      have hnew : u.lastError.isSome = true ∨ u.resolutionHash.isSome = true := by
        rw [hu.error, hu.hash, ← completion_iff]
        exact hcompletion
      simp only [Option.isSome_some, true_iff]
      exact hnew.imp Or.inl Or.inl
    · next hcompletion =>
      have hnone : ¬ (u.lastError.isSome = true ∨ u.resolutionHash.isSome = true) := by
        rw [hu.error, hu.hash, ← completion_iff]
        exact hcompletion
      rw [hrow.completed]
      tauto
  failed hfailed := by
    show (u.lastError.or row.lastError).isSome = true
    rw [Option.isSome_or, hu.error.mpr hfailed, Bool.true_or]
  settled hsettled := by
    show (u.resolutionHash.or row.resolutionHash).isSome = true
    rw [Option.isSome_or, hu.hash.mpr hsettled, Bool.true_or]
  signature := by
    show (u.signature.or row.settlementSignature).isSome =
      (u.resolutionHash.or row.resolutionHash).isSome
    rw [Option.isSome_or, Option.isSome_or, hu.signature, hrow.signature]

theorem upsertJob_fits (hl : LedgerFits crates profile l) {u : JobUpsert} {now : Int} {l' : Ledger}
    (hu : UpsertFits crates u) (h : l.upsertJob now u = .ok l') : LedgerFits crates profile l' := by
  simp only [Ledger.upsertJob] at h
  split at h
  · next hrange =>
    obtain rfl := Except.ok.inj h
    have hkept : ∀ {key}, HasRow l key →
        HasRow (l.putJob u.paymentUid (u.row now (l.jobs u.paymentUid))) key :=
      fun hrow => hasRow_putJob (Or.inl hrow)
    refine ⟨fun key row hrow => ?_, fun key v hv => ?_, fun e he => ?_, hl.parameters⟩
    · by_cases hkey : key = u.paymentUid
      · subst hkey
        obtain rfl : u.row now (l.jobs u.paymentUid) = row := by
          simpa [Ledger.putJob] using hrow
        cases hold : l.jobs u.paymentUid with
        | none => exact insertRow_fits hu now
        | some row =>
          rw [hold] at hrange
          exact updateRow_fits hu now (hl.rows _ row hold) hrange
      · have hold : l.jobs key = some row := by
          simpa [Ledger.putJob, Function.update_of_ne hkey] using hrow
        exact hl.rows key row hold
    · exact ⟨hkept (hl.verdicts key v hv).1, (hl.verdicts key v hv).2⟩
    · exact ⟨hkept (hl.events e he).1, (hl.events e he).2⟩
  · cases h

theorem onConflict_fits {key : String} {v : VerdictRow} (old : Option VerdictRow)
    (hv : VerdictFits crates profile key v) :
    VerdictFits crates profile key (v.onConflict old) := by
  cases old with
  | none => exact hv
  | some old =>
    refine ⟨?_, hv.2⟩
    show (v.settlementSignature.or old.settlementSignature).isSome = true
    rw [Option.isSome_or, hv.1, Bool.true_or]

theorem upsertVerdict_fits (hl : LedgerFits crates profile l) {v : VerdictUpsert}
    (hv : VerdictFits crates profile v.paymentUid v.verdict) :
    LedgerFits crates profile (l.upsertVerdict v) := by
  unfold Ledger.upsertVerdict
  split
  · next row hrow =>
    refine ⟨hl.rows, fun key verdict hverdict => ?_, hl.events, hl.parameters⟩
    by_cases hkey : key = v.paymentUid
    · subst hkey
      simp only [Function.update_self] at hverdict
      obtain rfl := Option.some.inj hverdict
      exact ⟨Option.isSome_iff_exists.mpr ⟨row, hrow⟩, onConflict_fits _ hv⟩
    · simp only [Function.update_of_ne hkey] at hverdict
      exact hl.verdicts key verdict hverdict
  · exact hl

theorem insertEvent_fits (hl : LedgerFits crates profile l) {e : EventRow}
    (he : PayloadFits e.event e.payload) : LedgerFits crates profile (l.insertEvent e) := by
  unfold Ledger.insertEvent
  split
  · next row hrow =>
    refine ⟨hl.rows, hl.verdicts, fun e' he' => ?_, hl.parameters⟩
    rcases List.mem_append.mp he' with hold | hnew
    · exact hl.events e' hold
    · obtain rfl := List.mem_singleton.mp hnew
      exact ⟨Option.isSome_iff_exists.mpr ⟨row, hrow⟩, he⟩
  · exact hl

theorem setParameter_fits (hl : LedgerFits crates profile l) {name value : String}
    (hfits : StmtFits crates profile (.setParameter name value)) :
    LedgerFits crates profile (l.setParameter name value) := by
  obtain ⟨rfl, hslot⟩ := hfits
  refine ⟨hl.rows, hl.verdicts, hl.events, fun name row hrow => ?_⟩
  by_cases hname : name = PARAM_LAST_SEEN_SLOT
  · subst hname
    obtain rfl : (⟨value, false⟩ : ParameterRow) = row := by
      simpa [Ledger.setParameter] using hrow
    exact ⟨rfl, rfl, hslot⟩
  · have hold : l.parameters name = some row := by
      simpa [Ledger.setParameter, Function.update_of_ne hname] using hrow
    exact hl.parameters name row hold

theorem ledgerFits_after (hl : LedgerFits crates profile l) {now : Int} {q : Stmt}
    (hq : StmtFits crates profile q) : LedgerFits crates profile (l.after (some (now, q))) := by
  cases q with
  | upsertJob u =>
    cases h : l.upsertJob now u with
    | error e =>
      rw [Ledger.after, Stmt.exec, h]
      exact hl
    | ok l' =>
      rw [Ledger.after, Stmt.exec, h]
      exact upsertJob_fits hl hq h
  | upsertVerdict v => exact upsertVerdict_fits hl hq
  | insertEvent e => exact insertEvent_fits hl hq
  | setParameter name value => exact setParameter_fits hl hq
  | isTerminal uid => exact hl
  | attemptCount uid => exact hl
  | getParameter name => exact hl

end Rows

/-! ## Outcomes -/

section Outcomes
variable {crates : Crates} {cfg : OracleConfig} {job : EvaluationJob}

def Served {T : Type} (crates : Crates) (hash : Bytes32) (parse : Bytes → Except String T)
    (r : Except OracleError T) : Prop :=
  ∀ doc, r = .ok doc → ∃ raw, crates.sha256 raw = hash ∧ parse raw = .ok doc

section Fetch
variable {T : Type} {hash : Bytes32} {parse : Bytes → Except String T}
  {parseError : String → OracleError}

theorem served_error {e : OracleError} : Served crates hash parse (.error e) :=
  fun _ h => by cases h

theorem acceptBody_served (raw : Bytes) :
    Served crates hash parse (acceptBody crates hash parse parseError raw) := by
  unfold acceptBody
  by_cases hhash : crates.sha256 raw = hash
  · simp only [hhash, ne_eq, not_true_eq_false, if_false]
    cases hparse : parse raw with
    | error e => exact served_error
    | ok doc =>
      rintro doc' ⟨⟩
      exact ⟨raw, hhash, hparse⟩
  · simp only [ne_eq, hhash, not_false_eq_true, if_true]
    exact served_error

theorem fetchAttempts_served (auth : Option String) (url lastErr : String) :
    (fetchAttempts crates cfg hash parse parseError auth url cfg.evidenceFetchMaxRetries.toNat
      lastErr).Returns fun result => ∀ r, result = .done r → Served crates hash parse r := by
  have hfail : ∀ (e : String) (r : Except OracleError T),
      (.next e : MirrorResult T) = .done r → Served crates hash parse r := by
    intro e r h
    cases h
  apply Prog.Wp.returns
  refine fetchAttempts_rule (fun _ _ => True) (fun _ _ => True) ?_ ?_ ?_
    (fun _ _ _ => hfail) (fun _ _ => hfail) le_rfl trivial
  · exact fun _ _ _ => ⟨trivial, fun _ _ _ => trivial⟩
  · refine fun _ _ _ => ⟨trivial, fun reply _ _ => ⟨trivial, ?_⟩⟩
    rintro raw - r ⟨⟩
    exact acceptBody_served raw
  · exact fun _ _ _ _ _ _ => ⟨trivial, fun _ _ _ => trivial⟩

theorem fetchMirrors_served (auth : Option String) (bases : List String) (lastErr : String) :
    (fetchMirrors crates cfg hash parse parseError auth bases lastErr).Returns
      (Served crates hash parse) := by
  induction bases generalizing lastErr with
  | nil => exact Prog.Returns.ask_bind fun _ => served_error
  | cons base bases ih =>
    unfold fetchMirrors
    apply (fetchAttempts_served auth _ lastErr).bind
    intro result hresult
    cases result with
    | done r => exact hresult r rfl
    | next e => exact ih e

theorem fetchEvidence_served :
    (fetchEvidence crates cfg hash parse parseError).Returns (Served crates hash parse) := by
  unfold fetchEvidence
  split
  · exact served_error
  · exact fetchMirrors_served _ _ _

end Fetch

/-- What a run returns can be recorded as it is. -/
def Explained (crates : Crates) (profile : Bool → Prop) (job : EvaluationJob)
    (r : Except OracleError PipelineOutcome) : Prop :=
  ∀ outcome, r = .ok outcome → outcome.signature.isSome = true ∧
    Reproduces crates profile job outcome.result outcome.resolutionHash

theorem explained_error {profile : Bool → Prop} {e : OracleError} :
    Explained crates profile job (.error e) :=
  fun _ h => by cases h

variable {profile : Bool → Prop} (hprofile : profile cfg.strictProfile)
include hprofile

theorem runPipeline_explained :
    (runPipeline crates cfg job).Returns (Explained crates profile job) := by
  unfold runPipeline
  apply (Prog.returns_true _).bind
  intro r _
  rcases r with e | _ | _
  · exact explained_error
  · exact explained_error
  apply fetchEvidence_served.bind
  intro r hsla
  rcases r with e | sla
  · exact explained_error
  obtain ⟨rawSla, hhashSla, hparseSla⟩ := hsla sla rfl
  apply fetchEvidence_served.bind
  intro r hevidence
  rcases r with e | evidence
  · exact explained_error
  obtain ⟨rawDelivery, hhashDelivery, hparseDelivery⟩ := hevidence evidence rfl
  dsimp only
  split
  · exact explained_error
  next result hresult =>
  split
  · exact explained_error
  next hash hhash =>
  apply (Prog.returns_true _).bind
  intro r _
  cases r with
  | error e => exact explained_error
  | ok sig =>
    rintro outcome ⟨⟩
    exact ⟨rfl, rawSla, rawDelivery, sla, evidence, _, hhashSla, hparseSla, hhashDelivery,
      hparseDelivery, hprofile, hresult, hhash⟩

end Outcomes

/-! ## The tasks -/

section Tasks
variable {crates : Crates} {profile : Bool → Prop} {cfg : OracleConfig} {job : EvaluationJob}

def CallFits (crates : Crates) (profile : Bool → Prop) (c : TCall) : Prop :=
  ∀ q, c.base = .sql q → StmtFits crates profile q

theorem callFits_local {c : Call} (hc : c.isLocal = true) : CallFits crates profile (.await c) := by
  rintro q rfl
  cases hc

theorem callFits_race {c : Call} (hc : c.isPipeline = true) :
    CallFits crates profile (.race c) := by
  rintro q rfl
  cases hc

theorem await_fits {c : Call} (hc : c.isLocal = true) :
    (Worker.await c).Calls (CallFits crates profile) := ⟨callFits_local hc, fun _ _ => trivial⟩

theorem timedPipeline_fits :
    (Worker.timedPipeline crates cfg job).Calls (CallFits crates profile) :=
  Prog.calls_timeout Pipeline.runPipeline_calls fun _ => callFits_race

theorem recordStatus_fits {status : JobStatus} {lastError : Option String} {event : LifecycleEvent}
    {payload : EventPayload} (hsettled : status ≠ .settled)
    (herror : lastError.isSome = true ↔ status = .failed ∨ status = .deadLetter)
    (hpayload : PayloadFits event payload) :
    (Db.recordStatus crates job status lastError event payload).lift.Calls
      (CallFits crates profile) := by
  have hupsert : UpsertFits crates (Db.upsertArgs crates job status lastError none none) :=
    ⟨⟨job, rfl, rfl⟩, herror, ⟨fun h => (by cases h), fun h => absurd h hsettled⟩, rfl⟩
  refine ⟨fun q hq => ?_, fun r _ => ?_⟩
  · obtain rfl := Call.sql.inj hq
    exact hupsert
  · cases r with
    | error e => trivial
    | ok u =>
      refine ⟨fun q hq => ?_, fun _ _ => trivial⟩
      obtain rfl := Call.sql.inj hq
      exact hpayload

theorem recordSettled_fits {outcome : PipelineOutcome}
    (houtcome : Explained crates profile job (.ok outcome)) :
    (Db.recordSettled crates job outcome.result outcome.signature outcome.resolutionHash).lift.Calls
      (CallFits crates profile) := by
  obtain ⟨hsigned, hreproduces⟩ := houtcome outcome rfl
  obtain ⟨sig, hsig⟩ := Option.isSome_iff_exists.mp hsigned
  rw [hsig]
  refine ⟨fun q hq => ?_, fun r _ => ?_⟩
  · obtain rfl := Call.sql.inj hq
    exact ⟨⟨job, rfl, rfl⟩, by simp [Db.upsertArgs], by simp [Db.upsertArgs], rfl⟩
  cases r with
  | error e => trivial
  | ok u =>
    refine ⟨fun q hq => ?_, fun r _ => ?_⟩
    · obtain rfl := Call.sql.inj hq
      exact ⟨rfl, job, outcome.result, outcome.resolutionHash, rfl, hreproduces, rfl, rfl, rfl,
        rfl⟩
    cases r with
    | error e => trivial
    | ok u =>
      refine ⟨fun q hq => ?_, fun _ _ => trivial⟩
      obtain rfl := Call.sql.inj hq
      exact ⟨_, _, _, sig, rfl⟩

theorem recordQueued_fits : (Db.recordQueued crates job).lift.Calls (CallFits crates profile) :=
  recordStatus_fits (by decide) (by decide) rfl

theorem recordFailed_fits (msg : String) :
    (Db.recordFailed crates job msg).lift.Calls (CallFits crates profile) :=
  recordStatus_fits (by decide) (by simp) ⟨msg, rfl⟩

theorem recordIntake_fits :
    (Worker.recordIntake crates cfg job).Calls (CallFits crates profile) := by
  have hdetected : (Db.recordDetected crates job).lift.Calls (CallFits crates profile) :=
    recordStatus_fits (by decide) (by decide) rfl
  unfold Worker.recordIntake
  split
  · exact hdetected.bind fun _ => recordQueued_fits.bind fun _ => trivial
  · trivial

theorem startAttempt_fits :
    (Worker.startAttempt crates cfg job).Calls (CallFits crates profile) := by
  have hstarted : (Db.recordStarted crates job).lift.Calls (CallFits crates profile) :=
    recordStatus_fits (by decide) (by decide) rfl
  have hcount : (Db.attemptCount job.paymentUid).lift.Calls (CallFits crates profile) := by
    refine ⟨fun q hq => ?_, fun _ _ => trivial⟩
    obtain rfl := Call.sql.inj hq
    trivial
  unfold Worker.startAttempt
  split
  · refine hstarted.bind fun r => ?_
    cases r with
    | error e => trivial
    | ok u =>
      refine hcount.bind fun r => ?_
      cases r <;> trivial
  · exact await_fits rfl

theorem finishFailed_fits (attemptCount : UInt32) (msg : String) :
    (Worker.finishFailed crates cfg job attemptCount msg).Calls (CallFits crates profile) := by
  have hdead : (Db.recordDeadLetter crates job msg).lift.Calls (CallFits crates profile) :=
    recordStatus_fits (by decide) (by simp) ⟨msg, rfl⟩
  have hrecord : ∀ dead, (Worker.recordFailure crates cfg job dead msg).Calls
      (CallFits crates profile) := by
    intro dead
    unfold Worker.recordFailure
    split
    · split
      · exact hdead.bind fun _ => trivial
      · exact (recordFailed_fits msg).bind fun _ => trivial
    · trivial
  have hcount : ∀ dead, (Worker.countFailure job dead).Calls (CallFits crates profile) := by
    intro dead
    unfold Worker.countFailure
    split <;> exact (await_fits rfl).bind fun _ => await_fits rfl
  exact (hrecord _).bind fun _ => (hcount _).bind fun _ => trivial

theorem persistSlotWatermark_fits :
    Chain.persistSlotWatermark.lift.Calls (CallFits crates profile) := by
  refine ⟨callFits_local rfl, fun slot _ => ?_⟩
  dsimp only [Prog.bind]
  split
  · trivial
  · next hslot =>
    refine ⟨fun q hq => ?_, fun _ _ => trivial⟩
    obtain rfl := Call.sql.inj hq
    exact ⟨rfl, slot, Nat.pos_of_ne_zero hslot, rfl⟩

theorem finishSettled_fits {outcome : PipelineOutcome}
    (houtcome : Explained crates profile job (.ok outcome)) :
    (Worker.finishSettled crates cfg job outcome).Calls (CallFits crates profile) := by
  unfold Worker.finishSettled
  split
  · exact (recordSettled_fits houtcome).bind fun _ => persistSlotWatermark_fits
  · trivial

theorem finish_fits (attemptCount : UInt32) {result : Worker.RunResult}
    (hresult : ∀ r, result = some r → Explained crates profile job r) :
    (Worker.finish crates cfg job attemptCount result).Calls (CallFits crates profile) := by
  rcases result with _ | e | outcome
  · exact finishFailed_fits _ _
  · exact finishFailed_fits _ _
  · refine (finishSettled_fits (hresult _ rfl)).bind fun _ => ?_
    exact (await_fits rfl).bind fun _ => (await_fits rfl).bind fun _ => trivial

theorem finishManual_fits {result : Worker.RunResult}
    (hresult : ∀ r, result = some r → Explained crates profile job r) :
    (Server.finishManual crates cfg job result).Calls (CallFits crates profile) := by
  have hfailure : ∀ msg, (Server.recordManualFailure crates cfg job msg).Calls
      (CallFits crates profile) := by
    intro msg
    unfold Server.recordManualFailure
    split
    · exact (recordFailed_fits msg).bind fun _ => await_fits rfl
    · exact await_fits rfl
  rcases result with _ | e | outcome
  · exact (hfailure _).bind fun _ => trivial
  · exact (hfailure _).bind fun _ => trivial
  · have hsettled : (Server.recordManualSettled crates cfg job outcome).Calls
        (CallFits crates profile) := by
      unfold Server.recordManualSettled
      split
      · exact (recordSettled_fits (hresult _ rfl)).bind fun _ => await_fits rfl
      · exact await_fits rfl
    exact hsettled.bind fun _ => trivial

theorem callFits_noSql {c : Call} (hc : ∀ q, c ≠ .sql q) : CallFits crates profile (.await c) :=
  fun q hq => absurd hq (hc q)

theorem callFits_scan {c : Call} (hc : Backfill.IsScan c) : CallFits crates profile (.await c) := by
  apply callFits_noSql
  rintro q rfl
  rcases hc with (⟨sig, h⟩ | ⟨key, h⟩) | ⟨job, h⟩ <;> cases h

theorem callFits_paging {c : Call} (hc : Backfill.IsPaging c) :
    CallFits crates profile (.await c) := by
  rcases hc with hc | ⟨before, limit, rfl⟩
  · exact callFits_scan hc
  · exact callFits_noSql fun q h => by cases h

theorem monitorNotification_fits (note : Chain.LogNotification) :
    (Chain.monitorNotification crates cfg note).lift.Calls (CallFits crates profile) := by
  have hmemory : ∀ c : Call, c = .observeSlot note.slot ∨ c = .observeDelivery →
      CallFits crates profile (.await c) := by
    rintro c (rfl | rfl) <;> exact callFits_noSql fun q h => by cases h
  have hcalls : (Chain.monitorNotification crates cfg note).Calls
      fun c => CallFits crates profile (.await c) := by
    refine ⟨hmemory _ (Or.inl rfl), fun _ _ => ?_⟩
    dsimp only [Prog.bind]
    split
    · trivial
    split
    · trivial
    refine ((Backfill.fetchDeliveryJob_scan _).mono fun _ => callFits_scan).bind fun r => ?_
    rcases r with e | _ | job
    · trivial
    · trivial
    · exact ⟨hmemory _ (Or.inr rfl),
        fun _ _ => ⟨callFits_scan (Backfill.isScan_sendJob job), fun _ _ => trivial⟩⟩
  exact Prog.calls_lift hcalls fun _ h => h

theorem backfillMissedDeliveries_fits :
    (Chain.backfillMissedDeliveries crates cfg).lift.Calls (CallFits crates profile) := by
  have hread : (Chain.readWatermark cfg).Calls fun c => CallFits crates profile (.await c) := by
    unfold Chain.readWatermark
    split
    · refine Prog.Calls.ask_bind (fun q hq => ?_) fun r => ?_
      · obtain rfl := Call.sql.inj hq
        trivial
      · rcases r with e | _ | raw <;> trivial
    · trivial
  have hfinish : ∀ slot, (Chain.finishBackfill cfg slot).Calls
      fun c => CallFits crates profile (.await c) := by
    intro slot
    have hraise : CallFits crates profile (.await (.raiseLastSeenSlot slot)) :=
      callFits_noSql fun q h => by cases h
    unfold Chain.finishBackfill
    split
    · next hslot =>
      split
      · refine ⟨fun q hq => ?_, fun _ _ => ⟨hraise, fun _ _ => trivial⟩⟩
        obtain rfl := Call.sql.inj hq
        exact ⟨rfl, slot, hslot, rfl⟩
      · exact ⟨hraise, fun _ _ => trivial⟩
    · trivial
  have hcalls : (Chain.backfillMissedDeliveries crates cfg).Calls
      fun c => CallFits crates profile (.await c) := by
    unfold Chain.backfillMissedDeliveries
    split
    · trivial
    · refine hread.bind fun lastSeenSlot => ?_
      refine ((Backfill.scanPages_paging _ _ _ _).mono fun _ => callFits_paging).bind ?_
      exact hfinish
  exact Prog.calls_lift hcalls fun _ h => h

variable (hprofile : profile cfg.strictProfile)
include hprofile

theorem timedPipeline_explained : (Worker.timedPipeline crates cfg job).Returns
    fun result => ∀ r, result = some r → Explained crates profile job r :=
  Prog.returns_timeout (runPipeline_explained hprofile)

theorem handleJob_fits : (Worker.handleJob crates cfg job
    (Worker.timedPipeline crates cfg job)).Calls (CallFits crates profile) := by
  have hskip : (Worker.skipDuplicate cfg job).Calls (CallFits crates profile) := by
    unfold Worker.skipDuplicate
    split
    · refine ⟨fun q hq => ?_, fun r _ => ?_⟩
      · obtain rfl := Call.sql.inj hq
        trivial
      · rcases r with e | _ | _ <;> trivial
    · exact ⟨callFits_local rfl, fun _ _ => trivial⟩
  refine (await_fits rfl).bind fun _ => hskip.bind fun skip => ?_
  cases skip with
  | true => trivial
  | false =>
    refine recordIntake_fits.bind fun _ => startAttempt_fits.bind fun attemptCount => ?_
    exact timedPipeline_fits.bind_returns (timedPipeline_explained hprofile)
      fun result hresult => finish_fits attemptCount hresult

theorem manualEvaluate_fits (headers : Server.Headers) (paymentPubkey : String) :
    (Server.manualEvaluate crates cfg headers paymentPubkey).Calls (CallFits crates profile) := by
  have hauthorize : (Server.authorizeManualEvaluate crates cfg headers).lift.Calls
      (CallFits crates profile) :=
    Prog.calls_lift (Server.authorizeManualEvaluate_calls headers) fun _ => callFits_local
  have hrun : ∀ job, (Worker.timedPipeline crates cfg job >>=
      Server.finishManual crates cfg job).Calls (CallFits crates profile) := fun job =>
    timedPipeline_fits.bind_returns (timedPipeline_explained hprofile)
      fun result hresult => finishManual_fits hresult
  refine hauthorize.bind fun r => ?_
  rcases r with ⟨status, msg⟩ | u
  · trivial
  dsimp only
  cases crates.pubkeyFromStr paymentPubkey with
  | none => trivial
  | some key =>
    refine (Prog.calls_lift (Chain.readPayment_calls key) ?_).bind fun r => ?_
    · rintro c rfl
      exact callFits_noSql fun q h => by cases h
    rcases r with e | _ | job
    · trivial
    · trivial
    · dsimp only
      unfold Server.evaluateManually
      split
      · exact recordQueued_fits.bind fun _ => hrun job
      · exact hrun job

theorem entry_fits {t : TaskId} {code : TaskCode Unit} (h : System.Entry crates cfg t code) :
    code.Calls (CallFits crates profile) := by
  cases h with
  | none => trivial
  | worker job => exact (handleJob_fits hprofile).bind fun _ => trivial
  | monitor note => exact (monitorNotification_fits note).bind fun _ => trivial
  | backfill => exact backfillMissedDeliveries_fits
  | handler n headers paymentPubkey =>
    exact (manualEvaluate_fits hprofile headers paymentPubkey).bind fun _ => trivial

end Tasks

/-! ## The processes -/

section Processes
variable {crates : Crates} {profile : Bool → Prop} {cfg : OracleConfig} {s s' : System} {a : Act}

structure SharedFits (crates : Crates) (profile : Bool → Prop) (g : Shared) : Prop where
  ledger : LedgerFits crates profile g.ledger
  unanswered : ∀ q ∈ g.unanswered, StmtFits crates profile q

theorem sharedFits_init : SharedFits crates profile System.init.shared :=
  ⟨⟨fun _ _ h => (by cases h), fun _ _ h => (by cases h), fun _ h => (by cases h),
    fun _ _ h => (by cases h)⟩, fun _ h => (by cases h)⟩

theorem executed_fits (hs : SharedFits crates profile s.shared)
    (htasks : ∀ t, (s.tasks t).Calls (CallFits crates profile)) {now : Int} {q : Stmt}
    (hex : s.executed a = some (now, q)) : StmtFits crates profile q := by
  cases a with
  | step t choose =>
    simp only [System.executed] at hex
    split at hex
    · cases hex
    · next c k hcode =>
      have hcall := htasks t
      rw [hcode] at hcall
      exact hcall.1 q (Timed.executed_base hex)
  | execLate i now =>
    obtain ⟨q', hq, hqq⟩ := Option.map_eq_some_iff.mp hex
    obtain ⟨-, rfl⟩ := Prod.mk.inj hqq
    exact hs.unanswered _ (List.mem_of_getElem? hq)
  | _ => cases hex

theorem move_fits (hprofile : profile cfg.strictProfile)
    (hs : SharedFits crates profile s.shared)
    (htasks : ∀ t, (s.tasks t).Calls (CallFits crates profile)) (h : s.Move crates cfg a s') :
    SharedFits crates profile s'.shared ∧ ∀ t, (s'.tasks t).Calls (CallFits crates profile) := by
  have hledger : LedgerFits crates profile s'.world.ledger := by
    rw [h.ledger]
    cases hex : s.executed a with
    | none => exact hs.ledger
    | some p => exact ledgerFits_after hs.ledger (executed_fits hs htasks hex)
  cases h with
  | @call t choose c k r w hcode hw =>
    have hcall := htasks t
    rw [hcode] at hcall
    refine ⟨⟨hledger, fun q hq => ?_⟩, ?_⟩
    · rcases (World.performTimed_frame hw).unanswered q hq with hold | hbase
      · exact hs.unanswered q hold
      · exact hcall.1 q hbase
    · exact (Function.forall_update_iff _ fun _ => Prog.Calls (CallFits crates profile)).mpr
        ⟨hcall.2 r trivial, fun t' _ => htasks t'⟩
  | spawn hentry hexecuted =>
    refine ⟨⟨hledger, hs.unanswered⟩, ?_⟩
    exact (Function.forall_update_iff _ fun _ => Prog.Calls (CallFits crates profile)).mpr
      ⟨entry_fits hprofile hentry, fun t' _ => htasks t'⟩
  | execLate hq =>
    exact ⟨⟨hledger, fun q hq => hs.unanswered q (List.mem_of_mem_eraseIdx hq)⟩, htasks⟩
  | land htx hnone => exact ⟨⟨hledger, hs.unanswered⟩, htasks⟩
  | resolve hnone => exact ⟨⟨hledger, hs.unanswered⟩, htasks⟩
  | crash => exact ⟨⟨hledger, hs.unanswered⟩, fun _ => trivial⟩

def modes {I : Type} (cfg : I → OracleConfig) (strictProfile : Bool) : Prop :=
  ∃ i, (cfg i).strictProfile = strictProfile

variable {I : Type} [DecidableEq I]

theorem fits_of_reached {cfg : I → OracleConfig} {s : Oracles I}
    (hs : Oracles.Reached crates cfg s) : LedgerFits crates (modes cfg) s.shared.ledger := by
  refine (Oracles.invariant (SharedFits crates (modes cfg))
    (fun _ _ p => ∀ t, (p.tasks t).Calls (CallFits crates (modes cfg))) (fun _ _ => True)
    sharedFits_init (fun _ _ => trivial) ?_ (fun _ _ _ _ h _ => h) hs).1.ledger
  intro i s s' a hg hp hmove
  have hprofile : modes cfg (cfg i).strictProfile := ⟨i, rfl⟩
  obtain ⟨hshared, htasks⟩ := move_fits hprofile hg hp hmove
  exact ⟨hshared, htasks, trivial⟩

/-- In every state that the processes reach together, the ledger keeps its constraints. -/
theorem ledger_integrity (crates : Crates) (cfg : I → OracleConfig) (s : Oracles I)
    (hs : Oracles.Reached crates cfg s) : LedgerFits crates (modes cfg) s.shared.ledger :=
  fits_of_reached hs

def manualEvaluation : List Act :=
  [.start, .request 0 ⟨none, none⟩ ""] ++ System.toySteps (.handler 0) 17

def twoEvaluations : List (Bool × Act) :=
  (manualEvaluation.map fun a => (true, a)) ++ manualEvaluation.map fun a => (false, a)

theorem ledger_integrity_two :
    ∃ s, Oracles.run .toy (fun _ : Bool => .toy) twoEvaluations = some s ∧
      (s.shared.ledger.verdicts (uidHex (byte32 1))).isSome = true ∧
      LedgerFits .toy (modes fun _ : Bool => .toy) s.shared.ledger := by
  have hrun : (Oracles.run .toy (fun _ : Bool => .toy) twoEvaluations).map
      (fun s => (s.shared.ledger.verdicts (uidHex (byte32 1))).isSome) = some true := by
    decide +kernel
  obtain ⟨s, hs, hverdict⟩ := Option.map_eq_some_iff.mp hrun
  exact ⟨s, hs, hverdict, ledger_integrity .toy (fun _ => .toy) s (Oracles.reached_of_run hs)⟩

end Processes
end OracleQa.Integrity
