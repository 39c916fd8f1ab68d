import OracleQa.Spec.LedgerMode
import OracleQa.Spec.Runs

/-! The bound on the worker's runs for one payment. It is kept by the last run that is permitted:
its count has reached the limit, its conclusion gets into the ledger before a crash, and the row is
not opened again. -/

namespace OracleQa.RunBudget
open Interaction Worker
open RunLog (delivered missedSteps)

/-! ## Stages of the worker's code for one job -/

inductive Stage
  | probe
  /-- past it, with the run still to come -/
  | armed
  /-- in the run, or at the write of its conclusion -/
  | running (attemptCount : UInt32)
  /-- nothing is left that changes the row -/
  | closing

def startCount : (c : TCall) → TReply c → Option UInt32
  | .await (.sql (.upsertJob u)), .error _ => if u.status = .running then some 1 else none
  | .await (.sql (.insertEvent e)), .error _ => if e.event = .started then some 1 else none
  | .await (.sql (.attemptCount _)), .ok n => some (if n > 0 then UInt32.ofNat n else 1)
  | .await (.sql (.attemptCount _)), .error _ => some 1
  | _, _ => none

namespace Stage

def after : Stage → (c : TCall) → TReply c → Stage
  | .probe, .await (.sql (.isTerminal _)), .ok true => .closing
  | .probe, .await (.sql (.isTerminal _)), _ => .armed
  | .probe, _, _ => .probe
  | .armed, c, r => Option.elim (startCount c r) .armed .running
  | .running n, .race _, _ => .running n
  | .running _, .await _, _ => .closing
  | .closing, _, _ => .closing

def Permits (cfg : OracleConfig) (job : EvaluationJob) : Stage → TCall → Prop
  | .probe, c => c = .await .setQueueDepth ∨
      c = .await (.sql (.isTerminal (uidHex job.paymentUid)))
  | .armed, c => ∃ q, c = .await (.sql q)
  | .running n, c => (∃ c', c = .race c') ∨ ∃ u, c = .await (.sql (.upsertJob u)) ∧
      u.paymentUid = uidHex job.paymentUid ∧
      (cfg.deadLetterMaxAttempts ≤ n → u.status = .settled ∨ u.status = .deadLetter)
  | .closing, c => ∃ c', c = .await c' ∧ ∀ u, c' ≠ .sql (.upsertJob u)

def next (st : Stage) (c : TCall) (r : TReply c) (st' : Stage) : Prop := st' = st.after c r

end Stage

section Code
variable {crates : Crates} {cfg : OracleConfig} {job : EvaluationJob}

variable (cfg job) in
def Staged (st : Stage) (code : TaskCode Unit) : Prop :=
  code.Wp Stage.next (Stage.Permits cfg job) (fun _ st => st = .closing) st

theorem closing_wp {α : Type} {p : TaskCode α}
    (hp : p.Calls fun c => ∃ c', c = .await c' ∧ ∀ u, c' ≠ .sql (.upsertJob u)) :
    p.Wp Stage.next (Stage.Permits cfg job) (fun _ st => st = .closing) .closing := by
  refine hp.wp (I := fun st => st = Stage.closing) ?_ ?_ rfl
  · rintro st c rfl hc
    exact hc
  · rintro st c r st' rfl - hst'
    rw [show st' = Stage.after .closing c r from hst']
    rfl

theorem recordStatus_wp {status : JobStatus} {event : LifecycleEvent} (lastError : Option String)
    (payload : EventPayload) (hstatus : status ≠ .running) (hevent : event ≠ .started) :
    (Db.recordStatus crates job status lastError event payload).lift.Wp Stage.next
      (Stage.Permits cfg job) (fun _ st => st = .armed) .armed := by
  refine ⟨⟨_, rfl⟩, ?_⟩
  rintro (e | u) st rfl
  · show Option.elim (if status = .running then some 1 else none) Stage.armed Stage.running = _
    rw [if_neg hstatus]
    rfl
  · refine ⟨⟨_, rfl⟩, ?_⟩
    rintro (e | u) st rfl
    · show Option.elim (if event = .started then some 1 else none) Stage.armed Stage.running = _
      rw [if_neg hevent]
      rfl
    · rfl

theorem recordIntake_wp (hdb : cfg.databaseEnabled = true) :
    (recordIntake crates cfg job).Wp Stage.next (Stage.Permits cfg job)
      (fun _ st => st = .armed) .armed := by
  unfold recordIntake
  rw [if_pos hdb]
  have hdetected : (Db.recordDetected crates job).lift.Wp Stage.next (Stage.Permits cfg job)
      (fun _ st => st = .armed) .armed :=
    recordStatus_wp none .empty (by decide) (by decide)
  have hqueued : (Db.recordQueued crates job).lift.Wp Stage.next (Stage.Permits cfg job)
      (fun _ st => st = .armed) .armed :=
    recordStatus_wp none .empty (by decide) (by decide)
  refine hdetected.bind ?_
  rintro _ st rfl
  refine hqueued.bind ?_
  rintro _ st rfl
  rfl

theorem startAttempt_wp (hdb : cfg.databaseEnabled = true) :
    (startAttempt crates cfg job).Wp Stage.next (Stage.Permits cfg job)
      (fun n st => st = .running n) .armed := by
  unfold startAttempt
  rw [if_pos hdb]
  refine ⟨⟨_, rfl⟩, ?_⟩
  rintro (e | u) st rfl
  · rfl
  refine ⟨⟨_, rfl⟩, ?_⟩
  rintro (e | u) st rfl
  · rfl
  refine ⟨⟨_, rfl⟩, ?_⟩
  rintro (e | n) st rfl
  · rfl
  · rfl

theorem timedPipeline_wp (n : UInt32) :
    (timedPipeline crates cfg job).Wp Stage.next (Stage.Permits cfg job)
      (fun _ st => st = .running n) (.running n) := by
  have hrun : (timedPipeline crates cfg job).Calls fun c => ∃ c', c = .race c' :=
    Prog.calls_timeout Pipeline.runPipeline_calls fun c _ => ⟨c, rfl⟩
  refine hrun.wp (I := fun st => st = Stage.running n) ?_ ?_ rfl
  · rintro st c rfl hc
    exact Or.inl hc
  · rintro st c r st' rfl ⟨c', rfl⟩ rfl
    rfl

theorem recordFailure_wp (hdb : cfg.databaseEnabled = true) (n : UInt32) (msg : String) :
    (recordFailure crates cfg job (decide (n ≥ cfg.deadLetterMaxAttempts)) msg).Wp Stage.next
      (Stage.Permits cfg job) (fun _ st => st = .closing) (.running n) := by
  have hrecord : ∀ status event, (cfg.deadLetterMaxAttempts ≤ n → status = .settled ∨
      status = .deadLetter) → (Db.recordStatus crates job status (some msg) event
        (.error msg)).lift.Wp Stage.next (Stage.Permits cfg job) (fun _ st => st = .closing)
        (.running n) := by
    intro status event hstatus
    refine ⟨Or.inr ⟨_, rfl, rfl, hstatus⟩, ?_⟩
    rintro (e | u) st rfl
    · rfl
    · exact closing_wp ⟨⟨_, rfl, fun _ h => (by cases h)⟩, fun _ _ => trivial⟩
  unfold recordFailure
  rw [if_pos hdb]
  split
  · refine (hrecord .deadLetter .deadLetter fun _ => Or.inr rfl).bind ?_
    rintro _ st rfl
    rfl
  · next hlimit =>
    have hbelow : ¬ cfg.deadLetterMaxAttempts ≤ n := fun h => hlimit (decide_eq_true h)
    refine (hrecord .failed .failed fun h => absurd h hbelow).bind ?_
    rintro _ st rfl
    rfl

theorem countFailure_wp (dead : Bool) :
    (countFailure job dead).Wp Stage.next (Stage.Permits cfg job) (fun _ st => st = .closing)
      .closing := by
  apply closing_wp
  unfold countFailure
  split
  · exact ⟨⟨_, rfl, fun _ h => (by cases h)⟩, fun _ _ =>
      ⟨⟨_, rfl, fun _ h => (by cases h)⟩, fun _ _ => trivial⟩⟩
  · exact ⟨⟨_, rfl, fun _ h => (by cases h)⟩, fun _ _ =>
      ⟨⟨_, rfl, fun _ h => (by cases h)⟩, fun _ _ => trivial⟩⟩

theorem finishFailed_wp (hdb : cfg.databaseEnabled = true) (n : UInt32) (msg : String) :
    (finishFailed crates cfg job n msg).Wp Stage.next (Stage.Permits cfg job)
      (fun _ st => st = .closing) (.running n) := by
  refine (recordFailure_wp hdb n msg).bind ?_
  rintro _ st rfl
  refine (countFailure_wp _).bind ?_
  rintro _ st rfl
  rfl

theorem finishSettled_wp (hdb : cfg.databaseEnabled = true) (n : UInt32)
    (outcome : Pipeline.PipelineOutcome) :
    (finishSettled crates cfg job outcome).Wp Stage.next (Stage.Permits cfg job)
      (fun _ st => st = .closing) (.running n) := by
  have hpersist : Chain.persistSlotWatermark.lift.Wp Stage.next (Stage.Permits cfg job)
      (fun _ st => st = .closing) .closing := by
    apply closing_wp
    refine Prog.calls_lift Chain.persistSlotWatermark_calls ?_
    rintro c (rfl | ⟨value, rfl⟩)
    · exact ⟨_, rfl, fun _ h => (by cases h)⟩
    · exact ⟨_, rfl, fun _ h => (by cases h)⟩
  have hrecord : (Db.recordSettled crates job outcome.result outcome.signature
      outcome.resolutionHash).lift.Wp Stage.next (Stage.Permits cfg job)
      (fun _ st => st = .closing) (.running n) := by
    refine ⟨Or.inr ⟨_, rfl, rfl, fun _ => Or.inl rfl⟩, ?_⟩
    rintro (e | u) st rfl
    · rfl
    apply closing_wp
    refine ⟨⟨_, rfl, fun _ h => (by cases h)⟩, fun r _ => ?_⟩
    cases r with
    | error e => trivial
    | ok u => exact ⟨⟨_, rfl, fun _ h => (by cases h)⟩, fun _ _ => trivial⟩
  unfold finishSettled
  rw [if_pos hdb]
  refine hrecord.bind ?_
  rintro _ st rfl
  exact hpersist

theorem finish_wp (hdb : cfg.databaseEnabled = true) (n : UInt32) (result : RunResult) :
    (finish crates cfg job n result).Wp Stage.next (Stage.Permits cfg job)
      (fun _ st => st = .closing) (.running n) := by
  rcases result with _ | e | outcome
  · exact finishFailed_wp hdb n _
  · exact finishFailed_wp hdb n _
  · refine (finishSettled_wp hdb n outcome).bind ?_
    rintro _ st rfl
    apply closing_wp
    exact ⟨⟨_, rfl, fun _ h => (by cases h)⟩, fun _ _ =>
      ⟨⟨_, rfl, fun _ h => (by cases h)⟩, fun _ _ => trivial⟩⟩

theorem evaluateJob_wp (hdb : cfg.databaseEnabled = true) :
    (evaluateJob crates cfg job (timedPipeline crates cfg job)).Wp Stage.next
      (Stage.Permits cfg job) (fun _ st => st = .closing) .armed := by
  refine (recordIntake_wp hdb).bind ?_
  rintro _ st rfl
  refine (startAttempt_wp hdb).bind ?_
  rintro n st rfl
  refine (timedPipeline_wp n).bind ?_
  rintro result st rfl
  exact finish_wp hdb n result

theorem workerBody_staged (hdb : cfg.databaseEnabled = true) :
    Staged cfg job .probe (System.workerBody crates cfg job) := by
  have hprobe : (skipDuplicate cfg job).Wp Stage.next (Stage.Permits cfg job)
      (fun skip st => st = if skip then .closing else .armed) .probe := by
    unfold skipDuplicate
    rw [if_pos hdb]
    refine ⟨Or.inr rfl, ?_⟩
    rintro (e | _ | _) st rfl
    · rfl
    · rfl
    · rfl
  have hjob : (handleJob crates cfg job (timedPipeline crates cfg job)).Wp Stage.next
      (Stage.Permits cfg job) (fun _ st => st = .closing) .probe := by
    refine ⟨Or.inl rfl, ?_⟩
    rintro _ st rfl
    refine hprobe.bind ?_
    rintro (_ | _) st rfl
    · exact evaluateJob_wp hdb
    · rfl
  refine hjob.bind ?_
  rintro _ st rfl
  rfl

variable {st : Stage} {code : TaskCode Unit}

theorem inRun_of_staged (h : Staged cfg job st code) (hin : inRun code = true) :
    ∃ n, st = .running n := by
  unfold inRun at hin
  split at hin
  · next c k =>
    cases st with
    | running n => exact ⟨n, rfl⟩
    | probe => rcases h.1 with h | h <;> cases h
    | armed => obtain ⟨q, hq⟩ := h.1; cases hq
    | closing => obtain ⟨c', hc, -⟩ := h.1; cases hc
  · cases hin

theorem after_eq_running {n : UInt32} {c : TCall} {r : TReply c} (h : st.after c r = .running n) :
    (st = .armed ∧ startCount c r = some n) ∨ (st = .running n ∧ ∃ c', c = .race c') := by
  cases st with
  | probe =>
    unfold Stage.after at h
    split at h <;> contradiction
  | armed =>
    left
    refine ⟨rfl, ?_⟩
    change Option.elim (startCount c r) Stage.armed Stage.running = .running n at h
    cases hcount : startCount c r with
    | none =>
      rw [hcount] at h
      cases h
    | some m =>
      rw [hcount] at h
      rw [Stage.running.inj h]
  | running m =>
    right
    cases c with
    | await c => cases h
    | race c => exact ⟨h, c, rfl⟩
  | closing => cases h

theorem after_eq_armed {c : TCall} {r : TReply c} (hc : st.Permits cfg job c)
    (h : st.after c r = .armed) : st = .armed ∨ (st = .probe ∧
      ∃ heq : c = .await (.sql (.isTerminal (uidHex job.paymentUid))), heq ▸ r ≠ .ok true) := by
  cases st with
  | probe =>
    right
    refine ⟨rfl, ?_⟩
    rcases hc with rfl | rfl
    · cases h
    · refine ⟨rfl, ?_⟩
      rintro rfl
      cases h
  | armed => exact Or.inl rfl
  | running n => cases c <;> cases h
  | closing => cases h

end Code

/-! ## The ledger -/

section Ledger
variable {l : Ledger} {key : String}

theorem isTerminal_putJob {row : JobRow}
    (hstatus : row.status = .settled ∨ row.status = .deadLetter) :
    (l.putJob key row).isTerminal key = true := by
  rcases hstatus with h | h <;> simp [Ledger.isTerminal, Ledger.putJob, h]

theorem isTerminal_of_jobs {l' : Ledger} (h : l.isTerminal key = true)
    (hjobs : l'.jobs key = l.jobs key) : l'.isTerminal key = true := by
  rw [← h, Ledger.isTerminal, hjobs, Ledger.isTerminal]

theorem isTerminal_after (h : l.isTerminal key = true) {executed : Option (Int × Stmt)}
    (hkeeps : ∀ now u, executed = some (now, .upsertJob u) → u.paymentUid = key →
      u.status = .settled ∨ u.status = .deadLetter) : (l.after executed).isTerminal key = true := by
  rcases executed with _ | ⟨now, q⟩
  · exact h
  by_cases hq : ∃ u, q = .upsertJob u
  · obtain ⟨u, rfl⟩ := hq
    rcases Ledger.after_upsertJob l now u with heq | heq
    · rwa [heq]
    · rw [heq]
      by_cases hkey : u.paymentUid = key
      · have hstatus := hkeeps now u rfl hkey
        subst hkey
        apply isTerminal_putJob
        rwa [JobUpsert.row_status]
      · apply isTerminal_of_jobs h
        exact Function.update_of_ne (Ne.symm hkey) ..
  · apply isTerminal_of_jobs h
    rw [Ledger.after_jobs l now fun u hu => hq ⟨u, hu⟩]

def InRange (l : Ledger) : Prop := ∀ key, l.attemptCount key < 2 ^ 31

theorem attemptCount_of_jobs {l' : Ledger} (hjobs : l'.jobs key = l.jobs key) :
    l'.attemptCount key = l.attemptCount key := by
  rw [Ledger.attemptCount, hjobs, Ledger.attemptCount]

theorem InRange.upsertJob (hl : InRange l) (now : Int) (u : JobUpsert) :
    InRange (l.after (some (now, .upsertJob u))) := by
  intro key
  by_cases hrange : (u.row now (l.jobs u.paymentUid)).attempts < 2 ^ 31
  · have heq : l.after (some (now, .upsertJob u)) =
        l.putJob u.paymentUid (u.row now (l.jobs u.paymentUid)) := by
      simp only [Ledger.after, Stmt.exec, Ledger.upsertJob, if_pos hrange, Except.map]
    rw [heq]
    by_cases hkey : key = u.paymentUid
    · subst hkey
      simpa [Ledger.attemptCount, Ledger.putJob] using hrange
    · rw [attemptCount_of_jobs (l := l) (Function.update_of_ne hkey ..)]
      exact hl key
  · have heq : l.after (some (now, .upsertJob u)) = l := by
      simp only [Ledger.after, Stmt.exec, Ledger.upsertJob, if_neg hrange, Except.map]
    rw [heq]
    exact hl key

theorem InRange.after (hl : InRange l) (executed : Option (Int × Stmt)) :
    InRange (l.after executed) := by
  rcases executed with _ | ⟨now, q⟩
  · exact hl
  by_cases hq : ∃ u, q = .upsertJob u
  · obtain ⟨u, rfl⟩ := hq
    exact hl.upsertJob now u
  · intro key
    have hjobs := congrFun (Ledger.after_jobs l now fun u hu => hq ⟨u, hu⟩) key
    rw [attemptCount_of_jobs hjobs]
    exact hl key

theorem isTerminal_upserted (hl : InRange l) (now : Int) {u : JobUpsert}
    (hstatus : u.status = .settled ∨ u.status = .deadLetter) :
    (l.after (some (now, .upsertJob u))).isTerminal u.paymentUid = true := by
  have hattempts := u.row_attempts l now
  have hcount : [u.status].count .running = 0 := by
    rcases hstatus with h | h <;> rw [h] <;> rfl
  have hrange : (u.row now (l.jobs u.paymentUid)).attempts < 2 ^ 31 := by
    rw [hattempts, hcount]
    exact hl u.paymentUid
  have heq : l.after (some (now, .upsertJob u)) =
      l.putJob u.paymentUid (u.row now (l.jobs u.paymentUid)) := by
    simp only [Ledger.after, Stmt.exec, Ledger.upsertJob, if_pos hrange, Except.map]
  rw [heq]
  apply isTerminal_putJob
  rwa [JobUpsert.row_status]

end Ledger

/-! ## Runs -/

section
variable (crates : Crates) (cfg : OracleConfig)

def Spent (t : RunLog) (uid : Bytes32) : Prop := maxRuns cfg ≤ t.runs uid

/-- A step that does not lose the last run of a payment. -/
structure Bounded (t : RunLog) (a : Act) : Prop where
  /-- the last run starts with a count that has reached the limit -/
  counted : ∀ choose c k r w n job, a = .step .worker choose → t.sys.tasks .worker = .call c k →
    t.sys.world.performTimed cfg c (choose c) = some (r, w) → startCount c r = some n →
    t.hand = some job → t.runs job.paymentUid + 1 = maxRuns cfg → cfg.deadLetterMaxAttempts ≤ n
  /-- its conclusion reaches the ledger -/
  concluded : ∀ choose u k uid, a = .step .worker choose →
    t.sys.tasks .worker = .call (.await (.sql (.upsertJob u))) k → u.paymentUid = uidHex uid →
    Spent cfg t uid → t.sys.executed a ≠ none
  /-- and a crash finds it there -/
  crash : a = .crash → ∀ uid, Spent cfg t uid → t.ledger.isTerminal (uidHex uid) = true
  /-- nothing opens the row again -/
  closed : ∀ now u uid, t.sys.executed a = some (now, .upsertJob u) → u.paymentUid = uidHex uid →
    Spent cfg t uid → t.ledger.isTerminal (uidHex uid) = true →
    u.status = .settled ∨ u.status = .deadLetter
  /-- and the probe of the row is answered -/
  probed : ∀ choose uid k, a = .step .worker choose →
    t.sys.tasks .worker = .call (.await (.sql (.isTerminal (uidHex uid)))) k → Spent cfg t uid →
    ∃ now, choose (.await (.sql (.isTerminal (uidHex uid)))) = SqlChoice.done now

def Armed (t : RunLog) (st : Stage) (uid : Bytes32) : Prop :=
  st = .armed ∧ ∃ job, t.hand = some job ∧ job.paymentUid = uid

def Final (t : RunLog) (st : Stage) (uid : Bytes32) : Prop :=
  ∃ n, st = .running n ∧ cfg.deadLetterMaxAttempts ≤ n ∧
    ∃ job, t.hand = some job ∧ job.paymentUid = uid

structure Holds (t : RunLog) (st : Stage) : Prop where
  code : ∀ job, t.hand = some job → Staged cfg job st (t.sys.tasks .worker)
  idle : t.hand = none → t.sys.tasks .worker = .ret ()
  range : InRange t.ledger
  le : ∀ uid, t.runs uid ≤ maxRuns cfg
  spent : ∀ uid, Spent cfg t uid →
    (t.ledger.isTerminal (uidHex uid) = true ∧ ¬ Armed t st uid) ∨ Final cfg t st uid

end

section
variable {crates : Crates} {cfg : OracleConfig} {t t' : RunLog} {a : Act} {st : Stage}

theorem holds_init : Holds cfg .init .closing where
  code job h := by cases h
  idle _ := rfl
  range key := Nat.two_pow_pos 31
  le uid := Nat.zero_le _
  spent uid h := by
    have hnone : maxRuns cfg ≤ 0 := h
    have hone : 1 ≤ maxRuns cfg := one_le_maxRuns
    omega

theorem terminal_next (hg : Bounded cfg t a) (h : t.next crates cfg a = some t') {uid : Bytes32}
    (hspent : Spent cfg t uid) (hterminal : t.ledger.isTerminal (uidHex uid) = true) :
    t'.ledger.isTerminal (uidHex uid) = true := by
  rw [RunLog.ledger_next h]
  apply isTerminal_after hterminal
  intro now u hexecuted hkey
  exact hg.closed now u uid hexecuted hkey hspent hterminal

theorem runs_outside (h : t.next crates cfg a = some t')
    (hout : inRun (t'.sys.tasks .worker) = false) : t'.runs = t.runs := by
  rcases RunLog.runs_next h with hsame | ⟨job, -, -, hin, -⟩
  · exact hsame
  · rw [hout] at hin
    cases hin

theorem holds_other (hs : Holds cfg t st) (hg : Bounded cfg t a)
    (h : t.next crates cfg a = some t') (hcode : t'.sys.tasks .worker = t.sys.tasks .worker)
    (hhand : t'.hand = t.hand) : Holds cfg t' st := by
  have hruns : t'.runs = t.runs := by
    rcases RunLog.runs_next h with hsame | ⟨job, -, hout, hin, -⟩
    · exact hsame
    · rw [hcode, hout] at hin
      cases hin
  refine ⟨fun job hjob => ?_, fun hnone => ?_, ?_, fun uid => ?_, fun uid hspent => ?_⟩
  · rw [hcode]
    exact hs.code job (hhand ▸ hjob)
  · rw [hcode]
    exact hs.idle (hhand ▸ hnone)
  · rw [RunLog.ledger_next h]
    exact hs.range.after _
  · rw [hruns]
    exact hs.le uid
  · rw [Spent, hruns] at hspent
    rcases hs.spent uid hspent with ⟨hterminal, harmed⟩ | hfinal
    · refine Or.inl ⟨terminal_next hg h hspent hterminal, ?_⟩
      rwa [Armed, hhand]
    · right
      rwa [Final, hhand]

theorem holds_crash (hs : Holds cfg t st) (hg : Bounded cfg t .crash)
    (h : t.next crates cfg .crash = some t') (htasks : t'.sys.tasks = System.noTasks)
    (hhand : t'.hand = none) : Holds cfg t' .closing := by
  have hidle : t'.sys.tasks .worker = .ret () := congrFun htasks _
  have hruns : t'.runs = t.runs := by
    apply runs_outside h
    rw [hidle]
    rfl
  refine ⟨fun job hjob => ?_, fun _ => hidle, ?_, fun uid => ?_, fun uid hspent => ?_⟩
  · rw [hhand] at hjob
    cases hjob
  · rw [RunLog.ledger_next h]
    exact hs.range.after _
  · rw [hruns]
    exact hs.le uid
  · rw [Spent, hruns] at hspent
    refine Or.inl ⟨terminal_next hg h hspent (hg.crash rfl uid hspent), ?_⟩
    rintro ⟨hst, -⟩
    cases hst

theorem holds_receive (hdb : cfg.databaseEnabled = true) (hs : Holds cfg t st)
    (hg : Bounded cfg t .receive) (h : t.next crates cfg .receive = some t') {job : EvaluationJob}
    (hidle : t.sys.isIdle .worker = true)
    (hcode : t'.sys.tasks .worker = System.workerBody crates cfg job)
    (hhand : t'.hand = some job) : Holds cfg t' .probe := by
  have hstaged : Staged cfg job .probe (t'.sys.tasks .worker) := by
    rw [hcode]
    exact workerBody_staged hdb
  have hruns : t'.runs = t.runs := by
    apply runs_outside h
    by_contra hin
    obtain ⟨n, hn⟩ := inRun_of_staged hstaged (Bool.eq_true_of_not_eq_false hin)
    cases hn
  refine ⟨fun job' hjob' => ?_, fun hnone => ?_, ?_, fun uid => ?_, fun uid hspent => ?_⟩
  · rw [hhand] at hjob'
    obtain rfl := Option.some.inj hjob'
    exact hstaged
  · rw [hhand] at hnone
    cases hnone
  · rw [RunLog.ledger_next h]
    exact hs.range.after _
  · rw [hruns]
    exact hs.le uid
  · rw [Spent, hruns] at hspent
    left
    refine ⟨?_, fun harmed => by cases harmed.1⟩
    rcases hs.spent uid hspent with ⟨hterminal, -⟩ | ⟨n, rfl, -, job', hjob', -⟩
    · exact terminal_next hg h hspent hterminal
    · -- an idle worker is not in a run
      have hlast := hs.code job' hjob'
      unfold System.isIdle at hidle
      split at hidle
      · next hret =>
        rw [hret] at hlast
        cases hlast
      · cases hidle

theorem terminal_concluded (hs : Holds cfg t st) {choose : (c : TCall) → Timed.Choice c}
    (hg : Bounded cfg t (.step .worker choose))
    (h : t.next crates cfg (.step .worker choose) = some t') {u : JobUpsert}
    {k : TReply (.await (.sql (.upsertJob u))) → TaskCode Unit} {uid : Bytes32}
    (hcode : t.sys.tasks .worker = .call (.await (.sql (.upsertJob u))) k)
    (hkey : u.paymentUid = uidHex uid) (hspent : Spent cfg t uid)
    (hstatus : u.status = .settled ∨ u.status = .deadLetter) :
    t'.ledger.isTerminal (uidHex uid) = true := by
  -- the last conclusion is executed, whatever its run was told
  have hexecuted := hg.concluded choose u k uid rfl hcode hkey hspent
  obtain ⟨⟨now, q⟩, hq⟩ := Option.ne_none_iff_exists'.mp hexecuted
  have hcall := hq
  rw [System.executed, hcode] at hcall
  obtain rfl := Call.sql.inj (Timed.executed_base hcall)
  rw [RunLog.ledger_next h, hq, ← hkey]
  exact isTerminal_upserted hs.range now hstatus

theorem not_armed_next (hs : Holds cfg t st) {choose : (c : TCall) → Timed.Choice c}
    (hg : Bounded cfg t (.step .worker choose)) {c : TCall} {k : TReply c → TaskCode Unit}
    {r : TReply c} {uid : Bytes32} {job : EvaluationJob}
    (hcode : t.sys.tasks .worker = .call c k)
    (hw : t.sys.world.performTimed cfg c (choose c) = some (r, t'.sys.world))
    (hhand : t.hand = some job) (hhand' : t'.hand = t.hand) (hspent : Spent cfg t uid)
    (hterminal : t.ledger.isTerminal (uidHex uid) = true) (harmed : ¬ Armed t st uid) :
    ¬ Armed t' (st.after c r) uid := by
  rintro ⟨hafter, job', hjob', rfl⟩
  rw [hhand', hhand] at hjob'
  obtain rfl := Option.some.inj hjob'
  have hstaged := hs.code job hhand
  rw [hcode] at hstaged
  rcases after_eq_armed hstaged.1 hafter with hst | ⟨-, rfl, hreply⟩
  · exact harmed ⟨hst, job, hhand, rfl⟩
  -- the probe of a spent payment does not fail, so it finds the row
  · obtain ⟨now, hnow⟩ := hg.probed choose _ k rfl hcode hspent
    rw [hnow] at hw
    obtain rfl := (Prod.mk.inj (Option.some.inj hw)).1
    apply hreply
    show Except.ok (t.ledger.isTerminal (uidHex job.paymentUid)) = _
    rw [hterminal]

theorem runs_call {choose : (c : TCall) → Timed.Choice c}
    (h : t.next crates cfg (.step .worker choose) = some t') {c : TCall}
    {k : TReply c → TaskCode Unit} {r : TReply c} {job : EvaluationJob}
    (hcode : t.sys.tasks .worker = .call c k) (hhand : t.hand = some job)
    (hnext : Staged cfg job (st.after c r) (t'.sys.tasks .worker)) :
    t'.runs = t.runs ∨ ∃ n, st = .armed ∧ startCount c r = some n ∧ st.after c r = .running n ∧
      t'.runs = Function.update t.runs job.paymentUid (t.runs job.paymentUid + 1) := by
  rcases RunLog.runs_next h with hsame | ⟨job', hjob', hout, hin, hcount⟩
  · exact Or.inl hsame
  · rw [hhand] at hjob'
    obtain rfl := Option.some.inj hjob'
    obtain ⟨n, hn⟩ := inRun_of_staged hnext hin
    rcases after_eq_running hn with ⟨hst, hstart⟩ | ⟨-, c', rfl⟩
    · exact Or.inr ⟨n, hst, hstart, hn, hcount⟩
    · rw [hcode] at hout
      cases hout

theorem spent_call (hs : Holds cfg t st) {choose : (c : TCall) → Timed.Choice c}
    (hg : Bounded cfg t (.step .worker choose))
    (h : t.next crates cfg (.step .worker choose) = some t') {c : TCall}
    {k : TReply c → TaskCode Unit} {r : TReply c} {job : EvaluationJob} {uid : Bytes32}
    (hcode : t.sys.tasks .worker = .call c k)
    (hw : t.sys.world.performTimed cfg c (choose c) = some (r, t'.sys.world))
    (hhand : t.hand = some job) (hhand' : t'.hand = t.hand) (hspent : Spent cfg t uid) :
    (t'.ledger.isTerminal (uidHex uid) = true ∧ ¬ Armed t' (st.after c r) uid) ∨
      Final cfg t' (st.after c r) uid := by
  have hstaged := hs.code job hhand
  rw [hcode] at hstaged
  rcases hs.spent uid hspent with ⟨hterminal, harmed⟩ | ⟨n, rfl, hn, job', hjob', huid⟩
  · left
    exact ⟨terminal_next hg h hspent hterminal,
      not_armed_next hs hg hcode hw hhand hhand' hspent hterminal harmed⟩
  · rw [hhand] at hjob'
    obtain rfl := Option.some.inj hjob'
    rcases hstaged.1 with ⟨c', rfl⟩ | ⟨u, rfl, hkey, hstatus⟩
    · exact Or.inr ⟨n, rfl, hn, job, hhand'.trans hhand, huid⟩
    · left
      refine ⟨?_, fun harmed => by cases harmed.1⟩
      rw [huid] at hkey
      exact terminal_concluded hs hg h hcode hkey hspent (hstatus hn)

theorem holds_call (hs : Holds cfg t st) {choose : (c : TCall) → Timed.Choice c}
    (hg : Bounded cfg t (.step .worker choose))
    (h : t.next crates cfg (.step .worker choose) = some t') {c : TCall}
    {k : TReply c → TaskCode Unit} {r : TReply c} (hcode : t.sys.tasks .worker = .call c k)
    (hw : t.sys.world.performTimed cfg c (choose c) = some (r, t'.sys.world))
    (hcode' : t'.sys.tasks .worker = k r) (hhand' : t'.hand = t.hand) :
    Holds cfg t' (st.after c r) := by
  obtain ⟨job, hhand⟩ : ∃ job, t.hand = some job := by
    cases hhand : t.hand with
    | none =>
      have hidle := hs.idle hhand
      rw [hcode] at hidle
      cases hidle
    | some job => exact ⟨job, rfl⟩
  have hnext : Staged cfg job (st.after c r) (t'.sys.tasks .worker) := by
    have hstaged := hs.code job hhand
    rw [hcode] at hstaged
    rw [hcode']
    exact hstaged.2 r _ rfl
  -- armed for a payment that is not spent
  have hopen : st = .armed → t.runs job.paymentUid < maxRuns cfg := by
    rintro rfl
    by_contra hfull
    have hspent : Spent cfg t job.paymentUid := Nat.le_of_not_lt hfull
    rcases hs.spent _ hspent with ⟨-, harmed⟩ | ⟨n, hn, -⟩
    · exact harmed ⟨rfl, job, hhand, rfl⟩
    · cases hn
  have hruns := runs_call h hcode hhand hnext
  refine ⟨fun job' hjob' => ?_, fun hnone => ?_, ?_, fun uid => ?_, fun uid hspent => ?_⟩
  · rw [hhand', hhand] at hjob'
    obtain rfl := Option.some.inj hjob'
    exact hnext
  · rw [hhand', hhand] at hnone
    cases hnone
  · rw [RunLog.ledger_next h]
    exact hs.range.after _
  · rcases hruns with hsame | ⟨n, hst, -, -, hcount⟩
    · rw [hsame]
      exact hs.le uid
    · rw [hcount]
      by_cases huid : uid = job.paymentUid
      · rw [huid, Function.update_self]
        exact hopen hst
      · rw [Function.update_of_ne huid]
        exact hs.le uid
  · rcases hruns with hsame | ⟨n, hst, hstart, hafter, hcount⟩
    · rw [Spent, hsame] at hspent
      exact spent_call hs hg h hcode hw hhand hhand' hspent
    · by_cases huid : uid = job.paymentUid
      · subst huid
        rw [Spent, hcount, Function.update_self] at hspent
        -- spent by this step: the run that begins is the last one
        have hbelow := hopen hst
        have hlast : t.runs job.paymentUid + 1 = maxRuns cfg := by omega
        have hn := hg.counted choose c k r t'.sys.world n job rfl hcode hw hstart hhand hlast
        exact Or.inr ⟨n, hafter, hn, job, hhand'.trans hhand, rfl⟩
      · rw [Spent, hcount, Function.update_of_ne huid] at hspent
        exact spent_call hs hg h hcode hw hhand hhand' hspent

theorem holds_next (hdb : cfg.databaseEnabled = true) (hs : ∃ st, Holds cfg t st)
    (hg : Bounded cfg t a) (h : t.next crates cfg a = some t') : ∃ st, Holds cfg t' st := by
  obtain ⟨st, hs⟩ := hs
  cases RunLog.next_turn h with
  | call hcode hw hcode' hhand => exact ⟨_, holds_call hs hg h hcode hw hcode' hhand⟩
  | receive hidle hcode' hhand => exact ⟨_, holds_receive hdb hs hg h hidle hcode' hhand⟩
  | crash htasks hhand => exact ⟨_, holds_crash hs hg h htasks hhand⟩
  | other hstep hcrash hcode' hhand hended => exact ⟨st, holds_other hs hg h hcode' hhand⟩

end

/-- The worker starts the pipeline for a payment at most as often as it may, in every run whose
steps do not lose the last of these starts. -/
theorem runs_le (crates : Crates) (cfg : OracleConfig) (hdb : cfg.databaseEnabled = true)
    (t : RunLog) (ht : Reach (RunLog.next crates cfg) (Bounded cfg) .init t) (uid : Bytes32) :
    t.runs uid ≤ max 1 cfg.deadLetterMaxAttempts.toNat := by
  have hstep : ∀ t a t', (∃ st, Holds cfg t st) → Bounded cfg t a →
      t.next crates cfg a = some t' → ∃ st, Holds cfg t' st :=
    fun _ _ _ hs hg h => holds_next hdb hs hg h
  obtain ⟨st, hs⟩ := ht.invariant ⟨.closing, holds_init⟩ hstep
  exact hs.le uid

/-! ## Runs that keep, and that lose, the last start -/

def isDone : (c : TCall) → Timed.Choice c → Bool
  | .await (.sql _), .done _ => true
  | .await (.sql _), _ => false
  | _, _ => true

theorem done_of_isDone {q : Stmt} {choice : SqlChoice}
    (h : isDone (.await (.sql q)) choice = true) : ∃ now, choice = .done now := by
  cases choice with
  | done now => exact ⟨now, rfl⟩
  | _ => cases h

def keepsClosed (t : RunLog) (a : Act) : Bool :=
  match t.sys.executed a with
  | some (_, .upsertJob u) => !t.ledger.isTerminal u.paymentUid ||
      (u.status = .settled || u.status = .deadLetter)
  | _ => true

def startsCounted (cfg : OracleConfig) (t : RunLog) (choose : (c : TCall) → Timed.Choice c) :
    Bool :=
  match t.sys.tasks .worker with
  | .ret _ => true
  | .call c _ => isDone c (choose c) &&
      ((t.sys.world.performTimed cfg c (choose c)).bind fun p => startCount c p.1).all
        fun n => decide (cfg.deadLetterMaxAttempts ≤ n)

def bounded (cfg : OracleConfig) (t : RunLog) : Act → Bool
  | .crash => false
  | .step .worker choose => startsCounted cfg t choose && keepsClosed t (.step .worker choose)
  | a => keepsClosed t a

theorem closed_of_keepsClosed {t : RunLog} {a : Act} (h : keepsClosed t a = true) {now : Int}
    {u : JobUpsert} (hexecuted : t.sys.executed a = some (now, .upsertJob u))
    (hterminal : t.ledger.isTerminal u.paymentUid = true) :
    u.status = .settled ∨ u.status = .deadLetter := by
  rw [keepsClosed, hexecuted] at h
  simpa [hterminal] using h

theorem bounded_step {cfg : OracleConfig} {t : RunLog} {choose : (c : TCall) → Timed.Choice c}
    (h : bounded cfg t (.step .worker choose) = true) :
    Bounded cfg t (.step .worker choose) := by
  obtain ⟨hstarts, hcloses⟩ := Bool.and_eq_true_iff.mp h
  have hchecked : ∀ {c k}, t.sys.tasks .worker = .call c k → isDone c (choose c) = true ∧
      ∀ r w, t.sys.world.performTimed cfg c (choose c) = some (r, w) → ∀ n,
        startCount c r = some n → cfg.deadLetterMaxAttempts ≤ n := by
    intro c k hcode
    rw [startsCounted, hcode] at hstarts
    obtain ⟨hdone, hcounts⟩ := Bool.and_eq_true_iff.mp hstarts
    refine ⟨hdone, fun r w hw n hn => ?_⟩
    rw [hw, Option.bind_some, hn] at hcounts
    exact of_decide_eq_true hcounts
  refine ⟨?_, ?_, fun hcrash => (by cases hcrash), ?_, ?_⟩
  · rintro choose' c k r w n job hact hcode hw hn - -
    obtain ⟨-, rfl⟩ := Act.step.inj hact
    exact (hchecked hcode).2 r w hw n hn
  · rintro choose' u k uid hact hcode - -
    obtain ⟨-, rfl⟩ := Act.step.inj hact
    obtain ⟨now, hnow⟩ := done_of_isDone (hchecked hcode).1
    have hexecuted : t.sys.executed (.step .worker choose) = some (now, .upsertJob u) := by
      rw [System.executed, hcode]
      show (SqlChoice.time (choose (.await (.sql (.upsertJob u))))).map _ = _
      rw [hnow]
      rfl
    rw [hexecuted]
    simp
  · rintro now u uid hexecuted hkey - hterminal
    rw [← hkey] at hterminal
    exact closed_of_keepsClosed hcloses hexecuted hterminal
  · rintro choose' uid k hact hcode -
    obtain ⟨-, rfl⟩ := Act.step.inj hact
    exact done_of_isDone (hchecked hcode).1

theorem bounded_sound {cfg : OracleConfig} {t : RunLog} {a : Act} (h : bounded cfg t a = true) :
    Bounded cfg t a := by
  have hother : (∀ choose, a ≠ .step .worker choose) → a ≠ .crash → keepsClosed t a = true →
      Bounded cfg t a := by
    intro hstep hcrash hcloses
    refine ⟨?_, ?_, fun h => absurd h hcrash, ?_, ?_⟩
    · rintro choose c k r w n job rfl
      exact absurd rfl (hstep choose)
    · rintro choose u k uid rfl
      exact absurd rfl (hstep choose)
    · rintro now u uid hexecuted hkey - hterminal
      rw [← hkey] at hterminal
      exact closed_of_keepsClosed hcloses hexecuted hterminal
    · rintro choose uid k rfl
      exact absurd rfl (hstep choose)
  cases a with
  | crash => cases h
  | step task choose =>
    cases task with
    | worker => exact bounded_step h
    | _ => exact hother (fun _ h => (by cases h)) (fun h => (by cases h)) h
  | _ => exact hother (fun _ h => (by cases h)) (fun h => (by cases h)) h

def onceCfg : OracleConfig := { OracleConfig.toy with deadLetterMaxAttempts := 1 }

def repeated : List Act :=
  .start :: delivered ++ missedSteps .worker 14 ++ delivered ++ missedSteps .worker 2

theorem runs_le_repeated :
    ∃ t, runChecked (RunLog.next .toy onceCfg) (bounded onceCfg) repeated .init = some t ∧
      t.sys.isIdle .worker = true ∧ t.runs (byte32 1) = 1 ∧ t.runs (byte32 1) ≤ max 1 1 := by
  have hsummary : (runChecked (RunLog.next .toy onceCfg) (bounded onceCfg) repeated .init).map
      (fun t => (t.sys.isIdle .worker, t.runs (byte32 1))) = some (true, 1) := by
    decide +kernel
  obtain ⟨t, hrun, ht⟩ := Option.map_eq_some_iff.mp hsummary
  obtain ⟨hidle, hruns⟩ := Prod.mk.inj ht
  have hreach : Reach (RunLog.next .toy onceCfg) (Bounded onceCfg) .init t :=
    Reach.first.runChecked (fun _ _ h => bounded_sound h) hrun
  exact ⟨t, hrun, hidle, hruns, runs_le .toy onceCfg rfl t hreach (byte32 1)⟩

def reopened : List Act :=
  .start :: delivered ++ missedSteps .worker 14 ++ [.request 0 ⟨none, none⟩ "payment"] ++
    missedSteps (.handler 0) 9 ++ delivered ++ missedSteps .worker 9

theorem runs_exceeded : ¬ ∀ (t : RunLog) (uid : Bytes32),
    Reach (RunLog.next .toy onceCfg) (fun _ _ => True) .init t →
    t.runs uid ≤ max 1 onceCfg.deadLetterMaxAttempts.toNat := by
  intro h
  have hsummary : (runActs (RunLog.next .toy onceCfg) reopened .init).map
      (fun t => t.runs (byte32 1)) = some 2 := by
    decide +kernel
  obtain ⟨t, hrun, hruns⟩ := Option.map_eq_some_iff.mp hsummary
  have hreach : Reach (RunLog.next .toy onceCfg) (fun _ _ => True) .init t :=
    Reach.first.runActs (fun _ _ _ => trivial) hrun
  have hle := h t (byte32 1) hreach
  rw [hruns] at hle
  exact absurd hle (by decide)

end OracleQa.RunBudget
