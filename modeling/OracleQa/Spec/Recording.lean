import OracleQa.Spec.Closing
import OracleQa.Spec.LedgerMode

/-! The `record_*` functions as runs of statements: a task that has upserted a job row goes on with
the statements that are still due for it, unless one of them fails. -/

namespace OracleQa

/-- The statement that a task has still to make of the row it has upserted. -/
inductive Due
  | verdict (uid : String)
  | event (uid : String) (ev : LifecycleEvent)
  deriving DecidableEq

def Due.key : Due → String
  | verdict uid => uid
  | event uid _ => uid

def Due.last : Due → LifecycleEvent
  | verdict _ => .settled
  | event _ ev => ev

namespace Recording
open Interaction Worker

def dueAt : TCall → Option Due
  | .await (.sql (.upsertVerdict v)) => some (.verdict v.paymentUid)
  | .await (.sql (.insertEvent e)) => some (.event e.paymentUid e.event)
  | _ => none

/-- What the task has still to write: it is what it writes next. -/
def due : TaskCode Unit → Option Due
  | .ret _ => none
  | .call c _ => dueAt c

def dueAfter : (c : TCall) → TReply c → Option Due
  | .await (.sql (.upsertJob u)), .ok _ =>
    some (if u.status = .settled then .verdict u.paymentUid else .event u.paymentUid u.status.event)
  | .await (.sql (.upsertVerdict v)), .ok _ => some (.event v.paymentUid .settled)
  | _, _ => none

structure Plain (c : TCall) : Prop where
  awaited : ∀ q, c ≠ .race (.sql q)
  hash : ∀ u, c = .await (.sql (.upsertJob u)) → u.status = .settled →
    u.resolutionHash.isSome = true

def next (_ : Option Due) (c : TCall) (r : TReply c) (d : Option Due) : Prop := d = dueAfter c r

def Ok (d : Option Due) (c : TCall) : Prop := dueAt c = d ∧ Plain c

/-- Code that makes the statements that are due, and no others of their kind. -/
def Pays (d : Option Due) (code : TaskCode Unit) : Prop := code.Wp next Ok (fun _ d => d = none) d

def Tidy {α : Type} (p : TaskCode α) : Prop := p.Wp next Ok (fun _ d => d = none) none

theorem Pays.due_eq {d : Option Due} {code : TaskCode Unit} (h : Pays d code) : due code = d := by
  cases code with
  | ret a => exact h.symm
  | call c k => exact h.1.1

variable {α β : Type}

theorem Tidy.bind {p : TaskCode α} {f : α → TaskCode β} (hp : Tidy p) (hf : ∀ a, Tidy (f a)) :
    Tidy (p >>= f) := by
  refine Prog.Wp.bind hp fun a d hd => ?_
  subst hd
  exact hf a

def recordsRow : Call → Bool
  | .sql (.upsertJob _) => true
  | .sql (.upsertVerdict _) => true
  | .sql (.insertEvent _) => true
  | _ => false

structure Quiet (c : TCall) : Prop where
  plain : Plain c
  at_none : dueAt c = none
  after_none : ∀ r, dueAfter c r = none

theorem quiet_await {c : Call} (hc : recordsRow c = false) : Quiet (.await c) := by
  have hplain : Plain (.await c) := by
    refine ⟨fun q h => (by cases h), fun u h => ?_⟩
    obtain rfl := Timed.await.inj h
    cases hc
  refine ⟨hplain, ?_, fun r => ?_⟩
  · cases c with
    | sql q => cases q <;> first | rfl | cases hc
    | _ => rfl
  · cases c with
    | sql q => cases q <;> first | rfl | cases hc
    | _ => rfl

theorem quiet_race {c : Call} (hc : c.isPipeline = true) : Quiet (.race c) := by
  refine ⟨⟨fun q h => ?_, fun u h => (by cases h)⟩, rfl, fun r => rfl⟩
  obtain rfl := Timed.race.inj h
  cases hc

theorem tidy_of_quiet {p : TaskCode α} (hp : p.Calls Quiet) : Tidy p := by
  refine hp.wp (I := fun d => d = none) ?_ ?_ rfl
  · rintro d c rfl hc
    exact ⟨hc.at_none, hc.plain⟩
  · rintro d c r d' - hc rfl
    exact hc.after_none r

theorem tidy_lift {p : Async α} {calls : Call → Prop} (hp : p.Calls calls)
    (hc : ∀ c, calls c → recordsRow c = false) : Tidy p.lift :=
  tidy_of_quiet (Prog.calls_lift hp fun c h => quiet_await (hc c h))

theorem tidy_await {c : Call} (hc : recordsRow c = false) : Tidy (await c) := by
  have hcalls : (await c).Calls Quiet := ⟨quiet_await hc, fun _ _ => trivial⟩
  exact tidy_of_quiet hcalls

section
variable {crates : Crates} {cfg : OracleConfig} {job : EvaluationJob}

theorem recordStatus_tidy {status : JobStatus} (lastError : Option String) (payload : EventPayload)
    (hstatus : status ≠ .settled) :
    Tidy (Db.recordStatus crates job status lastError status.event payload).lift := by
  have hplain : Plain (.await (.sql (.upsertJob
      (Db.upsertArgs crates job status lastError none none)))) := by
    refine ⟨fun q h => (by cases h), fun u h hsettled => ?_⟩
    obtain rfl := Stmt.upsertJob.inj (Call.sql.inj (Timed.await.inj h))
    exact absurd hsettled hstatus
  refine ⟨⟨rfl, hplain⟩, fun r d hd => ?_⟩
  cases r with
  | error e => exact hd
  | ok u =>
    obtain rfl : d = some (.event (uidHex job.paymentUid) status.event) :=
      hd.trans (congrArg some (if_neg hstatus))
    refine ⟨⟨rfl, fun q h => (by cases h), fun u h => (by cases h)⟩, fun r d hd => ?_⟩
    exact hd

theorem recordSettled_tidy (result : EvaluationResult) (signature : Option String)
    (resolutionHash : Bytes32) :
    Tidy (Db.recordSettled crates job result signature resolutionHash).lift := by
  have hplain : Plain (.await (.sql (.upsertJob (Db.upsertArgs crates job .settled none signature
      (some (Text.hexEncode resolutionHash.toList)))))) := by
    refine ⟨fun q h => (by cases h), fun u h _ => ?_⟩
    obtain rfl := Stmt.upsertJob.inj (Call.sql.inj (Timed.await.inj h))
    rfl
  refine ⟨⟨rfl, hplain⟩, fun r d hd => ?_⟩
  cases r with
  | error e => exact hd
  | ok u =>
    obtain rfl : d = some (.verdict (uidHex job.paymentUid)) := hd
    refine ⟨⟨rfl, fun q h => (by cases h), fun u h => (by cases h)⟩, fun r d hd => ?_⟩
    cases r with
    | error e => exact hd
    | ok u =>
      obtain rfl : d = some (.event (uidHex job.paymentUid) .settled) := hd
      exact ⟨⟨rfl, fun q h => (by cases h), fun u h => (by cases h)⟩, fun r d hd => hd⟩

/-! ## The tasks -/

theorem timedPipeline_tidy : Tidy (timedPipeline crates cfg job) :=
  tidy_of_quiet (Prog.calls_timeout Pipeline.runPipeline_calls fun _ => quiet_race)

theorem recordIntake_tidy : Tidy (recordIntake crates cfg job) := by
  have hdetected : Tidy (Db.recordDetected crates job).lift :=
    recordStatus_tidy none .empty (by decide)
  have hqueued : Tidy (Db.recordQueued crates job).lift := recordStatus_tidy none .empty (by decide)
  unfold recordIntake
  split
  · exact hdetected.bind fun _ => hqueued.bind fun _ => rfl
  · rfl

theorem startAttempt_tidy : Tidy (startAttempt crates cfg job) := by
  have hstarted : Tidy (Db.recordStarted crates job).lift :=
    recordStatus_tidy none .empty (by decide)
  have hcount : Tidy (Db.attemptCount job.paymentUid).lift := tidy_await rfl
  unfold startAttempt
  split
  · refine hstarted.bind fun r => ?_
    cases r with
    | error e => rfl
    | ok u =>
      refine hcount.bind fun r => ?_
      cases r <;> rfl
  · exact tidy_await rfl

theorem finishFailed_tidy (attemptCount : UInt32) (msg : String) :
    Tidy (finishFailed crates cfg job attemptCount msg) := by
  have hdead : Tidy (Db.recordDeadLetter crates job msg).lift :=
    recordStatus_tidy (some msg) (.error msg) (by decide)
  have hfailed : Tidy (Db.recordFailed crates job msg).lift :=
    recordStatus_tidy (some msg) (.error msg) (by decide)
  have hrecord : ∀ dead, Tidy (recordFailure crates cfg job dead msg) := by
    intro dead
    unfold recordFailure
    split
    · split
      · exact hdead.bind fun _ => rfl
      · exact hfailed.bind fun _ => rfl
    · rfl
  have hcount : ∀ dead, Tidy (countFailure job dead) := by
    intro dead
    unfold countFailure
    split
    · exact (tidy_await rfl).bind fun _ => tidy_await rfl
    · exact (tidy_await rfl).bind fun _ => tidy_await rfl
  exact (hrecord _).bind fun _ => (hcount _).bind fun _ => rfl

theorem finishSettled_tidy (outcome : Pipeline.PipelineOutcome) :
    Tidy (finishSettled crates cfg job outcome) := by
  have hwatermark : Tidy Chain.persistSlotWatermark.lift := by
    refine tidy_lift Chain.persistSlotWatermark_calls ?_
    rintro c (rfl | ⟨value, rfl⟩) <;> rfl
  unfold finishSettled
  split
  · exact (recordSettled_tidy _ _ _).bind fun _ => hwatermark
  · rfl

theorem finish_tidy (attemptCount : UInt32) (result : RunResult) :
    Tidy (finish crates cfg job attemptCount result) := by
  rcases result with _ | e | outcome
  · exact finishFailed_tidy _ _
  · exact finishFailed_tidy _ _
  · refine (finishSettled_tidy outcome).bind fun _ => ?_
    exact (tidy_await rfl).bind fun _ => (tidy_await rfl).bind fun _ => rfl

theorem handleJob_tidy : Tidy (handleJob crates cfg job (timedPipeline crates cfg job)) := by
  have hskip : Tidy (skipDuplicate cfg job) := by
    have hprobe : Tidy (Db.isTerminal job.paymentUid).lift := tidy_await rfl
    unfold skipDuplicate
    split
    · refine hprobe.bind fun r => ?_
      rcases r with e | _ | _ <;> rfl
    · exact (tidy_await rfl).bind fun _ => rfl
  have hevaluate : Tidy (evaluateJob crates cfg job (timedPipeline crates cfg job)) := by
    refine recordIntake_tidy.bind fun _ => startAttempt_tidy.bind fun count => ?_
    exact timedPipeline_tidy.bind fun result => finish_tidy count result
  refine (tidy_await rfl).bind fun _ => hskip.bind fun skip => ?_
  cases skip
  · exact hevaluate
  · rfl

theorem finishManual_tidy (result : RunResult) :
    Tidy (Server.finishManual crates cfg job result) := by
  have hfailure : ∀ msg, Tidy (Server.recordManualFailure crates cfg job msg) := by
    intro msg
    have hfailed : Tidy (Db.recordFailed crates job msg).lift :=
      recordStatus_tidy (some msg) (.error msg) (by decide)
    unfold Server.recordManualFailure
    split
    · exact hfailed.bind fun _ => tidy_await rfl
    · exact tidy_await rfl
  have hsettled : ∀ outcome, Tidy (Server.recordManualSettled crates cfg job outcome) := by
    intro outcome
    unfold Server.recordManualSettled
    split
    · exact (recordSettled_tidy _ _ _).bind fun _ => tidy_await rfl
    · exact tidy_await rfl
  rcases result with _ | e | outcome
  · exact (hfailure _).bind fun _ => rfl
  · exact (hfailure _).bind fun _ => rfl
  · exact (hsettled outcome).bind fun _ => rfl

theorem manualEvaluate_tidy (headers : Server.Headers) (paymentPubkey : String) :
    Tidy (Server.manualEvaluate crates cfg headers paymentPubkey) := by
  have hauthorize : Tidy (Server.authorizeManualEvaluate crates cfg headers).lift :=
    tidy_lift (Server.authorizeManualEvaluate_calls headers) fun c hc => by
      cases c <;> first | rfl | cases hc
  have hread : ∀ key, Tidy (Chain.readPayment crates cfg key).lift :=
    fun key => tidy_lift (Chain.readPayment_calls key) fun c hc => by rw [hc]; rfl
  have hevaluate : ∀ job, Tidy (Server.evaluateManually crates cfg job
      (timedPipeline crates cfg job)) := by
    intro job
    have hqueued : Tidy (Db.recordQueued crates job).lift :=
      recordStatus_tidy none .empty (by decide)
    have hrun : Tidy (timedPipeline crates cfg job >>= Server.finishManual crates cfg job) :=
      timedPipeline_tidy.bind fun result => finishManual_tidy result
    unfold Server.evaluateManually
    split
    · exact hqueued.bind fun _ => hrun
    · exact hrun
  refine hauthorize.bind fun r => ?_
  rcases r with ⟨status, msg⟩ | u
  · rfl
  dsimp only
  cases crates.pubkeyFromStr paymentPubkey with
  | none => rfl
  | some key =>
    refine (hread key).bind fun r => ?_
    rcases r with e | _ | job
    · rfl
    · rfl
    · exact hevaluate job

theorem entry_tidy {t : TaskId} {code : TaskCode Unit} (h : System.Entry crates cfg t code) :
    Tidy code := by
  have hquiet : ∀ c : Call, c.isFeed = true → recordsRow c = false := by
    intro c hc
    cases c with
    | sql q => cases q <;> first | rfl | cases hc
    | _ => rfl
  cases h with
  | none => rfl
  | worker job => exact handleJob_tidy.bind fun _ => rfl
  | monitor note =>
    exact (tidy_lift (Chain.monitorNotification_calls note) hquiet).bind fun _ => rfl
  | backfill => exact tidy_lift Chain.backfillMissedDeliveries_calls hquiet
  | handler n headers paymentPubkey => exact (manualEvaluate_tidy _ _).bind fun _ => rfl

end

/-! ## The process -/

variable {crates : Crates} {cfg : OracleConfig} {s s' : System} {a : Act} {t : TaskId}

def drops : Act → TaskId → Prop
  | .disconnect n, t => t = .handler n
  | .crash, _ => True
  | _, _ => False

structure Tracked (s : System) : Prop where
  tasks : ∀ t, Pays (due (s.tasks t)) (s.tasks t)
  down : s.up = false → ∀ t, s.tasks t = .ret ()

theorem tracked_init : Tracked .init := ⟨fun _ => rfl, fun _ _ => rfl⟩

theorem pays_of_tidy {code : TaskCode Unit} (h : Tidy code) : Pays (due code) code := by
  have hpays : Pays none code := h
  rw [hpays.due_eq]
  exact hpays

theorem tracked_move (hs : Tracked s) (h : s.Move crates cfg a s') :
    ∀ t, Pays (due (s'.tasks t)) (s'.tasks t) := by
  cases h with
  | @call t choose c k r w hcode hw =>
    have hcall := hs.tasks t
    rw [hcode] at hcall
    have hnext : Pays (dueAfter c r) (k r) := hcall.2 r _ rfl
    refine (Function.forall_update_iff _ fun _ code => Pays (due code) code).mpr
      ⟨?_, fun t' _ => hs.tasks t'⟩
    rw [hnext.due_eq]
    exact hnext
  | spawn hentry hexecuted =>
    exact (Function.forall_update_iff _ fun _ code => Pays (due code) code).mpr
      ⟨pays_of_tidy (entry_tidy hentry), fun t' _ => hs.tasks t'⟩
  | execLate hq => exact hs.tasks
  | land htx hnone => exact hs.tasks
  | resolve hnone => exact hs.tasks
  | crash => exact fun _ => rfl

theorem down_next (hs : ∀ t, s.up = false → s.tasks t = .ret ())
    (h : s.next crates cfg a = some s') (t : TaskId) (hdown : s'.up = false) :
    s'.tasks t = .ret () := by
  cases a with
  | step t' choose =>
    simp only [System.next, System.stepTask] at h
    split at h
    · cases h
    · next c k hcode =>
      obtain ⟨p, -, rfl⟩ := Option.map_eq_some_iff.mp h
      rw [hs t' hdown] at hcode
      cases hcode
  | receive =>
    simp only [System.next, System.receive] at h
    split at h
    · cases h
    · obtain ⟨hup, hspawn⟩ := Option.ite_none_right_eq_some.mp h
      obtain rfl := Option.some.inj hspawn
      exact absurd ((Bool.and_eq_true_iff.mp hup).1.symm.trans hdown) Bool.noConfusion
  | notify note =>
    obtain ⟨hup, hspawn⟩ := Option.ite_none_right_eq_some.mp h
    obtain rfl := Option.some.inj hspawn
    exact absurd ((Bool.and_eq_true_iff.mp hup).1.symm.trans hdown) Bool.noConfusion
  | request n headers paymentPubkey =>
    obtain ⟨hup, hspawn⟩ := Option.ite_none_right_eq_some.mp h
    obtain rfl := Option.some.inj hspawn
    exact absurd ((Bool.and_eq_true_iff.mp hup).1.symm.trans hdown) Bool.noConfusion
  | disconnect n =>
    obtain rfl := Option.some.inj h
    refine (Function.forall_update_iff s.tasks fun _ code => code = .ret ()).mpr
      ⟨rfl, fun t' _ => hs t' hdown⟩ t
  | execLate i now =>
    obtain ⟨q, -, rfl⟩ := Option.map_eq_some_iff.mp h
    exact hs t hdown
  | land i =>
    simp only [System.next, System.land] at h
    split at h
    · cases h
    · obtain ⟨-, hland⟩ := Option.ite_none_right_eq_some.mp h
      obtain rfl := Option.some.inj hland
      exact hs t hdown
  | resolve uid res =>
    obtain ⟨-, hresolve⟩ := Option.ite_none_right_eq_some.mp h
    obtain rfl := Option.some.inj hresolve
    exact hs t hdown
  | crash =>
    obtain rfl := Option.some.inj h
    rfl
  | start =>
    obtain ⟨-, hspawn⟩ := Option.ite_none_left_eq_some.mp h
    obtain rfl := Option.some.inj hspawn
    cases hdown

theorem tracked_next (hs : Tracked s) (h : s.next crates cfg a = some s') : Tracked s' :=
  ⟨tracked_move hs (System.next_move h),
    fun hdown t => down_next (fun t hup => hs.down hup t) h t hdown⟩

theorem step_due {choose : (c : TCall) → Timed.Choice c} (hs : Tracked s)
    (h : s.next crates cfg (.step t choose) = some s') : ∃ c k r,
      s.tasks t = .call c k ∧ s.world.performTimed cfg c (choose c) = some (r, s'.world) ∧
      Plain c ∧ due (s'.tasks t) = dueAfter c r := by
  obtain ⟨c, k, r, hcode, hw, htasks⟩ := System.next_step h
  have hcall := hs.tasks t
  rw [hcode] at hcall
  have hnext : Pays (dueAfter c r) (k r) := hcall.2 r _ rfl
  refine ⟨c, k, r, hcode, hw, hcall.1.2, ?_⟩
  rw [htasks, Function.update_self]
  exact hnext.due_eq

def concerns : Act → TaskId → Bool
  | .step t' _, t => t' = t
  | .receive, t => t = .worker
  | .notify _, t => t = .monitor
  | .request n _ _, t => t = .handler n
  | .disconnect n, t => t = .handler n
  | .crash, _ => true
  | .start, t => t = .backfill
  | _, _ => false

theorem tasks_of_not_concerns (h : s.next crates cfg a = some s') (ht : concerns a t = false) :
    s'.tasks t = s.tasks t := by
  have hspawn : ∀ (s : System) {t' : TaskId} (code : TaskCode Unit), decide (t = t') = false →
      (s.spawn t' code).tasks t = s.tasks t :=
    fun s t' code ht => Function.update_of_ne (of_decide_eq_false ht) ..
  cases a with
  | step t' choose =>
    obtain ⟨c, k, r, -, -, htasks⟩ := System.next_step h
    rw [htasks, Function.update_of_ne (Ne.symm (of_decide_eq_false ht))]
  | receive =>
    simp only [System.next, System.receive] at h
    split at h
    · cases h
    · next job rest hchannel =>
      obtain ⟨-, hs⟩ := Option.ite_none_right_eq_some.mp h
      obtain rfl := Option.some.inj hs
      exact hspawn { s with world := { s.world with channel := rest } } _ ht
  | notify note =>
    obtain ⟨-, hs⟩ := Option.ite_none_right_eq_some.mp h
    obtain rfl := Option.some.inj hs
    exact hspawn s _ ht
  | request n headers paymentPubkey =>
    obtain ⟨-, hs⟩ := Option.ite_none_right_eq_some.mp h
    obtain rfl := Option.some.inj hs
    exact hspawn s _ ht
  | disconnect n =>
    obtain rfl := Option.some.inj h
    exact hspawn s _ ht
  | execLate i now =>
    obtain ⟨q, -, rfl⟩ := Option.map_eq_some_iff.mp h
    rfl
  | land i =>
    simp only [System.next, System.land] at h
    split at h
    · cases h
    · obtain ⟨-, hs⟩ := Option.ite_none_right_eq_some.mp h
      obtain rfl := Option.some.inj hs
      rfl
  | resolve uid res =>
    obtain ⟨-, hs⟩ := Option.ite_none_right_eq_some.mp h
    obtain rfl := Option.some.inj hs
    rfl
  | crash => cases ht
  | start =>
    obtain ⟨-, hs⟩ := Option.ite_none_left_eq_some.mp h
    obtain rfl := Option.some.inj hs
    exact hspawn { s with up := true } _ ht

theorem due_kept (hs : Tracked s) (h : s.next crates cfg a = some s') {d : Due}
    (hd : due (s.tasks t) = some d) (hstep : a.task ≠ some t) (hdrop : ¬ drops a t) :
    s'.tasks t = s.tasks t := by
  have hbusy : ∀ {t'}, s.isIdle t' = true → decide (t = t') = false := by
    intro t' hidle
    refine decide_eq_false ?_
    rintro rfl
    unfold System.isIdle at hidle
    split at hidle
    · next u hret =>
      rw [hret] at hd
      cases hd
    · cases hidle
  apply tasks_of_not_concerns h
  cases a with
  | step t' choose => exact decide_eq_false fun heq => hstep (congrArg some heq)
  | receive =>
    simp only [System.next, System.receive] at h
    split at h
    · cases h
    · obtain ⟨hidle, -⟩ := Option.ite_none_right_eq_some.mp h
      exact hbusy (Bool.and_eq_true_iff.mp hidle).2
  | notify note =>
    obtain ⟨hidle, -⟩ := Option.ite_none_right_eq_some.mp h
    exact hbusy (Bool.and_eq_true_iff.mp hidle).2
  | request n headers paymentPubkey =>
    obtain ⟨hidle, -⟩ := Option.ite_none_right_eq_some.mp h
    exact hbusy (Bool.and_eq_true_iff.mp hidle).2
  | disconnect n => exact decide_eq_false hdrop
  | crash => exact absurd trivial hdrop
  | start =>
    obtain ⟨hdown, -⟩ := Option.ite_none_left_eq_some.mp h
    rw [hs.down (Bool.eq_false_of_not_eq_true hdown) t] at hd
    cases hd
  | _ => rfl

theorem tasks_of_runActs {as : List Act} (has : ∀ a ∈ as, concerns a t = false)
    (h : runActs (System.next crates cfg) as s = some s') : s'.tasks t = s.tasks t := by
  induction as generalizing s with
  | nil =>
    obtain rfl := Option.some.inj h
    rfl
  | cons a as ih =>
    obtain ⟨s₁, hnext, hrest⟩ := Option.bind_eq_some_iff.mp h
    rw [ih (fun b hb => has b (List.mem_cons_of_mem a hb)) hrest]
    exact tasks_of_not_concerns hnext (has a List.mem_cons_self)

theorem ret_of_isIdle (h : s.isIdle t = true) : s.tasks t = .ret () := by
  unfold System.isIdle at h
  split at h
  · assumption
  · cases h

theorem idle_of_runActs (busy : List TaskId) {as : List Act} (hs : ∀ t, s.tasks t = .ret ())
    (h : runActs (System.next crates cfg) as s = some s')
    (hothers : ∀ t ∉ busy, ∀ a ∈ as, concerns a t = false)
    (hidle : ∀ t ∈ busy, s'.isIdle t = true) (t : TaskId) : s'.tasks t = .ret () := by
  by_cases ht : t ∈ busy
  · exact ret_of_isIdle (hidle t ht)
  · rw [tasks_of_runActs (hothers t ht) h]
    exact hs t

/-! ## Statements -/

theorem performSql_ok {w w' : World} {q : Stmt} {choice : SqlChoice} {r : q.Result}
    (h : w.performTimed cfg (.await (.sql q)) choice = some (.ok r, w')) :
    ∃ now, choice = .done now ∧ ∃ l, q.exec now w.ledger = .ok (r, l) := by
  have hreply : w.performSql q choice = (.ok r, w') := Option.some.inj h
  cases choice with
  | done now =>
    refine ⟨now, rfl, ?_⟩
    simp only [World.performSql, World.execStmt] at hreply
    split at hreply
    · next r' l hexec =>
      obtain rfl := Except.ok.inj (Prod.mk.inj hreply).1
      exact ⟨l, hexec⟩
    · cases (Prod.mk.inj hreply).1
  | refused e => cases (Prod.mk.inj hreply).1
  | lost now e => cases (Prod.mk.inj hreply).1
  | late e => cases (Prod.mk.inj hreply).1

theorem executed_of_ok {q : Stmt} {choose : (c : TCall) → Timed.Choice c}
    {k : TReply (.await (.sql q)) → TaskCode Unit} {r : q.Result} {w : World}
    (hcode : s.tasks t = .call (.await (.sql q)) k)
    (hw : s.world.performTimed cfg (.await (.sql q)) (choose (.await (.sql q))) = some (.ok r, w)) :
    ∃ now, s.executed (.step t choose) = some (now, q) := by
  obtain ⟨now, hchoice, -⟩ := performSql_ok hw
  refine ⟨now, ?_⟩
  rw [System.executed, hcode]
  show Call.executed (.sql q) (choose (.await (.sql q))) = some (now, q)
  rw [hchoice]
  rfl

theorem eq_of_dueAt_verdict {c : TCall} {uid : String} (h : dueAt c = some (.verdict uid)) :
    ∃ v, c = .await (.sql (.upsertVerdict v)) ∧ v.paymentUid = uid := by
  rcases c with c | c
  · cases c with
    | sql q =>
      cases q with
      | upsertVerdict v => exact ⟨v, rfl, Due.verdict.inj (Option.some.inj h)⟩
      | insertEvent e => cases Option.some.inj h
      | _ => cases h
    | _ => cases h
  · cases h

theorem eq_of_dueAt_event {c : TCall} {uid : String} {ev : LifecycleEvent}
    (h : dueAt c = some (.event uid ev)) :
    ∃ e, c = .await (.sql (.insertEvent e)) ∧ e.paymentUid = uid ∧ e.event = ev := by
  rcases c with c | c
  · cases c with
    | sql q =>
      cases q with
      | upsertVerdict v => cases Option.some.inj h
      | insertEvent e => exact ⟨e, rfl, Due.event.inj (Option.some.inj h)⟩
      | _ => cases h
    | _ => cases h
  · cases h

theorem dueAfter_cases {c : TCall} {r : TReply c} {d : Due} (h : dueAfter c r = some d) :
    (∃ u, c = .await (.sql (.upsertJob u)) ∧
      d = if u.status = .settled then .verdict u.paymentUid
        else .event u.paymentUid u.status.event) ∨
    ∃ v, c = .await (.sql (.upsertVerdict v)) ∧ d = .event v.paymentUid .settled := by
  rcases c with c | c
  · cases c with
    | sql q =>
      cases q with
      | upsertJob u =>
        cases r with
        | error e => cases h
        | ok r => exact Or.inl ⟨u, rfl, (Option.some.inj h).symm⟩
      | upsertVerdict v =>
        cases r with
        | error e => cases h
        | ok r => exact Or.inr ⟨v, rfl, (Option.some.inj h).symm⟩
      | _ => cases h
    | _ => cases h
  · cases h

/-- Whatever is due has been left by a statement that was executed, unless it was due before. -/
theorem due_origin (hs : Tracked s) (h : s.next crates cfg a = some s') {d : Due}
    (hd : due (s'.tasks t) = some d) : due (s.tasks t) = some d ∨
      (∃ now u, s.executed a = some (now, .upsertJob u) ∧
        d = if u.status = .settled then .verdict u.paymentUid
          else .event u.paymentUid u.status.event) ∨
      ∃ now v, s.executed a = some (now, .upsertVerdict v) ∧
        due (s.tasks t) = some (.verdict v.paymentUid) ∧ d = .event v.paymentUid .settled := by
  have hmove := System.next_move h
  cases hmove with
  | @call t' choose c k r w hcode hw =>
    by_cases ht : t = t'
    · subst ht
      obtain ⟨c, k, r, hcode, hw, -, hafter⟩ := step_due hs h
      rw [hafter] at hd
      rcases dueAfter_cases hd with ⟨u, rfl, rfl⟩ | ⟨v, rfl, rfl⟩
      · cases r with
        | error e => cases hd
        | ok r =>
          obtain ⟨now, hex⟩ := executed_of_ok hcode hw
          exact Or.inr (Or.inl ⟨now, u, hex, rfl⟩)
      · cases r with
        | error e => cases hd
        | ok r =>
          obtain ⟨now, hex⟩ := executed_of_ok hcode hw
          exact Or.inr (Or.inr ⟨now, v, hex, by rw [hcode]; rfl, rfl⟩)
    · have hkept : due (Function.update s.tasks t' (k r) t) = some d := hd
      rw [Function.update_of_ne ht] at hkept
      exact Or.inl hkept
  | @spawn _ t' code channel up hentry hexecuted =>
    by_cases ht : t = t'
    · subst ht
      have hstart : due (Function.update s.tasks t code t) = some d := hd
      have hnone : Pays none code := entry_tidy hentry
      rw [Function.update_self, hnone.due_eq] at hstart
      cases hstart
    · have hkept : due (Function.update s.tasks t' code t) = some d := hd
      rw [Function.update_of_ne ht] at hkept
      exact Or.inl hkept
  | execLate hq => exact Or.inl hd
  | land htx hnone => exact Or.inl hd
  | resolve hnone => exact Or.inl hd
  | crash => cases hd

variable {l : Ledger} {key : String}

theorem lifecycle_of_events {l' : Ledger} (h : l'.events = l.events) :
    l'.lifecycle key = l.lifecycle key := by
  rw [Ledger.lifecycle, h, Ledger.lifecycle]

theorem events_after (l : Ledger) (now : Int) {q : Stmt} (hq : ∀ e, q ≠ .insertEvent e) :
    (l.after (some (now, q))).events = l.events := by
  cases q with
  | insertEvent e => exact absurd rfl (hq e)
  | upsertJob u =>
    rcases l.after_upsertJob now u with h | h
    · rw [h]
    · rw [h]
      rfl
  | upsertVerdict v =>
    show (l.upsertVerdict v).events = l.events
    unfold Ledger.upsertVerdict
    split <;> rfl
  | _ => rfl

theorem lifecycle_insertEvent {e : EventRow} {row : JobRow}
    (hrow : l.jobs e.paymentUid = some row) : (l.insertEvent e).lifecycle key =
      if e.paymentUid = key then l.lifecycle key ++ [e.event] else l.lifecycle key := by
  unfold Ledger.insertEvent Ledger.lifecycle
  rw [hrow]
  by_cases hkey : e.paymentUid = key
  · simp [hkey]
  · simp [hkey]

theorem lifecycle_grows (l : Ledger) (executed : Option (Int × Stmt)) :
    l.lifecycle key <+: (l.after executed).lifecycle key := by
  rcases executed with _ | ⟨now, q⟩
  · exact List.prefix_rfl
  by_cases hq : ∃ e, q = .insertEvent e
  · obtain ⟨e, rfl⟩ := hq
    show l.lifecycle key <+: (l.insertEvent e).lifecycle key
    cases hrow : l.jobs e.paymentUid with
    | none =>
      have hsame : l.insertEvent e = l := by rw [Ledger.insertEvent, hrow]
      rw [hsame]
    | some row =>
      rw [lifecycle_insertEvent hrow]
      split
      · exact List.prefix_append _ _
      · exact List.prefix_rfl
  · rw [lifecycle_of_events (events_after l now fun e he => hq ⟨e, he⟩)]

/-! ## Calls that succeed -/

def succeeds (l : Ledger) : (c : TCall) → Timed.Choice c → Bool
  | .await (.sql q), .done now => (q.exec now l).toBool
  | .await (.sql _), _ => false
  | _, _ => true

def sqlSucceeds (s : System) : Act → Bool
  | .step t choose =>
    match s.tasks t with
    | .call c _ => succeeds s.world.ledger c (choose c)
    | .ret _ => true
  | .execLate _ _ => false
  | _ => true

def cutsShort : Act → Bool
  | .disconnect _ => true
  | .crash => true
  | _ => false

theorem not_drops (h : cutsShort a = false) : ¬ drops a t := by
  cases a <;> first | exact id | cases h

theorem succeeds_sql {q : Stmt} {choice : SqlChoice}
    (h : succeeds l (.await (.sql q)) choice = true) :
    ∃ now r l', choice = .done now ∧ q.exec now l = .ok (r, l') := by
  cases choice with
  | done now =>
    cases hexec : q.exec now l with
    | error e =>
      rw [succeeds, hexec] at h
      cases h
    | ok p => exact ⟨now, p.1, p.2, rfl, hexec⟩
  | _ => cases h

theorem sqlSucceeds_step {choose : (c : TCall) → Timed.Choice c} {c : TCall}
    {k : TReply c → TaskCode Unit} (h : sqlSucceeds s (.step t choose) = true)
    (hcode : s.tasks t = .call c k) : succeeds s.world.ledger c (choose c) = true := by
  rw [sqlSucceeds, hcode] at h
  exact h

def evaluationActs (choose : (c : TCall) → Timed.Choice c) (n : Nat) : List Act :=
  [.start] ++ System.toySteps .backfill 2 ++ [.request 0 ⟨none, none⟩ ""] ++
    List.replicate n (.step (.handler 0) choose)

theorem evaluationActs_idle {choose : (c : TCall) → Timed.Choice c} {n : Nat}
    (h : runActs (System.next crates cfg) (evaluationActs choose n) .init = some s)
    (hbackfill : s.isIdle .backfill = true) (hhandler : s.isIdle (.handler 0) = true) (t : TaskId) :
    s.tasks t = .ret () := by
  refine idle_of_runActs [.backfill, .handler 0] (fun _ => rfl) h ?_ ?_ t
  · intro t ht a ha
    simp only [evaluationActs, System.toySteps, List.mem_append, List.mem_replicate,
      List.mem_singleton] at ha
    simp only [List.mem_cons, List.not_mem_nil, or_false, not_or] at ht
    rcases ha with ((rfl | ⟨-, rfl⟩) | rfl) | ⟨-, rfl⟩
    · exact decide_eq_false ht.1
    · exact decide_eq_false (Ne.symm ht.1)
    · exact decide_eq_false ht.2
    · exact decide_eq_false (Ne.symm ht.2)
  · intro t ht
    simp only [List.mem_cons, List.not_mem_nil, or_false] at ht
    rcases ht with rfl | rfl
    · exact hbackfill
    · exact hhandler

end Recording
end OracleQa
