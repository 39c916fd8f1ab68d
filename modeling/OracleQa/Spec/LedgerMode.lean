import OracleQa.Spec.Sequential

/-! What the worker does to the ledger for one job, when every statement succeeds. -/

namespace OracleQa
open Interaction Worker

namespace Ledger

def status (l : Ledger) (uid : String) : Option JobStatus := (l.jobs uid).map (·.status)

def lifecycle (l : Ledger) (uid : String) : List LifecycleEvent :=
  (l.events.filter (·.paymentUid = uid)).map (·.event)

end Ledger

def JobStatus.event : JobStatus → LifecycleEvent
  | .detected => .detected
  | .queued => .queued
  | .running => .started
  | .failed => .failed
  | .deadLetter => .deadLetter
  | .settled => .settled

/-- The ledger after rows of these statuses were recorded for `uid`, each with its event. -/
structure Recorded (l l' : Ledger) (uid : String) (statuses : List JobStatus) : Prop where
  status : l'.status uid = statuses.getLast?.or (l.status uid)
  attempts : l'.attemptCount uid = l.attemptCount uid + statuses.count .running
  verdict : (l'.verdicts uid).isSome ↔ (l.verdicts uid).isSome ∨ .settled ∈ statuses
  lifecycle : l'.lifecycle uid = l.lifecycle uid ++ statuses.map (·.event)
  others : ∀ uid', uid' ≠ uid → l'.jobs uid' = l.jobs uid' ∧ l'.verdicts uid' = l.verdicts uid' ∧
    l'.lifecycle uid' = l.lifecycle uid'

namespace Recorded
variable {l l₁ l₂ : Ledger} {uid uid' : String} {first second : List JobStatus}

theorem of_parameters (parameters : String → Option ParameterRow) :
    Recorded l { l with parameters := parameters } uid [] :=
  ⟨rfl, rfl, by simp, by simp [Ledger.lifecycle], fun _ _ => ⟨rfl, rfl, rfl⟩⟩

theorem trans (h₁ : Recorded l l₁ uid first) (h₂ : Recorded l₁ l₂ uid second) :
    Recorded l l₂ uid (first ++ second) where
  status := by rw [h₂.status, h₁.status, List.getLast?_append, Option.or_assoc]
  attempts := by rw [h₂.attempts, h₁.attempts, List.count_append, Nat.add_assoc]
  verdict := by rw [h₂.verdict, h₁.verdict, List.mem_append, or_assoc]
  lifecycle := by rw [h₂.lifecycle, h₁.lifecycle, List.map_append, List.append_assoc]
  others uid' hne := by
    obtain ⟨hjobs₁, hverdicts₁, hlife₁⟩ := h₁.others uid' hne
    obtain ⟨hjobs₂, hverdicts₂, hlife₂⟩ := h₂.others uid' hne
    exact ⟨hjobs₂.trans hjobs₁, hverdicts₂.trans hverdicts₁, hlife₂.trans hlife₁⟩

theorem one {row : JobRow} (payload : EventPayload) {verdicts : String → Option VerdictRow}
    (hattempts : row.attempts = l.attemptCount uid + [row.status].count .running)
    (hverdict : (verdicts uid).isSome ↔ (l.verdicts uid).isSome ∨ row.status = .settled)
    (hothers : ∀ uid', uid' ≠ uid → verdicts uid' = l.verdicts uid') :
    Recorded l { l with
      jobs := Function.update l.jobs uid (some row)
      verdicts := verdicts
      events := l.events ++ [⟨uid, row.status.event, payload⟩] } uid [row.status] where
  status := by simp [Ledger.status]
  attempts := by simpa [Ledger.attemptCount] using hattempts
  verdict := by rw [hverdict, List.mem_singleton, @eq_comm _ JobStatus.settled]
  lifecycle := by simp [Ledger.lifecycle]
  others uid' hne := by simp [Ledger.lifecycle, hothers uid' hne, hne, hne.symm]

end Recorded

theorem JobUpsert.row_attempts (l : Ledger) (now : Int) (u : JobUpsert) :
    (u.row now (l.jobs u.paymentUid)).attempts =
      l.attemptCount u.paymentUid + [u.status].count .running := by
  unfold Ledger.attemptCount
  cases l.jobs u.paymentUid with
  | none => simp [row, insertRow, List.count_singleton]
  | some row => simp [JobUpsert.row, updateRow, List.count_singleton]

/-! ## Statements -/

section
variable {σ : Type} {env : Outside σ} {crates : Crates} {job : EvaluationJob} {w : World} {s : σ}

abbrev key (job : EvaluationJob) : String := uidHex job.paymentUid

/-- Code that returns `a` and does nothing but record these statuses for the job. -/
def Records {α : Type} (env : Outside σ) (job : EvaluationJob) (p : TaskCode α) (a : α)
    (statuses : List JobStatus) (w : World) (s : σ) : Prop :=
  ∃ l, Recorded w.ledger l (key job) statuses ∧
    p.run env.serve (w, s) = (a, ({ w with ledger := l }, s))

theorem serve_sql {q : Stmt} {r : q.Result} {l : Ledger}
    (h : q.exec (env.now w) w.ledger = .ok (r, l)) :
    env.serve (.await (.sql q)) (w, s) = (.ok r, ({ w with ledger := l }, s)) := by
  simp only [Outside.serve, Outside.serveCall, World.execStmt, h]

theorem serve_upsertJob (env : Outside σ) (w : World) (s : σ) (u : JobUpsert)
    (hrange : w.ledger.attemptCount u.paymentUid + [u.status].count .running < 2 ^ 31) :
    env.serve (.await (.sql (.upsertJob u))) (w, s) = (.ok (), ({ w with
      ledger := w.ledger.putJob u.paymentUid (u.row (env.now w) (w.ledger.jobs u.paymentUid)) },
      s)) := by
  have hattempts := u.row_attempts w.ledger (env.now w)
  refine serve_sql ?_
  rw [Stmt.exec, Ledger.upsertJob, if_pos (hattempts ▸ hrange)]
  rfl

theorem serve_insertEvent (env : Outside σ) (w : World) (s : σ) (e : EventRow) {row : JobRow}
    (hrow : w.ledger.jobs e.paymentUid = some row) :
    env.serve (.await (.sql (.insertEvent e))) (w, s) = (.ok (), ({ w with
      ledger := { w.ledger with events := w.ledger.events ++ [e] } }, s)) := by
  refine serve_sql ?_
  rw [Stmt.exec, Ledger.insertEvent, hrow]

theorem serve_upsertVerdict (env : Outside σ) (w : World) (s : σ) (v : VerdictUpsert)
    {row : JobRow} (hrow : w.ledger.jobs v.paymentUid = some row) :
    env.serve (.await (.sql (.upsertVerdict v))) (w, s) = (.ok (), ({ w with
      ledger := { w.ledger with
        verdicts := Function.update w.ledger.verdicts v.paymentUid
          (some (v.verdict.onConflict (w.ledger.verdicts v.paymentUid))) } }, s)) := by
  refine serve_sql ?_
  rw [Stmt.exec, Ledger.upsertVerdict, hrow]

theorem recordStatus_records (w : World) (s : σ) {status : JobStatus} (lastError : Option String)
    (payload : EventPayload)
    (hrange : w.ledger.attemptCount (key job) + [status].count .running < 2 ^ 31)
    (hstatus : status ≠ .settled) :
    Records env job (Db.recordStatus crates job status lastError status.event payload).lift
      (.ok ()) [status] w s := by
  let u := Db.upsertArgs crates job status lastError none none
  let row := u.row (env.now w) (w.ledger.jobs (key job))
  have hrow : row.status = status := u.row_status _ _
  have hattempts : row.attempts = w.ledger.attemptCount (key job) + [row.status].count .running :=
    hrow ▸ u.row_attempts w.ledger (env.now w)
  have hverdict : (w.ledger.verdicts (key job)).isSome ↔
      (w.ledger.verdicts (key job)).isSome ∨ row.status = .settled := by
    simp [hrow, hstatus]
  refine ⟨_, hrow ▸ Recorded.one payload hattempts hverdict fun _ _ => rfl, ?_⟩
  have hupsert := serve_upsertJob env w s u hrange
  have hput : (w.ledger.putJob (key job) row).jobs (key job) = some row :=
    Function.update_self ..
  have hevent := serve_insertEvent env { w with ledger := w.ledger.putJob (key job) row } s
    ⟨key job, status.event, payload⟩ hput
  rw [Prog.run_lift]
  exact Eq.trans (Prog.run_ask_bind hupsert) (hrow ▸ hevent)

theorem recordSettled_records (w : World) (s : σ) (result : EvaluationResult)
    (signature : Option String) (resolutionHash : Bytes32)
    (hrange : w.ledger.attemptCount (key job) < 2 ^ 31) :
    Records env job (Db.recordSettled crates job result signature resolutionHash).lift
      (.ok ()) [.settled] w s := by
  let u := Db.upsertArgs crates job .settled none signature
    (some (Text.hexEncode resolutionHash.toList))
  let v := Db.verdictArgs job result signature resolutionHash
  let row := u.row (env.now w) (w.ledger.jobs (key job))
  let payload := EventPayload.settled result.approved result.resolutionReason
    (Text.hexEncode resolutionHash.toList) signature
  let w₁ : World := { w with ledger := w.ledger.putJob (key job) row }
  let verdicts := Function.update w.ledger.verdicts (key job)
    (some (v.verdict.onConflict (w.ledger.verdicts (key job))))
  have hrow : row.status = .settled := u.row_status _ _
  have hattempts : row.attempts = w.ledger.attemptCount (key job) + [row.status].count .running :=
    hrow ▸ u.row_attempts w.ledger (env.now w)
  have hverdict : (verdicts (key job)).isSome ↔
      (w.ledger.verdicts (key job)).isSome ∨ row.status = .settled := by
    simp [hrow, verdicts]
  have hothers : ∀ uid, uid ≠ key job → verdicts uid = w.ledger.verdicts uid :=
    fun uid hne => Function.update_of_ne hne ..
  refine ⟨_, hrow ▸ Recorded.one payload hattempts hverdict hothers, ?_⟩
  have hput : w₁.ledger.jobs (key job) = some row := Function.update_self ..
  have hupsert := serve_upsertJob env w s u hrange
  have hupsertVerdict := serve_upsertVerdict env w₁ s v hput
  have hevent := serve_insertEvent env { w₁ with
    ledger := { w₁.ledger with verdicts := verdicts } } s ⟨key job, .settled, payload⟩ hput
  rw [Prog.run_lift]
  exact Eq.trans (Prog.run_ask_bind hupsert) (Eq.trans (Prog.run_ask_bind hupsertVerdict) hevent)

/-! ## The parts of the loop body -/

variable {cfg : OracleConfig}

theorem recordIntake_records (hdb : cfg.databaseEnabled = true) (w : World) (s : σ)
    (hrange : w.ledger.attemptCount (key job) < 2 ^ 31) :
    Records env job (recordIntake crates cfg job) () [.detected, .queued] w s := by
  obtain ⟨l₁, h₁, hrun₁⟩ :
      Records env job (Db.recordDetected crates job).lift (.ok ()) [.detected] w s :=
    recordStatus_records w s none .empty hrange (by decide)
  have hattempts : l₁.attemptCount (key job) = w.ledger.attemptCount (key job) := h₁.attempts
  obtain ⟨l₂, h₂, hrun₂⟩ : Records env job (Db.recordQueued crates job).lift (.ok ()) [.queued]
      { w with ledger := l₁ } s :=
    recordStatus_records _ s none .empty (hattempts ▸ hrange) (by decide)
  refine ⟨l₂, h₁.trans h₂, ?_⟩
  rw [recordIntake, if_pos hdb]
  exact Eq.trans (Prog.run_bind_of hrun₁) (Prog.run_bind_of hrun₂)

theorem startAttempt_records (hdb : cfg.databaseEnabled = true) (w : World) (s : σ)
    (hrange : w.ledger.attemptCount (key job) + 1 < 2 ^ 31) :
    Records env job (startAttempt crates cfg job)
      (UInt32.ofNat (w.ledger.attemptCount (key job) + 1)) [.running] w s := by
  obtain ⟨l, h, hrun⟩ :
      Records env job (Db.recordStarted crates job).lift (.ok ()) [.running] w s :=
    recordStatus_records w s none .empty hrange (by decide)
  have hattempts : l.attemptCount (key job) = w.ledger.attemptCount (key job) + 1 := h.attempts
  have hread : env.serve (.await (.sql (.attemptCount (key job)))) ({ w with ledger := l }, s) =
      (.ok (w.ledger.attemptCount (key job) + 1), ({ w with ledger := l }, s)) := by
    refine serve_sql ?_
    rw [Stmt.exec, hattempts]
  refine ⟨l, h, ?_⟩
  rw [startAttempt, if_pos hdb]
  refine Eq.trans (Prog.run_bind_of hrun) (Eq.trans (Prog.run_ask_bind hread) ?_)
  simp

theorem persistSlotWatermark_records (w : World) (s : σ) :
    Records env job Chain.persistSlotWatermark.lift () [] w s := by
  have hslot : env.serve (.await .lastSeenSlot) (w, s) = (w.health.lastSeenSlot, (w, s)) := rfl
  by_cases hzero : w.health.lastSeenSlot = 0
  · refine ⟨_, Recorded.of_parameters w.ledger.parameters, ?_⟩
    rw [Prog.run_lift, Chain.persistSlotWatermark]
    refine Eq.trans (Prog.run_ask_bind hslot) ?_
    rw [if_pos hzero]
    rfl
  · have hset : env.serve (.await (.sql (.setParameter PARAM_LAST_SEEN_SLOT
        w.health.lastSeenSlot.repr))) (w, s) = (.ok (), ({ w with
          ledger := w.ledger.setParameter PARAM_LAST_SEEN_SLOT w.health.lastSeenSlot.repr }, s)) :=
      serve_sql rfl
    let l := w.ledger.setParameter PARAM_LAST_SEEN_SLOT w.health.lastSeenSlot.repr
    refine ⟨l, Recorded.of_parameters l.parameters, ?_⟩
    rw [Prog.run_lift, Chain.persistSlotWatermark]
    refine Eq.trans (Prog.run_ask_bind hslot) ?_
    rw [if_neg hzero]
    exact Prog.run_ask_bind hset

theorem finishSettled_records (hdb : cfg.databaseEnabled = true)
    (outcome : Pipeline.PipelineOutcome) (w : World) (s : σ)
    (hrange : w.ledger.attemptCount (key job) < 2 ^ 31) :
    Records env job (finishSettled crates cfg job outcome) () [.settled] w s := by
  obtain ⟨l₁, h₁, hrun₁⟩ : Records env job (Db.recordSettled crates job outcome.result
      outcome.signature outcome.resolutionHash).lift (.ok ()) [.settled] w s :=
    recordSettled_records w s _ _ _ hrange
  obtain ⟨l₂, h₂, hrun₂⟩ :
      Records env job Chain.persistSlotWatermark.lift () [] { w with ledger := l₁ } s :=
    persistSlotWatermark_records _ s
  refine ⟨l₂, h₁.trans h₂, ?_⟩
  rw [finishSettled, if_pos hdb]
  exact Eq.trans (Prog.run_bind_of hrun₁) hrun₂

theorem recordFailure_records (hdb : cfg.databaseEnabled = true) (deadLetter : Bool) (msg : String)
    (w : World) (s : σ) (hrange : w.ledger.attemptCount (key job) < 2 ^ 31) :
    Records env job (recordFailure crates cfg job deadLetter msg) ()
      [if deadLetter then .deadLetter else .failed] w s := by
  cases deadLetter with
  | true =>
    obtain ⟨l, h, hrun⟩ :
        Records env job (Db.recordDeadLetter crates job msg).lift (.ok ()) [.deadLetter] w s :=
      recordStatus_records w s _ _ hrange (by decide)
    refine ⟨l, h, ?_⟩
    rw [recordFailure, if_pos hdb, if_pos rfl]
    exact Prog.run_bind_of hrun
  | false =>
    obtain ⟨l, h, hrun⟩ :
        Records env job (Db.recordFailed crates job msg).lift (.ok ()) [.failed] w s :=
      recordStatus_records w s _ _ hrange (by decide)
    refine ⟨l, h, ?_⟩
    rw [recordFailure, if_pos hdb, if_neg Bool.false_ne_true]
    exact Prog.run_bind_of hrun

def Reports (env : Outside σ) (job : EvaluationJob) (p : TaskCode JobReport) (report : JobReport)
    (statuses : List JobStatus) (w : World) (s : σ) : Prop :=
  ∃ w', Recorded w.ledger w'.ledger (key job) statuses ∧ w'.stats = report.tally w.stats ∧
    p.run env.serve (w, s) = (report, (w', s))

theorem countFailure_run (deadLetter : Bool) (count : UInt32) (w : World) (s : σ) :
    ∃ w', w'.ledger = w.ledger ∧ w'.stats = (JobReport.failed count deadLetter).tally w.stats ∧
      (countFailure job deadLetter).run env.serve (w, s) = ((), (w', s)) := by
  cases deadLetter with
  | true => exact ⟨(w.countError true).attemptsRemove job.paymentUid, rfl, rfl, rfl⟩
  | false => exact ⟨(w.processedRemove job.paymentUid).countError false, rfl, rfl, rfl⟩

theorem finishFailed_reports (hdb : cfg.databaseEnabled = true) (count : UInt32) (msg : String)
    (w : World) (s : σ) (hrange : w.ledger.attemptCount (key job) < 2 ^ 31) :
    Reports env job (finishFailed crates cfg job count msg)
      (.failed count (decide (count ≥ cfg.deadLetterMaxAttempts)))
      [if count ≥ cfg.deadLetterMaxAttempts then .deadLetter else .failed] w s := by
  let deadLetter := decide (count ≥ cfg.deadLetterMaxAttempts)
  obtain ⟨l, h, hrun⟩ : Records env job (recordFailure crates cfg job deadLetter msg) ()
      [if deadLetter then .deadLetter else .failed] w s :=
    recordFailure_records hdb deadLetter msg w s hrange
  obtain ⟨w', hledger, hstats, hcount⟩ : ∃ w', w'.ledger = l ∧
      w'.stats = (JobReport.failed count deadLetter).tally w.stats ∧
      (countFailure job deadLetter).run env.serve ({ w with ledger := l }, s) = ((), (w', s)) :=
    countFailure_run deadLetter count { w with ledger := l } s
  refine ⟨w', ?_, hstats, Eq.trans (Prog.run_bind_of hrun) (Prog.run_bind_of hcount)⟩
  rw [hledger]
  simpa only [deadLetter, decide_eq_true_eq] using h

theorem finish_reports (hdb : cfg.databaseEnabled = true) (count : UInt32) (result : RunResult)
    (w : World) (s : σ) (hrange : w.ledger.attemptCount (key job) < 2 ^ 31) :
    Reports env job (finish crates cfg job count result)
      (conclude cfg.deadLetterMaxAttempts count result)
      [finalStatus cfg.deadLetterMaxAttempts count result] w s := by
  rcases result with _ | e | outcome
  · exact finishFailed_reports hdb count "pipeline timeout" w s hrange
  · exact finishFailed_reports hdb count e.toString w s hrange
  · obtain ⟨l, h, hrun⟩ :
        Records env job (finishSettled crates cfg job outcome) () [.settled] w s :=
      finishSettled_records hdb outcome w s hrange
    refine ⟨(({ w with ledger := l } : World).countSettled outcome.result.approved).attemptsRemove
      job.paymentUid, h, rfl, ?_⟩
    exact Prog.run_bind_of hrun

/-! ## One job -/

variable (env crates)

theorem skipDuplicate_run (hdb : cfg.databaseEnabled = true) (w : World) (s : σ) :
    (skipDuplicate cfg job).run env.serve (w, s) = (w.ledger.isTerminal (key job), (w, s)) := by
  have hread : env.serve (.await (.sql (.isTerminal (key job)))) (w, s) =
      (.ok (w.ledger.isTerminal (key job)), (w, s)) := rfl
  rw [skipDuplicate, if_pos hdb]
  refine Eq.trans (Prog.run_ask_bind hread) ?_
  cases w.ledger.isTerminal (key job) <;> rfl

theorem handleNext_terminal (hdb : cfg.databaseEnabled = true) (run : PipelineRun) (w : World)
    (s : σ) (hterminal : w.ledger.isTerminal (key job) = true) :
    handleNext env crates cfg job run (w, s) = (.skipped, (w.setQueueDepth, s)) := by
  have hdepth : env.serve (.await .setQueueDepth) (w, s) = ((), (w.setQueueDepth, s)) := rfl
  have hskip : (skipDuplicate cfg job).run env.serve (w.setQueueDepth, s) =
      (true, (w.setQueueDepth, s)) :=
    hterminal ▸ skipDuplicate_run env hdb w.setQueueDepth s
  rw [handleNext, handleJob]
  exact Eq.trans (Prog.run_ask_bind hdepth) (Prog.run_bind_of hskip)

theorem handleNext_live (hdb : cfg.databaseEnabled = true) (run : PipelineRun) (w : World) (s : σ)
    (hlive : w.ledger.isTerminal (key job) = false)
    (hrange : w.ledger.attemptCount (key job) + 1 < 2 ^ 31) {count : UInt32}
    (hcount : count = UInt32.ofNat (w.ledger.attemptCount (key job) + 1)) :
    ∃ w', Recorded w.ledger w'.ledger (key job) [.detected, .queued, .running,
        finalStatus cfg.deadLetterMaxAttempts count (run.outcome env w.stats s).1] ∧
      w'.stats = (conclude cfg.deadLetterMaxAttempts count (run.outcome env w.stats s).1).tally
        (run.outcome env w.stats s).2.1 ∧
      handleNext env crates cfg job run (w, s) =
        (conclude cfg.deadLetterMaxAttempts count (run.outcome env w.stats s).1,
          (w', (run.outcome env w.stats s).2.2)) := by
  let w₁ := w.setQueueDepth
  have hdepth : env.serve (.await .setQueueDepth) (w, s) = ((), (w₁, s)) := rfl
  have hskip : (skipDuplicate cfg job).run env.serve (w₁, s) = (false, (w₁, s)) :=
    hlive ▸ skipDuplicate_run env hdb w₁ s
  obtain ⟨l₂, h₂, hintake⟩ :
      Records env job (recordIntake crates cfg job) () [.detected, .queued] w₁ s :=
    recordIntake_records hdb w₁ s (Nat.lt_of_succ_lt hrange)
  have hattempts₂ : l₂.attemptCount (key job) = w.ledger.attemptCount (key job) := h₂.attempts
  obtain ⟨l₃, h₃, hstart⟩ : Records env job (startAttempt crates cfg job)
      (UInt32.ofNat (l₂.attemptCount (key job) + 1)) [.running] { w₁ with ledger := l₂ } s :=
    startAttempt_records hdb _ s (hattempts₂ ▸ hrange)
  have hattempts₃ : l₃.attemptCount (key job) = l₂.attemptCount (key job) + 1 := h₃.attempts
  have hrun := run.run_eq env { w₁ with ledger := l₃ } s
  obtain ⟨w', h₄, hstats, hfinish⟩ : Reports env job
      (finish crates cfg job count (run.outcome env w.stats s).1)
      (conclude cfg.deadLetterMaxAttempts count (run.outcome env w.stats s).1)
      [finalStatus cfg.deadLetterMaxAttempts count (run.outcome env w.stats s).1]
      { w₁ with ledger := l₃, stats := (run.outcome env w.stats s).2.1 }
      (run.outcome env w.stats s).2.2 :=
    finish_reports hdb _ _ _ _ (by rw [hattempts₃, hattempts₂]; exact hrange)
  refine ⟨w', (h₂.trans h₃).trans h₄, hstats, ?_⟩
  rw [hattempts₂, ← hcount] at hstart
  rw [handleNext, handleJob]
  refine Eq.trans (Prog.run_ask_bind hdepth) (Eq.trans (Prog.run_bind_of hskip) ?_)
  rw [if_neg Bool.false_ne_true, evaluateJob]
  refine Eq.trans (Prog.run_bind_of hintake) (Eq.trans (Prog.run_bind_of hstart) ?_)
  exact Eq.trans (Prog.run_bind_of hrun) hfinish

end
end OracleQa
