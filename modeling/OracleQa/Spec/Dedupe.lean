import Mathlib.Data.Finset.Basic
import OracleQa.Spec.LedgerMode

/-! The two dedupes of the worker, by the ledger and by its memory, do the same: each keeps, for
every payment, how often it was started and whether it is done. -/

namespace OracleQa.Dedupe
open Interaction Worker

inductive Phase
  | active (starts : Nat)
  | done

def Phase.starts : Phase → Nat
  | active n => n
  | done => 0

def closes : JobReport → Bool
  | .skipped => false
  | .settled _ _ => true
  | .failed _ deadLetter => deadLetter

/-- What a dedupe is for, next to the statistics and the outside. -/
structure Register (σ : Type) where
  phase : Bytes32 → Phase
  stats : OracleStats
  outside : σ

section
variable {σ : Type} (env : Outside σ) (max : UInt32)

def Register.handle (job : EvaluationJob × PipelineRun) (a : Register σ) :
    JobReport × Register σ :=
  match a.phase job.1.paymentUid with
  | .done => (.skipped, a)
  | .active n =>
    let o := job.2.outcome env a.stats a.outside
    let report := conclude max (UInt32.ofNat (n + 1)) o.1
    let phase := if closes report then .done else .active (n + 1)
    (report, ⟨Function.update a.phase job.1.paymentUid phase, report.tally o.2.1, o.2.2⟩)

variable {env max} {a : Register σ} {job : EvaluationJob} {run : PipelineRun}

theorem Register.handle_done (h : a.phase job.paymentUid = .done) :
    a.handle env max (job, run) = (.skipped, a) := by
  rw [handle, h]

theorem Register.handle_active {n : Nat} (h : a.phase job.paymentUid = .active n)
    {report : JobReport} (hreport : conclude max (UInt32.ofNat (n + 1))
      (run.outcome env a.stats a.outside).1 = report) :
    a.handle env max (job, run) = (report,
      ⟨Function.update a.phase job.paymentUid (if closes report then .done else .active (n + 1)),
        report.tally (run.outcome env a.stats a.outside).2.1,
        (run.outcome env a.stats a.outside).2.2⟩) := by
  rw [handle, h, ← hreport]

end

def starts (uid : Bytes32) (jobs : List (EvaluationJob × PipelineRun))
    (reports : List JobReport) : Nat :=
  (jobs.zip reports).countP fun p => p.1.1.paymentUid = uid ∧ p.2 ≠ .skipped

variable {σ : Type} {env : Outside σ} {crates : Crates} {cfg : OracleConfig} {w : World} {s : σ}
  {a : Register σ} {job : EvaluationJob} {run : PipelineRun}

/-! ## By the memory -/

def InMemory (w : World) (uid : Bytes32) : Phase → Prop
  | .active n => uid ∉ w.processed ∧ (w.attempts uid).getD 0 = UInt32.ofNat n
  | .done => uid ∈ w.processed

theorem InMemory.congr {w' : World} {uid : Bytes32} {phase : Phase} (h : InMemory w uid phase)
    (hprocessed : uid ∈ w'.processed ↔ uid ∈ w.processed)
    (hattempts : w'.attempts uid = w.attempts uid) : InMemory w' uid phase := by
  cases phase with
  | active n => exact ⟨mt hprocessed.mp h.1, hattempts ▸ h.2⟩
  | done => exact hprocessed.mpr h

structure ByMemory (p : World × σ) (a : Register σ) : Prop where
  phase : ∀ uid, InMemory p.1 uid (a.phase uid)
  stats : p.1.stats = a.stats
  outside : p.2 = a.outside

variable (env crates run)

theorem handleNext_seen (hdb : cfg.databaseEnabled = false)
    (hseen : job.paymentUid ∈ w.processed) :
    handleNext env crates cfg job run (w, s) = (.skipped, (w.setQueueDepth, s)) := by
  have hdepth : env.serve (.await .setQueueDepth) (w, s) = ((), (w.setQueueDepth, s)) := rfl
  have hinsert : env.serve (.await (.processedInsert job.paymentUid)) (w.setQueueDepth, s) =
      (false, (w.setQueueDepth, s)) := by
    simp [Outside.serve, Outside.serveCall, World.processedInsert, World.setQueueDepth, hseen]
  have hskip : (skipDuplicate cfg job).run env.serve (w.setQueueDepth, s) =
      (true, (w.setQueueDepth, s)) := by
    rw [skipDuplicate, hdb]
    exact Prog.run_ask_bind hinsert
  rw [handleNext, handleJob]
  exact Eq.trans (Prog.run_ask_bind hdepth) (Prog.run_bind_of hskip)

theorem finishFailed_memory (hdb : cfg.databaseEnabled = false) (job : EvaluationJob)
    (count : UInt32) (msg : String) (w : World) (s : σ) :
    let deadLetter := decide (count ≥ cfg.deadLetterMaxAttempts)
    ∃ w', w'.processed =
        (if deadLetter then w.processed else w.processed.erase job.paymentUid) ∧
      w'.attempts =
        (if deadLetter then Function.update w.attempts job.paymentUid none else w.attempts) ∧
      w'.stats = (JobReport.failed count deadLetter).tally w.stats ∧
      (finishFailed crates cfg job count msg).run env.serve (w, s) =
        (.failed count deadLetter, (w', s)) := by
  intro deadLetter
  have hrecord : (recordFailure crates cfg job deadLetter msg).run env.serve (w, s) =
      ((), (w, s)) := by
    rw [recordFailure, hdb]
    rfl
  have hreport : ∀ w', (countFailure job deadLetter).run env.serve (w, s) = ((), (w', s)) →
      (finishFailed crates cfg job count msg).run env.serve (w, s) =
        (.failed count deadLetter, (w', s)) :=
    fun w' h => Eq.trans (Prog.run_bind_of hrecord) (Prog.run_bind_of h)
  cases hdead : deadLetter with
  | true =>
    rw [hdead] at hreport
    exact ⟨(w.countError true).attemptsRemove job.paymentUid, rfl, rfl, rfl, hreport _ rfl⟩
  | false =>
    rw [hdead] at hreport
    exact ⟨(w.processedRemove job.paymentUid).countError false, rfl, rfl, rfl, hreport _ rfl⟩

theorem finish_memory (hdb : cfg.databaseEnabled = false) (job : EvaluationJob) (count : UInt32)
    (result : RunResult) (w : World) (s : σ) :
    let report := conclude cfg.deadLetterMaxAttempts count result
    ∃ w', w'.processed =
        (if closes report then w.processed else w.processed.erase job.paymentUid) ∧
      w'.attempts =
        (if closes report then Function.update w.attempts job.paymentUid none
          else w.attempts) ∧
      w'.stats = report.tally w.stats ∧
      (finish crates cfg job count result).run env.serve (w, s) = (report, (w', s)) := by
  rcases result with _ | e | outcome
  · exact finishFailed_memory env crates hdb job count "pipeline timeout" w s
  · exact finishFailed_memory env crates hdb job count e.toString w s
  · have hsettled : (finishSettled crates cfg job outcome).run env.serve (w, s) =
        ((), (w, s)) := by
      rw [finishSettled, hdb]
      rfl
    exact ⟨(w.countSettled outcome.result.approved).attemptsRemove job.paymentUid, rfl, rfl,
      rfl, Prog.run_bind_of hsettled⟩

theorem handleNext_unseen (hdb : cfg.databaseEnabled = false)
    (hnew : job.paymentUid ∉ w.processed) {count : UInt32}
    (hcount : (w.attempts job.paymentUid).getD 0 + 1 = count) :
    let report := conclude cfg.deadLetterMaxAttempts count (run.outcome env w.stats s).1
    ∃ w', w'.processed =
        (if closes report then insert job.paymentUid w.processed else w.processed) ∧
      w'.attempts = Function.update w.attempts job.paymentUid
        (if closes report then none else some count) ∧
      w'.stats = report.tally (run.outcome env w.stats s).2.1 ∧
      handleNext env crates cfg job run (w, s) =
        (report, (w', (run.outcome env w.stats s).2.2)) := by
  subst hcount
  intro report
  let count := (w.attempts job.paymentUid).getD 0 + 1
  let w₁ := { w.setQueueDepth with processed := insert job.paymentUid w.processed }
  let w₂ := { w₁ with attempts := Function.update w.attempts job.paymentUid (some count) }
  have hdepth : env.serve (.await .setQueueDepth) (w, s) = ((), (w.setQueueDepth, s)) := rfl
  have hinsert : env.serve (.await (.processedInsert job.paymentUid)) (w.setQueueDepth, s) =
      (true, (w₁, s)) := by
    have hfresh : decide (job.paymentUid ∉ w.processed) = true := decide_eq_true hnew
    simp only [Outside.serve, Outside.serveCall, World.processedInsert]
    rw [show w.setQueueDepth.processed = w.processed from rfl, hfresh]
  have hskip : (skipDuplicate cfg job).run env.serve (w.setQueueDepth, s) = (false, (w₁, s)) := by
    rw [skipDuplicate, hdb]
    exact Prog.run_ask_bind hinsert
  have hintake : (recordIntake crates cfg job).run env.serve (w₁, s) = ((), (w₁, s)) := by
    rw [recordIntake, hdb]
    rfl
  have hstart : (startAttempt crates cfg job).run env.serve (w₁, s) = (count, (w₂, s)) := by
    rw [startAttempt, hdb]
    rfl
  have hrun := run.run_eq env w₂ s
  obtain ⟨w', hprocessed, hattempts, hstats, hfinish⟩ := finish_memory env crates hdb job count
    (run.outcome env w.stats s).1 { w₂ with stats := (run.outcome env w.stats s).2.1 }
    (run.outcome env w.stats s).2.2
  refine ⟨w', ?_, ?_, hstats, ?_⟩
  · rw [hprocessed]
    change (if closes report then insert job.paymentUid w.processed
      else (insert job.paymentUid w.processed).erase job.paymentUid) = _
    rw [Finset.erase_insert hnew]
  · rw [hattempts]
    change (if closes report then Function.update w₂.attempts job.paymentUid none
      else w₂.attempts) = _
    split
    · exact Function.update_idem ..
    · rfl
  · rw [handleNext, handleJob]
    refine Eq.trans (Prog.run_ask_bind hdepth) (Eq.trans (Prog.run_bind_of hskip) ?_)
    rw [if_neg Bool.false_ne_true, evaluateJob]
    refine Eq.trans (Prog.run_bind_of hintake) (Eq.trans (Prog.run_bind_of hstart) ?_)
    exact Eq.trans (Prog.run_bind_of hrun) hfinish

theorem handle_byMemory (hdb : cfg.databaseEnabled = false) {p : World × σ} (h : ByMemory p a) :
    (handleNext env crates cfg job run p).1 =
        (a.handle env cfg.deadLetterMaxAttempts (job, run)).1 ∧
      ByMemory (handleNext env crates cfg job run p).2
        (a.handle env cfg.deadLetterMaxAttempts (job, run)).2 := by
  obtain ⟨w, s⟩ := p
  obtain ⟨phase, stats, outside⟩ := a
  obtain ⟨hphase, rfl, rfl⟩ := h
  have hjob : InMemory w job.paymentUid (phase job.paymentUid) := hphase _
  cases hcase : phase job.paymentUid with
  | done =>
    rw [hcase] at hjob
    rw [handleNext_seen env crates run hdb hjob, Register.handle_done hcase]
    exact ⟨rfl, hphase, rfl, rfl⟩
  | active n =>
    rw [hcase] at hjob
    have hcount : (w.attempts job.paymentUid).getD 0 + 1 = UInt32.ofNat (n + 1) := by
      rw [hjob.2, UInt32.ofNat_add]
      rfl
    obtain ⟨w', hprocessed, hattempts, hstats, hrun⟩ := handleNext_unseen env crates run hdb hjob.1
      hcount
    rw [hrun, Register.handle_active hcase rfl]
    generalize conclude cfg.deadLetterMaxAttempts (UInt32.ofNat (n + 1))
      (run.outcome env w.stats s).1 = report at hprocessed hattempts hstats ⊢
    refine ⟨rfl, fun uid => ?_, hstats, rfl⟩
    change InMemory w' uid (Function.update phase job.paymentUid _ uid)
    by_cases huid : uid = job.paymentUid
    · subst huid
      rw [Function.update_self]
      cases hcloses : closes report with
      | true =>
        rw [hcloses, if_pos rfl] at hprocessed
        change job.paymentUid ∈ w'.processed
        rw [hprocessed]
        exact Finset.mem_insert_self ..
      | false =>
        rw [hcloses, if_neg Bool.false_ne_true] at hprocessed hattempts
        refine ⟨hprocessed ▸ hjob.1, ?_⟩
        rw [hattempts, Function.update_self]
        rfl
    · rw [Function.update_of_ne huid]
      refine (hphase uid).congr ?_ (by rw [hattempts, Function.update_of_ne huid])
      rw [hprocessed]
      split
      · rw [Finset.mem_insert, or_iff_right huid]
      · rfl

/-! ## By the ledger -/

variable {l l' : Ledger}

def InLedger (l : Ledger) (uid : Bytes32) : Phase → Prop
  | .active n => l.isTerminal (uidHex uid) = false ∧ l.attemptCount (uidHex uid) = n
  | .done => l.isTerminal (uidHex uid) = true

theorem InLedger.congr {uid : Bytes32} {phase : Phase} (h : InLedger l uid phase)
    (hjobs : l'.jobs (uidHex uid) = l.jobs (uidHex uid)) : InLedger l' uid phase := by
  have hterminal : l'.isTerminal (uidHex uid) = l.isTerminal (uidHex uid) := by
    rw [Ledger.isTerminal, hjobs, Ledger.isTerminal]
  have hattempts : l'.attemptCount (uidHex uid) = l.attemptCount (uidHex uid) := by
    rw [Ledger.attemptCount, hjobs, Ledger.attemptCount]
  cases phase with
  | active n => exact ⟨hterminal.trans h.1, hattempts.trans h.2⟩
  | done => exact hterminal.trans h

structure ByLedger (p : World × σ) (a : Register σ) : Prop where
  phase : ∀ uid, InLedger p.1.ledger uid (a.phase uid)
  stats : p.1.stats = a.stats
  outside : p.2 = a.outside

theorem isTerminal_of_status {uid : String} {status : JobStatus}
    (h : l.status uid = some status) :
    l.isTerminal uid = (decide (status = .settled) || decide (status = .deadLetter)) := by
  rw [Ledger.status] at h
  obtain ⟨row, hrow, rfl⟩ := Option.map_eq_some_iff.mp h
  rw [Ledger.isTerminal, hrow]

theorem closes_conclude (max count : UInt32) (result : RunResult) :
    closes (conclude max count result) =
      (decide (finalStatus max count result = .settled) ||
        decide (finalStatus max count result = .deadLetter)) := by
  rcases result with _ | e | outcome
  · by_cases h : count ≥ max <;> simp [conclude, finalStatus, closes, h]
  · by_cases h : count ≥ max <;> simp [conclude, finalStatus, closes, h]
  · simp [conclude, finalStatus, closes]

theorem count_running_final (max count : UInt32) (result : RunResult) :
    [JobStatus.detected, .queued, .running, finalStatus max count result].count .running = 1 := by
  have hfinal : finalStatus max count result ≠ .running := by
    rcases result with _ | e | outcome
    · by_cases h : count ≥ max <;> simp [finalStatus, h]
    · by_cases h : count ≥ max <;> simp [finalStatus, h]
    · simp [finalStatus]
  simp [hfinal]

theorem handle_byLedger (hdb : cfg.databaseEnabled = true) {p : World × σ} (h : ByLedger p a)
    (hrange : (a.phase job.paymentUid).starts + 1 < 2 ^ 31) :
    (handleNext env crates cfg job run p).1 =
        (a.handle env cfg.deadLetterMaxAttempts (job, run)).1 ∧
      ByLedger (handleNext env crates cfg job run p).2
        (a.handle env cfg.deadLetterMaxAttempts (job, run)).2 := by
  obtain ⟨w, s⟩ := p
  obtain ⟨phase, stats, outside⟩ := a
  obtain ⟨hphase, rfl, rfl⟩ := h
  have hjob : InLedger w.ledger job.paymentUid (phase job.paymentUid) := hphase _
  change (phase job.paymentUid).starts + 1 < 2 ^ 31 at hrange
  cases hcase : phase job.paymentUid with
  | done =>
    rw [hcase] at hjob
    rw [handleNext_terminal env crates hdb run w s hjob, Register.handle_done hcase]
    exact ⟨rfl, hphase, rfl, rfl⟩
  | active n =>
    rw [hcase] at hjob hrange
    obtain ⟨hlive, hattempts⟩ := hjob
    obtain ⟨w', hr, hstats, hrun⟩ := handleNext_live env crates hdb run w s hlive
      (hattempts ▸ hrange) (congrArg (fun n => UInt32.ofNat (n + 1)) hattempts.symm)
    rw [hrun, Register.handle_active hcase rfl]
    refine ⟨rfl, fun uid => ?_, hstats, rfl⟩
    change InLedger w'.ledger uid (Function.update phase job.paymentUid _ uid)
    by_cases huid : uid = job.paymentUid
    · subst huid
      rw [Function.update_self]
      have hstatus : w'.ledger.status (key job) = some (finalStatus cfg.deadLetterMaxAttempts
          (UInt32.ofNat (n + 1)) (run.outcome env w.stats s).1) := hr.status
      have hterminal := isTerminal_of_status hstatus
      rw [← closes_conclude] at hterminal
      split
      · next hcloses => exact hterminal.trans hcloses
      · next hcloses =>
        refine ⟨hterminal.trans (Bool.eq_false_iff.mpr hcloses), ?_⟩
        rw [hr.attempts, hattempts]
        exact congrArg (n + ·) (count_running_final ..)
    · rw [Function.update_of_ne huid]
      have hkey : uidHex uid ≠ key job := fun heq => huid (uidHex_injective heq)
      have hold : InLedger w.ledger uid (phase uid) := hphase uid
      exact hold.congr (hr.others _ hkey).1

/-! ## Runs -/

variable {jobs : List (EvaluationJob × PipelineRun)} {max : UInt32}

/-- All starts, so far and to come, stay in the range of the attempts column. -/
def InRange (env : Outside σ) (max : UInt32) (jobs : List (EvaluationJob × PipelineRun))
    (a : Register σ) : Prop :=
  ∀ uid, (a.phase uid).starts + starts uid jobs (answers (Register.handle env max) jobs a).1 <
    2 ^ 31

theorem starts_cons (uid : Bytes32) (job : EvaluationJob × PipelineRun) (report : JobReport)
    (reports : List JobReport) : starts uid (job :: jobs) (report :: reports) =
      starts uid jobs reports + if job.1.paymentUid = uid ∧ report ≠ .skipped then 1 else 0 := by
  simp [starts, List.countP_cons]

theorem handle_started {job : EvaluationJob × PipelineRun} {n : Nat}
    (h : a.phase job.1.paymentUid = .active n) : (a.handle env max job).1 ≠ .skipped := by
  rw [Register.handle_active h rfl]
  rcases (job.2.outcome env a.stats a.outside).1 with _ | e | outcome <;>
    exact JobReport.noConfusion

theorem handle_starts (uid : Bytes32) (job : EvaluationJob × PipelineRun) (a : Register σ) :
    ((a.handle env max job).2.phase uid).starts ≤ (a.phase uid).starts +
      if job.1.paymentUid = uid ∧ (a.handle env max job).1 ≠ .skipped then 1 else 0 := by
  obtain ⟨job, run⟩ := job
  cases hcase : a.phase job.paymentUid with
  | done =>
    rw [Register.handle_done hcase]
    exact Nat.le_add_right ..
  | active n =>
    by_cases huid : job.paymentUid = uid
    · subst huid
      have hstarted : (a.handle env max (job, run)).1 ≠ .skipped :=
        handle_started env hcase
      rw [if_pos ⟨rfl, hstarted⟩, hcase, Register.handle_active hcase rfl]
      dsimp only
      rw [Function.update_self]
      split
      · exact Nat.zero_le _
      · exact Nat.le_refl _
    · rw [Register.handle_active hcase rfl]
      dsimp only
      rw [Function.update_of_ne (Ne.symm huid)]
      exact Nat.le_add_right ..

theorem InRange.next {job : EvaluationJob × PipelineRun} (h : InRange env max (job :: jobs) a) :
    InRange env max jobs (a.handle env max job).2 := by
  intro uid
  have hall := h uid
  have hfirst : ((a.handle env max job).2.phase uid).starts ≤ (a.phase uid).starts +
      if job.1.paymentUid = uid ∧ (a.handle env max job).1 ≠ .skipped then 1 else 0 :=
    handle_starts env uid job a
  rw [answers, starts_cons] at hall
  omega

theorem InRange.first {job : EvaluationJob × PipelineRun} (h : InRange env max (job :: jobs) a) :
    (a.phase job.1.paymentUid).starts + 1 < 2 ^ 31 := by
  have hall := h job.1.paymentUid
  rw [answers, starts_cons] at hall
  cases hcase : a.phase job.1.paymentUid with
  | done => decide
  | active n =>
    have hstarted : (a.handle env max job).1 ≠ .skipped :=
      handle_started env hcase
    rw [if_pos ⟨rfl, hstarted⟩, hcase] at hall
    omega

theorem runJobs_byMemory (hdb : cfg.databaseEnabled = false) {p : World × σ} (h : ByMemory p a) :
    (runJobs env crates cfg jobs p).1 =
        (answers (Register.handle env cfg.deadLetterMaxAttempts) jobs a).1 ∧
      ByMemory (runJobs env crates cfg jobs p).2
        (answers (Register.handle env cfg.deadLetterMaxAttempts) jobs a).2 :=
  answers_eq (R := fun _ => ByMemory)
    (fun job _ _ _ h => handle_byMemory env crates job.2 hdb h) h

theorem runJobs_byLedger (hdb : cfg.databaseEnabled = true) {p : World × σ} (h : ByLedger p a)
    (hrange : InRange env cfg.deadLetterMaxAttempts jobs a) :
    (runJobs env crates cfg jobs p).1 =
        (answers (Register.handle env cfg.deadLetterMaxAttempts) jobs a).1 ∧
      ByLedger (runJobs env crates cfg jobs p).2
        (answers (Register.handle env cfg.deadLetterMaxAttempts) jobs a).2 := by
  let R : List (EvaluationJob × PipelineRun) → World × σ → Register σ → Prop :=
    fun jobs p a => ByLedger p a ∧ InRange env cfg.deadLetterMaxAttempts jobs a
  have hstep : ∀ job jobs p a, R (job :: jobs) p a →
      (handleNext env crates cfg job.1 job.2 p).1 =
          (a.handle env cfg.deadLetterMaxAttempts job).1 ∧
        R jobs (handleNext env crates cfg job.1 job.2 p).2
          (a.handle env cfg.deadLetterMaxAttempts job).2 := by
    rintro job jobs p a ⟨h, hrange⟩
    obtain ⟨hreport, hnext⟩ := handle_byLedger env crates job.2 hdb h hrange.first
    exact ⟨hreport, hnext, hrange.next⟩
  obtain ⟨hreports, hlast, -⟩ := answers_eq hstep ⟨h, hrange⟩
  exact ⟨hreports, hlast⟩

/-- Reports tell what was skipped, the attempt counts and the dead letters. -/
theorem modes_agree (env : Outside σ) (crates : Crates) (cfg : OracleConfig)
    (jobs : List (EvaluationJob × PipelineRun)) (s : σ)
    (hstarts : ∀ uid, starts uid jobs (runJobs env crates { cfg with databaseEnabled := false }
      jobs (World.init, s)).1 < 2 ^ 31) :
    let ledger := runJobs env crates { cfg with databaseEnabled := true } jobs (World.init, s)
    let memory := runJobs env crates { cfg with databaseEnabled := false } jobs (World.init, s)
    ledger.1 = memory.1 ∧ ledger.2.1.stats = memory.2.1.stats := by
  intro ledger memory
  let a : Register σ := ⟨fun _ => .active 0, .zero, s⟩
  have hmemory : ByMemory (World.init, s) a :=
    ⟨fun uid => ⟨Finset.notMem_empty uid, rfl⟩, rfl, rfl⟩
  have hledger : ByLedger (World.init, s) a := ⟨fun _ => ⟨rfl, rfl⟩, rfl, rfl⟩
  have hdb : ({ cfg with databaseEnabled := false } : OracleConfig).databaseEnabled = false := rfl
  obtain ⟨hreports, hlast⟩ : memory.1 = (answers (Register.handle env _) jobs a).1 ∧
      ByMemory memory.2 (answers (Register.handle env _) jobs a).2 :=
    runJobs_byMemory env crates hdb hmemory
  have hrange : InRange env cfg.deadLetterMaxAttempts jobs a := by
    intro uid
    change 0 + starts uid jobs _ < 2 ^ 31
    rw [Nat.zero_add, ← hreports]
    exact hstarts uid
  have hdb' : ({ cfg with databaseEnabled := true } : OracleConfig).databaseEnabled = true := rfl
  obtain ⟨hreports', hlast'⟩ : ledger.1 = (answers (Register.handle env _) jobs a).1 ∧
      ByLedger ledger.2 (answers (Register.handle env _) jobs a).2 :=
    runJobs_byLedger env crates hdb' hledger hrange
  exact ⟨hreports'.trans hreports.symm, hlast'.stats.trans hlast.stats.symm⟩

theorem starts_le_length (uid : Bytes32) (jobs : List (EvaluationJob × PipelineRun))
    (reports : List JobReport) : starts uid jobs reports ≤ jobs.length := by
  refine Nat.le_trans List.countP_le_length ?_
  rw [List.length_zip]
  exact Nat.min_le_left ..

def toyJobs : List (EvaluationJob × PipelineRun) :=
  [(.toy, .missed), (.toy, pipelineRun .toy .toy .toy), (.toy, .missed)]

theorem modes_agree_toy :
    let ledger := runJobs Outside.toy .toy { OracleConfig.toy with databaseEnabled := true } toyJobs
      (World.init, ())
    let memory := runJobs Outside.toy .toy { OracleConfig.toy with databaseEnabled := false }
      toyJobs (World.init, ())
    memory.1 = [.failed 1 false, .settled 2 true, .skipped] ∧ ledger.1 = memory.1 ∧
      ledger.2.1.stats = memory.2.1.stats :=
  ⟨by decide +kernel, modes_agree .toy .toy .toy toyJobs () fun uid =>
    Nat.lt_of_le_of_lt (starts_le_length uid toyJobs _) (by decide)⟩

end OracleQa.Dedupe
