import OracleQa.Interaction.Machine
import OracleQa.Model.World
import OracleQa.Spec.Footprint

/-! The worker loop alone, on a list of jobs: every statement succeeds, and the chain and the
registry are played by a state of their own, which also decides about deadlines. -/

namespace OracleQa
open Interaction

structure Outside (σ : Type) where
  reply : (c : Call) → σ → c.Reply × σ
  /-- whether the deadline drops the raced call, and if so before or after it took effect -/
  deadline : Call → σ → RaceChoice Unit × σ
  now : World → Int

def Outside.toy : Outside Unit :=
  ⟨fun c s => (c.toyReply, s), fun _ s => (.finished (), s), fun _ => 0⟩

namespace Outside
variable {σ : Type} (env : Outside σ)

def serveCall : (c : Call) → World × σ → c.Reply × (World × σ)
  | .sql q, (w, s) => ((w.execStmt (env.now w) q).1, ((w.execStmt (env.now w) q).2, s))
  | .setQueueDepth, (w, s) => ((), (w.setQueueDepth, s))
  | .observeSlot slot, (w, s) => ((), (w.raiseLastSeenSlot slot, s))
  | .observeDelivery, (w, s) => ((), (w.observeDelivery, s))
  | .lastSeenSlot, (w, s) => (w.health.lastSeenSlot, (w, s))
  | .raiseLastSeenSlot slot, (w, s) => ((), (w.raiseLastSeenSlot slot, s))
  | .countEvidenceFailure, (w, s) => ((), (w.countEvidenceFailure, s))
  | .countSettled approved, (w, s) => ((), (w.countSettled approved, s))
  | .countError deadLetter, (w, s) => ((), (w.countError deadLetter, s))
  | .processedInsert uid, (w, s) => ((w.processedInsert uid).1, ((w.processedInsert uid).2, s))
  | .processedRemove uid, (w, s) => ((), (w.processedRemove uid, s))
  | .attemptsIncrement uid, (w, s) =>
    ((w.attemptsIncrement uid).1, ((w.attemptsIncrement uid).2, s))
  | .attemptsRemove uid, (w, s) => ((), (w.attemptsRemove uid, s))
  | .admitRequest now window limit, (w, s) =>
    ((w.admitRequest now window limit).1, ((w.admitRequest now window limit).2, s))
  | c, (w, s) => ((env.reply c s).1, (w, (env.reply c s).2))

def serve : (c : TCall) → World × σ → TReply c × (World × σ)
  | .await c, p => env.serveCall c p
  | .race c, (w, s) =>
    match env.deadline c s with
    | (.finished _, s') =>
      let p := env.serveCall c (w, s')
      (some p.1, p.2)
    | (.droppedBefore, s') => (none, (w, s'))
    | (.droppedAfter _, s') => (none, (env.serveCall c (w, s')).2)

/-- A served call of the worker is one that is performed without failure. -/
theorem perform_serveCall (cfg : OracleConfig) (w : World) (s : σ) {c : Call}
    (hc : c.isLocal = true ∨ ∃ q, c = .sql q) :
    ∃ choice, w.perform cfg c choice =
      some ((env.serveCall c (w, s)).1, (env.serveCall c (w, s)).2.1) := by
  rcases hc with hc | ⟨q, rfl⟩
  · cases c with
    | instantNow => exact ⟨(env.reply .instantNow s).1, rfl⟩
    | setQueueDepth => exact ⟨(), rfl⟩
    | lastSeenSlot => exact ⟨(), rfl⟩
    | countSettled approved => exact ⟨(), rfl⟩
    | countError deadLetter => exact ⟨(), rfl⟩
    | processedInsert uid => exact ⟨(), rfl⟩
    | processedRemove uid => exact ⟨(), rfl⟩
    | attemptsIncrement uid => exact ⟨(), rfl⟩
    | attemptsRemove uid => exact ⟨(), rfl⟩
    | admitRequest now window limit => exact ⟨(), rfl⟩
    | _ => cases hc
  · exact ⟨SqlChoice.done (env.now w), rfl⟩

end Outside

/-- One run of the pipeline: any code that makes the calls of the pipeline, under its deadline. -/
def PipelineRun : Type :=
  { code : TaskCode Worker.RunResult //
    code.Calls fun c => ∃ c', c = .race c' ∧ c'.isPipeline = true }

def pipelineRun (crates : Crates) (cfg : OracleConfig) (job : EvaluationJob) : PipelineRun :=
  ⟨Worker.timedPipeline crates cfg job,
    Prog.calls_timeout Pipeline.runPipeline_calls fun c h => ⟨c, rfl, h⟩⟩

def PipelineRun.missed : PipelineRun := ⟨.ret none, trivial⟩

section
variable {σ : Type} (env : Outside σ)

/-! ## The pipeline leaves the world alone, but for the statistics -/

theorem serveCall_pipeline {c : Call} (hc : c.isPipeline = true) (stats : OracleStats) (s : σ) :
    ∃ r stats' s', ∀ w : World, w.stats = stats →
      env.serveCall c (w, s) = (r, ({ w with stats := stats' }, s')) := by
  have houtside : (∀ w : World, env.serveCall c (w, s) =
      ((env.reply c s).1, (w, (env.reply c s).2))) → ∃ r stats' s', ∀ w : World, w.stats = stats →
      env.serveCall c (w, s) = (r, ({ w with stats := stats' }, s')) := by
    intro h
    refine ⟨(env.reply c s).1, stats, (env.reply c s).2, ?_⟩
    rintro w rfl
    exact h w
  cases c with
  | countEvidenceFailure =>
    refine ⟨(), { stats with
      totalEvidenceFetchFailures := stats.totalEvidenceFetchFailures + 1 }, s, ?_⟩
    rintro w rfl
    rfl
  | getAccount key => exact houtside fun _ => rfl
  | getLatestBlockhash => exact houtside fun _ => rfl
  | sendAndConfirm tx => exact houtside fun _ => rfl
  | httpSend url auth => exact houtside fun _ => rfl
  | httpBytes url => exact houtside fun _ => rfl
  | sleepMs ms => exact houtside fun _ => rfl
  | utcNow => exact houtside fun _ => rfl
  | _ => cases hc

theorem serve_pipeline {c : Call} (hc : c.isPipeline = true) (stats : OracleStats) (s : σ) :
    ∃ r stats' s', ∀ w : World, w.stats = stats →
      env.serve (.race c) (w, s) = (r, ({ w with stats := stats' }, s')) := by
  obtain ⟨r, stats', s', h⟩ := serveCall_pipeline env hc stats (env.deadline c s).2
  rcases hdeadline : env.deadline c s with ⟨u | _ | u, s₁⟩
  · rw [hdeadline] at h
    refine ⟨some r, stats', s', fun w hw => ?_⟩
    simp only [Outside.serve, hdeadline, h w hw]
  · refine ⟨none, stats, s₁, ?_⟩
    rintro w rfl
    simp only [Outside.serve, hdeadline]
  · rw [hdeadline] at h
    refine ⟨none, stats', s', fun w hw => ?_⟩
    simp only [Outside.serve, hdeadline, h w hw]

theorem run_pipeline {α : Type} {p : TaskCode α}
    (hp : p.Calls fun c => ∃ c', c = .race c' ∧ c'.isPipeline = true) (stats : OracleStats)
    (s : σ) :
    ∃ a stats' s', ∀ w : World, w.stats = stats →
      p.run env.serve (w, s) = (a, ({ w with stats := stats' }, s')) := by
  induction p generalizing stats s with
  | ret a =>
    refine ⟨a, stats, s, ?_⟩
    rintro w rfl
    rfl
  | call c k ih =>
    obtain ⟨⟨c, rfl, hc⟩, hk⟩ := hp
    obtain ⟨r, stats₁, s₁, hserve⟩ := serve_pipeline env hc stats s
    obtain ⟨a, stats₂, s₂, hrest⟩ := ih r (hk r trivial) stats₁ s₁
    refine ⟨a, stats₂, s₂, fun w hw => ?_⟩
    rw [Prog.run_call, hserve w hw, hrest _ rfl]

def PipelineRun.outcome (run : PipelineRun) (stats : OracleStats) (s : σ) :
    Worker.RunResult × OracleStats × σ :=
  let r := run.1.run env.serve ({ World.init with stats := stats }, s)
  (r.1, r.2.1.stats, r.2.2)

theorem PipelineRun.run_eq (run : PipelineRun) (w : World) (s : σ) :
    run.1.run env.serve (w, s) = ((run.outcome env w.stats s).1,
      ({ w with stats := (run.outcome env w.stats s).2.1 }, (run.outcome env w.stats s).2.2)) := by
  obtain ⟨a, stats', s', h⟩ := run_pipeline env run.2 w.stats s
  rw [h w rfl, PipelineRun.outcome, h { World.init with stats := w.stats } rfl]

end

namespace Worker

/-- The report of a job that is started for the `count`-th time. -/
def conclude (max count : UInt32) : RunResult → JobReport
  | some (.ok outcome) => .settled count outcome.result.approved
  | _ => .failed count (decide (count ≥ max))

def finalStatus (max count : UInt32) : RunResult → JobStatus
  | some (.ok _) => .settled
  | _ => if count ≥ max then .deadLetter else .failed

def JobReport.tally : JobReport → OracleStats → OracleStats
  | .skipped, stats => stats
  | .settled _ approved, stats => { stats with
      totalEvaluated := stats.totalEvaluated + 1
      totalApproved := stats.totalApproved + if approved then 1 else 0
      totalRejected := stats.totalRejected + if approved then 0 else 1 }
  | .failed _ deadLetter, stats => { stats with
      totalErrors := stats.totalErrors + 1
      totalDeadLetter := stats.totalDeadLetter + if deadLetter then 1 else 0 }

end Worker

section
variable {σ : Type} (env : Outside σ) (crates : Crates) (cfg : OracleConfig)

def handleNext (job : EvaluationJob) (run : PipelineRun) (p : World × σ) :
    Worker.JobReport × (World × σ) :=
  (Worker.handleJob crates cfg job run.1).run env.serve p

def runJobs (jobs : List (EvaluationJob × PipelineRun)) (p : World × σ) :
    List Worker.JobReport × (World × σ) :=
  answers (fun job => handleNext env crates cfg job.1 job.2) jobs p

end
end OracleQa
