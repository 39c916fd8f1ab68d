import OracleQa.Spec.Quiescence
import OracleQa.Spec.Served

/-! What was missed is made up for. A process that is killed and started again, and is served from
then on, settles every delivery that is due: its backfill hands the job over, and its worker settles
it on chain, however the two take turns. -/

namespace OracleQa.Restart
open Interaction Backfill Text Recovery
open DeliveryJob (loggedCrates loggedTx)

variable {crates : Crates} {cfg : OracleConfig} {o : Outside crates} {job : EvaluationJob}
  {result : EvaluationResult} {hash : Bytes32} {raw : Option String} {l : Ledger} {w w' : World}

/-! ## The process -/

section
variable {crates : Crates} (cfg : OracleConfig) (o : Outside crates)

/-- What the process does by itself, where it is served. -/
def Granted (s : System) : Act → Prop
  | .step t choose => ∀ c k, s.tasks t = .call c k → ServesInTime o s.world c (choose c)
  | .receive => True
  | _ => False

variable (job : EvaluationJob) (result : EvaluationResult) (hash : Bytes32) (raw : Option String)
  (l : Ledger)

/-- Nobody works but the worker and the backfill, and the jobs in the ledger are those of `l`. -/
structure Quiet (s : System) : Prop where
  flows : Quiescence.Flows s
  monitor : s.tasks .monitor = .ret ()
  handlers : ∀ n, s.tasks (.handler n) = .ret ()
  queued : ∀ job' ∈ s.world.channel, job'.paymentUid = job.paymentUid → job' = job
  runs : ∃ job', Runs job' (s.tasks .worker)
  unwritten : Unwritten l s.world.ledger

/-- The worker settles the job that it is on, or the job is yet to reach it. -/
inductive Due (s : System) (p : Async Unit) : Prop
  | working (h : Goes cfg o (s.tasks .worker) (fun _ v => Resolved job result hash v.chain)
      (blank s.world))
  | settled (h : Resolved job result hash s.world.chain)
  | waiting {other : EvaluationJob} (hother : other.paymentUid ≠ job.paymentUid)
      (hworker : Runs other (s.tasks .worker)) (hfresh : Fresh cfg job s.world)
      (h : job ∈ s.world.channel ∨ Owes o job raw p)

end

variable {s s' : System} {a : Act}

theorem quiet_step {t : TaskId} {code : TaskCode Unit} (h : Quiet job l s)
    (ht : t = .worker ∨ t = .backfill) (hflows : Quiescence.Flows s')
    (htasks : s'.tasks = Function.update s.tasks t code)
    (hqueued : ∀ job' ∈ s'.world.channel, job'.paymentUid = job.paymentUid → job' = job)
    (hruns : ∃ job', Runs job' (s'.tasks .worker))
    (hunwritten : Unwritten s.world.ledger s'.world.ledger) : Quiet job l s' := by
  refine ⟨hflows, ?_, fun n => ?_, hqueued, hruns, h.unwritten.trans hunwritten⟩
  · rw [htasks, Function.update_of_ne]
    · exact h.monitor
    · rcases ht with rfl | rfl <;> exact TaskId.noConfusion
  · rw [htasks, Function.update_of_ne]
    · exact h.handlers n
    · rcases ht with rfl | rfl <;> exact TaskId.noConfusion

section Processes
variable {I : Type} [DecidableEq I] {cfg : I → OracleConfig} {s s' s₀ s₁ : Oracles I} {i : I}

end Processes
end OracleQa.Restart
