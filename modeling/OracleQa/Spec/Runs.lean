import OracleQa.Model.System

/-! The process together with a log of the worker's pipeline runs: the job that the worker took
last, how often it started the pipeline for each payment, and how its runs ended. -/

namespace OracleQa
open Interaction

/-- Inside of a pipeline run, which is all that the worker awaits under a deadline. -/
def inRun : TaskCode Unit → Bool
  | .call (.race _) _ => true
  | _ => false

def maxRuns (cfg : OracleConfig) : Nat := max 1 cfg.deadLetterMaxAttempts.toNat

theorem one_le_maxRuns {cfg : OracleConfig} : 1 ≤ maxRuns cfg := Nat.le_max_left ..

inductive Ending
  | settled
  | failed
  | deadLetter
  deriving DecidableEq

def ending : TCall → Option Ending
  | .await (.countSettled _) => some .settled
  | .await (.countError true) => some .deadLetter
  | .await (.countError false) => some .failed
  | _ => none

structure RunLog where
  sys : System
  /-- the job that the worker took last -/
  hand : Option EvaluationJob
  /-- how often the worker started the pipeline for a payment -/
  runs : Bytes32 → Nat
  /-- the worker's runs that have ended, oldest first -/
  ended : List (Bytes32 × Ending)

namespace RunLog

def init : RunLog := ⟨.init, none, fun _ => 0, []⟩

def fresh (w : World) : RunLog := ⟨⟨w.restart, System.noTasks, false⟩, none, fun _ => 0, []⟩

def ledger (t : RunLog) : Ledger := t.sys.world.ledger

def handAfter (t : RunLog) : Act → Option EvaluationJob
  | .receive => t.sys.world.channel.head?
  | .crash => none
  | _ => t.hand

def runsAfter (t : RunLog) (sys : System) : Bytes32 → Nat :=
  match t.hand with
  | some job =>
    if inRun (sys.tasks .worker) && !inRun (t.sys.tasks .worker) then
      Function.update t.runs job.paymentUid (t.runs job.paymentUid + 1)
    else t.runs
  | none => t.runs

def endedAfter (t : RunLog) : Act → List (Bytes32 × Ending)
  | .step .worker _ =>
    match t.hand, t.sys.tasks .worker with
    | some job, .call c _ => t.ended ++ ((ending c).map fun e => (job.paymentUid, e)).toList
    | _, _ => t.ended
  | _ => t.ended

def next (crates : Crates) (cfg : OracleConfig) (t : RunLog) (a : Act) : Option RunLog :=
  (t.sys.next crates cfg a).map fun sys => ⟨sys, t.handAfter a, t.runsAfter sys, t.endedAfter a⟩

inductive Turn (crates : Crates) (cfg : OracleConfig) (t t' : RunLog) : Act → Prop
  | call {choose : (c : TCall) → Timed.Choice c} {c : TCall} {k : TReply c → TaskCode Unit}
      {r : TReply c} (hcode : t.sys.tasks .worker = .call c k)
      (hw : t.sys.world.performTimed cfg c (choose c) = some (r, t'.sys.world))
      (hcode' : t'.sys.tasks .worker = k r) (hhand : t'.hand = t.hand) :
      Turn crates cfg t t' (.step .worker choose)
  | receive {job : EvaluationJob} (hidle : t.sys.isIdle .worker = true)
      (hcode' : t'.sys.tasks .worker = System.workerBody crates cfg job)
      (hhand : t'.hand = some job) : Turn crates cfg t t' .receive
  | crash (htasks : t'.sys.tasks = System.noTasks) (hhand : t'.hand = none) :
      Turn crates cfg t t' .crash
  | other {a : Act} (hstep : ∀ choose, a ≠ .step .worker choose) (hcrash : a ≠ .crash)
      (hcode' : t'.sys.tasks .worker = t.sys.tasks .worker) (hhand : t'.hand = t.hand)
      (hended : t'.ended = t.ended) : Turn crates cfg t t' a

variable {crates : Crates} {cfg : OracleConfig} {t t' : RunLog} {a : Act}

theorem next_sys (h : t.next crates cfg a = some t') :
    t.sys.next crates cfg a = some t'.sys ∧ t'.hand = t.handAfter a ∧
      t'.runs = t.runsAfter t'.sys ∧ t'.ended = t.endedAfter a := by
  obtain ⟨sys, hsys, rfl⟩ := Option.map_eq_some_iff.mp h
  exact ⟨hsys, rfl, rfl, rfl⟩

theorem next_turn (h : t.next crates cfg a = some t') : t.Turn crates cfg t' a := by
  obtain ⟨hsys, hhand, -, hended⟩ := next_sys h
  by_cases hinternal : System.isInternal a = true
  · have hcode := (System.next_internal hsys hinternal).2
    have hsame : t.handAfter a = t.hand ∧ t.endedAfter a = t.ended := by
      cases a <;> first | exact ⟨rfl, rfl⟩ | cases hinternal
    have hstep : ∀ choose, a ≠ .step .worker choose := by
      rintro choose rfl
      cases hinternal
    have hcrash : a ≠ .crash := by
      rintro rfl
      cases hinternal
    exact .other hstep hcrash hcode (hhand.trans hsame.1) (hended.trans hsame.2)
  · cases a with
    | step task choose =>
      obtain ⟨c, k, r, hcode, hw, htasks⟩ := System.next_step hsys
      by_cases htask : task = .worker
      · subst htask
        have hcode' : t'.sys.tasks .worker = k r := by rw [htasks, Function.update_self]
        exact .call hcode hw hcode' hhand
      · have hcode' : t'.sys.tasks .worker = t.sys.tasks .worker := by
          rw [htasks, Function.update_of_ne (Ne.symm htask)]
        have hsame : t.endedAfter (.step task choose) = t.ended := by
          cases task <;> first | rfl | exact absurd rfl htask
        have hstep : ∀ choose', Act.step task choose ≠ .step .worker choose' :=
          fun _ h => htask (Act.step.inj h).1
        exact .other hstep Act.noConfusion hcode' hhand (hended.trans hsame)
    | receive =>
      obtain ⟨job, hchannel, hidle, -, hcode'⟩ := System.next_receive hsys
      have hjob : t'.hand = some job := by
        rw [hhand, handAfter, hchannel]
        rfl
      exact .receive hidle hcode' hjob
    | crash =>
      obtain htasks : t'.sys = ⟨t.sys.world.restart, System.noTasks, false⟩ :=
        (Option.some.inj hsys).symm
      exact .crash (congrArg System.tasks htasks) hhand
    | _ => exact absurd rfl hinternal

theorem ledger_next (h : t.next crates cfg a = some t') :
    t'.ledger = t.ledger.after (t.sys.executed a) :=
  (System.next_move (next_sys h).1).ledger

theorem runs_next (h : t.next crates cfg a = some t') :
    t'.runs = t.runs ∨ ∃ job, t.hand = some job ∧ inRun (t.sys.tasks .worker) = false ∧
      inRun (t'.sys.tasks .worker) = true ∧
      t'.runs = Function.update t.runs job.paymentUid (t.runs job.paymentUid + 1) := by
  rw [(next_sys h).2.2.1, runsAfter]
  cases hhand : t.hand with
  | none => exact Or.inl rfl
  | some job =>
    dsimp only
    split
    · next hentered =>
      obtain ⟨hafter, hbefore⟩ := Bool.and_eq_true_iff.mp hentered
      rw [Bool.not_eq_true'] at hbefore
      exact Or.inr ⟨job, rfl, hbefore, hafter, rfl⟩
    · exact Or.inl rfl

def missedChoice : (c : TCall) → Timed.Choice c
  | .await (.getTransaction _) => .ok ⟨some (.parsed ["payment"] []), none⟩
  | .race _ => .droppedBefore
  | c => Timed.toyChoice c

def missedSteps (task : TaskId) (n : Nat) : List Act := List.replicate n (.step task missedChoice)

def delivered : List Act :=
  .notify ⟨1, "sig", ["Program data: "]⟩ :: missedSteps .monitor 5 ++ [.receive]

end RunLog
end OracleQa
