import OracleQa.Spec.Backfill
import OracleQa.Spec.DeliveryJob
import OracleQa.Spec.Recovery

/-! A delivery that was missed. Where the node tells its history, and serves the transactions and
accounts of it, the startup backfill hands the job of each delivery that is due to the worker. -/

namespace OracleQa.Restart
open Interaction Chain Backfill Text Recovery

structure Outside (crates : Crates) extends Services where
  history : History crates
  transactions : Signature → EncodedTransaction

section
variable {crates : Crates} (cfg : OracleConfig) (o : Outside crates)

def Outside.accountOf : DeliveryJob.Accounts := fun key => .ok (o.accounts key)

def Told (raw : Option String) : (c : Call) → c.Reply → Prop
  | .getAccount key, r => r = .ok (o.accounts key)
  | .getTransaction sig, r => r = .ok (o.transactions sig)
  | .getSignatures before limit, r => r = .ok (o.history.page before limit)
  | .sendJob _, r => r = true
  | .sql (.getParameter _), r => r = .ok raw
  | _, _ => True

variable (job : EvaluationJob)

/-- The transaction names the payment and logs its delivery, and it delivers nothing else. -/
structure Delivers (sig : Signature) : Prop where
  named : job.paymentPubkey ∈ DeliveryJob.structuredCandidates crates cfg (o.transactions sig)
  logged : DeliveryJob.Matched crates (o.transactions sig) job
  only : ∀ key ∈ DeliveryJob.structuredCandidates crates cfg (o.transactions sig), ∀ job',
    DeliveryJob.Pending crates cfg o.accountOf key job' →
      DeliveryJob.Matched crates (o.transactions sig) job' → job' = job

/-- The payment is pending, its delivery is due, and no other account stands for it. -/
structure Missed (raw : Option String) : Prop where
  pending : DeliveryJob.Pending crates cfg o.accountOf job.paymentPubkey job
  due : ∃ sig ∈ sigs crates
    (o.history.due cfg.backfillLookbackSignatures (storedWatermark cfg raw)),
      Delivers cfg o job sig
  pages : Divides 1000 succeeded cfg.backfillLookbackSignatures
    (o.history.due cfg.backfillLookbackSignatures (storedWatermark cfg raw))
  own : ∀ key job', DeliveryJob.Pending crates cfg o.accountOf key job' →
    job'.paymentUid = job.paymentUid → job' = job

def Only (c : Call) : Prop :=
  ∀ job', c = .sendJob job' → job'.paymentUid = job.paymentUid → job' = job

def Sent (tr : Transcript) : Prop := ∃ ev ∈ tr, ev.call = .sendJob job

def Later (c : Call) : Prop :=
  IsPaging c ∨ (∃ name value, c = .sql (.setParameter name value)) ∨
    ∃ slot, c = .raiseLastSeenSlot slot

end

variable {crates : Crates} {cfg : OracleConfig} {o : Outside crates} {job : EvaluationJob}
  {raw : Option String} {sig : Signature} {tr tr' : Transcript} {w left highest : Nat}
  {before : Option Signature}

theorem Sent.cons {ev : Event Call Call.Reply} (h : Sent job tr) : Sent job (ev :: tr) := by
  obtain ⟨ev', hev, hcall⟩ := h
  exact ⟨ev', List.mem_cons_of_mem ev hev, hcall⟩

theorem Sent.append_right (h : Sent job tr) : Sent job (tr ++ tr') := by
  obtain ⟨ev, hev, hcall⟩ := h
  exact ⟨ev, List.mem_append_left tr' hev, hcall⟩

section
variable {enc : EncodedTransaction} {accounts : DeliveryJob.Accounts}
  {events : List DeliverySubmittedEvent}

end

theorem Missed.lookback (h : Missed cfg o job raw) : cfg.backfillLookbackSignatures ≠ 0 := by
  intro hzero
  obtain ⟨sig, hdue, -⟩ := h.due
  rw [hzero] at hdue
  cases hdue

section
variable (cfg o job raw)

structure Feeds (p : Async Unit) : Prop where
  later : p.Calls Later
  only : p.Always (Told o raw) (Only job)

def Owes (p : Async Unit) : Prop := ∀ tr, Prog.Runs (Told o raw) p tr () → Sent job tr

end

theorem Feeds.next {c : Call} {k : c.Reply → Async Unit} {r : c.Reply}
    (h : Feeds o job raw (.call c k)) (hr : Told o raw c r) : Feeds o job raw (k r) :=
  ⟨h.later.2 r trivial, h.only.2 r hr⟩

theorem Owes.next {c : Call} {k : c.Reply → Async Unit} {r : c.Reply}
    (h : Owes o job raw (.call c k)) (hr : Told o raw c r) :
    c = .sendJob job ∨ Owes o job raw (k r) := by
  by_cases hc : c = .sendJob job
  · exact Or.inl hc
  · refine Or.inr fun tr hrun => ?_
    obtain ⟨ev, hev, hcall⟩ := h _ (.call hr hrun)
    rcases List.mem_cons.mp hev with rfl | hev
    · exact absurd hcall hc
    · exact ⟨ev, hev, hcall⟩

end OracleQa.Restart
