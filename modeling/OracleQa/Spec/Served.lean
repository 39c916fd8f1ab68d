import OracleQa.Spec.MemoryWorker
import OracleQa.Spec.Missed

/-! The worker, where it is served. Whatever a backfill does beside it, it settles the job that it
is on, and while it is on another job it leaves the payment alone. The ledger refuses its jobs all
the while. -/

namespace OracleQa.Restart
open Interaction Backfill Text Recovery Pipeline

section
variable {crates : Crates} (cfg : OracleConfig) (o : Outside crates)

def Serves (w : World) : (c : Call) → c.Choice → Prop
  | .getAccount key, r => r = .ok (o.accounts key)
  | .getLatestBlockhash, r => ∃ blockhash, r = .ok blockhash
  | .getTransaction sig, r => r = .ok (o.transactions sig)
  | .getSignatures before limit, r => r = .ok (o.history.page before limit)
  | .httpSend _ _, r => ∃ status, isSuccess status = true ∧ r = .ok status
  | .httpBytes url, r => r = .ok (o.bodies url)
  -- what is resolved stays so, and its transaction is refused
  | .sendAndConfirm tx, choice => (∃ sig, choice = .confirmed sig) ∨
    w.chain.resolution tx.ix.paymentUid ≠ none ∧ ∃ e, choice = .rejected e
  | .sql q, choice => q.Serves choice
  | _, _ => True

def ServesInTime (w : World) : (c : TCall) → Timed.Choice c → Prop
  | .await c, choice => Serves o w c choice
  | .race c, choice => ∃ choice', choice = .finished choice' ∧ Serves o w c choice'

def blank (w : World) : World :=
  { w with
    ledger := { w.ledger with parameters := fun _ => none }
    health := ⟨0, 0, 0⟩
    channel := [] }

/-- A served call, for a task that a backfill may run beside. -/
def Felt (v : World) (c : Call) (r : c.Reply) (v' : World) : Prop :=
  ∃ w w' choice, blank w = v ∧ Serves o w c choice ∧
    w.perform cfg c choice = some (r, w') ∧ blank w' = v'

def FeltInTime (v : World) : (c : TCall) → TReply c → World → Prop
  | .await c, r, v' => Felt cfg o v c r v'
  | .race c, r, v' => ∃ r', r = some r' ∧ Felt cfg o v c r' v'

variable (job : EvaluationJob)

/-- The payment is open, and the dedupe does not know it. -/
structure Fresh (w : World) : Prop where
  free : Open w (uidHex job.paymentUid)
  live : cfg.databaseEnabled = true → w.ledger.isTerminal (uidHex job.paymentUid) = false
  unseen : cfg.databaseEnabled = false → job.paymentUid ∉ w.processed

end

variable {crates : Crates} {cfg : OracleConfig} {o : Outside crates} {job : EvaluationJob}
  {result : EvaluationResult} {hash : Bytes32} {w w' v v' : World}

/-! ## Served calls, beside a backfill -/

structure Kept (v v' : World) : Prop where
  ledger : v'.ledger = v.ledger
  chain : v'.chain = v.chain
  processed : v'.processed = v.processed

section
variable {α : Type} {Q : α → World → Prop}

abbrev Goes (cfg : OracleConfig) (o : Outside crates) (p : TaskCode α) (Q : α → World → Prop)
    (v : World) : Prop := p.Wp (FeltInTime cfg o) (fun _ _ => True) Q v

end

theorem Kept.refl (v : World) : Kept v v := ⟨rfl, rfl, rfl⟩

theorem Kept.trans {v'' : World} (h : Kept v v') (h' : Kept v' v'') : Kept v v'' :=
  ⟨h'.ledger.trans h.ledger, h'.chain.trans h.chain, h'.processed.trans h.processed⟩

theorem Kept.fresh (h : Kept v v') (hfresh : Fresh cfg job v) : Fresh cfg job v' := by
  refine ⟨hfresh.free.kept ⟨h.ledger, h.chain⟩, ?_, ?_⟩
  · rw [h.ledger]
    exact hfresh.live
  · rw [h.processed]
    exact hfresh.unseen

def Refused : (c : Call) → c.Reply → Prop
  | .sql (.upsertJob _), r => ∃ e, r = .error e
  | _, _ => True

def RefusedInTime : (c : TCall) → TReply c → Prop
  | .await c, r => Refused c r
  | .race _, _ => True

/-- Calls that are about no payment, or write nothing of it where the upsert is refused. -/
def isCommon : Call → Bool
  | .sql (.upsertVerdict _) => false
  | .sql (.insertEvent _) => false
  | .sendAndConfirm _ => false
  | .processedInsert _ => false
  | .processedRemove _ => false
  | _ => true

inductive Own (job : EvaluationJob) : Call → Prop
  | common {c : Call} (h : isCommon c = true) : Own job c
  | send {tx : Transaction} (h : tx.ix.paymentUid = uidHex job.paymentUid) :
    Own job (.sendAndConfirm tx)
  | insert : Own job (.processedInsert job.paymentUid)
  | remove : Own job (.processedRemove job.paymentUid)

abbrev Runs (job : EvaluationJob) {α : Type} (p : TaskCode α) : Prop :=
  p.Always RefusedInTime fun c => Own job c.base

structure Agrees (job : EvaluationJob) (w w' : World) : Prop where
  unwritten : Unwritten w.ledger w'.ledger
  resolution : w'.chain.resolution (uidHex job.paymentUid) =
    w.chain.resolution (uidHex job.paymentUid)
  landed : ∀ tx ∈ w'.chain.landed, tx.ix.paymentUid = uidHex job.paymentUid →
    tx ∈ w.chain.landed
  processed : job.paymentUid ∈ w'.processed ↔ job.paymentUid ∈ w.processed

theorem Agrees.resolved (h : Agrees job w w') (hresolved : Resolved job result hash w.chain) :
    Resolved job result hash w'.chain := h.resolution.trans hresolved

theorem Agrees.fresh (h : Agrees job w w') (hfresh : Fresh cfg job w) : Fresh cfg job w' := by
  obtain ⟨⟨hfree, hlanded⟩, hlive, hunseen⟩ := hfresh
  refine ⟨⟨h.resolution.trans hfree, ?_⟩, fun hdb => ?_,
    fun hdb hmem => hunseen hdb (h.processed.mp hmem)⟩
  · exact fun tx htx huid => hlanded tx (h.landed tx htx huid) huid
  · have hterminal := hlive hdb
    unfold Ledger.isTerminal at hterminal ⊢
    rw [h.unwritten.jobs]
    exact hterminal

section Other
variable {other : EvaluationJob} (hother : other.paymentUid ≠ job.paymentUid)
include hother

end Other

end OracleQa.Restart
