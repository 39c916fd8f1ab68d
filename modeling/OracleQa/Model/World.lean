import Mathlib.Data.Finset.Erase
import Mathlib.Data.Finset.Insert
import OracleQa.Model.Calls

/-! The state that the tasks of the process act on, and what one call may do to it. The choices
left to the environment (replies of the chain and the registry, failures of the ledger, the fate
of a transaction) are explicit, so that a run is determined by its list of choices. -/

namespace OracleQa
open Interaction

structure Resolution where
  state : UInt8
  reason : UInt16
  hash : Bytes32
  deriving DecidableEq

def ConfirmOracle.resolution (ix : ConfirmOracle) : Resolution :=
  ⟨ix.resolutionState, ix.resolutionReason, ix.resolutionHash⟩

/-- The escrow program's side: at most one `ConfirmOracle` succeeds for a payment. -/
structure ChainState where
  resolution : String → Option Resolution
  landed : List Transaction
  inFlight : List Transaction

structure World where
  ledger : Ledger
  /-- Statements whose caller was told of a failure while the server may still execute them. -/
  unanswered : List Stmt
  chain : ChainState
  health : RuntimeHealth
  channel : List EvaluationJob
  stats : OracleStats
  processed : Finset Bytes32
  attempts : Bytes32 → Option UInt32
  manualRequests : List Nat

def World.init : World :=
  ⟨.empty, [], ⟨fun _ => none, [], []⟩, ⟨0, 0, 0⟩, [], .zero, ∅, fun _ => none, []⟩

def World.restart (w : World) : World :=
  { World.init with ledger := w.ledger, unanswered := w.unanswered, chain := w.chain }

def ChainState.land (c : ChainState) (tx : Transaction) : ChainState :=
  { c with
    resolution := Function.update c.resolution tx.ix.paymentUid (some tx.ix.resolution)
    landed := tx :: c.landed }

namespace World

def setQueueDepth (w : World) : World :=
  { w with health := { w.health with queueDepth := w.channel.length } }

def raiseLastSeenSlot (w : World) (slot : Nat) : World :=
  if slot > w.health.lastSeenSlot then { w with health := { w.health with lastSeenSlot := slot } }
  else w

def observeDelivery (w : World) : World :=
  { w with health := { w.health with deliveriesObserved := w.health.deliveriesObserved + 1 } }

def countEvidenceFailure (w : World) : World :=
  { w with stats := { w.stats with
      totalEvidenceFetchFailures := w.stats.totalEvidenceFetchFailures + 1 } }

def countSettled (w : World) (approved : Bool) : World :=
  { w with stats := { w.stats with
      totalEvaluated := w.stats.totalEvaluated + 1
      totalApproved := w.stats.totalApproved + if approved then 1 else 0
      totalRejected := w.stats.totalRejected + if approved then 0 else 1 } }

def countError (w : World) (deadLetter : Bool) : World :=
  { w with stats := { w.stats with
      totalErrors := w.stats.totalErrors + 1
      totalDeadLetter := w.stats.totalDeadLetter + if deadLetter then 1 else 0 } }

def processedInsert (w : World) (uid : Bytes32) : Bool × World :=
  (decide (uid ∉ w.processed), { w with processed := insert uid w.processed })

def processedRemove (w : World) (uid : Bytes32) : World :=
  { w with processed := w.processed.erase uid }

def attemptsIncrement (w : World) (uid : Bytes32) : UInt32 × World :=
  let count := (w.attempts uid).getD 0 + 1
  (count, { w with attempts := Function.update w.attempts uid (some count) })

def attemptsRemove (w : World) (uid : Bytes32) : World :=
  { w with attempts := Function.update w.attempts uid none }

/-- Expired instants leave the front of the queue; a full queue refuses. -/
def admitRequest (w : World) (now window limit : Nat) : Bool × World :=
  let requests := w.manualRequests.dropWhile fun t => now - t > window
  if requests.length ≥ limit then (false, { w with manualRequests := requests })
  else (true, { w with manualRequests := requests ++ [now] })

def execStmt (w : World) (now : Int) (q : Stmt) : Except DbError q.Result × World :=
  match q.exec now w.ledger with
  | .ok (r, l) => (.ok r, { w with ledger := l })
  | .error e => (.error (.query e), w)

end World

/-! ## What the environment decides at a call -/

inductive SqlChoice
  | done (now : Int)
  /-- not sent, or not executed; `Stmt.Admits` tells that nothing else becomes of a job upsert -/
  | refused (e : DbError)
  /-- executed, but the caller is told of a failure -/
  | lost (now : Int) (e : DbError)
  /-- the caller gives up on it; the server may execute it later -/
  | late (e : DbError)

inductive SendChoice
  | confirmed (sig : Signature)
  | landed (e : String)
  /-- sent, the caller is told of a failure, and it may land later -/
  | inFlight (e : String)
  | rejected (e : String)

@[reducible] def Call.Choice : Call → Type
  | getAccount key => (getAccount key).Reply
  | getLatestBlockhash => getLatestBlockhash.Reply
  | sendAndConfirm _ => SendChoice
  | getTransaction sig => (getTransaction sig).Reply
  | getSignatures before limit => (getSignatures before limit).Reply
  | httpSend url auth => (httpSend url auth).Reply
  | httpBytes url => (httpBytes url).Reply
  | utcNow => Int
  | instantNow => Nat
  | sql _ => SqlChoice
  | _ => Unit

inductive RaceChoice (C : Type)
  | finished (choice : C)
  /-- the deadline passed before the call took effect -/
  | droppedBefore
  /-- the call took effect and its reply was lost to the deadline -/
  | droppedAfter (choice : C)

@[reducible] def Timed.Choice : TCall → Type
  | .await c => c.Choice
  | .race c => RaceChoice c.Choice

namespace World

def performSql (w : World) (q : Stmt) : SqlChoice → Except DbError q.Result × World
  | .done now => w.execStmt now q
  | .refused e => (.error e, w)
  | .lost now e => (.error e, (w.execStmt now q).2)
  | .late e => (.error e, { w with unanswered := w.unanswered ++ [q] })

def performSend (w : World) (tx : Transaction) :
    SendChoice → Option (Except String Signature × World)
  | .confirmed sig =>
    -- the same signed transaction, already landed
    if tx ∈ w.chain.landed then some (.ok sig, w)
    else if w.chain.resolution tx.ix.paymentUid = none then
      some (.ok sig, { w with chain := w.chain.land tx })
    else none
  | .landed e =>
    if w.chain.resolution tx.ix.paymentUid = none then
      some (.error e, { w with chain := w.chain.land tx })
    else none
  | .inFlight e =>
    some (.error e, { w with chain := { w.chain with inFlight := tx :: w.chain.inFlight } })
  | .rejected e => some (.error e, w)

/-- One call under one choice; `none` while it blocks or where the choice is ruled out. -/
def perform (cfg : OracleConfig) (w : World) : (c : Call) → c.Choice → Option (c.Reply × World)
  | .getAccount _, r => some (r, w)
  | .getLatestBlockhash, r => some (r, w)
  | .sendAndConfirm tx, choice => w.performSend tx choice
  | .getTransaction _, r => some (r, w)
  | .getSignatures _ _, r => some (r, w)
  | .httpSend _ _, r => some (r, w)
  | .httpBytes _, r => some (r, w)
  | .sleepMs _, _ => some ((), w)
  | .utcNow, r => some (r, w)
  | .instantNow, r => some (r, w)
  | .sql q, choice => some (w.performSql q choice)
  | .setQueueDepth, _ => some ((), w.setQueueDepth)
  | .observeSlot slot, _ => some ((), w.raiseLastSeenSlot slot)
  | .observeDelivery, _ => some ((), w.observeDelivery)
  | .lastSeenSlot, _ => some (w.health.lastSeenSlot, w)
  | .raiseLastSeenSlot slot, _ => some ((), w.raiseLastSeenSlot slot)
  | .sendJob job, _ =>
    -- a full channel blocks its sender
    if w.channel.length < cfg.jobChannelCapacity then
      some (true, { w with channel := w.channel ++ [job] })
    else none
  | .countEvidenceFailure, _ => some ((), w.countEvidenceFailure)
  | .countSettled approved, _ => some ((), w.countSettled approved)
  | .countError deadLetter, _ => some ((), w.countError deadLetter)
  | .processedInsert uid, _ => some (w.processedInsert uid)
  | .processedRemove uid, _ => some ((), w.processedRemove uid)
  | .attemptsIncrement uid, _ => some (w.attemptsIncrement uid)
  | .attemptsRemove uid, _ => some ((), w.attemptsRemove uid)
  | .admitRequest now window limit, _ => some (w.admitRequest now window limit)

def performTimed (cfg : OracleConfig) (w : World) :
    (c : TCall) → Timed.Choice c → Option (TReply c × World)
  | .await c, choice => w.perform cfg c choice
  | .race c, .finished choice => (w.perform cfg c choice).map fun p => (some p.1, p.2)
  | .race _, .droppedBefore => some (none, w)
  | .race c, .droppedAfter choice => (w.perform cfg c choice).map fun p => (none, p.2)

end World

/-! ## What a call may change -/

def SqlChoice.time : SqlChoice → Option Int
  | .done now => some now
  | .refused _ => none
  | .lost now _ => some now
  | .late _ => none

def Call.executed : (c : Call) → c.Choice → Option (Int × Stmt)
  | .sql q, choice => (SqlChoice.time choice).map fun now => (now, q)
  | _, _ => none

def Timed.executed : (c : TCall) → Timed.Choice c → Option (Int × Stmt)
  | .await c, choice => c.executed choice
  | .race c, .finished choice => c.executed choice
  | .race _, .droppedBefore => none
  | .race c, .droppedAfter choice => c.executed choice

def Ledger.after (l : Ledger) : Option (Int × Stmt) → Ledger
  | none => l
  | some (now, q) =>
    match q.exec now l with
    | .ok (_, l') => l'
    | .error _ => l

theorem Ledger.after_upsertJob (l : Ledger) (now : Int) (u : JobUpsert) :
    l.after (some (now, .upsertJob u)) = l ∨ l.after (some (now, .upsertJob u)) =
      l.putJob u.paymentUid (u.row now (l.jobs u.paymentUid)) := by
  by_cases hrange : (u.row now (l.jobs u.paymentUid)).attempts < 2 ^ 31
  · right
    simp only [Ledger.after, Stmt.exec, Ledger.upsertJob, if_pos hrange, Except.map]
  · left
    simp only [Ledger.after, Stmt.exec, Ledger.upsertJob, if_neg hrange, Except.map]

theorem Ledger.after_jobs (l : Ledger) (now : Int) {q : Stmt} (hq : ∀ u, q ≠ .upsertJob u) :
    (l.after (some (now, q))).jobs = l.jobs := by
  cases q with
  | upsertJob u => exact absurd rfl (hq u)
  | upsertVerdict v =>
    show (l.upsertVerdict v).jobs = l.jobs
    unfold Ledger.upsertVerdict
    split <;> rfl
  | insertEvent e =>
    show (l.insertEvent e).jobs = l.jobs
    unfold Ledger.insertEvent
    split <;> rfl
  | _ => rfl

def ChainState.Sent (c c' : ChainState) (tx : Transaction) : Prop :=
  c' = c ∨ (c.resolution tx.ix.paymentUid = none ∧ c' = c.land tx) ∨
    c' = { c with inFlight := tx :: c.inFlight }

theorem Call.executed_eq {c : Call} {choice : c.Choice} {now : Int} {q : Stmt}
    (h : c.executed choice = some (now, q)) : c = .sql q := by
  cases c with
  | sql q' =>
    obtain ⟨t, -, ht⟩ := Option.map_eq_some_iff.mp h
    rw [(Prod.mk.inj ht).2]
  | _ => cases h

theorem Timed.executed_base {c : TCall} {choice : Timed.Choice c} {now : Int} {q : Stmt}
    (h : Timed.executed c choice = some (now, q)) : c.base = .sql q := by
  cases c with
  | await c => exact Call.executed_eq h
  | race c =>
    cases choice with
    | finished choice => exact Call.executed_eq h
    | droppedBefore => cases h
    | droppedAfter choice => exact Call.executed_eq h

namespace World
variable {cfg : OracleConfig} {w w' : World}

theorem execStmt_snd (w : World) (now : Int) (q : Stmt) :
    (w.execStmt now q).2 = { w with ledger := w.ledger.after (some (now, q)) } := by
  cases h : q.exec now w.ledger <;> simp [execStmt, Ledger.after, h]

theorem performSql_ledger (w : World) (q : Stmt) (choice : SqlChoice) :
    (w.performSql q choice).2.ledger = w.ledger.after ((Call.sql q).executed choice) := by
  cases choice with
  | done now => exact congrArg World.ledger (execStmt_snd w now q)
  | lost now e => exact congrArg World.ledger (execStmt_snd w now q)
  | refused e => rfl
  | late e => rfl

theorem performSql_rest (w : World) (q : Stmt) (choice : SqlChoice) :
    (w.performSql q choice).2.chain = w.chain ∧ (w.performSql q choice).2.channel = w.channel ∧
      ∀ q' ∈ (w.performSql q choice).2.unanswered, q' ∈ w.unanswered ∨ q' = q := by
  cases choice <;> simp +contextual [performSql, execStmt_snd]

theorem performSend_ok {tx : Transaction} {choice : SendChoice} {sig : Signature}
    (h : w.performSend tx choice = some (.ok sig, w')) : tx ∈ w'.chain.landed := by
  cases choice with
  | confirmed s =>
    simp only [performSend] at h
    split at h
    · next hmem =>
      obtain ⟨-, rfl⟩ := Prod.mk.inj (Option.some.inj h)
      exact hmem
    · split at h
      · obtain ⟨-, rfl⟩ := Prod.mk.inj (Option.some.inj h)
        exact List.mem_cons_self
      · cases h
  | landed e => simp [performSend] at h
  | inFlight e => simp [performSend] at h
  | rejected e => simp [performSend] at h

theorem performSend_frame {tx : Transaction} {choice : SendChoice} {r : Except String Signature}
    (h : w.performSend tx choice = some (r, w')) :
    ∃ chain, w' = { w with chain := chain } ∧ w.chain.Sent chain tx := by
  cases choice with
  | confirmed s =>
    simp only [performSend] at h
    split at h
    · obtain ⟨-, rfl⟩ := Prod.mk.inj (Option.some.inj h)
      exact ⟨_, rfl, Or.inl rfl⟩
    · split at h
      · next hnone =>
        obtain ⟨-, rfl⟩ := Prod.mk.inj (Option.some.inj h)
        exact ⟨_, rfl, Or.inr (Or.inl ⟨hnone, rfl⟩)⟩
      · cases h
  | landed e =>
    simp only [performSend] at h
    split at h
    · next hnone =>
      obtain ⟨-, rfl⟩ := Prod.mk.inj (Option.some.inj h)
      exact ⟨_, rfl, Or.inr (Or.inl ⟨hnone, rfl⟩)⟩
    · cases h
  | inFlight e =>
    obtain ⟨-, rfl⟩ := Prod.mk.inj (Option.some.inj h)
    exact ⟨_, rfl, Or.inr (Or.inr rfl)⟩
  | rejected e =>
    obtain ⟨-, rfl⟩ := Prod.mk.inj (Option.some.inj h)
    exact ⟨_, rfl, Or.inl rfl⟩

/-- Everything that a performed call may have changed, as far as the tasks can observe it. -/
structure Frame (w w' : World) (c : Call) (executed : Option (Int × Stmt)) : Prop where
  ledger : w'.ledger = w.ledger.after executed
  unanswered : ∀ q ∈ w'.unanswered, q ∈ w.unanswered ∨ c = .sql q
  chain : w'.chain = w.chain ∨ ∃ tx, c = .sendAndConfirm tx ∧ w.chain.Sent w'.chain tx
  channel : w'.channel = w.channel ∨ ∃ job, c = .sendJob job ∧ w'.channel = w.channel ++ [job]

theorem Frame.of_memory {c : Call} (hledger : w'.ledger = w.ledger)
    (hunanswered : w'.unanswered = w.unanswered) (hchain : w'.chain = w.chain)
    (hchannel : w'.channel = w.channel) : Frame w w' c none :=
  ⟨hledger, fun _ hq => Or.inl (hunanswered ▸ hq), Or.inl hchain, Or.inl hchannel⟩

theorem perform_frame {c : Call} {choice : c.Choice} {r : c.Reply}
    (h : w.perform cfg c choice = some (r, w')) : Frame w w' c (c.executed choice) := by
  cases c with
  | sql q =>
    obtain rfl := (Prod.mk.inj (Option.some.inj h)).2
    obtain ⟨hchain, hchannel, hun⟩ := performSql_rest w q choice
    refine ⟨performSql_ledger w q choice, fun q' hq' => ?_, Or.inl hchain, Or.inl hchannel⟩
    rcases hun q' hq' with hmem | rfl
    · exact Or.inl hmem
    · exact Or.inr rfl
  | sendAndConfirm tx =>
    obtain ⟨chain, rfl, hsent⟩ := performSend_frame h
    exact ⟨rfl, fun q hq => Or.inl hq, Or.inr ⟨tx, rfl, hsent⟩, Or.inl rfl⟩
  | sendJob job =>
    simp only [perform] at h
    split at h
    · obtain ⟨-, rfl⟩ := Prod.mk.inj (Option.some.inj h)
      exact ⟨rfl, fun q hq => Or.inl hq, Or.inl rfl, Or.inr ⟨job, rfl, rfl⟩⟩
    · cases h
  | raiseLastSeenSlot slot =>
    obtain ⟨-, rfl⟩ := Prod.mk.inj (Option.some.inj h)
    unfold World.raiseLastSeenSlot
    split <;> exact .of_memory rfl rfl rfl rfl
  | observeSlot slot =>
    obtain ⟨-, rfl⟩ := Prod.mk.inj (Option.some.inj h)
    unfold World.raiseLastSeenSlot
    split <;> exact .of_memory rfl rfl rfl rfl
  | admitRequest now window limit =>
    obtain rfl := congrArg Prod.snd (Option.some.inj h)
    unfold World.admitRequest
    dsimp only
    split <;> exact .of_memory rfl rfl rfl rfl
  | _ =>
    obtain rfl := congrArg Prod.snd (Option.some.inj h)
    exact .of_memory rfl rfl rfl rfl

theorem performTimed_frame {c : TCall} {choice : Timed.Choice c} {r : TReply c}
    (h : w.performTimed cfg c choice = some (r, w')) :
    Frame w w' c.base (Timed.executed c choice) := by
  cases c with
  | await c => exact perform_frame h
  | race c =>
    cases choice with
    | finished choice =>
      obtain ⟨p, hp, hr⟩ := Option.map_eq_some_iff.mp h
      obtain ⟨-, rfl⟩ := Prod.mk.inj hr
      exact perform_frame hp
    | droppedBefore =>
      obtain ⟨-, rfl⟩ := Prod.mk.inj (Option.some.inj h)
      exact .of_memory rfl rfl rfl rfl
    | droppedAfter choice =>
      obtain ⟨p, hp, hr⟩ := Option.map_eq_some_iff.mp h
      obtain ⟨-, rfl⟩ := Prod.mk.inj hr
      exact perform_frame hp

end World

def Call.confirmed : (c : Call) → c.Reply → Option Transaction
  | .sendAndConfirm tx, .ok _ => some tx
  | _, _ => none

def Timed.confirmed : (c : TCall) → TReply c → Option Transaction
  | .await c, r => c.confirmed r
  | .race _, none => none
  | .race c, some r => c.confirmed r

theorem Call.confirmed_eq {c : Call} {r : c.Reply} {tx : Transaction}
    (h : c.confirmed r = some tx) : c = .sendAndConfirm tx := by
  cases c with
  | sendAndConfirm tx' =>
    cases r with
    | error e => cases h
    | ok sig => rw [Option.some.inj h]
  | _ => cases h

theorem Timed.confirmed_base {c : TCall} {r : TReply c} {tx : Transaction}
    (h : Timed.confirmed c r = some tx) : c.base = .sendAndConfirm tx := by
  cases c with
  | await c => exact Call.confirmed_eq h
  | race c =>
    cases r with
    | none => cases h
    | some r => exact Call.confirmed_eq h

namespace World
variable {cfg : OracleConfig} {w w' : World}

theorem perform_confirmed {c : Call} {choice : c.Choice} {r : c.Reply} {tx : Transaction}
    (h : w.perform cfg c choice = some (r, w')) (hr : c.confirmed r = some tx) :
    tx ∈ w'.chain.landed := by
  cases c with
  | sendAndConfirm tx' =>
    cases r with
    | error e => cases hr
    | ok sig =>
      obtain rfl := Option.some.inj hr
      exact performSend_ok h
  | _ => cases hr

theorem performTimed_confirmed {c : TCall} {choice : Timed.Choice c} {r : TReply c}
    {tx : Transaction} (h : w.performTimed cfg c choice = some (r, w'))
    (hr : Timed.confirmed c r = some tx) : tx ∈ w'.chain.landed := by
  cases c with
  | await c => exact perform_confirmed h hr
  | race c =>
    cases choice with
    | finished choice =>
      obtain ⟨p, hp, hpr⟩ := Option.map_eq_some_iff.mp h
      obtain ⟨rfl, rfl⟩ := Prod.mk.inj hpr
      exact perform_confirmed hp hr
    | droppedBefore =>
      obtain ⟨rfl, -⟩ := Prod.mk.inj (Option.some.inj h)
      cases hr
    | droppedAfter choice =>
      obtain ⟨p, hp, hpr⟩ := Option.map_eq_some_iff.mp h
      obtain ⟨rfl, -⟩ := Prod.mk.inj hpr
      cases hr

end World

/-! ## Which choices land a transaction -/

def Call.lands : (c : Call) → c.Choice → Option Transaction
  | .sendAndConfirm tx, .confirmed _ => some tx
  | .sendAndConfirm tx, .landed _ => some tx
  | _, _ => none

def Timed.lands : (c : TCall) → Timed.Choice c → Option Transaction
  | .await c, choice => c.lands choice
  | .race c, .finished choice => c.lands choice
  | .race _, .droppedBefore => none
  | .race c, .droppedAfter choice => c.lands choice

def Timed.Informs : (c : TCall) → Timed.Choice c → Prop
  | .await (.sendAndConfirm _), .confirmed _ => True
  | .race (.sendAndConfirm _), .finished (.confirmed _) => True
  | _, _ => False

namespace World
variable {cfg : OracleConfig} {w w' : World}

theorem sent_landed {c c' : ChainState} {tx tx' : Transaction} (h : c.Sent c' tx')
    (htx : tx ∈ c'.landed) : tx ∈ c.landed ∨ tx' = tx := by
  rcases h with rfl | ⟨-, rfl⟩ | rfl
  · exact Or.inl htx
  · exact (List.mem_cons.mp htx).symm.imp id Eq.symm
  · exact Or.inl htx

theorem performSend_landed {tx tx' : Transaction} {choice : SendChoice}
    {r : Except String Signature} (h : w.performSend tx' choice = some (r, w'))
    (htx : tx ∈ w'.chain.landed) :
    tx ∈ w.chain.landed ∨ (Call.sendAndConfirm tx').lands choice = some tx := by
  obtain ⟨chain, rfl, hsent⟩ := performSend_frame h
  have hmem := sent_landed hsent htx
  cases choice with
  | confirmed sig => exact hmem.imp_right (congrArg some)
  | landed e => exact hmem.imp_right (congrArg some)
  | inFlight e =>
    obtain rfl := congrArg World.chain (Prod.mk.inj (Option.some.inj h)).2
    exact Or.inl htx
  | rejected e =>
    obtain rfl := congrArg World.chain (Prod.mk.inj (Option.some.inj h)).2
    exact Or.inl htx

theorem perform_landed {c : Call} {choice : c.Choice} {r : c.Reply} {tx : Transaction}
    (h : w.perform cfg c choice = some (r, w')) (htx : tx ∈ w'.chain.landed) :
    tx ∈ w.chain.landed ∨ c.lands choice = some tx := by
  have hframe := perform_frame h
  cases c with
  | sendAndConfirm tx' => exact performSend_landed h htx
  | _ =>
    rcases hframe.chain with heq | ⟨tx', hsend, -⟩
    · exact Or.inl (heq ▸ htx)
    · cases hsend

theorem performTimed_landed {c : TCall} {choice : Timed.Choice c} {r : TReply c}
    {tx : Transaction} (h : w.performTimed cfg c choice = some (r, w'))
    (htx : tx ∈ w'.chain.landed) : tx ∈ w.chain.landed ∨ Timed.lands c choice = some tx := by
  cases c with
  | await c => exact perform_landed h htx
  | race c =>
    cases choice with
    | finished choice =>
      obtain ⟨p, hp, hr⟩ := Option.map_eq_some_iff.mp h
      obtain ⟨-, rfl⟩ := Prod.mk.inj hr
      exact perform_landed hp htx
    | droppedBefore =>
      obtain ⟨-, rfl⟩ := Prod.mk.inj (Option.some.inj h)
      exact Or.inl htx
    | droppedAfter choice =>
      obtain ⟨p, hp, hr⟩ := Option.map_eq_some_iff.mp h
      obtain ⟨-, rfl⟩ := Prod.mk.inj hr
      exact perform_landed hp htx

theorem performSend_confirmed {tx : Transaction} {sig : Signature} {r : Except String Signature}
    (h : w.performSend tx (.confirmed sig) = some (r, w')) : r = .ok sig := by
  simp only [performSend] at h
  split at h
  · exact (Prod.mk.inj (Option.some.inj h)).1.symm
  · split at h
    · exact (Prod.mk.inj (Option.some.inj h)).1.symm
    · cases h

theorem perform_informs {c : Call} {choice : c.Choice} {r : c.Reply} {tx : Transaction}
    (h : w.perform cfg c choice = some (r, w')) (hlands : c.lands choice = some tx)
    (hinforms : Timed.Informs (.await c) choice) : c.confirmed r = some tx := by
  cases c with
  | sendAndConfirm tx' =>
    cases choice with
    | confirmed sig =>
      obtain rfl := performSend_confirmed h
      exact hlands
    | _ => exact hinforms.elim
  | _ => exact hinforms.elim

theorem performTimed_informs {c : TCall} {choice : Timed.Choice c} {r : TReply c}
    {tx : Transaction} (h : w.performTimed cfg c choice = some (r, w'))
    (hlands : Timed.lands c choice = some tx) (hinforms : Timed.Informs c choice) :
    Timed.confirmed c r = some tx := by
  cases c with
  | await c => exact perform_informs h hlands hinforms
  | race c =>
    cases choice with
    | finished choice =>
      obtain ⟨p, hp, hr⟩ := Option.map_eq_some_iff.mp h
      obtain ⟨rfl, rfl⟩ := Prod.mk.inj hr
      refine perform_informs hp hlands ?_
      cases c with
      | sendAndConfirm tx' => cases choice <;> exact hinforms
      | _ => exact hinforms
    | droppedBefore => cases hlands
    | droppedAfter choice => cases c <;> exact hinforms.elim

end World
end OracleQa
