import OracleQa.Interaction.Machine
import OracleQa.Model.Server
import OracleQa.Model.World

/-! The process: the worker, the log monitor, the startup backfill and any number of manual
requests, interleaved at their awaits, together with what happens outside of it: crashes and
restarts, statements and transactions that take effect late, and other resolvers. -/

namespace OracleQa
open Interaction

inductive TaskId
  | worker
  | monitor
  | backfill
  | handler (n : Nat)
  deriving DecidableEq

structure System where
  world : World
  tasks : TaskId → TaskCode Unit
  up : Bool

inductive Act
  /-- a task performs the call it awaits, and runs on to the next one -/
  | step (t : TaskId) (choose : (c : TCall) → Timed.Choice c)
  | receive
  | notify (note : Chain.LogNotification)
  | request (n : Nat) (headers : Server.Headers) (paymentPubkey : String)
  /-- the client goes away and its handler is dropped -/
  | disconnect (n : Nat)
  | execLate (i : Nat) (now : Int)
  | land (i : Nat)
  /-- someone else resolves the payment -/
  | resolve (uid : String) (r : Resolution)
  | crash
  | start

namespace System

def noTasks : TaskId → TaskCode Unit := fun _ => .ret ()

def init : System := ⟨.init, noTasks, false⟩

def isIdle (s : System) (t : TaskId) : Bool :=
  match s.tasks t with
  | .ret _ => true
  | .call _ _ => false

def spawn (s : System) (t : TaskId) (code : TaskCode Unit) : System :=
  { s with tasks := Function.update s.tasks t code }

section
variable (crates : Crates) (cfg : OracleConfig)

def workerBody (job : EvaluationJob) : TaskCode Unit := do
  let _ ← Worker.handleJob crates cfg job (Worker.timedPipeline crates cfg job)
  return ()

def monitorBody (note : Chain.LogNotification) : TaskCode Unit := do
  let _ ← (Chain.monitorNotification crates cfg note).lift
  return ()

def backfillBody : TaskCode Unit := (Chain.backfillMissedDeliveries crates cfg).lift

def handlerBody (headers : Server.Headers) (paymentPubkey : String) : TaskCode Unit := do
  let _ ← Server.manualEvaluate crates cfg headers paymentPubkey
  return ()

def stepTask (s : System) (t : TaskId) (choose : (c : TCall) → Timed.Choice c) : Option System :=
  match s.tasks t with
  | .ret _ => none
  | .call c k => (s.world.performTimed cfg c (choose c)).map fun p =>
      { s with world := p.2 }.spawn t (k p.1)

def receive (s : System) : Option System :=
  match s.world.channel with
  | [] => none
  | job :: rest =>
    if s.up && s.isIdle .worker then
      some ({ s with world := { s.world with channel := rest } }.spawn .worker
        (workerBody crates cfg job))
    else none

def execLate (s : System) (i : Nat) (now : Int) : Option System :=
  s.world.unanswered[i]?.map fun q =>
    { s with world := { (s.world.execStmt now q).2 with
        unanswered := s.world.unanswered.eraseIdx i } }

def land (s : System) (i : Nat) : Option System :=
  match s.world.chain.inFlight[i]? with
  | none => none
  | some tx =>
    if s.world.chain.resolution tx.ix.paymentUid = none then
      some { s with world := { s.world with chain := s.world.chain.land tx } }
    else none

def resolve (s : System) (uid : String) (r : Resolution) : Option System :=
  if s.world.chain.resolution uid = none then
    some { s with world := { s.world with chain := { s.world.chain with
      resolution := Function.update s.world.chain.resolution uid (some r) } } }
  else none

def next (s : System) : Act → Option System
  | .step t choose => s.stepTask cfg t choose
  | .receive => s.receive crates cfg
  | .notify note =>
    if s.up && s.isIdle .monitor then some (s.spawn .monitor (monitorBody crates cfg note))
    else none
  | .request n headers paymentPubkey =>
    if s.up && s.isIdle (.handler n) then
      some (s.spawn (.handler n) (handlerBody crates cfg headers paymentPubkey))
    else none
  | .disconnect n => some (s.spawn (.handler n) (.ret ()))
  | .execLate i now => s.execLate i now
  | .land i => s.land i
  | .resolve uid r => s.resolve uid r
  | .crash => some ⟨s.world.restart, noTasks, false⟩
  | .start =>
    if s.up then none else some ({ s with up := true }.spawn .backfill (backfillBody crates cfg))

/-! ## The shapes of a step -/

inductive Entry : TaskId → TaskCode Unit → Prop
  | none (t : TaskId) : Entry t (.ret ())
  | worker (job : EvaluationJob) : Entry .worker (workerBody crates cfg job)
  | monitor (note : Chain.LogNotification) : Entry .monitor (monitorBody crates cfg note)
  | backfill : Entry .backfill (backfillBody crates cfg)
  | handler (n : Nat) (headers : Server.Headers) (paymentPubkey : String) :
      Entry (.handler n) (handlerBody crates cfg headers paymentPubkey)

def executed (s : System) : Act → Option (Int × Stmt)
  | .step t choose =>
    match s.tasks t with
    | .ret _ => none
    | .call c _ => Timed.executed c (choose c)
  | .execLate i now => s.world.unanswered[i]?.map fun q => (now, q)
  | _ => none

inductive Move (s : System) : Act → System → Prop
  | call {t : TaskId} {choose : (c : TCall) → Timed.Choice c} {c : TCall}
      {k : TReply c → TaskCode Unit} {r : TReply c} {w : World} (hcode : s.tasks t = .call c k)
      (hw : s.world.performTimed cfg c (choose c) = some (r, w)) :
      Move s (.step t choose) ⟨w, Function.update s.tasks t (k r), s.up⟩
  | spawn {a : Act} {t : TaskId} {code : TaskCode Unit} {channel : List EvaluationJob} {up : Bool}
      (hentry : Entry crates cfg t code) (hexecuted : s.executed a = none) :
      Move s a ⟨{ s.world with channel := channel }, Function.update s.tasks t code, up⟩
  | execLate {i : Nat} {now : Int} {q : Stmt} (hq : s.world.unanswered[i]? = some q) :
      Move s (.execLate i now) ⟨{ s.world with
        ledger := s.world.ledger.after (some (now, q))
        unanswered := s.world.unanswered.eraseIdx i }, s.tasks, s.up⟩
  | land {i : Nat} {tx : Transaction} (htx : s.world.chain.inFlight[i]? = some tx)
      (hnone : s.world.chain.resolution tx.ix.paymentUid = none) :
      Move s (.land i) ⟨{ s.world with chain := s.world.chain.land tx }, s.tasks, s.up⟩
  | resolve {uid : String} {res : Resolution} (hnone : s.world.chain.resolution uid = none) :
      Move s (.resolve uid res) ⟨{ s.world with chain := { s.world.chain with
        resolution := Function.update s.world.chain.resolution uid (some res) } }, s.tasks, s.up⟩
  | crash : Move s .crash ⟨s.world.restart, noTasks, false⟩

variable {crates cfg} {s s' : System} {a : Act}

theorem next_move (h : s.next crates cfg a = some s') : s.Move crates cfg a s' := by
  cases a with
  | step t choose =>
    simp only [next, stepTask] at h
    split at h
    · cases h
    · next c k hcode =>
      obtain ⟨⟨r, w⟩, hw, rfl⟩ := Option.map_eq_some_iff.mp h
      exact .call hcode hw
  | receive =>
    simp only [next, receive] at h
    split at h
    · cases h
    · next job rest _ =>
      split at h
      · obtain rfl := Option.some.inj h
        exact .spawn (.worker job) rfl
      · cases h
  | notify note =>
    simp only [next] at h
    split at h
    · obtain rfl := Option.some.inj h
      exact .spawn (.monitor note) rfl
    · cases h
  | request n headers paymentPubkey =>
    simp only [next] at h
    split at h
    · obtain rfl := Option.some.inj h
      exact .spawn (.handler n headers paymentPubkey) rfl
    · cases h
  | disconnect n =>
    obtain rfl := Option.some.inj h
    exact .spawn (.none _) rfl
  | execLate i now =>
    obtain ⟨q, hq, rfl⟩ := Option.map_eq_some_iff.mp h
    rw [World.execStmt_snd]
    exact .execLate hq
  | land i =>
    simp only [next, land] at h
    split at h
    · cases h
    · next tx htx =>
      split at h
      · next hnone =>
        obtain rfl := Option.some.inj h
        exact .land htx hnone
      · cases h
  | resolve uid res =>
    simp only [next, resolve] at h
    split at h
    · next hnone =>
      obtain rfl := Option.some.inj h
      exact .resolve hnone
    · cases h
  | crash =>
    obtain rfl := Option.some.inj h
    exact .crash
  | start =>
    simp only [next] at h
    split at h
    · cases h
    · obtain rfl := Option.some.inj h
      exact .spawn .backfill rfl

theorem next_receive (h : s.next crates cfg .receive = some s') :
    ∃ job, s.world.channel = job :: s'.world.channel ∧ s.isIdle .worker = true ∧
      s'.world.ledger = s.world.ledger ∧
      s'.tasks .worker = workerBody crates cfg job := by
  simp only [next, receive] at h
  split at h
  · cases h
  · next job rest hchannel =>
    split at h
    · next hup =>
      obtain rfl := Option.some.inj h
      exact ⟨job, hchannel, (Bool.and_eq_true_iff.mp hup).2, rfl, by simp [spawn]⟩
    · cases h

def isInternal : Act → Bool
  | .step _ _ => false
  | .receive => false
  | .crash => false
  | _ => true

theorem next_internal (h : s.next crates cfg a = some s') (ha : isInternal a = true) :
    s'.world.channel = s.world.channel ∧ s'.tasks .worker = s.tasks .worker := by
  have hspawn : ∀ (s : System) {t : TaskId} (code : TaskCode Unit), t ≠ .worker →
      (s.spawn t code).tasks .worker = s.tasks .worker :=
    fun s t code ht => Function.update_of_ne (Ne.symm ht) ..
  cases a with
  | step t choose => cases ha
  | receive => cases ha
  | crash => cases ha
  | notify note =>
    obtain ⟨-, hs⟩ := Option.ite_none_right_eq_some.mp h
    obtain rfl := Option.some.inj hs
    exact ⟨rfl, hspawn s _ TaskId.noConfusion⟩
  | request n headers paymentPubkey =>
    obtain ⟨-, hs⟩ := Option.ite_none_right_eq_some.mp h
    obtain rfl := Option.some.inj hs
    exact ⟨rfl, hspawn s _ TaskId.noConfusion⟩
  | disconnect n =>
    obtain rfl := Option.some.inj h
    exact ⟨rfl, hspawn s _ TaskId.noConfusion⟩
  | execLate i now =>
    obtain ⟨q, -, rfl⟩ := Option.map_eq_some_iff.mp h
    rw [World.execStmt_snd]
    exact ⟨rfl, rfl⟩
  | land i =>
    simp only [next, land] at h
    split at h
    · cases h
    · obtain ⟨-, hs⟩ := Option.ite_none_right_eq_some.mp h
      obtain rfl := Option.some.inj hs
      exact ⟨rfl, rfl⟩
  | resolve uid r =>
    obtain ⟨-, hs⟩ := Option.ite_none_right_eq_some.mp h
    obtain rfl := Option.some.inj hs
    exact ⟨rfl, rfl⟩
  | start =>
    obtain ⟨-, hs⟩ := Option.ite_none_left_eq_some.mp h
    obtain rfl := Option.some.inj hs
    exact ⟨rfl, hspawn { s with up := true } _ TaskId.noConfusion⟩

theorem next_step {t : TaskId} {choose : (c : TCall) → Timed.Choice c}
    (h : s.next crates cfg (.step t choose) = some s') : ∃ c k r,
      s.tasks t = .call c k ∧ s.world.performTimed cfg c (choose c) = some (r, s'.world) ∧
      s'.tasks = Function.update s.tasks t (k r) := by
  simp only [next, stepTask] at h
  split at h
  · cases h
  · next c k hcode =>
    obtain ⟨⟨r, w⟩, hw, rfl⟩ := Option.map_eq_some_iff.mp h
    exact ⟨c, k, r, hcode, hw, rfl⟩

theorem Move.ledger (h : s.Move crates cfg a s') :
    s'.world.ledger = s.world.ledger.after (s.executed a) := by
  cases h with
  | call hcode hw =>
    rw [executed, hcode]
    exact (World.performTimed_frame hw).ledger
  | spawn hentry hexecuted =>
    rw [hexecuted]
    rfl
  | execLate hq =>
    rw [executed, hq]
    rfl
  | land htx hnone => rfl
  | resolve hnone => rfl
  | crash => rfl

end
end System

def Call.toyChoice : (c : Call) → c.Choice
  | .sql _ => .done 0
  | .sendAndConfirm _ => .confirmed (List.Vector.replicate 64 0)
  | .getAccount key => (Call.getAccount key).toyReply
  | .getLatestBlockhash => Call.getLatestBlockhash.toyReply
  | .getTransaction sig => (Call.getTransaction sig).toyReply
  | .getSignatures before limit => (Call.getSignatures before limit).toyReply
  | .httpSend url auth => (Call.httpSend url auth).toyReply
  | .httpBytes url => (Call.httpBytes url).toyReply
  | .sleepMs _ => ()
  | .utcNow => Call.utcNow.toyReply
  | .instantNow => Call.instantNow.toyReply
  | .setQueueDepth => ()
  | .observeSlot _ => ()
  | .observeDelivery => ()
  | .lastSeenSlot => ()
  | .raiseLastSeenSlot _ => ()
  | .sendJob _ => ()
  | .countEvidenceFailure => ()
  | .countSettled _ => ()
  | .countError _ => ()
  | .processedInsert _ => ()
  | .processedRemove _ => ()
  | .attemptsIncrement _ => ()
  | .attemptsRemove _ => ()
  | .admitRequest _ _ _ => ()

def Timed.toyChoice : (c : TCall) → Timed.Choice c
  | .await c => c.toyChoice
  | .race c => .finished c.toyChoice

def System.toySteps (t : TaskId) (n : Nat) : List Act := List.replicate n (.step t Timed.toyChoice)

end OracleQa
