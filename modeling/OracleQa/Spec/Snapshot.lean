import OracleQa.Spec.Footprint
import OracleQa.Spec.Agreement
import OracleQa.Spec.DeliveryJob

/-! What a run settles against what it read. A job is a snapshot of a payment account; the account
may change while the job is on its way, and is read once more when the run begins. -/

namespace OracleQa.Snapshot
open Interaction Chain Settler

/-! ## What a task has read -/

/-- The job that a task holds, and the payment that its run has found eligible. -/
structure Hand where
  job : Option EvaluationJob
  seen : Option Payment
  deriving DecidableEq

namespace Hand

def empty : Hand := ⟨none, none⟩

section
variable (crates : Crates) (cfg : OracleConfig)

def imageOfReply : Option (Except String (Option Account)) → Option Payment
  | some (.ok (some account)) => paymentImage crates account
  | _ => none

/-- The first account that a run reads is the payment, a later one the clock; a job is let go of
when its payment cannot be read. -/
def sees (h : Hand) (image : Option Payment) : Hand :=
  match h.seen, image with
  | some _, _ => h
  | none, some payment => ⟨h.job, some payment⟩
  | none, none => empty

def after (h : Hand) : (c : TCall) → TReply c → Hand
  | .await (.getAccount key), r =>
    match jobOfReply crates cfg.oraclePubkey key r with
    | .ok (some job) => ⟨some job, none⟩
    | _ => h
  | .await (.sendJob _), _ => empty
  | .race (.getAccount _), r => h.sees (imageOfReply crates r)
  | _, _ => h

end

def Permits (h : Hand) : TCall → Prop
  | .await (.sendJob job) => h = ⟨some job, none⟩
  | .race (.sendJob _) => False
  | .race (.getAccount key) => h.seen = none → ∃ job, h.job = some job ∧ key = job.paymentPubkey
  | .race .getLatestBlockhash => ∃ job payment, h = ⟨some job, some payment⟩
  | _ => True

def next (crates : Crates) (cfg : OracleConfig) (h : Hand) (c : TCall) (r : TReply c) (h' : Hand) :
    Prop := h' = h.after crates cfg c r

end Hand

section Code
variable {crates : Crates} {cfg : OracleConfig} {job : EvaluationJob} {h : Hand}

variable (crates cfg) in
def Careful (h : Hand) (code : TaskCode Unit) : Prop :=
  code.Wp (Hand.next crates cfg) Hand.Permits (fun _ _ => True) h

def isAside : TCall → Bool
  | .await (.getAccount _) => false
  | .await (.sendJob _) => false
  | .race (.sendJob _) => false
  | .race (.getAccount _) => false
  | .race .getLatestBlockhash => false
  | _ => true

theorem permits_aside {c : TCall} (hc : isAside c = true) : h.Permits c := by
  rcases c with c | c <;> cases c <;> first | cases hc; done | trivial

theorem after_aside {c : TCall} {r : TReply c} (hc : isAside c = true) :
    h.after crates cfg c r = h := by
  rcases c with c | c <;> cases c <;> first | rfl | cases hc

theorem wp_aside {α : Type} {p : TaskCode α} (hp : p.Calls fun c => isAside c = true) :
    p.Wp (Hand.next crates cfg) Hand.Permits (fun _ h' => h' = h) h := by
  refine hp.wp (I := fun h' => h' = h) ?_ ?_ rfl
  · rintro _ c rfl hc
    exact permits_aside hc
  · rintro _ c r _ rfl hc rfl
    exact after_aside hc

theorem aside_of_isLocal {c : Call} (hc : c.isLocal = true) : isAside (.await c) = true := by
  cases c <;> first | rfl | cases hc

theorem aside_of_writes {statuses : List JobStatus} {c : TCall}
    (hc : Writes crates job statuses c) : isAside c = true := by
  cases hc with
  | memory hc => exact aside_of_isLocal hc
  | _ => rfl

theorem aside_of_finishes {result : Worker.RunResult} {c : TCall}
    (hc : Finishes crates job result c) : isAside c = true := by
  rcases result with _ | e | outcome
  · exact aside_of_writes hc
  · exact aside_of_writes hc
  · cases hc with
    | memory hc => exact aside_of_isLocal hc
    | _ => rfl

/-! ### A run of the pipeline -/

def runNext (crates : Crates) (cfg : OracleConfig) (h : Hand) (c : Call) (r : c.Reply) (h' : Hand) :
    Prop := h' = h.after crates cfg (.race c) (some r)

def runPermits (h : Hand) (c : Call) : Prop := h.Permits (.race c)

def Passed (job : EvaluationJob) (h : Hand) : Prop := ∃ payment, h = ⟨some job, some payment⟩

theorem permits_lookup (h : Hand) (c : Call) (hh : Passed job h) (hc : c.isLookup = true) :
    runPermits h c := by
  obtain ⟨payment, rfl⟩ := hh
  cases c with
  | getAccount key => exact fun hnone => (by cases hnone)
  | _ => first | cases hc; done | trivial

theorem passed_lookup (h : Hand) (c : Call) (r : c.Reply) (h' : Hand) (hh : Passed job h)
    (hc : c.isLookup = true) (hnext : runNext crates cfg h c r h') : Passed job h' := by
  obtain ⟨payment, rfl⟩ := hh
  refine ⟨payment, ?_⟩
  subst hnext
  cases c <;> first | cases hc; done | rfl

theorem isEligible_wp : (isEligible crates cfg job).Wp (runNext crates cfg) runPermits
    (fun r h => r = .ok true → Passed job h) ⟨some job, none⟩ := by
  unfold isEligible
  refine Prog.Wp.ask_bind (fun _ => ⟨job, rfl, rfl⟩) ?_
  rintro (e | _ | account) h rfl
  · exact fun hr => (by cases hr)
  · exact fun hr => (by cases hr)
  dsimp only
  have hseen : Hand.after crates cfg ⟨some job, none⟩ (.race (.getAccount job.paymentPubkey))
      (some (.ok (some account))) = Hand.sees ⟨some job, none⟩ (paymentImage crates account) := rfl
  rw [hseen]
  cases paymentImage crates account with
  | none => exact fun hr => (by cases hr)
  | some payment =>
    dsimp only
    split
    · exact fun hr => (by cases hr)
    split
    · exact fun hr => (by cases hr)
    split
    · exact fun hr => (by cases hr)
    refine (chainUnixTimestamp_calls.wp permits_lookup passed_lookup ⟨payment, rfl⟩).bind ?_
    intro now h hpassed
    split
    · exact fun hr => (by cases hr)
    · exact fun _ => hpassed

theorem settle_wp (hh : Passed job h) (approved : Bool) (reason : UInt16) (hash : Bytes32) :
    (settle crates cfg job approved reason hash).Wp (runNext crates cfg) runPermits
      (fun _ _ => True) h := by
  obtain ⟨payment, rfl⟩ := hh
  refine ⟨⟨job, payment, rfl⟩, ?_⟩
  rintro (e | blockhash) h rfl
  · trivial
  · refine ⟨trivial, ?_⟩
    rintro (e | sig) h rfl <;> trivial

theorem runPipeline_wp : (Pipeline.runPipeline crates cfg job).Wp (runNext crates cfg) runPermits
    (fun _ _ => True) ⟨some job, none⟩ :=
  Pipeline.runPipeline_wp permits_lookup passed_lookup (fun _ _ _ => trivial)
    (fun _ hpassed _ _ => settle_wp hpassed _ _ _)
    (isEligible_wp.mono fun _ _ hpassed => ⟨hpassed, fun _ => trivial⟩)

theorem runRule : RunRule (Hand.next crates cfg) Hand.Permits crates job
    (Worker.timedPipeline crates cfg job) (fun h => h = ⟨some job, none⟩) (fun _ _ => True) where
  before_ok _ _ _ hc := permits_aside (aside_of_writes hc)
  before_next := by
    rintro _ c r _ rfl hc rfl
    exact after_aside (aside_of_writes hc)
  run := by
    rintro _ rfl
    have hrun : (Worker.timedPipeline crates cfg job).Wp (Hand.next crates cfg) Hand.Permits
        (fun a _ => Option.elim a True fun _ => True) ⟨some job, none⟩ :=
      Prog.wp_timeout runPipeline_wp (fun _ _ h => h) (fun _ _ _ _ h => h)
        fun _ _ _ _ _ => trivial
    exact hrun.mono fun _ _ _ => trivial
  after_ok result _ c _ hc := permits_aside (aside_of_finishes hc)
  after_next _ _ _ _ _ _ _ _ := trivial

theorem workerBody_careful :
    Careful crates cfg ⟨some job, none⟩ (System.workerBody crates cfg job) := by
  have hskip : (Worker.skipDuplicate cfg job).Wp (Hand.next crates cfg) Hand.Permits
      (fun skip h => skip = false → h = ⟨some job, none⟩) ⟨some job, none⟩ := by
    have hcalls : (Worker.skipDuplicate cfg job).Calls fun c => isAside c = true := by
      apply Agreement.skipDuplicate_calls.mono
      rintro c (rfl | rfl) <;> rfl
    exact (wp_aside hcalls).mono fun _ _ h _ => h
  have hjob : (Worker.handleJob crates cfg job (Worker.timedPipeline crates cfg job)).Wp
      (Hand.next crates cfg) Hand.Permits (fun _ _ => True) ⟨some job, none⟩ := by
    apply runRule.handleJob
    refine ⟨trivial, ?_⟩
    rintro _ h rfl
    exact hskip
  exact hjob.bind fun _ _ _ => trivial

theorem readPayment_hand {key : Pubkey} {r : Except String (Option Account)}
    (hr : jobOfReply crates cfg.oraclePubkey key r = .ok (some job)) :
    h.after crates cfg (.await (.getAccount key)) r = ⟨some job, none⟩ := by
  show (match jobOfReply crates cfg.oraclePubkey key r with
    | .ok (some job) => (⟨some job, none⟩ : Hand)
    | _ => h) = _
  rw [hr]

theorem handlerBody_careful (headers : Server.Headers) (paymentPubkey : String) :
    Careful crates cfg h (System.handlerBody crates cfg headers paymentPubkey) := by
  have hauthorize : (Server.authorizeManualEvaluate crates cfg headers).lift.Calls
      fun c => isAside c = true :=
    Prog.calls_lift (Server.authorizeManualEvaluate_calls headers) fun _ hc => aside_of_isLocal hc
  have hmanual : (Server.manualEvaluate crates cfg headers paymentPubkey).Wp
      (Hand.next crates cfg) Hand.Permits (fun _ _ => True) h := by
    apply RunRule.manualEvaluate
    refine (wp_aside hauthorize).mono ?_
    rintro _ h rfl key -
    refine ⟨trivial, ?_⟩
    rintro r h rfl job hjob
    exact ⟨_, _, runRule, readPayment_hand hjob⟩
  exact hmanual.bind fun _ _ _ => trivial

/-! ### The monitor and the backfill -/

def feedNext (crates : Crates) (cfg : OracleConfig) (h : Hand) (c : Call) (r : c.Reply)
    (h' : Hand) : Prop := h' = h.after crates cfg (.await c) r

def feedPermits (h : Hand) (c : Call) : Prop := h.Permits (.await c)

theorem feed_aside {α : Type} {p : Async α} (hp : p.Calls fun c => isAside (.await c) = true) :
    p.Wp (feedNext crates cfg) feedPermits (fun _ h' => h' = h) h := by
  refine hp.wp (I := fun h' => h' = h) ?_ ?_ rfl
  · rintro _ c rfl hc
    exact permits_aside hc
  · rintro _ c r _ rfl hc rfl
    exact after_aside hc

def Holds (r : Option EvaluationJob) (h : Hand) : Prop := ∀ job, r = some job → h = ⟨some job, none⟩

theorem readPayment_wp (key : Pubkey) (h : Hand) :
    (readPayment crates cfg key).Wp (feedNext crates cfg) feedPermits
      (fun r h => ∀ job, r = .ok (some job) → h = ⟨some job, none⟩) h := by
  refine ⟨trivial, ?_⟩
  rintro r h rfl job hjob
  exact readPayment_hand hjob

theorem tryCandidates_wp (events : List DeliverySubmittedEvent) (keys : List Pubkey) (h : Hand) :
    (tryCandidates crates cfg events keys).Wp (feedNext crates cfg) feedPermits Holds h := by
  induction keys generalizing h with
  | nil => exact fun job hjob => (by cases hjob)
  | cons key keys ih =>
    have hheld : ∀ job, Holds (some job) ⟨some job, none⟩ := by
      rintro job _ ⟨⟩
      rfl
    unfold tryCandidates
    refine (readPayment_wp key h).bind ?_
    rintro (e | _ | job) h hread
    · exact ih h
    · exact ih h
    · obtain rfl := hread job rfl
      dsimp only
      split
      · exact hheld job
      split
      · exact hheld job
      · exact ih _

theorem tryAccountKeys_wp (events : List DeliverySubmittedEvent) (keys : List Pubkey) (h : Hand) :
    (tryAccountKeys crates cfg events keys).Wp (feedNext crates cfg) feedPermits Holds h := by
  induction keys generalizing h with
  | nil => exact fun job hjob => (by cases hjob)
  | cons key keys ih =>
    unfold tryAccountKeys
    refine (readPayment_wp key h).bind ?_
    rintro (e | _ | job) h hread
    · exact ih h
    · exact ih h
    · obtain rfl := hread job rfl
      dsimp only
      split
      · rintro _ ⟨⟩
        rfl
      · exact ih _

theorem deliveryJob_wp (enc : EncodedTransaction) (h : Hand) :
    (deliveryJob crates cfg enc).Wp (feedNext crates cfg) feedPermits Holds h := by
  have hnone : ∀ h, Holds none h := fun h job hjob => (by cases hjob)
  unfold deliveryJob
  split
  · refine (tryCandidates_wp _ _ h).bind ?_
    rintro (_ | job) h hheld
    · dsimp only
      split
      · exact hnone h
      · exact tryAccountKeys_wp _ _ h
    · exact hheld
  · exact hnone h

theorem fetchDeliveryJob_wp (sig : Signature) (h : Hand) :
    (fetchDeliveryJob crates cfg sig).Wp (feedNext crates cfg) feedPermits
      (fun r h => ∀ job, r = .ok (some job) → h = ⟨some job, none⟩) h := by
  refine ⟨trivial, ?_⟩
  rintro (e | enc) h rfl
  · exact fun job hjob => (by cases hjob)
  · refine (deliveryJob_wp enc _).bind ?_
    rintro r h hheld job hjob
    exact hheld job (Except.ok.inj hjob)

theorem monitorNotification_wp (note : LogNotification) (h : Hand) :
    (monitorNotification crates cfg note).Wp (feedNext crates cfg) feedPermits
      (fun _ _ => True) h := by
  refine ⟨trivial, ?_⟩
  rintro _ h rfl
  split
  · trivial
  split
  · trivial
  refine (fetchDeliveryJob_wp _ _).bind ?_
  rintro (e | _ | job) h hread
  · trivial
  · trivial
  · obtain rfl := hread job rfl
    refine ⟨trivial, ?_⟩
    rintro _ h rfl
    refine ⟨rfl, ?_⟩
    rintro _ h -
    trivial

theorem scanEntries_wp (lastSeenSlot : Nat) (entries : List SignatureEntry)
    (before : Option Signature) (highestSlot : Nat) (h : Hand) :
    (scanEntries crates cfg lastSeenSlot entries before highestSlot).Wp (feedNext crates cfg)
      feedPermits (fun _ _ => True) h := by
  refine scanEntries_rule (fun _ _ => True) (fun _ _ _ _ _ => trivial) (fun sig _ h _ => ?_)
    (fun _ _ _ => trivial) (fun _ _ _ _ => trivial) trivial
  refine (fetchDeliveryJob_wp sig h).mono fun r h hread => ⟨trivial, fun job hjob => ?_⟩
  obtain rfl := hread job hjob
  exact ⟨rfl, fun _ _ _ => trivial⟩

theorem scanPages_wp (lastSeenSlot left : Nat) (before : Option Signature) (highestSlot : Nat)
    (h : Hand) : (scanPages crates cfg lastSeenSlot left before highestSlot).Wp
      (feedNext crates cfg) feedPermits (fun _ _ => True) h :=
  scanPages_rule (fun _ _ => True)
    (fun _ _ _ _ _ => ⟨trivial, fun _ _ _ => ⟨trivial, fun _ _ => scanEntries_wp _ _ _ _ _⟩⟩)
    (fun _ _ _ => trivial) (fun _ _ _ _ => trivial) trivial

theorem backfillMissedDeliveries_wp (h : Hand) :
    (backfillMissedDeliveries crates cfg).Wp (feedNext crates cfg) feedPermits
      (fun _ _ => True) h := by
  have hread : (readWatermark cfg).Calls fun c => isAside (.await c) = true := by
    unfold readWatermark
    split
    · refine ⟨rfl, fun r _ => ?_⟩
      rcases r with e | _ | raw <;> trivial
    · trivial
  have hfinish : ∀ highestSlot, (finishBackfill cfg highestSlot).Calls
      fun c => isAside (.await c) = true := by
    intro highestSlot
    unfold finishBackfill
    split
    · split
      · exact ⟨rfl, fun _ _ => ⟨rfl, fun _ _ => trivial⟩⟩
      · exact ⟨rfl, fun _ _ => trivial⟩
    · trivial
  unfold backfillMissedDeliveries
  split
  · trivial
  refine (feed_aside hread).bind ?_
  rintro lastSeenSlot h -
  refine (scanPages_wp _ _ _ _ h).bind ?_
  rintro highestSlot h -
  exact (feed_aside (hfinish highestSlot)).mono fun _ _ _ => trivial

theorem lift_careful {α : Type} {p : Async α} {Q : α → Hand → Prop}
    (hp : p.Wp (feedNext crates cfg) feedPermits Q h) :
    p.lift.Wp (Hand.next crates cfg) Hand.Permits Q h :=
  Prog.wp_lift hp (fun _ _ h => h) fun _ _ _ _ h => h

theorem entry_careful {task : TaskId} {code : TaskCode Unit}
    (hentry : System.Entry crates cfg task code) (htask : task ≠ .worker) (h : Hand) :
    Careful crates cfg h code := by
  cases hentry with
  | none => trivial
  | worker job => exact absurd rfl htask
  | monitor note => exact (lift_careful (monitorNotification_wp note h)).bind fun _ _ _ => trivial
  | backfill => exact lift_careful (backfillMissedDeliveries_wp h)
  | handler n headers paymentPubkey => exact handlerBody_careful headers paymentPubkey

end Code

/-! ## The process and the accounts that it reads -/

structure Observed where
  sys : System
  accounts : Pubkey → Option Account
  hand : TaskId → Hand

inductive Event
  | process (a : Act)
  /-- the escrow program, or whoever owns the account, writes it -/
  | write (key : Pubkey) (account : Option Account)

def truthful (accounts : Pubkey → Option Account) (choose : (c : TCall) → Timed.Choice c) :
    (c : TCall) → Timed.Choice c
  | .await (.getAccount key) => (choose (.await (.getAccount key))).map fun _ => accounts key
  | .race (.getAccount key) =>
    match choose (.race (.getAccount key)) with
    | .finished r => .finished (r.map fun _ => accounts key)
    | .droppedBefore => .droppedBefore
    | .droppedAfter r => .droppedAfter r
  | c => choose c

namespace Observed

def init (accounts : Pubkey → Option Account) : Observed := ⟨.init, accounts, fun _ => .empty⟩

section
variable (crates : Crates) (cfg : OracleConfig) (t : Observed)

def handCalled (task : TaskId) (choose : (c : TCall) → Timed.Choice c) :
    TaskCode Unit → TaskId → Hand
  | .ret _ => t.hand
  | .call c _ =>
    match t.sys.world.performTimed cfg c (choose c) with
    | some (r, _) => Function.update t.hand task ((t.hand task).after crates cfg c r)
    | none => t.hand

def handAfter : Act → TaskId → Hand
  | .step task choose => t.handCalled crates cfg task choose (t.sys.tasks task)
  | .receive => Function.update t.hand .worker ⟨t.sys.world.channel.head?, none⟩
  | .notify _ => Function.update t.hand .monitor .empty
  | .request n _ _ => Function.update t.hand (.handler n) .empty
  | .disconnect n => Function.update t.hand (.handler n) .empty
  | .start => Function.update t.hand .backfill .empty
  | .crash => fun _ => .empty
  | _ => t.hand

def perform (a : Act) : Option Observed :=
  (t.sys.next crates cfg a).map fun sys => ⟨sys, t.accounts, t.handAfter crates cfg a⟩

def next : Event → Option Observed
  | .process (.step task choose) => t.perform crates cfg (.step task (truthful t.accounts choose))
  | .process a => t.perform crates cfg a
  | .write key account => some { t with accounts := Function.update t.accounts key account }

end

def OnItsWay (t : Observed) (job : EvaluationJob) : Prop :=
  job ∈ t.sys.world.channel ∨
    ∃ task, t.sys.isIdle task = false ∧ t.hand task = ⟨some job, none⟩

end Observed

/-- The payment is the one that the job was made from, in what the job says of it. -/
def Agrees (payment : Payment) (job : EvaluationJob) : Prop :=
  payment.paymentUid = job.paymentUid ∧ payment.mint = job.mint ∧
    payment.slaHash = job.slaHash ∧ payment.deliveryHash = job.deliveryHash

def Current (crates : Crates) (account : Option Account) (job : EvaluationJob) : Prop :=
  ∀ a payment, account = some a → paymentImage crates a = some payment → Agrees payment job

/-- While a job is on its way, the payment that it was made from is not rewritten to another. -/
def Steady (crates : Crates) (t : Observed) : Event → Prop
  | .process _ => True
  | .write key account => ∀ job, t.OnItsWay job → job.paymentPubkey = key →
      Current crates account job

section
variable {crates : Crates} {cfg : OracleConfig} {t t' : Observed} {job : EvaluationJob}

variable (crates cfg t) in
structure Inv : Prop where
  careful : ∀ task, Careful crates cfg (t.hand task) (t.sys.tasks task)
  current : ∀ job, t.OnItsWay job → Current crates (t.accounts job.paymentPubkey) job
  seen : ∀ task job payment, t.hand task = ⟨some job, some payment⟩ → Agrees payment job

theorem inv_init (accounts : Pubkey → Option Account) : Inv crates cfg (.init accounts) where
  careful _ := trivial
  current job h := by
    rcases h with h | ⟨task, hidle, -⟩
    · cases h
    · cases hidle
  seen task job payment h := by cases h

theorem inv_write {key : Pubkey} {account : Option Account} (hi : Inv crates cfg t)
    (hg : Steady crates t (.write key account)) :
    Inv crates cfg { t with accounts := Function.update t.accounts key account } where
  careful := hi.careful
  current job h := by
    show Current crates (Function.update t.accounts key account job.paymentPubkey) job
    by_cases hkey : job.paymentPubkey = key
    · rw [hkey, Function.update_self]
      exact hg job h hkey
    · rw [Function.update_of_ne hkey]
      exact hi.current job h
  seen := hi.seen

theorem current_of_read {key : Pubkey} {account : Option Account}
    (h : jobOfReply crates cfg.oraclePubkey key (.ok account) = .ok (some job)) :
    job.paymentPubkey = key ∧ Current crates account job := by
  cases account with
  | none => cases h
  | some a =>
    obtain ⟨payment, hpayment, rfl⟩ := DeliveryJob.jobOfAccount_some h
    refine ⟨rfl, ?_⟩
    rintro a' payment' heq hpayment'
    obtain rfl := Option.some.inj heq
    rw [hpayment] at hpayment'
    obtain rfl := Option.some.inj hpayment'
    exact ⟨rfl, rfl, rfl, rfl⟩

/-! ### A call of a task -/

def Truthful (accounts : Pubkey → Option Account) : (c : TCall) → TReply c → Prop
  | .await (.getAccount key), r => r = .ok (accounts key) ∨ ∃ e, r = .error e
  | .race (.getAccount key), r =>
    r = none ∨ r = some (.ok (accounts key)) ∨ ∃ e, r = some (.error e)
  | _, _ => True

theorem truthful_reply {accounts : Pubkey → Option Account} {choose : (c : TCall) → Timed.Choice c}
    {w w' : World} {c : TCall} {r : TReply c}
    (hw : w.performTimed cfg c (truthful accounts choose c) = some (r, w')) :
    Truthful accounts c r := by
  rcases c with c | c
  · cases c with
    | getAccount key =>
      have hr : (choose (.await (.getAccount key))).map (fun _ => accounts key) = r :=
        congrArg Prod.fst (Option.some.inj hw)
      subst hr
      cases choose (.await (.getAccount key)) with
      | error e => exact Or.inr ⟨e, rfl⟩
      | ok account => exact Or.inl rfl
    | _ => trivial
  · cases c with
    | getAccount key =>
      unfold truthful at hw
      dsimp only at hw
      cases hchoice : choose (.race (.getAccount key)) with
      | finished reply =>
        rw [hchoice] at hw
        have hr : some (reply.map fun _ => accounts key) = r :=
          congrArg Prod.fst (Option.some.inj hw)
        subst hr
        cases reply with
        | error e => exact Or.inr (Or.inr ⟨e, rfl⟩)
        | ok account => exact Or.inr (Or.inl rfl)
      | droppedBefore =>
        rw [hchoice] at hw
        exact Or.inl (congrArg Prod.fst (Option.some.inj hw)).symm
      | droppedAfter reply =>
        rw [hchoice] at hw
        exact Or.inl (congrArg Prod.fst (Option.some.inj hw)).symm
    | _ => trivial

theorem held_after {h : Hand} {accounts : Pubkey → Option Account} {c : TCall} {r : TReply c}
    (htruth : Truthful accounts c r) (hafter : h.after crates cfg c r = ⟨some job, none⟩) :
    h = ⟨some job, none⟩ ∨ Current crates (accounts job.paymentPubkey) job := by
  rcases c with c | c
  · cases c with
    | getAccount key =>
      unfold Hand.after at hafter
      dsimp only at hafter
      split at hafter
      · next job' hjob' =>
        obtain rfl := Option.some.inj (congrArg Hand.job hafter)
        rcases htruth with rfl | ⟨e, rfl⟩
        · obtain ⟨rfl, hcurrent⟩ := current_of_read hjob'
          exact Or.inr hcurrent
        · cases hjob'
      · exact Or.inl hafter
    | sendJob job' => cases hafter
    | _ => exact Or.inl hafter
  · cases c with
    | getAccount key =>
      have hsees : h.sees (Hand.imageOfReply crates r) = ⟨some job, none⟩ := hafter
      unfold Hand.sees at hsees
      split at hsees
      · exact Or.inl hsees
      · cases congrArg Hand.seen hsees
      · cases congrArg Hand.job hsees
    | _ => exact Or.inl hafter

theorem seen_after {h : Hand} {accounts : Pubkey → Option Account} {c : TCall} {r : TReply c}
    {payment : Payment} (hp : h.Permits c) (htruth : Truthful accounts c r)
    (hafter : h.after crates cfg c r = ⟨some job, some payment⟩) :
    h = ⟨some job, some payment⟩ ∨ (h = ⟨some job, none⟩ ∧
      ∃ account, accounts job.paymentPubkey = some account ∧
        paymentImage crates account = some payment) := by
  rcases c with c | c
  · cases c with
    | getAccount key =>
      unfold Hand.after at hafter
      dsimp only at hafter
      split at hafter
      · cases hafter
      · exact Or.inl hafter
    | sendJob job' => cases hafter
    | _ => exact Or.inl hafter
  · cases c with
    | getAccount key =>
      obtain ⟨held, image⟩ := h
      cases image with
      | some image => exact Or.inl hafter
      | none =>
        right
        obtain ⟨job', rfl, rfl⟩ := hp rfl
        rcases htruth with rfl | rfl | ⟨e, rfl⟩
        · cases hafter
        · cases hread : accounts job'.paymentPubkey with
          | none =>
            rw [hread] at hafter
            cases hafter
          | some account =>
            rw [hread] at hafter
            have hsees : Hand.sees ⟨some job', none⟩ (paymentImage crates account) =
                ⟨some job, some payment⟩ := hafter
            cases himage : paymentImage crates account with
            | none =>
              rw [himage] at hsees
              cases hsees
            | some image =>
              rw [himage] at hsees
              cases hsees
              exact ⟨rfl, account, hread, himage⟩
        · cases hafter
    | _ => exact Or.inl hafter

theorem inv_call (hi : Inv crates cfg t) {task : TaskId} {c : TCall} {k : TReply c → TaskCode Unit}
    {r : TReply c} {choice : Timed.Choice c} (hcode : t.sys.tasks task = .call c k)
    (hw : t.sys.world.performTimed cfg c choice = some (r, t'.sys.world))
    (htruth : Truthful t.accounts c r)
    (htasks : t'.sys.tasks = Function.update t.sys.tasks task (k r))
    (hhand : t'.hand = Function.update t.hand task ((t.hand task).after crates cfg c r))
    (haccounts : t'.accounts = t.accounts) : Inv crates cfg t' := by
  have hcareful := hi.careful task
  rw [hcode] at hcareful
  have hbusy : t.sys.isIdle task = false := by
    unfold System.isIdle
    rw [hcode]
  have hself : t'.hand task = (t.hand task).after crates cfg c r := by
    rw [hhand, Function.update_self]
  have hother : ∀ task', task' ≠ task → t'.hand task' = t.hand task' := by
    intro task' hne
    rw [hhand, Function.update_of_ne hne]
  refine ⟨fun task' => ?_, fun job hway => ?_, fun task' job payment hseen => ?_⟩
  · by_cases heq : task' = task
    · subst heq
      rw [hself, htasks, Function.update_self]
      exact hcareful.2 r _ rfl
    · rw [hother task' heq, htasks, Function.update_of_ne heq]
      exact hi.careful task'
  · rw [haccounts]
    rcases hway with hchannel | ⟨task', hidle, hheld⟩
    · rcases (World.performTimed_frame hw).channel with hsame | ⟨job', hsend, happend⟩
      · exact hi.current job (Or.inl (hsame ▸ hchannel))
      · rw [happend] at hchannel
        rcases List.mem_append.mp hchannel with hold | hnew
        · exact hi.current job (Or.inl hold)
        · obtain rfl := List.mem_singleton.mp hnew
          have hheld : t.hand task = ⟨some job, none⟩ := by
            rcases c with c | c
            · obtain rfl : c = .sendJob job := hsend
              exact hcareful.1
            · obtain rfl : c = .sendJob job := hsend
              exact hcareful.1.elim
          exact hi.current job (Or.inr ⟨task, hbusy, hheld⟩)
    · by_cases heq : task' = task
      · subst heq
        rw [hself] at hheld
        rcases held_after htruth hheld with hold | hcurrent
        · exact hi.current job (Or.inr ⟨task', hbusy, hold⟩)
        · exact hcurrent
      · rw [hother task' heq] at hheld
        have hidle' : t.sys.isIdle task' = false := by
          unfold System.isIdle at hidle ⊢
          rwa [htasks, Function.update_of_ne heq] at hidle
        exact hi.current job (Or.inr ⟨task', hidle', hheld⟩)
  · by_cases heq : task' = task
    · subst heq
      rw [hself] at hseen
      rcases seen_after hcareful.1 htruth hseen with hold | ⟨hold, account, hread, himage⟩
      · exact hi.seen task' job payment hold
      · exact hi.current job (Or.inr ⟨task', hbusy, hold⟩) account payment hread himage
    · rw [hother task' heq] at hseen
      exact hi.seen task' job payment hseen

/-! ### The other steps of the process -/

theorem inv_start (hi : Inv crates cfg t) {task : TaskId} {code : TaskCode Unit}
    (hcode : Careful crates cfg .empty code) (hchannel : t'.sys.world.channel = t.sys.world.channel)
    (htasks : t'.sys.tasks = Function.update t.sys.tasks task code)
    (hhand : t'.hand = Function.update t.hand task .empty) (haccounts : t'.accounts = t.accounts) :
    Inv crates cfg t' := by
  refine ⟨fun task' => ?_, fun job hway => ?_, fun task' job payment hseen => ?_⟩
  · by_cases heq : task' = task
    · subst heq
      rw [hhand, htasks, Function.update_self, Function.update_self]
      exact hcode
    · rw [hhand, htasks, Function.update_of_ne heq, Function.update_of_ne heq]
      exact hi.careful task'
  · rw [haccounts]
    rcases hway with hchannel' | ⟨task', hidle, hheld⟩
    · exact hi.current job (Or.inl (hchannel ▸ hchannel'))
    · have heq : task' ≠ task := by
        rintro rfl
        rw [hhand, Function.update_self] at hheld
        cases hheld
      rw [hhand, Function.update_of_ne heq] at hheld
      unfold System.isIdle at hidle
      rw [htasks, Function.update_of_ne heq] at hidle
      exact hi.current job (Or.inr ⟨task', hidle, hheld⟩)
  · have heq : task' ≠ task := by
      rintro rfl
      rw [hhand, Function.update_self] at hseen
      cases hseen
    rw [hhand, Function.update_of_ne heq] at hseen
    exact hi.seen task' job payment hseen

theorem inv_receive (hi : Inv crates cfg t) {job : EvaluationJob} {rest : List EvaluationJob}
    (hchannel : t.sys.world.channel = job :: rest) (hchannel' : t'.sys.world.channel = rest)
    (htasks : t'.sys.tasks =
      Function.update t.sys.tasks .worker (System.workerBody crates cfg job))
    (hhand : t'.hand = Function.update t.hand .worker ⟨some job, none⟩)
    (haccounts : t'.accounts = t.accounts) : Inv crates cfg t' := by
  refine ⟨fun task' => ?_, fun job' hway => ?_, fun task' job' payment hseen => ?_⟩
  · by_cases heq : task' = .worker
    · subst heq
      rw [hhand, htasks, Function.update_self, Function.update_self]
      exact workerBody_careful
    · rw [hhand, htasks, Function.update_of_ne heq, Function.update_of_ne heq]
      exact hi.careful task'
  · rw [haccounts]
    rcases hway with hmem | ⟨task', hidle, hheld⟩
    · rw [hchannel'] at hmem
      have hold : job' ∈ t.sys.world.channel := by
        rw [hchannel]
        exact List.mem_cons_of_mem job hmem
      exact hi.current job' (Or.inl hold)
    · by_cases heq : task' = .worker
      · subst heq
        rw [hhand, Function.update_self] at hheld
        obtain rfl := Option.some.inj (congrArg Hand.job hheld)
        have hold : job ∈ t.sys.world.channel := by
          rw [hchannel]
          exact List.mem_cons_self
        exact hi.current job (Or.inl hold)
      · rw [hhand, Function.update_of_ne heq] at hheld
        unfold System.isIdle at hidle
        rw [htasks, Function.update_of_ne heq] at hidle
        exact hi.current job' (Or.inr ⟨task', hidle, hheld⟩)
  · have heq : task' ≠ .worker := by
      rintro rfl
      rw [hhand, Function.update_self] at hseen
      cases hseen
    rw [hhand, Function.update_of_ne heq] at hseen
    exact hi.seen task' job' payment hseen

theorem inv_outside (hi : Inv crates cfg t) (hchannel : t'.sys.world.channel = t.sys.world.channel)
    (htasks : t'.sys.tasks = t.sys.tasks) (hhand : t'.hand = t.hand)
    (haccounts : t'.accounts = t.accounts) : Inv crates cfg t' := by
  refine ⟨fun task => ?_, fun job hway => ?_, fun task job payment hseen => ?_⟩
  · rw [hhand, htasks]
    exact hi.careful task
  · rw [haccounts]
    have hold : t.OnItsWay job := by
      unfold Observed.OnItsWay System.isIdle at hway ⊢
      rwa [hchannel, htasks, hhand] at hway
    exact hi.current job hold
  · rw [hhand] at hseen
    exact hi.seen task job payment hseen

theorem inv_crash (htasks : t'.sys.tasks = System.noTasks) (hchannel : t'.sys.world.channel = [])
    (hhand : t'.hand = fun _ => .empty) : Inv crates cfg t' := by
  refine ⟨fun task => ?_, fun job hway => ?_, fun task job payment hseen => ?_⟩
  · rw [htasks]
    trivial
  · rcases hway with hmem | ⟨task, -, hheld⟩
    · rw [hchannel] at hmem
      cases hmem
    · rw [hhand] at hheld
      cases hheld
  · rw [hhand] at hseen
    cases hseen

theorem inv_perform {a : Act} (hi : Inv crates cfg t) (h : t.perform crates cfg a = some t')
    (htruth : ∀ task choose c k r w, a = .step task choose → t.sys.tasks task = .call c k →
      t.sys.world.performTimed cfg c (choose c) = some (r, w) → Truthful t.accounts c r) :
    Inv crates cfg t' := by
  obtain ⟨sys, hsys, rfl⟩ := Option.map_eq_some_iff.mp h
  cases a with
  | step task choose =>
    obtain ⟨c, k, r, hcode, hw, htasks⟩ := System.next_step hsys
    have hhand : t.handAfter crates cfg (.step task choose) =
        Function.update t.hand task ((t.hand task).after crates cfg c r) := by
      rw [Observed.handAfter, hcode, Observed.handCalled, hw]
    exact inv_call hi hcode hw (htruth task choose c k r _ rfl hcode hw) htasks hhand rfl
  | receive =>
    simp only [System.next, System.receive] at hsys
    split at hsys
    · cases hsys
    · next job rest hchannel =>
      obtain ⟨-, hs⟩ := Option.ite_none_right_eq_some.mp hsys
      obtain rfl := Option.some.inj hs
      have hhand : t.handAfter crates cfg .receive =
          Function.update t.hand .worker ⟨some job, none⟩ := by
        rw [Observed.handAfter, hchannel]
        rfl
      exact inv_receive hi hchannel rfl rfl hhand rfl
  | notify note =>
    obtain ⟨-, hs⟩ := Option.ite_none_right_eq_some.mp hsys
    obtain rfl := Option.some.inj hs
    exact inv_start hi (entry_careful (.monitor note) TaskId.noConfusion _) rfl rfl rfl rfl
  | request n headers paymentPubkey =>
    obtain ⟨-, hs⟩ := Option.ite_none_right_eq_some.mp hsys
    obtain rfl := Option.some.inj hs
    exact inv_start hi (handlerBody_careful headers paymentPubkey) rfl rfl rfl rfl
  | disconnect n =>
    obtain rfl := Option.some.inj hsys
    exact inv_start hi (entry_careful (.none (.handler n)) TaskId.noConfusion _) rfl rfl rfl rfl
  | execLate i now =>
    obtain ⟨q, -, rfl⟩ := Option.map_eq_some_iff.mp hsys
    rw [World.execStmt_snd]
    exact inv_outside hi rfl rfl rfl rfl
  | land i =>
    simp only [System.next, System.land] at hsys
    split at hsys
    · cases hsys
    · obtain ⟨-, hs⟩ := Option.ite_none_right_eq_some.mp hsys
      obtain rfl := Option.some.inj hs
      exact inv_outside hi rfl rfl rfl rfl
  | resolve uid res =>
    obtain ⟨-, hs⟩ := Option.ite_none_right_eq_some.mp hsys
    obtain rfl := Option.some.inj hs
    exact inv_outside hi rfl rfl rfl rfl
  | crash =>
    obtain rfl := Option.some.inj hsys
    exact inv_crash rfl rfl rfl
  | start =>
    obtain ⟨-, hs⟩ := Option.ite_none_left_eq_some.mp hsys
    obtain rfl := Option.some.inj hs
    exact inv_start hi (entry_careful .backfill TaskId.noConfusion _) rfl rfl rfl rfl

theorem inv_next {ev : Event} (hi : Inv crates cfg t) (hg : Steady crates t ev)
    (h : t.next crates cfg ev = some t') : Inv crates cfg t' := by
  cases ev with
  | write key account =>
    obtain rfl := Option.some.inj h
    exact inv_write hi hg
  | process a =>
    by_cases hstep : ∃ task choose, a = .step task choose
    · obtain ⟨task, choose, rfl⟩ := hstep
      apply inv_perform hi h
      rintro task' choose' c k r w hact hcode hw
      obtain ⟨-, rfl⟩ := Act.step.inj hact
      exact truthful_reply hw
    · have hperform : t.next crates cfg (.process a) = t.perform crates cfg a := by
        cases a with
        | step task choose => exact absurd ⟨task, choose, rfl⟩ hstep
        | _ => rfl
      rw [hperform] at h
      apply inv_perform hi h
      rintro task choose c k r w rfl
      exact absurd ⟨task, choose, rfl⟩ hstep

end

/-- A run that gets to settle has found eligible the payment that its job was made from, in every
order of steps that does not rewrite the payment of a job on its way. -/
theorem settles_as_read (crates : Crates) (cfg : OracleConfig)
    (accounts : Pubkey → Option Account) (t : Observed)
    (ht : Reach (Observed.next crates cfg) (Steady crates) (.init accounts) t) (task : TaskId)
    (k : TReply (.race .getLatestBlockhash) → TaskCode Unit)
    (hsettle : t.sys.tasks task = .call (.race .getLatestBlockhash) k) :
    ∃ job payment, t.hand task = ⟨some job, some payment⟩ ∧
      payment.paymentUid = job.paymentUid ∧ payment.mint = job.mint ∧
      payment.slaHash = job.slaHash ∧ payment.deliveryHash = job.deliveryHash := by
  have hi : Inv crates cfg t :=
    ht.invariant (inv_init accounts) fun _ _ _ hi hg h => inv_next hi hg h
  have hcareful := hi.careful task
  rw [hsettle] at hcareful
  obtain ⟨job, payment, hhand⟩ := hcareful.1
  exact ⟨job, payment, hhand, hi.seen task job payment hhand⟩

/-! ## Runs in which the payment is, and is not, rewritten -/

def byteCrates : Crates := { Crates.toy with
  paymentSize := 1
  paymentFromBytes := fun bytes =>
    ⟨byte32 1, byte32 0, byte32 (bytes.headD 0), 100, byte32 5, byte32 7, 1000, 1, 0⟩ }

def byteCfg : OracleConfig := { OracleConfig.toy with databaseEnabled := false }

def byteAccount (b : UInt8) : Account := ⟨byte32 6, List.replicate 8 0 ++ [b]⟩

def deliveredChoice : (c : TCall) → Timed.Choice c
  | .await (.getTransaction _) => .ok ⟨some (.parsed ["payment"] []), none⟩
  | c => Timed.toyChoice c

def calls (task : TaskId) (n : Nat) : List Event :=
  List.replicate n (.process (.step task deliveredChoice))

def sent : List Event :=
  .process .start :: .process (.notify ⟨1, "sig", ["Program data: "]⟩) :: calls .monitor 5

def run : List Event := .process .receive :: calls .worker 9

def isSettling : TaskCode Unit → Bool
  | .call (.race .getLatestBlockhash) _ => true
  | _ => false

theorem settling_of_isSettling {code : TaskCode Unit} (h : isSettling code = true) :
    ∃ k, code = .call (.race .getLatestBlockhash) k := by
  unfold isSettling at h
  split at h
  · next k => exact ⟨k, rfl⟩
  · cases h

def keepsImage (crates : Crates) (t : Observed) : Event → Bool
  | .process _ => true
  | .write key account =>
    account.bind (paymentImage crates) = (t.accounts key).bind (paymentImage crates)

theorem steady_of_keepsImage {crates : Crates} {cfg : OracleConfig} {t : Observed} {ev : Event}
    (hi : Inv crates cfg t) (h : keepsImage crates t ev = true) : Steady crates t ev := by
  cases ev with
  | process a => trivial
  | write key account =>
    rintro job hway rfl a payment rfl himage
    have hsame : paymentImage crates a =
        (t.accounts job.paymentPubkey).bind (paymentImage crates) := of_decide_eq_true h
    rw [himage] at hsame
    obtain ⟨a', ha', himage'⟩ := Option.bind_eq_some_iff.mp hsame.symm
    exact hi.current job hway a' payment ha' himage'

def grownAccount : Account := ⟨byte32 6, List.replicate 8 0 ++ [0, 1]⟩

theorem settles_as_read_delivered : ∃ t k,
    runChecked (Observed.next byteCrates byteCfg) (keepsImage byteCrates)
      (sent ++ .write (byte32 2) (some grownAccount) :: run)
      (.init fun _ => some (byteAccount 0)) = some t ∧
    t.sys.tasks .worker = .call (.race .getLatestBlockhash) k ∧
    ∃ job payment, t.hand .worker = ⟨some job, some payment⟩ ∧
      payment.paymentUid = job.paymentUid ∧ payment.mint = job.mint ∧
      payment.slaHash = job.slaHash ∧ payment.deliveryHash = job.deliveryHash := by
  have hsummary : (runChecked (Observed.next byteCrates byteCfg) (keepsImage byteCrates)
      (sent ++ .write (byte32 2) (some grownAccount) :: run)
      (.init fun _ => some (byteAccount 0))).map (fun t => isSettling (t.sys.tasks .worker)) =
      some true := by
    decide +kernel
  obtain ⟨t, hrun, hsettling⟩ := Option.map_eq_some_iff.mp hsummary
  obtain ⟨k, hsettle⟩ := settling_of_isSettling hsettling
  have hreach : Reach (Observed.next byteCrates byteCfg) (Steady byteCrates)
      (.init fun _ => some (byteAccount 0)) t :=
    (Reach.first.runChecked (fun _ _ h => h) hrun).strengthen
      (@inv_init byteCrates byteCfg _)
      (fun _ _ _ hi h hnext => inv_next hi (steady_of_keepsImage hi h) hnext)
      fun _ _ hi h => steady_of_keepsImage hi h
  exact ⟨t, k, hrun, hsettle, settles_as_read byteCrates byteCfg _ t hreach .worker k hsettle⟩

theorem settles_stale : ¬ ∀ t task k,
    Reach (Observed.next byteCrates byteCfg) (fun _ _ => True)
      (.init fun _ => some (byteAccount 0)) t →
    t.sys.tasks task = .call (.race .getLatestBlockhash) k →
    ∃ job payment, t.hand task = ⟨some job, some payment⟩ ∧
      payment.paymentUid = job.paymentUid ∧ payment.mint = job.mint ∧
      payment.slaHash = job.slaHash ∧ payment.deliveryHash = job.deliveryHash := by
  intro h
  have hsummary : (runActs (Observed.next byteCrates byteCfg)
      (sent ++ .write (byte32 2) (some (byteAccount 9)) :: run)
      (.init fun _ => some (byteAccount 0))).map (fun t => (isSettling (t.sys.tasks .worker),
        (t.hand .worker).job.map (·.deliveryHash), (t.hand .worker).seen.map (·.deliveryHash))) =
      some (true, some (byte32 0), some (byte32 9)) := by
    decide +kernel
  obtain ⟨t, hrun, hvalue⟩ := Option.map_eq_some_iff.mp hsummary
  obtain ⟨hsettling, hhands⟩ := Prod.mk.inj hvalue
  obtain ⟨hjob, hseen⟩ := Prod.mk.inj hhands
  obtain ⟨k, hsettle⟩ := settling_of_isSettling hsettling
  have hreach : Reach (Observed.next byteCrates byteCfg) (fun _ _ => True)
      (.init fun _ => some (byteAccount 0)) t :=
    Reach.first.runActs (fun _ _ _ => trivial) hrun
  obtain ⟨job, payment, hhand, -, -, -, hdelivery⟩ := h t .worker k hreach hsettle
  rw [hhand] at hjob hseen
  have hsame : byte32 9 = byte32 0 :=
    (Option.some.inj hseen).symm.trans (hdelivery.trans (Option.some.inj hjob))
  exact absurd hsame (by decide)

end OracleQa.Snapshot
