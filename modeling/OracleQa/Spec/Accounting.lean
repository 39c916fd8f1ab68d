import OracleQa.Spec.Quiescence
import OracleQa.Spec.Runs

/-! The process together with a count of what became of each job: handed over through the channel
in order, taken by the worker, and then skipped or counted in the statistics, once. -/

namespace OracleQa
open Interaction

namespace Call

def sent : Call → List EvaluationJob
  | sendJob job => [job]
  | _ => []

def observes : Call → Nat
  | observeDelivery => 1
  | _ => 0

def counts : Call → Nat
  | countSettled _ => 1
  | countError _ => 1
  | _ => 0

end Call

def skips : (c : TCall) → TReply c → Bool
  | .await (.sql (.isTerminal _)), .ok terminal => terminal
  | .await (.processedInsert _), inserted => !inserted
  | _, _ => false

def TaskId.isHandler : TaskId → Bool
  | .handler _ => true
  | _ => false

structure Tally where
  sys : System
  sent : List EvaluationJob
  taken : List EvaluationJob
  heard : Nat
  skipped : Nat
  counted : Nat
  manual : Nat

namespace Tally

def fresh (sys : System) : Tally := ⟨sys, [], [], 0, 0, 0, 0⟩

def note (t : Tally) (task : TaskId) (c : TCall) (r : TReply c) (sys : System) : Tally where
  sys := sys
  sent := t.sent ++ c.base.sent
  taken := t.taken
  heard := t.heard + if task = .monitor then c.base.sent.length else 0
  skipped := t.skipped + if task = .worker ∧ skips c r = true then 1 else 0
  counted := t.counted + if task = .worker then c.base.counts else 0
  manual := t.manual + if task.isHandler = true then c.base.counts else 0

def next (crates : Crates) (cfg : OracleConfig) (t : Tally) : Act → Option Tally
  | .step task choose =>
    match t.sys.tasks task with
    | .ret _ => none
    | .call c k => (t.sys.world.performTimed cfg c (choose c)).map fun p =>
        t.note task c p.1 ({ t.sys with world := p.2 }.spawn task (k p.1))
  | .receive => (t.sys.next crates cfg .receive).map fun sys =>
      { t with sys := sys, taken := t.taken ++ t.sys.world.channel.head?.toList }
  | .crash => (t.sys.next crates cfg .crash).map fresh
  | a => (t.sys.next crates cfg a).map fun sys => { t with sys := sys }

end Tally

namespace Accounting
open Quiescence

structure Counted (cfg : OracleConfig) (c : Call) (w w' : World) : Prop where
  channel : w'.channel = w.channel ++ c.sent
  room : w'.channel.length ≤ max w.channel.length cfg.jobChannelCapacity
  depth : w'.health.queueDepth = w.health.queueDepth ∨
    w'.health.queueDepth = w.channel.length
  observed : w'.health.deliveriesObserved = w.health.deliveriesObserved + c.observes
  ended : w'.stats.totalEvaluated + w'.stats.totalErrors =
    w.stats.totalEvaluated + w.stats.totalErrors + c.counts
  verdicts : w.stats.totalApproved + w.stats.totalRejected = w.stats.totalEvaluated →
    w'.stats.totalApproved + w'.stats.totalRejected = w'.stats.totalEvaluated
  dead : w.stats.totalDeadLetter ≤ w.stats.totalErrors →
    w'.stats.totalDeadLetter ≤ w'.stats.totalErrors

variable {crates : Crates} {cfg : OracleConfig} {job : EvaluationJob}

theorem counted_of_stats {c : Call} {w : World} {stats : OracleStats} (hsent : c.sent = [])
    (hobserves : c.observes = 0)
    (hended : stats.totalEvaluated + stats.totalErrors =
      w.stats.totalEvaluated + w.stats.totalErrors + c.counts)
    (hverdicts : w.stats.totalApproved + w.stats.totalRejected = w.stats.totalEvaluated →
      stats.totalApproved + stats.totalRejected = stats.totalEvaluated)
    (hdead : w.stats.totalDeadLetter ≤ w.stats.totalErrors →
      stats.totalDeadLetter ≤ stats.totalErrors) :
    Counted cfg c w { w with stats := stats } where
  channel := by rw [hsent, List.append_nil]
  room := Nat.le_max_left ..
  depth := Or.inl rfl
  observed := by rw [hobserves, Nat.add_zero]
  ended := hended
  verdicts := hverdicts
  dead := hdead

theorem counted_of_same {c : Call} {w w' : World} (hsent : c.sent = []) (hobserves : c.observes = 0)
    (hcounts : c.counts = 0) (hchannel : w'.channel = w.channel) (hhealth : w'.health = w.health)
    (hstats : w'.stats = w.stats) : Counted cfg c w w' where
  channel := by rw [hsent, hchannel, List.append_nil]
  room := by rw [hchannel]; exact Nat.le_max_left ..
  depth := Or.inl (by rw [hhealth])
  observed := by rw [hobserves, hhealth, Nat.add_zero]
  ended := by rw [hcounts, hstats, Nat.add_zero]
  verdicts := by rw [hstats]; exact id
  dead := by rw [hstats]; exact id

theorem counted_raise (w : World) (slot : Nat) {c : Call} (hsent : c.sent = [])
    (hobserves : c.observes = 0) (hcounts : c.counts = 0) :
    Counted cfg c w (w.raiseLastSeenSlot slot) := by
  unfold World.raiseLastSeenSlot
  split
  · exact ⟨by rw [hsent, List.append_nil], Nat.le_max_left .., Or.inl rfl, by
      rw [hobserves, Nat.add_zero], by rw [hcounts, Nat.add_zero], id, id⟩
  · exact counted_of_same hsent hobserves hcounts rfl rfl rfl

theorem counted_of_perform {w w' : World} {c : Call} {choice : c.Choice} {r : c.Reply}
    (h : w.perform cfg c choice = some (r, w')) : Counted cfg c w w' := by
  cases c with
  | sendAndConfirm tx =>
    obtain ⟨chain, rfl, -⟩ := World.performSend_frame h
    exact counted_of_same rfl rfl rfl rfl rfl rfl
  | sendJob job =>
    simp only [World.perform] at h
    split at h
    · next hroom =>
      obtain ⟨-, rfl⟩ := Prod.mk.inj (Option.some.inj h)
      refine ⟨rfl, ?_, Or.inl rfl, rfl, rfl, id, id⟩
      rw [List.length_append]
      exact le_max_of_le_right hroom
    · cases h
  | sql q =>
    obtain rfl := congrArg Prod.snd (Option.some.inj h)
    have hsame : ∀ w' : World, w' = (w.performSql q choice).2 → w'.channel = w.channel ∧
        w'.health = w.health ∧ w'.stats = w.stats := by
      rintro w' rfl
      cases choice <;> simp [World.performSql, World.execStmt_snd]
    obtain ⟨hchannel, hhealth, hstats⟩ := hsame _ rfl
    exact counted_of_same rfl rfl rfl hchannel hhealth hstats
  | setQueueDepth =>
    obtain rfl := congrArg Prod.snd (Option.some.inj h)
    exact ⟨(List.append_nil _).symm, Nat.le_max_left .., Or.inr rfl, rfl, rfl, id, id⟩
  | observeDelivery =>
    obtain rfl := congrArg Prod.snd (Option.some.inj h)
    exact ⟨(List.append_nil _).symm, Nat.le_max_left .., Or.inl rfl, rfl, rfl, id, id⟩
  | observeSlot slot =>
    obtain rfl := congrArg Prod.snd (Option.some.inj h)
    exact counted_raise w slot rfl rfl rfl
  | raiseLastSeenSlot slot =>
    obtain rfl := congrArg Prod.snd (Option.some.inj h)
    exact counted_raise w slot rfl rfl rfl
  | countSettled approved =>
    obtain rfl := congrArg Prod.snd (Option.some.inj h)
    refine counted_of_stats rfl rfl (Nat.add_right_comm ..) (fun h => ?_) id
    dsimp only
    cases approved <;> simp <;> omega
  | countError deadLetter =>
    obtain rfl := congrArg Prod.snd (Option.some.inj h)
    refine counted_of_stats rfl rfl rfl id fun h => ?_
    dsimp only
    cases deadLetter <;> simp <;> omega
  | countEvidenceFailure =>
    obtain rfl := congrArg Prod.snd (Option.some.inj h)
    exact counted_of_stats rfl rfl rfl id id
  | admitRequest now window limit =>
    obtain rfl := congrArg Prod.snd (Option.some.inj h)
    unfold World.admitRequest
    dsimp only
    split <;> exact counted_of_same rfl rfl rfl rfl rfl rfl
  | _ =>
    obtain rfl := congrArg Prod.snd (Option.some.inj h)
    exact counted_of_same rfl rfl rfl rfl rfl rfl

theorem counted_of_race {w w' : World} {c : Call} (hc : c.isPipeline = true)
    {choice : RaceChoice c.Choice} {r : TReply (.race c)}
    (h : w.performTimed cfg (.race c) choice = some (r, w')) : Counted cfg c w w' := by
  have hnone : c.sent = [] ∧ c.observes = 0 ∧ c.counts = 0 := by
    cases c <;> first | exact ⟨rfl, rfl, rfl⟩ | cases hc
  cases choice with
  | finished choice =>
    obtain ⟨p, hp, hr⟩ := Option.map_eq_some_iff.mp h
    obtain ⟨-, rfl⟩ := Prod.mk.inj hr
    exact counted_of_perform hp
  | droppedBefore =>
    obtain ⟨-, rfl⟩ := Prod.mk.inj (Option.some.inj h)
    exact counted_of_same hnone.1 hnone.2.1 hnone.2.2 rfl rfl rfl
  | droppedAfter choice =>
    obtain ⟨p, hp, hr⟩ := Option.map_eq_some_iff.mp h
    obtain ⟨-, rfl⟩ := Prod.mk.inj hr
    exact counted_of_perform hp

/-! ## What is open in a task -/

def closes (c : TCall) (r : TReply c) : Nat := (if skips c r then 1 else 0) + c.base.counts

/-- What is open in a task once a call is answered: in the worker the job it has taken, in the
monitor a job it has announced and not handed over. -/
def openAfter (t : TaskId) (n : Nat) (c : TCall) (r : TReply c) : Nat :=
  match t with
  | .worker => n - closes c r
  | .monitor => n + c.base.observes - c.base.sent.length
  | _ => n

structure Behaves (t : TaskId) (n : Nat) (c : TCall) : Prop where
  raced : ∀ c', c = .race c' → c'.isPipeline = true
  observes : c.base.observes ≠ 0 → t = .monitor ∧ n = 0
  hands : t = .monitor → c.base.sent.length ≤ n + c.base.observes
  counts : c.base.counts ≠ 0 → t = .worker ∨ t.isHandler = true
  closes : t = .worker → ∀ r, closes c r ≤ n

structure Silent (t : TaskId) (c : TCall) : Prop where
  raced : ∀ c', c = .race c' → c'.isPipeline = true
  observes : c.base.observes = 0
  sent : t = .monitor → c.base.sent = []
  counts : c.base.counts = 0
  skips : t = .worker → ∀ r, skips c r = false

def Open (t : TaskId) (n : Nat) (c : TCall) (r : TReply c) (n' : Nat) : Prop :=
  n' = openAfter t n c r

/-- Code with `n` open that closes it before it ends. -/
def Owes (t : TaskId) (n : Nat) (code : TaskCode Unit) : Prop :=
  code.Wp (Open t) (Behaves t) (fun _ n => n = 0) n

theorem Silent.closes {t : TaskId} {c : TCall} (h : Silent t c) (ht : t = .worker) (r : TReply c) :
    closes c r = 0 := by
  rw [Accounting.closes, h.skips ht r, h.counts]
  rfl

theorem Silent.behaves {t : TaskId} {c : TCall} (h : Silent t c) (n : Nat) : Behaves t n c where
  raced := h.raced
  observes hn := absurd h.observes hn
  hands ht := by rw [h.sent ht]; exact Nat.zero_le _
  counts hn := absurd h.counts hn
  closes ht r := by rw [h.closes ht r]; exact Nat.zero_le _

theorem Silent.openAfter {t : TaskId} {c : TCall} (h : Silent t c) (n : Nat) (r : TReply c) :
    openAfter t n c r = n := by
  cases t with
  | worker =>
    show n - Accounting.closes c r = n
    rw [h.closes rfl r, Nat.sub_zero]
  | monitor =>
    show n + c.base.observes - c.base.sent.length = n
    rw [h.observes, h.sent rfl, List.length_nil, Nat.add_zero, Nat.sub_zero]
  | _ => rfl

theorem wp_of_silent {α : Type} {t : TaskId} {p : TaskCode α} (hp : p.Calls (Silent t)) (n : Nat) :
    p.Wp (Open t) (Behaves t) (fun _ m => m = n) n := by
  refine hp.wp (I := fun m => m = n) (fun m c _ hc => hc.behaves m) ?_ rfl
  rintro m c r m' rfl hc rfl
  exact hc.openAfter m r

/-! ## The worker closes what it takes -/

theorem silent_sql {q : Stmt} (hq : ∀ key, q ≠ .isTerminal key) {t : TaskId} :
    Silent t (.await (.sql q)) where
  raced c' h := by cases h
  observes := rfl
  sent _ := rfl
  counts := rfl
  skips _ r := by
    cases q with
    | isTerminal key => exact absurd rfl (hq key)
    | _ => rfl

theorem silent_race {t : TaskId} {c : Call} (hc : c.isPipeline = true) : Silent t (.race c) where
  raced c' h := Timed.race.inj h ▸ hc
  observes := by cases c <;> first | rfl | cases hc
  sent _ := by cases c <;> first | rfl | cases hc
  counts := by cases c <;> first | rfl | cases hc
  skips _ _ := rfl

theorem timedPipeline_silent {t : TaskId} :
    (Worker.timedPipeline crates cfg job).Calls (Silent t) :=
  Prog.calls_timeout Pipeline.runPipeline_calls fun _ => silent_race

theorem recordStatus_silent {t : TaskId} (status : JobStatus) (lastError : Option String)
    (event : LifecycleEvent) (payload : EventPayload) :
    (Db.recordStatus crates job status lastError event payload).lift.Calls (Silent t) := by
  refine ⟨silent_sql (fun _ h => by cases h), fun r _ => ?_⟩
  cases r with
  | error e => trivial
  | ok u => exact ⟨silent_sql (fun _ h => by cases h), fun _ _ => trivial⟩

theorem recordSettled_silent {t : TaskId} (result : EvaluationResult) (sig : Option String)
    (hash : Bytes32) : (Db.recordSettled crates job result sig hash).lift.Calls (Silent t) := by
  refine ⟨silent_sql (fun _ h => by cases h), fun r _ => ?_⟩
  cases r with
  | error e => trivial
  | ok u =>
    refine ⟨silent_sql (fun _ h => by cases h), fun r _ => ?_⟩
    cases r with
    | error e => trivial
    | ok u => exact ⟨silent_sql (fun _ h => by cases h), fun _ _ => trivial⟩

theorem silent_memory {t : TaskId} {c : Call} (hlocal : c.isLocal = true) (hcounts : c.counts = 0)
    (hdedupe : ∀ uid, c ≠ .processedInsert uid) : Silent t (.await c) where
  raced c' h := by cases h
  observes := by cases c <;> first | rfl | cases hlocal
  sent _ := by cases c <;> first | rfl | cases hlocal
  counts := hcounts
  skips _ r := by
    cases c with
    | processedInsert uid => exact absurd rfl (hdedupe uid)
    | sql q => cases hlocal
    | _ => rfl

section Worker
open Worker

theorem skipDuplicate_wp : (skipDuplicate cfg job).Wp (Open .worker) (Behaves .worker)
    (fun skip n => n = if skip then 0 else 1) 1 := by
  have hbehaves : ∀ c : Call, c.observes = 0 → c.sent = [] → c.counts = 0 →
      Behaves .worker 1 (.await c) := fun c hobserves hsent hcounts => {
    raced := fun c' h => (by cases h)
    observes := fun hn => absurd hobserves hn
    hands := fun ht => (by cases ht)
    counts := fun hn => absurd hcounts hn
    closes := fun _ r => by
      show (if skips (.await c) r then 1 else 0) + c.counts ≤ 1
      rw [hcounts]
      split <;> exact Nat.le_of_ble_eq_true rfl }
  unfold skipDuplicate
  split
  · refine ⟨hbehaves _ rfl rfl rfl, fun r n hn => ?_⟩
    rcases r with e | _ | _ <;> exact hn
  · refine ⟨hbehaves _ rfl rfl rfl, fun inserted n hn => ?_⟩
    cases inserted <;> exact hn

theorem recordIntake_silent {t : TaskId} : (recordIntake crates cfg job).Calls (Silent t) := by
  unfold recordIntake
  split
  · exact (recordStatus_silent _ _ _ _).bind fun _ =>
      (recordStatus_silent _ _ _ _).bind fun _ => trivial
  · trivial

theorem startAttempt_silent {t : TaskId} : (startAttempt crates cfg job).Calls (Silent t) := by
  have hcount : (Db.attemptCount job.paymentUid).lift.Calls (Silent t) :=
    ⟨silent_sql (fun _ h => by cases h), fun _ _ => trivial⟩
  unfold startAttempt
  split
  · refine (recordStatus_silent _ _ _ _).bind fun r => ?_
    cases r with
    | error e => trivial
    | ok u =>
      refine hcount.bind fun r => ?_
      cases r <;> trivial
  · exact ⟨silent_memory rfl rfl fun _ h => (by cases h), fun _ _ => trivial⟩

theorem finishSettled_silent {t : TaskId} (outcome : Pipeline.PipelineOutcome) :
    (finishSettled crates cfg job outcome).Calls (Silent t) := by
  unfold finishSettled
  split
  · refine (recordSettled_silent _ _ _).bind fun _ => ?_
    refine Prog.calls_lift Chain.persistSlotWatermark_calls ?_
    rintro c (rfl | ⟨value, rfl⟩)
    · exact silent_memory rfl rfl fun _ h => (by cases h)
    · exact silent_sql fun _ h => by cases h
  · trivial

theorem recordFailure_silent {t : TaskId} (dead : Bool) (msg : String) :
    (recordFailure crates cfg job dead msg).Calls (Silent t) := by
  unfold recordFailure
  split
  · split <;> exact (recordStatus_silent _ _ _ _).bind fun _ => trivial
  · trivial

theorem behaves_count {c : Call} (hlocal : c.isLocal = true) (hcounts : c.counts = 1) :
    Behaves .worker 1 (.await c) ∧ ∀ r, openAfter .worker 1 (.await c) r = 0 := by
  have hcloses : ∀ r, Accounting.closes (.await c) r = 1 := by
    intro r
    cases c with
    | countSettled approved => rfl
    | countError deadLetter => rfl
    | _ => exact absurd hcounts Nat.zero_ne_one
  refine ⟨⟨fun c' h => (by cases h), fun hn => ?_, fun ht => (by cases ht), fun _ => Or.inl rfl,
    fun _ r => (hcloses r).le⟩, fun r => ?_⟩
  · cases c <;> first | exact absurd rfl hn | cases hlocal
  · show 1 - Accounting.closes (.await c) r = 0
    rw [hcloses r]

theorem countFailure_wp (dead : Bool) : (countFailure job dead).Wp (Open .worker) (Behaves .worker)
    (fun _ n => n = 0) 1 := by
  have hcount := fun b => behaves_count (c := .countError b) rfl rfl
  have hremove : Silent .worker (.await (.attemptsRemove job.paymentUid)) :=
    silent_memory rfl rfl fun _ h => by cases h
  have hrelease : Silent .worker (.await (.processedRemove job.paymentUid)) :=
    silent_memory rfl rfl fun _ h => by cases h
  unfold countFailure
  split
  · refine ⟨(hcount true).1, ?_⟩
    rintro r n rfl
    rw [(hcount true).2 r]
    exact ⟨hremove.behaves 0, fun r n hn => hn.trans (hremove.openAfter 0 r)⟩
  · refine ⟨hrelease.behaves 1, ?_⟩
    rintro r n rfl
    rw [hrelease.openAfter 1 r]
    exact ⟨(hcount false).1, fun r n hn => hn.trans ((hcount false).2 r)⟩

theorem finish_wp (attemptCount : UInt32) (result : RunResult) :
    (finish crates cfg job attemptCount result).Wp (Open .worker) (Behaves .worker)
      (fun _ n => n = 0) 1 := by
  have hfailed : ∀ msg, (finishFailed crates cfg job attemptCount msg).Wp (Open .worker)
      (Behaves .worker) (fun _ n => n = 0) 1 := by
    intro msg
    unfold finishFailed
    refine (wp_of_silent (recordFailure_silent _ _) 1).bind fun _ n hn => ?_
    subst hn
    exact (countFailure_wp _).bind fun _ _ hn => hn
  rcases result with _ | e | outcome
  · exact hfailed _
  · exact hfailed _
  · have hcount := behaves_count (c := .countSettled outcome.result.approved) rfl rfl
    have hremove : Silent .worker (.await (.attemptsRemove job.paymentUid)) :=
      silent_memory rfl rfl fun _ h => by cases h
    unfold finish
    refine (wp_of_silent (finishSettled_silent outcome) 1).bind fun _ n hn => ?_
    subst hn
    refine ⟨hcount.1, ?_⟩
    rintro r n rfl
    rw [hcount.2 r]
    exact ⟨hremove.behaves 0, fun r n hn => hn.trans (hremove.openAfter 0 r)⟩

theorem handleJob_owes : Owes .worker 1 (System.workerBody crates cfg job) := by
  have hdepth : Silent .worker (.await .setQueueDepth) :=
    silent_memory rfl rfl fun _ h => by cases h
  have hevaluate : (evaluateJob crates cfg job (timedPipeline crates cfg job)).Wp (Open .worker)
      (Behaves .worker) (fun _ n => n = 0) 1 := by
    unfold evaluateJob
    refine (wp_of_silent recordIntake_silent 1).bind fun _ n hn => ?_
    subst hn
    refine (wp_of_silent startAttempt_silent 1).bind fun attemptCount m hm => ?_
    subst hm
    refine (wp_of_silent timedPipeline_silent 1).bind fun result l hl => ?_
    subst hl
    exact finish_wp attemptCount result
  have hhandle : (handleJob crates cfg job (timedPipeline crates cfg job)).Wp (Open .worker)
      (Behaves .worker) (fun _ n => n = 0) 1 := by
    unfold handleJob
    refine ⟨hdepth.behaves 1, ?_⟩
    rintro r n rfl
    rw [hdepth.openAfter 1 r]
    refine skipDuplicate_wp.bind fun skip m hm => ?_
    subst hm
    cases skip with
    | true => rfl
    | false => exact hevaluate
  exact hhandle.bind fun _ _ hn => hn

end Worker

/-! ## The other tasks -/

section Handler
open Server
variable {n : Nat}

theorem handler_counts {c : Call} (hlocal : c.isLocal = true) (m : Nat) :
    Behaves (.handler n) m (.await c) where
  raced c' h := by cases h
  observes hn := absurd (by cases c <;> first | rfl | cases hlocal) hn
  hands ht := by cases ht
  counts _ := Or.inr rfl
  closes ht := by cases ht

theorem handler_wp {α : Type} {p : TaskCode α}
    (hp : p.Calls fun c => Silent (.handler n) c ∨ ∃ c', c = .await c' ∧ c'.isLocal = true)
    (m : Nat) : p.Wp (Open (.handler n)) (Behaves (.handler n)) (fun _ k => k = m) m := by
  refine hp.wp (I := fun k => k = m) ?_ ?_ rfl
  · rintro k c - (hc | ⟨c', rfl, hc'⟩)
    · exact hc.behaves k
    · exact handler_counts hc' k
  · rintro k c r k' rfl - rfl
    rfl

theorem manualEvaluate_calls (headers : Headers) (paymentPubkey : String) :
    (manualEvaluate crates cfg headers paymentPubkey).Calls fun c =>
      Silent (.handler n) c ∨ ∃ c', c = .await c' ∧ c'.isLocal = true := by
  have hsilent : ∀ {α : Type} {p : TaskCode α}, p.Calls (Silent (.handler n)) →
      p.Calls fun c => Silent (.handler n) c ∨ ∃ c', c = .await c' ∧ c'.isLocal = true :=
    fun hp => hp.mono fun _ => Or.inl
  have hcount : ∀ c : Call, c.isLocal = true → (Worker.await c).Calls fun c =>
      Silent (.handler n) c ∨ ∃ c', c = .await c' ∧ c'.isLocal = true :=
    fun c hc => ⟨Or.inr ⟨c, rfl, hc⟩, fun _ _ => trivial⟩
  have hfailure : ∀ job msg, (recordManualFailure crates cfg job msg).Calls fun c =>
      Silent (.handler n) c ∨ ∃ c', c = .await c' ∧ c'.isLocal = true := by
    intro job msg
    unfold recordManualFailure
    split
    · exact (hsilent (recordStatus_silent _ _ _ _)).bind fun _ => hcount _ rfl
    · exact hcount _ rfl
  have hfinish : ∀ job result, (finishManual crates cfg job result).Calls fun c =>
      Silent (.handler n) c ∨ ∃ c', c = .await c' ∧ c'.isLocal = true := by
    intro job result
    rcases result with _ | e | outcome
    · exact (hfailure _ _).bind fun _ => trivial
    · exact (hfailure _ _).bind fun _ => trivial
    · unfold finishManual recordManualSettled
      dsimp only
      split
      · exact ((hsilent (recordSettled_silent _ _ _)).bind fun _ => hcount _ rfl).bind
          fun _ => trivial
      · exact (hcount _ rfl).bind fun _ => trivial
  unfold manualEvaluate
  refine (Prog.calls_lift (authorizeManualEvaluate_calls headers) fun c hc =>
    Or.inr ⟨c, rfl, hc⟩).bind fun r => ?_
  rcases r with ⟨status, msg⟩ | u
  · trivial
  dsimp only
  split
  · trivial
  next key _ =>
  have hread : Silent (.handler n) (.await (.getAccount key)) :=
    ⟨fun _ h => (by cases h), rfl, fun _ => rfl, rfl, fun ht => (by cases ht)⟩
  refine (Prog.calls_lift (Chain.readPayment_calls key) (by
    rintro c rfl
    exact Or.inl hread)).bind fun r => ?_
  rcases r with e | _ | job
  · trivial
  · trivial
  dsimp only
  unfold evaluateManually
  split
  · exact (hsilent (recordStatus_silent _ _ _ _)).bind fun _ =>
      (hsilent timedPipeline_silent).bind fun result => hfinish job result
  · exact (hsilent timedPipeline_silent).bind fun result => hfinish job result

end Handler

theorem silent_feed {t : TaskId} (ht : t = .monitor ∨ t = .backfill) {c : Call}
    (hfeed : c.isFeed = true) (hobserves : c.observes = 0) (hsent : t = .monitor → c.sent = []) :
    Silent t (.await c) where
  raced c' h := by cases h
  observes := hobserves
  sent := hsent
  counts := by cases c <;> first | rfl | cases hfeed
  skips h := by rcases ht with rfl | rfl <;> cases h

theorem fetchDeliveryJob_silent {t : TaskId} (ht : t = .monitor ∨ t = .backfill) (sig : Signature) :
    (Chain.fetchDeliveryJob crates cfg sig).Calls fun c => Silent t (.await c) := by
  refine Prog.Calls.ask_bind (silent_feed ht rfl rfl fun _ => rfl) fun r => ?_
  cases r with
  | error e => trivial
  | ok enc =>
    refine ((Chain.deliveryJob_calls enc).mono ?_).bind fun _ => trivial
    rintro c ⟨key, rfl⟩
    exact silent_feed ht rfl rfl fun _ => rfl

theorem monitorBody_owes (note : Chain.LogNotification) :
    Owes .monitor 0 (System.monitorBody crates cfg note) := by
  have hslot : Silent .monitor (.await (.observeSlot note.slot)) :=
    silent_feed (Or.inl rfl) rfl rfl fun _ => rfl
  have hannounce : Behaves .monitor 0 (.await .observeDelivery) :=
    ⟨fun _ h => (by cases h), fun _ => ⟨rfl, rfl⟩, fun _ => Nat.zero_le _,
      fun h => absurd rfl h, fun ht => (by cases ht)⟩
  have hhand : ∀ job, Behaves .monitor 1 (.await (.sendJob job)) := fun job =>
    ⟨fun _ h => (by cases h), fun h => absurd rfl h, fun _ => le_rfl, fun h => absurd rfl h,
      fun ht => (by cases ht)⟩
  have hmonitor : (Chain.monitorNotification crates cfg note).Wp
      (fun n c r n' => Open .monitor n (.await c) r n')
      (fun n c => Behaves .monitor n (.await c)) (fun _ n => n = 0) 0 := by
    unfold Chain.monitorNotification
    refine ⟨hslot.behaves 0, ?_⟩
    rintro r n rfl
    rw [hslot.openAfter 0 r]
    split
    · rfl
    split
    · rfl
    next sig _ =>
    refine ((fetchDeliveryJob_silent (Or.inl rfl) sig).wp (I := fun n => n = 0)
      (fun n c _ hc => hc.behaves n) ?_ rfl).bind fun r n hn => ?_
    · rintro n c r n' rfl hc rfl
      exact hc.openAfter 0 r
    subst hn
    rcases r with e | _ | job
    · rfl
    · rfl
    · refine ⟨hannounce, ?_⟩
      rintro r n rfl
      refine ⟨hhand job, ?_⟩
      rintro sent n rfl
      rfl
  exact (Prog.wp_lift hmonitor (fun _ _ h => h) fun _ _ _ _ h => h).bind fun _ _ hn => hn

theorem backfillBody_silent : (System.backfillBody crates cfg).Calls (Silent .backfill) := by
  suffices h : (Chain.backfillMissedDeliveries crates cfg).Calls fun c =>
      Silent .backfill (.await c) from Prog.calls_lift h fun _ hc => hc
  have hfeed : ∀ {c : Call}, c.isFeed = true → c.observes = 0 → Silent .backfill (.await c) :=
    fun hc hobserves => silent_feed (Or.inr rfl) hc hobserves fun h => by cases h
  unfold Chain.backfillMissedDeliveries
  split
  · trivial
  have hread : (Chain.readWatermark cfg).Calls fun c => Silent .backfill (.await c) := by
    unfold Chain.readWatermark
    split
    · refine Prog.Calls.ask_bind (hfeed rfl rfl) fun r => ?_
      rcases r with e | _ | raw <;> trivial
    · trivial
  refine hread.bind fun lastSeenSlot => ?_
  refine (Chain.scanPages_calls_of (fetchDeliveryJob_silent (Or.inr rfl))
    (fun _ => hfeed rfl rfl) (fun _ _ => hfeed rfl rfl) _ _ _).bind fun highestSlot => ?_
  unfold Chain.finishBackfill
  split
  · split
    · exact ⟨hfeed rfl rfl, fun _ _ => ⟨hfeed rfl rfl, fun _ _ => trivial⟩⟩
    · exact ⟨hfeed rfl rfl, fun _ _ => trivial⟩
  · trivial

def first : TaskCode Unit → TaskId → Nat
  | .call _ _, .worker => 1
  | _, _ => 0

theorem entry_owes {t : TaskId} {code : TaskCode Unit} (h : System.Entry crates cfg t code) :
    Owes t (first code t) code := by
  cases h with
  | none t => cases t <;> rfl
  | worker job => exact handleJob_owes
  | monitor note => exact monitorBody_owes note
  | backfill =>
    have hzero : first (System.backfillBody crates cfg) .backfill = 0 := by
      cases System.backfillBody crates cfg <;> rfl
    rw [hzero]
    exact wp_of_silent backfillBody_silent 0
  | handler n headers paymentPubkey =>
    have hzero : first (System.handlerBody crates cfg headers paymentPubkey) (.handler n) = 0 := by
      cases System.handlerBody crates cfg headers paymentPubkey <;> rfl
    rw [hzero]
    exact (handler_wp (manualEvaluate_calls headers paymentPubkey) 0).bind fun _ _ hn => hn

/-! ## The books of a process -/

structure Books (cfg : OracleConfig) (t : Tally) (n : TaskId → Nat) : Prop where
  tasks : ∀ task, Owes task (n task) (t.sys.tasks task)
  le : ∀ task, n task ≤ 1
  worker : t.taken.length = t.skipped + t.counted + n .worker
  monitor : t.sys.world.health.deliveriesObserved = t.heard + n .monitor
  fifo : t.sent = t.taken ++ t.sys.world.channel
  room : t.sys.world.channel.length ≤ cfg.jobChannelCapacity
  depth : t.sys.world.health.queueDepth ≤ cfg.jobChannelCapacity
  ended : t.sys.world.stats.totalEvaluated + t.sys.world.stats.totalErrors = t.counted + t.manual
  verdicts : t.sys.world.stats.totalApproved + t.sys.world.stats.totalRejected =
    t.sys.world.stats.totalEvaluated
  dead : t.sys.world.stats.totalDeadLetter ≤ t.sys.world.stats.totalErrors

variable {t t' : Tally} {n : TaskId → Nat} {a : Act}

theorem openAfter_le {task : TaskId} {c : TCall} {m : Nat} (h : Behaves task m c) (hm : m ≤ 1)
    (r : TReply c) : openAfter task m c r ≤ 1 := by
  cases task with
  | worker => exact (Nat.sub_le _ _).trans hm
  | monitor =>
    refine (Nat.sub_le _ _).trans ?_
    by_cases hzero : c.base.observes = 0
    · rw [hzero]
      exact hm
    · rw [(h.observes hzero).2, Nat.zero_add]
      cases hc : c.base <;> simp [Call.observes]
  | _ => exact hm

theorem books_fresh (sys : System) (hworld : ∃ w, sys.world = World.restart w)
    (htasks : sys.tasks = System.noTasks) : Books cfg (.fresh sys) (fun _ => 0) := by
  obtain ⟨w, hworld⟩ := hworld
  have htask : ∀ task, sys.tasks task = .ret () := fun task => by
    rw [htasks]
    rfl
  refine ⟨fun task => ?_, fun _ => Nat.zero_le _, rfl, ?_, ?_, ?_, ?_, ?_, ?_, ?_⟩
  · show Owes task 0 (sys.tasks task)
    rw [htask]
    rfl
  all_goals
    simp only [Tally.fresh, hworld]
    first | rfl | exact Nat.zero_le _

theorem Books.idle (h : Books cfg t n) {task : TaskId} (hidle : t.sys.isIdle task = true) :
    n task = 0 := by
  have howes := h.tasks task
  rw [Recording.ret_of_isIdle hidle] at howes
  exact howes

theorem Books.world (h : Books cfg t n) {w : World} (hchannel : w.channel = t.sys.world.channel)
    (hhealth : w.health = t.sys.world.health) (hstats : w.stats = t.sys.world.stats) :
    Books cfg { t with sys := ⟨w, t.sys.tasks, t.sys.up⟩ } n := by
  refine ⟨h.tasks, h.le, h.worker, ?_, ?_, ?_, ?_, ?_, ?_, ?_⟩
  · exact hhealth ▸ h.monitor
  · exact hchannel ▸ h.fifo
  · exact hchannel ▸ h.room
  · exact hhealth ▸ h.depth
  · exact hstats ▸ h.ended
  · exact hstats ▸ h.verdicts
  · exact hstats ▸ h.dead

theorem Books.spawn (h : Books cfg t n) {task : TaskId} {code : TaskCode Unit}
    (hentry : System.Entry crates cfg task code) (hworker : task ≠ .worker)
    (hmonitor : task = .monitor → n .monitor = 0) (up : Bool) :
    Books cfg { t with sys := ⟨t.sys.world, Function.update t.sys.tasks task code, up⟩ }
      (Function.update n task 0) := by
  have hfirst : first code task = 0 := by
    cases code <;> cases task <;> first | rfl | exact absurd rfl hworker
  have hcode : Owes task 0 code := hfirst ▸ entry_owes hentry
  have hold : ∀ other, (other = task → n other = 0) → Function.update n task 0 other = n other := by
    intro other hother
    by_cases ht : other = task
    · rw [hother ht, ht, Function.update_self]
    · exact Function.update_of_ne ht ..
  refine ⟨fun other => ?_, fun other => ?_, ?_, ?_, h.fifo, h.room, h.depth, h.ended, h.verdicts,
    h.dead⟩
  · by_cases ht : other = task
    · subst ht
      simp only [Function.update_self]
      exact hcode
    · simp only [Function.update_of_ne ht]
      exact h.tasks other
  · by_cases ht : other = task
    · subst ht
      rw [Function.update_self]
      exact Nat.zero_le _
    · rw [Function.update_of_ne ht]
      exact h.le other
  · rw [hold .worker fun ht => absurd ht.symm hworker]
    exact h.worker
  · rw [hold .monitor fun ht => hmonitor ht.symm]
    exact h.monitor

theorem Books.receive (h : Books cfg t n) {job : EvaluationJob} {rest : List EvaluationJob}
    (hchannel : t.sys.world.channel = job :: rest) (hidle : t.sys.isIdle .worker = true) :
    Books cfg { t with
      sys := ⟨{ t.sys.world with channel := rest },
        Function.update t.sys.tasks .worker (System.workerBody crates cfg job), t.sys.up⟩
      taken := t.taken ++ [job] } (Function.update n .worker 1) := by
  have hn := h.worker
  rw [h.idle hidle] at hn
  refine ⟨fun other => ?_, fun other => ?_, ?_, ?_, ?_, ?_, h.depth, h.ended, h.verdicts, h.dead⟩
  · by_cases ht : other = .worker
    · subst ht
      simp only [Function.update_self]
      exact handleJob_owes
    · simp only [Function.update_of_ne ht]
      exact h.tasks other
  · by_cases ht : other = .worker
    · subst ht
      rw [Function.update_self]
    · rw [Function.update_of_ne ht]
      exact h.le other
  · show (t.taken ++ [job]).length = _
    rw [Function.update_self, List.length_append, hn]
    rfl
  · rw [Function.update_of_ne (fun ht => by cases ht)]
    exact h.monitor
  · show t.sent = t.taken ++ [job] ++ rest
    rw [h.fifo, hchannel, List.append_assoc]
    rfl
  · have hroom := h.room
    rw [hchannel] at hroom
    exact (Nat.le_succ _).trans hroom

theorem counted_of_behaves {task : TaskId} {m : Nat} {c : TCall} (h : Behaves task m c)
    {w w' : World}
    {choice : Timed.Choice c} {r : TReply c} (hw : w.performTimed cfg c choice = some (r, w')) :
    Counted cfg c.base w w' := by
  cases c with
  | await c => exact counted_of_perform hw
  | race c => exact counted_of_race (h.raced c rfl) hw

theorem Books.note (h : Books cfg t n) {task : TaskId} {c : TCall} {k : TReply c → TaskCode Unit}
    (hcode : t.sys.tasks task = .call c k) {choice : Timed.Choice c} {r : TReply c} {w : World}
    (hw : t.sys.world.performTimed cfg c choice = some (r, w)) :
    Books cfg (t.note task c r ({ t.sys with world := w }.spawn task (k r)))
      (Function.update n task (openAfter task (n task) c r)) := by
  have howes := h.tasks task
  rw [hcode] at howes
  have hbehaves : Behaves task (n task) c := howes.1
  have hcounted := counted_of_behaves hbehaves hw
  have hworker := h.worker
  have hmonitor := h.monitor
  refine ⟨fun other => ?_, fun other => ?_, ?_, ?_, ?_, ?_, ?_, ?_, ?_, ?_⟩
  · by_cases ht : other = task
    · subst ht
      simp only [Tally.note, System.spawn, Function.update_self]
      exact howes.2 r _ rfl
    · simp only [Tally.note, System.spawn, Function.update_of_ne ht]
      exact h.tasks other
  · by_cases ht : other = task
    · subst ht
      rw [Function.update_self]
      exact openAfter_le hbehaves (h.le other) r
    · rw [Function.update_of_ne ht]
      exact h.le other
  · by_cases ht : task = .worker
    · subst ht
      have hcloses := hbehaves.closes rfl r
      simp only [Tally.note, Function.update_self, true_and, if_true, openAfter]
      unfold closes at hcloses ⊢
      omega
    · simp only [Tally.note, Function.update_of_ne (Ne.symm ht), ht, false_and, if_false]
      omega
  · show w.health.deliveriesObserved = _
    rw [hcounted.observed]
    by_cases ht : task = .monitor
    · subst ht
      have hhands := hbehaves.hands rfl
      simp only [Tally.note, Function.update_self, if_true, openAfter]
      omega
    · have hobserves : c.base.observes = 0 := by
        by_contra hne
        exact ht (hbehaves.observes hne).1
      simp only [Tally.note, Function.update_of_ne (Ne.symm ht), ht, if_false]
      omega
  · show t.sent ++ c.base.sent = t.taken ++ w.channel
    rw [hcounted.channel, h.fifo, List.append_assoc]
  · exact hcounted.room.trans (max_le h.room le_rfl)
  · show w.health.queueDepth ≤ _
    rcases hcounted.depth with heq | heq
    · exact heq ▸ h.depth
    · exact heq ▸ h.room
  · show w.stats.totalEvaluated + w.stats.totalErrors = _
    rw [hcounted.ended, h.ended]
    by_cases hzero : c.base.counts = 0
    · simp only [Tally.note, hzero, ite_self, Nat.add_zero]
    · rcases hbehaves.counts hzero with rfl | hhandler
      · simp only [Tally.note, if_true, TaskId.isHandler, Bool.false_eq_true, if_false]
        omega
      · have ht : task ≠ .worker := by
          rintro rfl
          cases hhandler
        simp only [Tally.note, if_neg ht, if_pos hhandler]
        omega
  · exact hcounted.verdicts h.verdicts
  · exact hcounted.dead h.dead

theorem books_next (h : Books cfg t n) (hnext : t.next crates cfg a = some t') :
    ∃ n', Books cfg t' n' := by
  cases a with
  | step task choose =>
    simp only [Tally.next] at hnext
    split at hnext
    · cases hnext
    · next c k hcode =>
      obtain ⟨⟨r, w⟩, hw, rfl⟩ := Option.map_eq_some_iff.mp hnext
      exact ⟨_, h.note hcode hw⟩
  | receive =>
    obtain ⟨sys, hsys, rfl⟩ := Option.map_eq_some_iff.mp hnext
    simp only [System.next, System.receive] at hsys
    split at hsys
    · cases hsys
    · next job rest hchannel =>
      obtain ⟨hup, hspawn⟩ := Option.ite_none_right_eq_some.mp hsys
      obtain rfl := Option.some.inj hspawn
      rw [hchannel]
      exact ⟨_, h.receive hchannel (Bool.and_eq_true_iff.mp hup).2⟩
  | crash =>
    obtain rfl := Option.some.inj hnext
    exact ⟨_, books_fresh _ ⟨_, rfl⟩ rfl⟩
  | notify note =>
    obtain ⟨sys, hsys, rfl⟩ := Option.map_eq_some_iff.mp hnext
    obtain ⟨hup, hspawn⟩ := Option.ite_none_right_eq_some.mp hsys
    obtain rfl := Option.some.inj hspawn
    have hidle := h.idle (Bool.and_eq_true_iff.mp hup).2
    exact ⟨_, h.spawn (.monitor note) (fun ht => by cases ht) (fun _ => hidle) _⟩
  | request i headers paymentPubkey =>
    obtain ⟨sys, hsys, rfl⟩ := Option.map_eq_some_iff.mp hnext
    obtain ⟨-, hspawn⟩ := Option.ite_none_right_eq_some.mp hsys
    obtain rfl := Option.some.inj hspawn
    exact ⟨_, h.spawn (.handler i headers paymentPubkey) (fun ht => by cases ht)
      (fun ht => by cases ht) _⟩
  | disconnect i =>
    obtain rfl := Option.some.inj hnext
    have hentry : System.Entry crates cfg (.handler i) (.ret ()) := .none _
    exact ⟨_, h.spawn hentry (fun ht => by cases ht) (fun ht => by cases ht) _⟩
  | start =>
    obtain ⟨sys, hsys, rfl⟩ := Option.map_eq_some_iff.mp hnext
    obtain ⟨-, hspawn⟩ := Option.ite_none_left_eq_some.mp hsys
    obtain rfl := Option.some.inj hspawn
    exact ⟨_, h.spawn .backfill (fun ht => by cases ht) (fun ht => by cases ht) _⟩
  | execLate i now =>
    obtain ⟨sys, hsys, rfl⟩ := Option.map_eq_some_iff.mp hnext
    obtain ⟨q, -, rfl⟩ := Option.map_eq_some_iff.mp hsys
    rw [World.execStmt_snd]
    exact ⟨n, h.world rfl rfl rfl⟩
  | land i =>
    obtain ⟨sys, hsys, rfl⟩ := Option.map_eq_some_iff.mp hnext
    simp only [System.next, System.land] at hsys
    split at hsys
    · cases hsys
    · obtain ⟨-, hland⟩ := Option.ite_none_right_eq_some.mp hsys
      obtain rfl := Option.some.inj hland
      exact ⟨n, h.world rfl rfl rfl⟩
  | resolve uid res =>
    obtain ⟨sys, hsys, rfl⟩ := Option.map_eq_some_iff.mp hnext
    obtain ⟨-, hresolve⟩ := Option.ite_none_right_eq_some.mp hsys
    obtain rfl := Option.some.inj hresolve
    exact ⟨n, h.world rfl rfl rfl⟩

theorem next_sys : (t.next crates cfg a).map Tally.sys = t.sys.next crates cfg a := by
  cases a with
  | step task choose =>
    cases hcode : t.sys.tasks task with
    | ret u => simp only [Tally.next, System.next, System.stepTask, hcode, Option.map_none]
    | call c k =>
      simp only [Tally.next, System.next, System.stepTask, hcode, Option.map_map]
      rfl
  | crash => rfl
  | disconnect i => rfl
  | _ =>
    simp only [Tally.next, Option.map_map]
    exact Option.map_id_apply ..

/-- What the statistics and the channel tell of the jobs of a process. -/
structure Accounted (cfg : OracleConfig) (t : Tally) : Prop where
  fifo : t.sent = t.taken ++ t.sys.world.channel
  room : t.sys.world.channel.length ≤ cfg.jobChannelCapacity
  depth : t.sys.world.health.queueDepth ≤ cfg.jobChannelCapacity
  ended : t.sys.world.stats.totalEvaluated + t.sys.world.stats.totalErrors = t.counted + t.manual
  verdicts : t.sys.world.stats.totalApproved + t.sys.world.stats.totalRejected =
    t.sys.world.stats.totalEvaluated
  dead : t.sys.world.stats.totalDeadLetter ≤ t.sys.world.stats.totalErrors
  /-- but for the job in its hand, the worker has skipped or counted what it took -/
  worker : ∃ n ≤ 1, t.taken.length = t.skipped + t.counted + n ∧
    (t.sys.isIdle .worker = true → n = 0)
  monitor : ∃ n ≤ 1, t.sys.world.health.deliveriesObserved = t.heard + n ∧
    (t.sys.isIdle .monitor = true → n = 0)
  at_rest : AtRest t.sys → t.sent.length = t.skipped + t.counted

theorem Books.accounted (h : Books cfg t n) : Accounted cfg t where
  fifo := h.fifo
  room := h.room
  depth := h.depth
  ended := h.ended
  verdicts := h.verdicts
  dead := h.dead
  worker := ⟨_, h.le _, h.worker, h.idle⟩
  monitor := ⟨_, h.le _, h.monitor, h.idle⟩
  at_rest hrest := by
    rw [h.fifo, hrest.drained, List.append_nil, h.worker, h.idle (hrest.idle .worker), Nat.add_zero]

theorem books_of_reach (ht : Reach (Tally.next crates cfg) (fun _ _ => True) (.fresh .init) t) :
    ∃ n, Books cfg t n := by
  induction ht with
  | first => exact ⟨_, books_fresh .init ⟨.init, rfl⟩ rfl⟩
  | next _ _ hnext ih =>
    obtain ⟨n, hn⟩ := ih
    exact books_next hn hnext

theorem tally_of_reach {s : System}
    (hs : Reach (System.next crates cfg) (fun _ _ => True) .init s) :
    ∃ t, t.sys = s ∧ Reach (Tally.next crates cfg) (fun _ _ => True) (.fresh .init) t := by
  induction hs with
  | first => exact ⟨_, rfl, .first⟩
  | @next s s' a _ _ hnext ih =>
    obtain ⟨t, rfl, ht⟩ := ih
    rw [← next_sys] at hnext
    obtain ⟨t', ht', rfl⟩ := Option.map_eq_some_iff.mp hnext
    exact ⟨t', rfl, .next ht trivial ht'⟩

/-- Every job that was handed over waits in the channel in its turn, or was taken by the worker,
and then skipped or counted, once. -/
theorem jobs_accounted (crates : Crates) (cfg : OracleConfig) (t : Tally)
    (ht : Reach (Tally.next crates cfg) (fun _ _ => True) (.fresh .init) t) : Accounted cfg t := by
  obtain ⟨n, hn⟩ := books_of_reach ht
  exact hn.accounted

def oneDelivery : List Act :=
  .start :: RunLog.delivered ++ RunLog.missedSteps .worker 14 ++ System.toySteps .backfill 2

theorem jobs_accounted_one :
    ∃ t, runActs (Tally.next .toy .toy) oneDelivery (.fresh .init) = some t ∧
      t.sent.length = 1 ∧ t.counted = 1 ∧ Accounted .toy t := by
  have hrun : (runActs (Tally.next .toy .toy) oneDelivery (.fresh .init)).map
      (fun t => (t.sent.length, t.counted)) = some (1, 1) := by decide +kernel
  obtain ⟨t, ht, hcounts⟩ := Option.map_eq_some_iff.mp hrun
  obtain ⟨hsent, hcounted⟩ := Prod.mk.inj hcounts
  exact ⟨t, ht, hsent, hcounted,
    jobs_accounted .toy .toy t (Reach.first.runActs (fun _ _ _ => trivial) ht)⟩

end Accounting
end OracleQa
