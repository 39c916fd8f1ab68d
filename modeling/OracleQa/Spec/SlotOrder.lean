import OracleQa.Spec.Backfill
import OracleQa.Spec.Recording

/-! The slot of the health record only rises. The stored watermark does in runs where the worker
reads no slot below it, and where no write is followed by one that was on its way before. -/

namespace OracleQa.SlotOrder
open Interaction Chain Text
open Watermark (watermark writtenBy watermark_after watermark_setParameter numberedCrates
  numberedChoice)

/-- The basis of what a task may write: what it has read of the watermark or of the health record,
or less. -/
def follows (basis : Nat) : (c : TCall) → TReply c → Nat → Prop
  | .await .lastSeenSlot, slot, basis' => slot < 2 ^ 64 ∧ (slot = 0 ∨ basis' ≤ slot)
  | .await (.sql (.getParameter _)), r, basis' =>
    ∃ raw, r = .ok raw ∧ basis' ≤ (raw.bind parseU64).getD 0
  | .await (.sql (.setParameter _ text)), _, basis' => basis' ≤ (parseU64 text).getD 0
  | .await (.getSignatures _ _), r, basis' =>
    basis' ≤ basis ∧ ∀ page, r = .ok page → ∀ e ∈ page.entries, e.slot < 2 ^ 64
  | _, _, basis' => basis' ≤ basis

def allows (basis : Nat) : TCall → Prop
  | .await (.sql (.getParameter name)) => name = PARAM_LAST_SEEN_SLOT
  | .await (.sql (.setParameter name text)) => name = PARAM_LAST_SEEN_SLOT ∧
    ∃ slot < 2 ^ 64, text = slot.repr ∧ basis ≤ slot
  | .await (.observeSlot slot) => slot < 2 ^ 64
  | .await (.raiseLastSeenSlot slot) => slot < 2 ^ 64
  | .await _ => True
  | .race c => c.isPipeline = true

/-- What the code writes before it reads again is not below the basis, and each later write is not
below what was read for it. -/
def Steady (basis : Nat) (code : TaskCode Unit) : Prop :=
  code.Wp follows allows (fun _ _ => True) basis

variable {crates : Crates} {cfg : OracleConfig} {job : EvaluationJob} {basis basis' : Nat}

/-! ## The code of the tasks -/

def Plain (c : TCall) : Prop := ∀ basis, allows basis c

theorem plain_wp {α : Type} {p : TaskCode α} (hp : p.Calls Plain) (basis : Nat) :
    p.Wp follows allows (fun _ _ => True) basis :=
  hp.wp (I := fun _ => True) (fun basis _ _ hc => hc basis) (fun _ _ _ _ _ _ _ => trivial) trivial

theorem plain_local {c : Call} (h : c.isLocal = true) : Plain (.await c) := by
  intro basis
  cases c <;> trivial

theorem plain_writes {l : List JobStatus} {c : TCall} (h : Writes crates job l c) : Plain c := by
  cases h with
  | job lastError h => exact fun _ => trivial
  | event e => exact fun _ => trivial
  | count => exact fun _ => trivial
  | memory h => exact plain_local h

theorem timedPipeline_plain : (Worker.timedPipeline crates cfg job).Calls Plain :=
  Prog.calls_timeout Pipeline.runPipeline_calls fun _ hc _ => hc

theorem recordSettled_plain (outcome : Pipeline.PipelineOutcome) :
    (Db.recordSettled crates job outcome.result outcome.signature
      outcome.resolutionHash).lift.Calls Plain := by
  refine ⟨fun _ => trivial, fun r _ => ?_⟩
  cases r with
  | error e => trivial
  | ok u =>
    refine ⟨fun _ => trivial, fun r _ => ?_⟩
    cases r with
    | error e => trivial
    | ok u => exact ⟨fun _ => trivial, fun _ _ => trivial⟩

theorem persistSlotWatermark_steady (basis : Nat) :
    persistSlotWatermark.lift.Wp follows allows (fun _ _ => True) basis := by
  refine ⟨trivial, fun slot read hread => ?_⟩
  obtain ⟨hfits, hbasis⟩ : slot < 2 ^ 64 ∧ (slot = 0 ∨ read ≤ slot) := hread
  show (Prog.lift (if slot = 0 then (Prog.ret () : Async Unit) else _)).Wp _ _ _ _
  by_cases hslot : slot = 0
  · rw [if_pos hslot]
    trivial
  · rw [if_neg hslot]
    exact ⟨⟨rfl, slot, hfits, rfl, hbasis.resolve_left hslot⟩, fun _ _ _ => trivial⟩

theorem finish_steady (attemptCount : UInt32) (result : Worker.RunResult) (basis : Nat) :
    (Worker.finish crates cfg job attemptCount result).Wp follows allows (fun _ _ => True)
      basis := by
  have hfailed : ∀ msg, (Worker.finishFailed crates cfg job attemptCount msg).Wp follows allows
      (fun _ _ => True) basis := fun msg =>
    plain_wp ((Worker.finishFailed_calls attemptCount msg).mono fun _ => plain_writes) basis
  rcases result with _ | e | outcome
  · exact hfailed _
  · exact hfailed _
  · have hsettled : (Worker.finishSettled crates cfg job outcome).Wp follows allows
        (fun _ _ => True) basis := by
      unfold Worker.finishSettled
      split
      · exact (plain_wp (recordSettled_plain outcome) basis).bind fun _ basis' _ =>
          persistSlotWatermark_steady basis'
      · trivial
    refine hsettled.bind fun _ basis' _ => plain_wp ?_ basis'
    exact ⟨fun _ => trivial, fun _ _ => ⟨fun _ => trivial, fun _ _ => trivial⟩⟩

theorem workerBody_steady (basis : Nat) : Steady basis (System.workerBody crates cfg job) := by
  have hrest : ∀ basis, (Worker.evaluateJob crates cfg job
      (Worker.timedPipeline crates cfg job)).Wp follows allows (fun _ _ => True) basis := by
    intro basis
    refine (plain_wp (Worker.recordIntake_calls.mono fun _ => plain_writes) basis).bind
      fun _ basis _ => ?_
    refine (plain_wp (Worker.startAttempt_calls.mono fun _ => plain_writes) basis).bind
      fun attemptCount basis _ => ?_
    exact (plain_wp timedPipeline_plain basis).bind fun result basis _ =>
      finish_steady attemptCount result basis
  have hskip : (Worker.skipDuplicate cfg job).Calls Plain := by
    unfold Worker.skipDuplicate
    split
    · refine ⟨fun _ => trivial, fun r _ => ?_⟩
      rcases r with e | terminal
      · trivial
      · cases terminal <;> trivial
    · exact ⟨fun _ => trivial, fun _ _ => trivial⟩
  have hhandle : (Worker.handleJob crates cfg job (Worker.timedPipeline crates cfg job)).Wp follows
      allows (fun _ _ => True) basis := by
    refine ⟨trivial, fun _ basis _ => ?_⟩
    refine (plain_wp hskip basis).bind fun skip basis _ => ?_
    cases skip with
    | true => trivial
    | false => exact hrest basis
  exact hhandle.bind fun _ _ _ => trivial

/-! ## The feed -/

def feeds (basis : Nat) (c : Call) (r : c.Reply) (basis' : Nat) : Prop :=
  follows basis (.await c) r basis'

def mayFeed (basis : Nat) (c : Call) : Prop := allows basis (.await c)

theorem feed_lift {α : Type} {p : Async α} {Q : α → Nat → Prop} (hp : p.Wp feeds mayFeed Q basis) :
    p.lift.Wp follows allows Q basis :=
  Prog.wp_lift hp (fun _ _ h => h) fun _ _ _ _ h => h

theorem fetchDeliveryJob_falls (sig : Signature) (basis : Nat) :
    (fetchDeliveryJob crates cfg sig).Wp feeds mayFeed (fun _ basis' => basis' ≤ basis) basis := by
  refine (Backfill.fetchDeliveryJob_fetch sig).wp (I := fun basis' => basis' ≤ basis) ?_ ?_ le_rfl
  · rintro basis c - (⟨sig, rfl⟩ | ⟨key, rfl⟩)
    · trivial
    · trivial
  · rintro basis' c r next hle (⟨sig, rfl⟩ | ⟨key, rfl⟩) hnext
    · exact le_trans hnext hle
    · exact le_trans hnext hle

def Good (cfg : OracleConfig) (highest basis : Nat) : Prop :=
  (cfg.databaseEnabled = true → basis ≤ highest) ∧ highest < 2 ^ 64

theorem Good.mono {highest : Nat} (h : Good cfg highest basis) (hle : basis' ≤ basis) :
    Good cfg highest basis' := ⟨fun hdb => hle.trans (h.1 hdb), h.2⟩

theorem Good.raise {highest slot : Nat} (h : Good cfg highest basis) (hslot : slot < 2 ^ 64) :
    Good cfg (if slot > highest then slot else highest) basis := by
  refine ⟨fun hdb => ?_, ?_⟩
  · have hbasis := h.1 hdb
    split <;> omega
  · have hfits := h.2
    split <;> omega

def highestOf : PageEnd → Nat
  | .stopped highest => highest
  | .scanned _ highest => highest

theorem scanEntries_good {w highest : Nat} {before : Option Signature} {es : List SignatureEntry}
    (hes : ∀ e ∈ es, e.slot < 2 ^ 64) (hgood : Good cfg highest basis) :
    (scanEntries crates cfg w es before highest).Wp feeds mayFeed
      (fun pageEnd basis' => Good cfg (highestOf pageEnd) basis') basis := by
  refine scanEntries_rule (Good cfg) (fun e he _ _ hgood => hgood.raise (hes e he))
    (fun sig highest basis hgood => ?_) (fun _ _ hgood => hgood) (fun _ _ _ hgood => hgood) hgood
  refine (fetchDeliveryJob_falls sig basis).mono fun r basis₁ hle => ⟨hgood.mono hle, ?_⟩
  exact fun job _ => ⟨trivial, fun sent basis₂ hsent => hgood.mono (le_trans hsent hle)⟩

theorem scanPages_good {w left highest : Nat} {before : Option Signature}
    (hgood : Good cfg highest basis) : (scanPages crates cfg w left before highest).Wp feeds mayFeed
      (fun result basis' => Good cfg result basis') basis := by
  refine scanPages_rule (Q := fun pageEnd basis' => Good cfg (highestOf pageEnd) basis') (Good cfg)
    (fun before limit highest basis hgood => ?_) (fun _ _ hgood => hgood)
    (fun _ _ _ hgood => hgood) hgood
  refine ⟨trivial, fun reply basis' hreply => ?_⟩
  obtain ⟨hle, hfits⟩ : basis' ≤ basis ∧ ∀ page, reply = .ok page → ∀ e ∈ page.entries,
    e.slot < 2 ^ 64 := hreply
  exact ⟨hgood.mono hle, fun page hpage => scanEntries_good (hfits page hpage) (hgood.mono hle)⟩

theorem readWatermark_good (basis : Nat) :
    (readWatermark cfg).Wp feeds mayFeed (fun w basis' => Good cfg w basis') basis := by
  unfold readWatermark
  split
  · refine ⟨rfl, fun reply basis' hreply => ?_⟩
    obtain ⟨raw, rfl, hle⟩ : ∃ raw, reply = .ok raw ∧ basis' ≤ (raw.bind parseU64).getD 0 := hreply
    cases raw with
    | none => exact ⟨fun _ => hle, by decide⟩
    | some text => exact ⟨fun _ => hle, parseU64_lt text⟩
  · next hdb => exact ⟨fun h => absurd h hdb, by decide⟩

theorem finishBackfill_steady {highest : Nat} (hgood : Good cfg highest basis) :
    (finishBackfill cfg highest).Wp feeds mayFeed (fun _ _ => True) basis := by
  unfold finishBackfill
  split
  · split
    · next hdb =>
      refine ⟨⟨rfl, highest, hgood.2, rfl, hgood.1 hdb⟩, fun _ _ _ => ⟨hgood.2, ?_⟩⟩
      exact fun _ _ _ => trivial
    · exact ⟨hgood.2, fun _ _ _ => trivial⟩
  · trivial

theorem backfillBody_steady (basis : Nat) : Steady basis (System.backfillBody crates cfg) := by
  refine feed_lift ?_
  unfold backfillMissedDeliveries
  split
  · trivial
  refine (readWatermark_good basis).bind fun w basis₁ hread => ?_
  refine (scanPages_good hread).bind fun highest basis₂ hscan => ?_
  exact finishBackfill_steady hscan

theorem monitorBody_steady {note : LogNotification} (hslot : note.slot < 2 ^ 64) (basis : Nat) :
    Steady basis (System.monitorBody crates cfg note) := by
  have hfetch : ∀ {α : Type} (sig : Signature) (f : Except OracleError (Option EvaluationJob) →
      Async α), (∀ r basis, (f r).Wp feeds mayFeed (fun _ _ => True) basis) → ∀ basis,
      (fetchDeliveryJob crates cfg sig >>= f).Wp feeds mayFeed (fun _ _ => True) basis :=
    fun sig f hf basis => (fetchDeliveryJob_falls sig basis).bind fun r basis' _ => hf r basis'
  have hnote : (monitorNotification crates cfg note).Wp feeds mayFeed (fun _ _ => True) basis := by
    refine ⟨hslot, fun _ basis _ => ?_⟩
    split
    · trivial
    split
    · trivial
    refine hfetch _ _ (fun r basis => ?_) basis
    rcases r with e | _ | job
    · trivial
    · trivial
    · exact ⟨trivial, fun _ _ _ => ⟨trivial, fun _ _ _ => trivial⟩⟩
  exact (feed_lift hnote).bind fun _ _ _ => trivial

theorem handlerBody_plain (headers : Server.Headers) (paymentPubkey : String) :
    (System.handlerBody crates cfg headers paymentPubkey).Calls Plain := by
  have hfinish : ∀ job result, (Server.finishManual crates cfg job result).Calls Plain := by
    intro job result
    have hfailed : ∀ msg, (Server.recordManualFailure crates cfg job msg).Calls Plain :=
      fun msg => (Server.recordManualFailure_calls msg).mono fun _ => plain_writes
    rcases result with _ | e | outcome
    · exact (hfailed _).bind fun _ => trivial
    · exact (hfailed _).bind fun _ => trivial
    · have hsettled : (Server.recordManualSettled crates cfg job outcome).Calls Plain := by
        unfold Server.recordManualSettled
        split
        · exact (recordSettled_plain outcome).bind fun _ => ⟨fun _ => trivial, fun _ _ => trivial⟩
        · exact ⟨fun _ => trivial, fun _ _ => trivial⟩
      exact hsettled.bind fun _ => trivial
  have hevaluate : ∀ job, (Server.evaluateManually crates cfg job
      (Worker.timedPipeline crates cfg job)).Calls Plain := by
    intro job
    have hrun : (Worker.timedPipeline crates cfg job >>=
        Server.finishManual crates cfg job).Calls Plain := timedPipeline_plain.bind (hfinish job)
    unfold Server.evaluateManually
    split
    · have hqueued : (Db.recordQueued crates job).lift.Calls Plain :=
        (Db.recordStatus_calls _ _ _ _).mono fun _ => plain_writes
      exact hqueued.bind fun _ => hrun
    · exact hrun
  have hauthorize : (Server.authorizeManualEvaluate crates cfg headers).lift.Calls Plain :=
    Prog.calls_lift (Server.authorizeManualEvaluate_calls headers) fun _ => plain_local
  have hmanual : (Server.manualEvaluate crates cfg headers paymentPubkey).Calls Plain := by
    unfold Server.manualEvaluate
    refine hauthorize.bind fun r => ?_
    rcases r with ⟨status, msg⟩ | token
    · trivial
    dsimp only
    split
    · trivial
    have hread : ∀ key, (readPayment crates cfg key).lift.Calls Plain := fun key =>
      Prog.calls_lift (readPayment_calls key) fun c hc => hc ▸ fun _ => trivial
    refine (hread _).bind fun r => ?_
    rcases r with e | _ | job
    · trivial
    · trivial
    · exact hevaluate job
  exact hmanual.bind fun _ => trivial

/-! ## The slot of the health record -/

section
variable {w w' : World}

theorem perform_lastSeenSlot {c : Call} {choice : c.Choice} {r : c.Reply}
    (h : w.perform cfg c choice = some (r, w')) :
    w'.health.lastSeenSlot = w.health.lastSeenSlot ∨
      ∃ slot, (c = .observeSlot slot ∨ c = .raiseLastSeenSlot slot) ∧
        w'.health.lastSeenSlot = max w.health.lastSeenSlot slot := by
  have hraise : ∀ slot, (w.raiseLastSeenSlot slot).health.lastSeenSlot =
      max w.health.lastSeenSlot slot := by
    intro slot
    unfold World.raiseLastSeenSlot
    split
    · next hlt => exact (max_eq_right hlt.le).symm
    · next hle => exact (max_eq_left (Nat.not_lt.mp hle)).symm
  cases c with
  | observeSlot slot =>
    obtain ⟨-, rfl⟩ := Prod.mk.inj (Option.some.inj h)
    exact Or.inr ⟨slot, Or.inl rfl, hraise slot⟩
  | raiseLastSeenSlot slot =>
    obtain ⟨-, rfl⟩ := Prod.mk.inj (Option.some.inj h)
    exact Or.inr ⟨slot, Or.inr rfl, hraise slot⟩
  | sql q =>
    obtain rfl := (Prod.mk.inj (Option.some.inj h)).2
    cases choice with
    | done now => exact Or.inl (congrArg (·.health.lastSeenSlot) (World.execStmt_snd w now q))
    | lost now e => exact Or.inl (congrArg (·.health.lastSeenSlot) (World.execStmt_snd w now q))
    | refused e => exact Or.inl rfl
    | late e => exact Or.inl rfl
  | sendAndConfirm tx =>
    obtain ⟨chain, rfl, -⟩ := World.performSend_frame h
    exact Or.inl rfl
  | sendJob job =>
    obtain ⟨-, hs⟩ := Option.ite_none_right_eq_some.mp h
    obtain ⟨-, rfl⟩ := Prod.mk.inj (Option.some.inj hs)
    exact Or.inl rfl
  | admitRequest now window limit =>
    obtain rfl := congrArg Prod.snd (Option.some.inj h)
    unfold World.admitRequest
    dsimp only
    split <;> exact Or.inl rfl
  | _ =>
    obtain rfl := congrArg Prod.snd (Option.some.inj h)
    exact Or.inl rfl

theorem performTimed_lastSeenSlot {c : TCall} {choice : Timed.Choice c} {r : TReply c}
    (h : w.performTimed cfg c choice = some (r, w')) :
    w'.health.lastSeenSlot = w.health.lastSeenSlot ∨
      ∃ slot, (c.base = .observeSlot slot ∨ c.base = .raiseLastSeenSlot slot) ∧
        w'.health.lastSeenSlot = max w.health.lastSeenSlot slot := by
  cases c with
  | await c => exact perform_lastSeenSlot h
  | race c =>
    cases choice with
    | finished choice =>
      obtain ⟨⟨r', w''⟩, hp, heq⟩ := Option.map_eq_some_iff.mp h
      obtain ⟨-, rfl⟩ := Prod.mk.inj heq
      exact perform_lastSeenSlot hp
    | droppedBefore =>
      obtain ⟨-, rfl⟩ := Prod.mk.inj (Option.some.inj h)
      exact Or.inl rfl
    | droppedAfter choice =>
      obtain ⟨⟨r', w''⟩, hp, heq⟩ := Option.map_eq_some_iff.mp h
      obtain ⟨-, rfl⟩ := Prod.mk.inj heq
      exact perform_lastSeenSlot hp

end

/-! ## Steps of the system -/

abbrev lastSeenSlot (s : System) : Nat := s.world.health.lastSeenSlot

abbrev stored (s : System) : Nat := watermark s.world.ledger

def Granted : Act → Prop
  | .step _ choose => (∀ q, ∃ now, choose (.await (.sql q)) = .done now) ∧
    ∀ before limit page, choose (.await (.getSignatures before limit)) = .ok page →
      ∀ e ∈ page.entries, e.slot < 2 ^ 64
  | .notify note => note.slot < 2 ^ 64
  | .execLate _ _ => False
  | _ => True

def actor : Act → Option TaskId
  | .step t _ => some t
  | _ => none

/-- A slot is read that is not below the stored one, and a slot is written when nothing below it
is on its way. -/
structure Orderly (s : System) (a : Act) : Prop where
  read : Watermark.Tracked.call s a = some (.await .lastSeenSlot) →
    lastSeenSlot s = 0 ∨ stored s ≤ lastSeenSlot s
  alone : ∀ slot, writtenBy (s.executed a) = some slot →
    ∀ t, actor a ≠ some t → Steady slot (s.tasks t)

structure Inv (s : System) : Prop where
  steady : ∀ t, Steady (stored s) (s.tasks t)
  fits : lastSeenSlot s < 2 ^ 64

theorem inv_init : Inv .init := ⟨fun _ => trivial, by decide⟩

section
variable {s s' : System} {a : Act}

theorem written_allowed {c : TCall} {choice : Timed.Choice c} {slot : Nat} (hc : allows basis c)
    (h : writtenBy (Timed.executed c choice) = some slot) :
    ∃ name text, c = .await (.sql (.setParameter name text)) ∧ basis ≤ slot := by
  cases hexecuted : Timed.executed c choice with
  | none =>
    rw [hexecuted] at h
    cases h
  | some executed =>
    obtain ⟨now, q⟩ := executed
    have hbase := Timed.executed_base hexecuted
    rw [hexecuted] at h
    cases q with
    | setParameter name text =>
      obtain ⟨hname, hslot⟩ := Option.ite_none_right_eq_some.mp h
      cases c with
      | await c =>
        obtain rfl : c = .sql (.setParameter name text) := hbase
        obtain ⟨-, v, hfits, rfl, hle⟩ := hc
        rw [parseU64_repr hfits] at hslot
        obtain rfl := Option.some.inj hslot
        exact ⟨name, _, rfl, hle⟩
      | race c =>
        obtain rfl : c = .sql (.setParameter name text) := hbase
        cases hc
    | _ => cases h

theorem step_follows (hi : Inv s) {t : TaskId} {choose : (c : TCall) → Timed.Choice c} {c : TCall}
    {k : TReply c → TaskCode Unit} {r : TReply c} {w : World} (hcode : s.tasks t = .call c k)
    (hw : s.world.performTimed cfg c (choose c) = some (r, w)) (hgranted : Granted (.step t choose))
    (horderly : Orderly s (.step t choose)) : follows (stored s) c r (watermark w.ledger) := by
  have hc : allows (stored s) c := by
    have hsteady := hi.steady t
    rw [hcode] at hsteady
    exact hsteady.1
  have hwatermark : watermark w.ledger =
      (writtenBy (Timed.executed c (choose c))).getD (stored s) := by
    rw [(World.performTimed_frame hw).ledger, watermark_after]
  -- only a write of the parameter can raise the watermark
  have hother : (∀ name text, c ≠ .await (.sql (.setParameter name text))) →
      watermark w.ledger ≤ stored s := by
    intro hne
    rw [hwatermark]
    cases hwritten : writtenBy (Timed.executed c (choose c)) with
    | none => exact le_rfl
    | some slot =>
      obtain ⟨name, text, rfl, -⟩ := written_allowed hc hwritten
      exact absurd rfl (hne name text)
  cases c with
  | race c => exact hother fun _ _ heq => by cases heq
  | await c =>
    cases c with
    | lastSeenSlot =>
      obtain ⟨rfl, rfl⟩ := Prod.mk.inj (Option.some.inj hw)
      exact ⟨hi.fits, horderly.read (by rw [Watermark.Tracked.call, hcode])⟩
    | getSignatures before limit =>
      obtain ⟨rfl, rfl⟩ := Prod.mk.inj (Option.some.inj hw)
      exact ⟨le_rfl, hgranted.2 before limit⟩
    | sql q =>
      obtain ⟨now, hdone⟩ := hgranted.1 q
      rw [hdone] at hw
      cases q with
      | getParameter name =>
        obtain rfl : name = PARAM_LAST_SEEN_SLOT := hc
        obtain ⟨rfl, rfl⟩ := Prod.mk.inj (Option.some.inj hw)
        exact ⟨_, rfl, le_rfl⟩
      | setParameter name text =>
        obtain rfl : name = PARAM_LAST_SEEN_SLOT := hc.1
        obtain ⟨-, rfl⟩ := Prod.mk.inj (Option.some.inj hw)
        exact (watermark_setParameter s.world.ledger text).le
      | _ => exact hother fun _ _ heq => by cases heq
    | _ => exact hother fun _ _ heq => by cases heq

theorem inv_step (hi : Inv s) {t : TaskId} {choose : (c : TCall) → Timed.Choice c}
    (hgranted : Granted (.step t choose)) (horderly : Orderly s (.step t choose))
    (h : s.next crates cfg (.step t choose) = some s') : Inv s' ∧ stored s ≤ stored s' := by
  obtain ⟨c, k, r, hcode, hw, htasks⟩ := System.next_step h
  have hsteady := hi.steady t
  rw [hcode] at hsteady
  obtain ⟨hc, hnext⟩ := hsteady
  have hwatermark : stored s' = (writtenBy (s.executed (.step t choose))).getD (stored s) := by
    rw [stored, (System.next_move h).ledger, watermark_after]
  have hexecuted : s.executed (.step t choose) = Timed.executed c (choose c) := by
    rw [System.executed, hcode]
  have hfollows := step_follows hi hcode hw hgranted horderly
  refine ⟨⟨fun t' => ?_, ?_⟩, ?_⟩
  · rw [htasks]
    by_cases ht : t' = t
    · subst ht
      rw [Function.update_self]
      exact hnext r _ hfollows
    · have hactor : actor (.step t choose) ≠ some t' :=
        fun heq => ht (Option.some.inj heq).symm
      rw [Function.update_of_ne ht, hwatermark]
      -- the other tasks: their basis rises with what this one writes
      cases hwritten : writtenBy (s.executed (.step t choose)) with
      | none => exact hi.steady t'
      | some slot => exact horderly.alone slot hwritten t' hactor
  · have hfits := hi.fits
    rcases performTimed_lastSeenSlot hw with heq | ⟨slot, hcall, heq⟩
    · rwa [lastSeenSlot, heq]
    · have hslot : slot < 2 ^ 64 := by
        cases c with
        | await c => rcases hcall with rfl | rfl <;> exact hc
        | race c => rcases hcall with rfl | rfl <;> cases hc
      rw [lastSeenSlot, heq]
      exact max_lt hfits hslot
  · rw [hwatermark]
    cases hwritten : writtenBy (s.executed (.step t choose)) with
    | none => exact le_rfl
    | some slot =>
      rw [hexecuted] at hwritten
      obtain ⟨name, text, -, hle⟩ := written_allowed hc hwritten
      exact hle

theorem inv_spawn (hi : Inv s) {t : TaskId} {code : TaskCode Unit} {w : World}
    (hcode : ∀ basis, Steady basis code) (hledger : w.ledger = s.world.ledger)
    (hhealth : w.health = s.world.health) {up : Bool} :
    Inv (System.spawn ⟨w, s.tasks, up⟩ t code) ∧
      stored s ≤ stored (System.spawn ⟨w, s.tasks, up⟩ t code) := by
  refine ⟨⟨fun t' => ?_, ?_⟩, ?_⟩
  · show Steady (watermark w.ledger) (Function.update s.tasks t code t')
    rw [hledger]
    by_cases ht : t' = t
    · subst ht
      rw [Function.update_self]
      exact hcode _
    · rw [Function.update_of_ne ht]
      exact hi.steady t'
  · show w.health.lastSeenSlot < 2 ^ 64
    rw [hhealth]
    exact hi.fits
  · show watermark s.world.ledger ≤ watermark w.ledger
    rw [hledger]

theorem inv_next (hi : Inv s) (hgranted : Granted a) (horderly : Orderly s a)
    (h : s.next crates cfg a = some s') : Inv s' ∧ stored s ≤ stored s' := by
  cases a with
  | step t choose => exact inv_step hi hgranted horderly h
  | receive =>
    simp only [System.next, System.receive] at h
    split at h
    · cases h
    · next job rest hchannel =>
      obtain ⟨-, hs⟩ := Option.ite_none_right_eq_some.mp h
      obtain rfl := Option.some.inj hs
      exact inv_spawn (w := { s.world with channel := rest }) hi workerBody_steady rfl rfl
  | notify note =>
    obtain ⟨-, hs⟩ := Option.ite_none_right_eq_some.mp h
    obtain rfl := Option.some.inj hs
    exact inv_spawn hi (monitorBody_steady hgranted) rfl rfl
  | request n headers paymentPubkey =>
    obtain ⟨-, hs⟩ := Option.ite_none_right_eq_some.mp h
    obtain rfl := Option.some.inj hs
    exact inv_spawn hi (plain_wp (handlerBody_plain headers paymentPubkey)) rfl rfl
  | disconnect n =>
    obtain rfl := Option.some.inj h
    have hret : ∀ basis, Steady basis (.ret ()) := fun _ => trivial
    exact inv_spawn hi hret rfl rfl
  | execLate i now => exact hgranted.elim
  | land i =>
    simp only [System.next, System.land] at h
    split at h
    · cases h
    · obtain ⟨-, hs⟩ := Option.ite_none_right_eq_some.mp h
      obtain rfl := Option.some.inj hs
      exact ⟨⟨hi.steady, hi.fits⟩, le_rfl⟩
  | resolve uid res =>
    obtain ⟨-, hs⟩ := Option.ite_none_right_eq_some.mp h
    obtain rfl := Option.some.inj hs
    exact ⟨⟨hi.steady, hi.fits⟩, le_rfl⟩
  | crash =>
    obtain rfl := Option.some.inj h
    -- the ledger outlives the process, the health record does not
    exact ⟨⟨fun _ => trivial, Nat.two_pow_pos 64⟩, le_rfl⟩
  | start =>
    obtain ⟨-, hs⟩ := Option.ite_none_left_eq_some.mp h
    obtain rfl := Option.some.inj hs
    exact inv_spawn hi backfillBody_steady rfl rfl

theorem lastSeenSlot_next (hcrash : a ≠ .crash) (h : s.next crates cfg a = some s') :
    lastSeenSlot s ≤ lastSeenSlot s' := by
  cases System.next_move h with
  | call hcode hw =>
    rcases performTimed_lastSeenSlot hw with heq | ⟨slot, -, heq⟩
    · exact heq.ge
    · exact (le_max_left _ slot).trans heq.ge
  | crash => exact absurd rfl hcrash
  | _ => exact le_rfl

end

/-! ## Runs in which the tasks take turns -/

def soleStep (t : TaskId) (s : System) : Act → Bool
  | .step t' _ => t' = t && match s.tasks t with
    | .call (.await .lastSeenSlot) _ => lastSeenSlot s = 0 || stored s ≤ lastSeenSlot s
    | _ => true
  | _ => false

theorem orderly_of_sole {s : System} {a : Act} {t : TaskId}
    (hfree : ∀ t', t' ≠ t → ∀ basis, Steady basis (s.tasks t')) (h : soleStep t s a = true) :
    Orderly s a := by
  cases a with
  | step t' choose =>
    obtain ⟨ht, hreads⟩ := Bool.and_eq_true_iff.mp h
    obtain rfl : t' = t := of_decide_eq_true ht
    refine ⟨fun hcall => ?_, fun slot _ t'' ht'' => hfree t'' (fun heq => ht'' (heq ▸ rfl)) slot⟩
    cases hcode : s.tasks t' with
    | ret u =>
      rw [Watermark.Tracked.call, hcode] at hcall
      cases hcall
    | call c k =>
      rw [Watermark.Tracked.call, hcode] at hcall
      obtain rfl := Option.some.inj hcall
      simpa only [hcode, Bool.or_eq_true, decide_eq_true_eq] using hreads
  | _ => cases h

theorem reach_of_sole {first s s' : System} {t : TaskId} {as : List Act}
    (hs : Reach (System.next crates cfg) (fun s a => Granted a ∧ Orderly s a) first s)
    (hfree : ∀ t', t' ≠ t → ∀ basis, Steady basis (s.tasks t')) (hgranted : ∀ a ∈ as, Granted a)
    (hrun : runChecked (System.next crates cfg) (soleStep t) as s = some s') :
    Reach (System.next crates cfg) (fun s a => Granted a ∧ Orderly s a) first s' ∧
      ∀ t', t' ≠ t → s'.tasks t' = s.tasks t' := by
  induction as generalizing s with
  | nil =>
    obtain rfl := Option.some.inj hrun
    exact ⟨hs, fun _ _ => rfl⟩
  | cons a as ih =>
    rw [runChecked] at hrun
    split at hrun
    · next hsole =>
      obtain ⟨s₁, hnext, hrest⟩ := Option.bind_eq_some_iff.mp hrun
      have hsame : ∀ t', t' ≠ t → s₁.tasks t' = s.tasks t' := by
        intro t' ht'
        cases a with
        | step t₀ choose =>
          obtain rfl : t₀ = t := of_decide_eq_true (Bool.and_eq_true_iff.mp hsole).1
          obtain ⟨c, k, r, -, -, htasks⟩ := System.next_step hnext
          rw [htasks, Function.update_of_ne ht']
        | _ => cases hsole
      obtain ⟨hgranted₀, hgranted'⟩ := List.forall_mem_cons.mp hgranted
      have hs₁ := Reach.next hs ⟨hgranted₀, orderly_of_sole hfree hsole⟩ hnext
      obtain ⟨hs', htasks⟩ := ih hs₁ (fun t' ht' => hsame t' ht' ▸ hfree t' ht') hgranted' hrest
      exact ⟨hs', fun t' ht' => (htasks t' ht').trans (hsame t' ht')⟩
    · cases hrun

def pagedChoice (slot : Fin 16) : (c : TCall) → Timed.Choice c
  | .await (.getSignatures _ limit) =>
    .ok ⟨[⟨"a", slot, true⟩].take limit, List.length_take_le limit _⟩
  | c => numberedChoice c

theorem pagedChoice_granted (slot : Fin 16) (t : TaskId) :
    Granted (.step t (pagedChoice slot)) := by
  refine ⟨fun q => ⟨0, rfl⟩, fun before limit page hpage e he => ?_⟩
  obtain rfl := Except.ok.inj hpage
  rw [List.mem_singleton.mp (List.mem_of_mem_take he)]
  exact slot.isLt.trans (by decide)

def paged (slot : Fin 16) (t : TaskId) (n : Nat) : List Act :=
  List.replicate n (.step t (pagedChoice slot))

theorem paged_granted {slot : Fin 16} {t : TaskId} {n : Nat} :
    ∀ a ∈ paged slot t n, Granted a := by
  intro a ha
  rw [(List.mem_replicate.mp ha).2]
  exact pagedChoice_granted slot t

/-- The slot of the health record only rises while the process runs, and the stored watermark does
in every orderly run, whatever crashes it goes through. -/
theorem slots_monotone (crates : Crates) (cfg : OracleConfig) (s s' : System) :
    (Reach (System.next crates cfg) (fun _ a => a ≠ .crash) s s' →
      lastSeenSlot s ≤ lastSeenSlot s') ∧
    (Reach (System.next crates cfg) (fun s a => Granted a ∧ Orderly s a) .init s →
      Reach (System.next crates cfg) (fun s a => Granted a ∧ Orderly s a) s s' →
      stored s ≤ stored s') := by
  refine ⟨fun hrun => ?_, fun hs hrun => ?_⟩
  · induction hrun with
    | first => exact le_rfl
    | next _ hcrash hstep ih => exact ih.trans (lastSeenSlot_next hcrash hstep)
  · have hinv : Inv s := hs.invariant inv_init fun _ _ _ hi hg h => (inv_next hi hg.1 hg.2 h).1
    have hboth : Inv s' ∧ stored s ≤ stored s' := by
      induction hrun with
      | first => exact ⟨hinv, le_rfl⟩
      | next _ hg hstep ih =>
        obtain ⟨hi, hle⟩ := ih
        obtain ⟨hi', hstored⟩ := inv_next hi hg.1 hg.2 hstep
        exact ⟨hi', hle.trans hstored⟩
    exact hboth.2

def heard : List Act := [.start, .notify ⟨9, "a", ["Program data: "]⟩]

theorem heard_granted (s : System) : ∀ a ∈ heard, Granted a ∧ Orderly s a := by
  simp only [heard, List.forall_mem_cons]
  exact ⟨⟨trivial, nofun, nofun⟩, ⟨show 9 < 2 ^ 64 by decide, nofun, nofun⟩, List.forall_mem_nil _⟩

theorem slots_monotone_beside :
    ∃ s s', runActs (System.next numberedCrates .toy)
        (heard ++ paged 12 .monitor 5 ++ [.receive] ++ paged 12 .worker 24) .init = some s ∧
      runActs (System.next numberedCrates .toy) (paged 12 .backfill 4) s = some s' ∧
      stored s = 9 ∧ stored s' = 12 ∧ stored s ≤ stored s' := by
  have hview : ((runActs (System.next numberedCrates .toy) heard .init).bind fun s₁ =>
      (runChecked (System.next numberedCrates .toy) (soleStep .monitor) (paged 12 .monitor 5)
        s₁).bind fun s₂ => (s₂.next numberedCrates .toy .receive).bind fun s₃ =>
      (runChecked (System.next numberedCrates .toy) (soleStep .worker) (paged 12 .worker 24)
        s₃).bind fun s =>
      (runChecked (System.next numberedCrates .toy) (soleStep .backfill) (paged 12 .backfill 4)
        s).map fun s' => (s₂.isIdle .monitor, s.isIdle .worker, stored s, stored s')) =
        some (true, true, 9, 12) := by
    decide +kernel
  obtain ⟨s₁, hrun₁, hview⟩ := Option.bind_eq_some_iff.mp hview
  obtain ⟨s₂, hrun₂, hview⟩ := Option.bind_eq_some_iff.mp hview
  obtain ⟨s₃, hrun₃, hview⟩ := Option.bind_eq_some_iff.mp hview
  obtain ⟨s, hrun, hview⟩ := Option.bind_eq_some_iff.mp hview
  obtain ⟨s', hrun', hview⟩ := Option.map_eq_some_iff.mp hview
  obtain ⟨hmonitor, hview⟩ := Prod.mk.inj hview
  obtain ⟨hworker, hview⟩ := Prod.mk.inj hview
  obtain ⟨hstored, hstored'⟩ := Prod.mk.inj hview
  have hfree₁ : ∀ t, t ≠ .monitor → ∀ basis, Steady basis (s₁.tasks t) := by
    obtain rfl := Option.some.inj hrun₁
    intro t ht basis
    cases t with
    | monitor => exact absurd rfl ht
    | backfill => exact backfillBody_steady basis
    | _ => trivial
  have hs₁ : Reach (System.next numberedCrates .toy) (fun s a => Granted a ∧ Orderly s a) .init
      s₁ := Reach.first.runActs heard_granted hrun₁
  obtain ⟨hs₂, htasks₂⟩ := reach_of_sole hs₁ hfree₁ paged_granted hrun₂
  have hs₃ : Reach (System.next numberedCrates .toy) (fun s a => Granted a ∧ Orderly s a) .init
      s₃ := .next (a := .receive) hs₂ ⟨trivial, nofun, nofun⟩ hrun₃
  have hfree₃ : ∀ t, t ≠ .worker → ∀ basis, Steady basis (s₃.tasks t) := by
    intro t ht basis
    rw [Recording.tasks_of_not_concerns hrun₃ (decide_eq_false ht)]
    by_cases hm : t = .monitor
    · rw [hm, Recording.ret_of_isIdle hmonitor]
      trivial
    · rw [htasks₂ t hm]
      exact hfree₁ t hm basis
  obtain ⟨hs, htasks⟩ := reach_of_sole hs₃ hfree₃ paged_granted hrun
  have hfree : ∀ t, t ≠ .backfill → ∀ basis, Steady basis (s.tasks t) := by
    intro t _ basis
    by_cases hw : t = .worker
    · rw [hw, Recording.ret_of_isIdle hworker]
      trivial
    · rw [htasks t hw]
      exact hfree₃ t hw basis
  have hbackfill := (reach_of_sole .first hfree paged_granted hrun').1
  refine ⟨s, s', ?_, runActs_of_runChecked hrun', hstored, hstored',
    (slots_monotone numberedCrates .toy s s').2 hs hbackfill⟩
  have hreceive : runActs (System.next numberedCrates .toy) [.receive] s₂ = some s₃ := by
    rw [runActs, hrun₃]
    rfl
  rw [runActs_append, runActs_append, runActs_append, hrun₁, Option.bind_some,
    runActs_of_runChecked hrun₂, Option.bind_some, hreceive, Option.bind_some,
    runActs_of_runChecked hrun]

def overtaken : List Act :=
  .start :: paged 5 .backfill 2 ++ [.notify ⟨9, "a", ["Program data: "]⟩] ++ paged 5 .monitor 5 ++
    [.receive] ++ paged 5 .worker 22

theorem stored_falls : ¬ ∀ (cfg : OracleConfig) (s s' : System),
    Reach (System.next numberedCrates cfg) (fun _ a => Granted a) .init s →
    Reach (System.next numberedCrates cfg) (fun _ a => Granted a) s s' → stored s ≤ stored s' := by
  intro h
  have hsummary : (runActs (System.next numberedCrates .toy) overtaken .init).map (fun s =>
      (stored s, (runActs (System.next numberedCrates .toy) (paged 5 .backfill 1) s).map stored)) =
        some (9, some 5) := by
    decide +kernel
  obtain ⟨s, hrun, hs⟩ := Option.map_eq_some_iff.mp hsummary
  obtain ⟨hbefore, hlast⟩ := Prod.mk.inj hs
  obtain ⟨s', hrun', hafter⟩ := Option.map_eq_some_iff.mp hlast
  have hslot : 9 < 2 ^ 64 := by decide
  have hacts : ∀ a ∈ overtaken, Granted a := by
    simp only [overtaken, List.forall_mem_append, List.forall_mem_cons]
    exact ⟨⟨⟨⟨⟨trivial, paged_granted⟩, hslot, List.forall_mem_nil _⟩, paged_granted⟩,
      trivial, List.forall_mem_nil _⟩, paged_granted⟩
  have hle := h .toy s s' (Reach.first.runActs (fun _ => hacts) hrun)
    (Reach.first.runActs (fun _ => paged_granted) hrun')
  omega

end OracleQa.SlotOrder
