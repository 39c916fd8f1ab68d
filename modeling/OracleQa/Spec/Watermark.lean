import OracleQa.Model.System
import OracleQa.Spec.DeliveryJob

/-! The slot watermark, at or below which the backfill of a restarted process skips: it passes over
deliveries that are still on their way to the worker, and over none in runs where it is written
only after they got there. -/

namespace OracleQa.Watermark
open Interaction Text Chain
open OracleQa.System (next_step next_receive next_internal isInternal)

/-! ## The watermark -/

def watermark (l : Ledger) : Nat := ((l.getParameter PARAM_LAST_SEEN_SLOT).bind parseU64).getD 0

/-- Whether a backfill that reads this watermark stops at the slot. -/
def Covered (watermark slot : Nat) : Prop := 0 < watermark ∧ slot ≤ watermark

instance (watermark slot : Nat) : Decidable (Covered watermark slot) :=
  inferInstanceAs (Decidable (_ ∧ _))

def writtenBy : Option (Int × Stmt) → Option Nat
  | some (_, .setParameter name value) =>
    if name = PARAM_LAST_SEEN_SLOT then some ((parseU64 value).getD 0) else none
  | _ => none

variable {crates : Crates} {cfg : OracleConfig} {l : Ledger} {uid : String}

theorem readWatermark_eval {answer : (c : Call) → c.Reply} (hdb : cfg.databaseEnabled = true)
    (hread : answer (.sql (.getParameter PARAM_LAST_SEEN_SLOT)) =
      .ok (l.getParameter PARAM_LAST_SEEN_SLOT)) :
    (readWatermark cfg).eval answer = watermark l := by
  rw [readWatermark, if_pos hdb, Prog.eval_bind, Db.getParameter, ask, Prog.eval_ask, hread,
    watermark]
  cases l.getParameter PARAM_LAST_SEEN_SLOT <;> rfl

theorem watermark_setParameter (l : Ledger) (value : String) :
    watermark (l.setParameter PARAM_LAST_SEEN_SLOT value) = (parseU64 value).getD 0 := by
  simp [watermark, Ledger.setParameter, Ledger.getParameter]

/-- The backfill reads back what was persisted. -/
theorem watermark_persisted (l : Ledger) {slot : Nat} (h : slot < 2 ^ 64) :
    watermark (l.setParameter PARAM_LAST_SEEN_SLOT slot.repr) = slot := by
  rw [watermark_setParameter, parseU64_repr h]
  rfl

theorem watermark_congr {l' : Ledger}
    (h : l'.parameters PARAM_LAST_SEEN_SLOT = l.parameters PARAM_LAST_SEEN_SLOT) :
    watermark l' = watermark l := by
  rw [watermark, Ledger.getParameter, h, watermark, Ledger.getParameter]

theorem watermark_after (l : Ledger) (executed : Option (Int × Stmt)) :
    watermark (l.after executed) = (writtenBy executed).getD (watermark l) := by
  rcases executed with _ | ⟨now, q⟩
  · rfl
  · cases q with
    | setParameter name value =>
      by_cases hname : name = PARAM_LAST_SEEN_SLOT
      · subst hname
        exact watermark_setParameter l value
      · rw [writtenBy, if_neg hname]
        exact watermark_congr (Function.update_of_ne (Ne.symm hname) ..)
    | upsertJob u =>
      rcases l.after_upsertJob now u with h | h
      · rw [h]
        rfl
      · rw [h]
        rfl
    | upsertVerdict v =>
      refine watermark_congr ?_
      change (l.upsertVerdict v).parameters _ = _
      unfold Ledger.upsertVerdict
      split <;> rfl
    | insertEvent e =>
      refine watermark_congr ?_
      change (l.insertEvent e).parameters _ = _
      unfold Ledger.insertEvent
      split <;> rfl
    | _ => rfl

def HasRow (l : Ledger) (uid : String) : Prop := (l.jobs uid).isSome

theorem hasRow_of_isTerminal (h : l.isTerminal uid = true) : HasRow l uid := by
  unfold Ledger.isTerminal at h
  unfold HasRow
  cases hrow : l.jobs uid with
  | none => simp [hrow] at h
  | some row => rfl

theorem hasRow_putJob {uid' : String} {row : JobRow} (h : HasRow l uid ∨ uid' = uid) :
    HasRow (l.putJob uid' row) uid := by
  unfold HasRow Ledger.putJob
  by_cases heq : uid = uid'
  · subst heq
    simp
  · rcases h with h | rfl
    · change (Function.update l.jobs uid' (some row) uid).isSome
      rw [Function.update_of_ne heq]
      exact h
    · exact absurd rfl heq

theorem HasRow.after (h : HasRow l uid) (executed : Option (Int × Stmt)) :
    HasRow (l.after executed) uid := by
  rcases executed with _ | ⟨now, q⟩
  · exact h
  by_cases hu : ∃ u, q = .upsertJob u
  · obtain ⟨u, rfl⟩ := hu
    rcases l.after_upsertJob now u with heq | heq
    · rwa [heq]
    · rw [heq]
      exact hasRow_putJob (Or.inl h)
  · rw [HasRow, l.after_jobs now fun u hq => hu ⟨u, hq⟩]
    exact h

theorem hasRow_after_upsertJob (l : Ledger) (now : Int) (u : JobUpsert) :
    HasRow (l.after (some (now, .upsertJob u))) u.paymentUid := by
  cases hold : l.jobs u.paymentUid with
  | some row =>
    have hrow : HasRow l u.paymentUid := by
      rw [HasRow, hold]
      rfl
    exact hrow.after _
  | none =>
    have hrange : (u.row now (l.jobs u.paymentUid)).attempts < 2 ^ 31 := by
      rw [hold]
      simp only [JobUpsert.row, JobUpsert.insertRow]
      split <;> decide
    simp only [Ledger.after, Stmt.exec, Ledger.upsertJob, if_pos hrange, Except.map]
    exact hasRow_putJob (Or.inr rfl)

/-! ## Transactions of the escrow program -/

structure ProgramTx where
  slot : Nat
  err : Bool
  enc : EncodedTransaction
  accounts : DeliveryJob.Accounts

def ProgramTx.deliveries (crates : Crates) (cfg : OracleConfig) (tx : ProgramTx) :
    List EvaluationJob :=
  if tx.err then []
  else (DeliveryJob.structuredCandidates crates cfg tx.enc).filterMap fun key =>
    (jobOfReply crates cfg.oraclePubkey key (tx.accounts key)).toOption.join

structure Entry where
  tx : ProgramTx
  /-- landed while the process was up, or found in the lookback of a backfill -/
  exposed : Bool

def Entry.expose (e : Entry) : Entry := { e with exposed := true }

structure Tracked where
  sys : System
  history : List Entry
  /-- Handed over to the worker since the last crash, or recorded before it. -/
  known : String → Bool
  /-- Taken by the worker, which has not come to its first row. -/
  unrecorded : Option String

inductive Event
  | act (a : Act)
  | land (tx : ProgramTx)

namespace Tracked

def init : Tracked := ⟨.init, [], fun _ => false, none⟩

def ledger (t : Tracked) : Ledger := t.sys.world.ledger

abbrev key (job : EvaluationJob) : String := uidHex job.paymentUid

def call (s : System) : Act → Option TCall
  | .step t _ =>
    match s.tasks t with
    | .ret _ => none
    | .call c _ => some c
  | _ => none

def sent (s : System) (a : Act) : Option EvaluationJob :=
  match call s a with
  | some (.await (.sendJob job)) => some job
  | _ => none

def recorded (s : System) : Act → Option String
  | .step .worker choose =>
    match call s (.step .worker choose) with
    | some (.await (.sql (.upsertJob u))) => some u.paymentUid
    | some (.await (.sql (.isTerminal uid))) =>
      if s.world.ledger.isTerminal uid then some uid else none
    | _ => none
  | _ => none

def knownAfter (t : Tracked) : Act → String → Bool
  | .crash => fun uid => (t.ledger.jobs uid).isSome
  | a =>
    match sent t.sys a with
    | some job => Function.update t.known (key job) true
    | none => t.known

def unrecordedAfter (t : Tracked) : Act → Option String
  | .crash => none
  | .receive => t.sys.world.channel.head?.map key
  | a => if recorded t.sys a = t.unrecorded then none else t.unrecorded

def historyAfter (cfg : OracleConfig) (t : Tracked) : Act → List Entry
  | .start => (t.history.take cfg.backfillLookbackSignatures).map Entry.expose ++
      t.history.drop cfg.backfillLookbackSignatures
  | _ => t.history

def next (crates : Crates) (cfg : OracleConfig) (t : Tracked) : Event → Option Tracked
  | .act a => (t.sys.next crates cfg a).map fun sys =>
      ⟨sys, t.historyAfter cfg a, t.knownAfter a, t.unrecordedAfter a⟩
  | .land tx => some { t with history := ⟨tx, t.sys.up⟩ :: t.history }

def exposing (cfg : OracleConfig) (t : Tracked) : Event → List ProgramTx
  | .land tx => if t.sys.up then [tx] else []
  | .act .start =>
    ((t.history.take cfg.backfillLookbackSignatures).filter fun e => !e.exposed).map (·.tx)
  | _ => []

def written (t : Tracked) : Event → Option Nat
  | .act a => writtenBy (t.sys.executed a)
  | .land _ => none

/-- The worker's write of the first row of a payment does not reach the ledger. -/
def rowLost (t : Tracked) : Event → Bool
  | .act (.step .worker choose) =>
    match call t.sys (.step .worker choose) with
    | some (.await (.sql (.upsertJob u))) =>
      t.unrecorded = some u.paymentUid && (t.sys.executed (.step .worker choose)).isNone
    | _ => false
  | _ => false

end Tracked

/-- An event before which the worker has caught up with the watermark. -/
structure CaughtUp (crates : Crates) (cfg : OracleConfig) (t : Tracked) (e : Event) : Prop where
  /-- deliveries come to light above the watermark -/
  above : ∀ tx ∈ t.exposing cfg e, tx.deliveries crates cfg ≠ [] →
    ¬ Covered (watermark t.ledger) tx.slot
  /-- a watermark is written when what it newly covers has gone all the way to the worker -/
  arrived : ∀ v ∈ t.written e, ∀ entry ∈ t.history, entry.exposed = true →
    Covered v entry.tx.slot → ¬ Covered (watermark t.ledger) entry.tx.slot →
    ∀ job ∈ entry.tx.deliveries crates cfg, t.known (Tracked.key job) = true ∧
      (∀ waiting ∈ t.sys.world.channel, Tracked.key waiting ≠ Tracked.key job) ∧
      t.unrecorded ≠ some (Tracked.key job)
  recorded : t.rowLost e = false

instance (t : Tracked) (e : Event) : Decidable (CaughtUp crates cfg t e) :=
  decidable_of_iff ((∀ tx ∈ t.exposing cfg e, tx.deliveries crates cfg ≠ [] →
      ¬ Covered (watermark t.ledger) tx.slot) ∧
    (∀ v ∈ t.written e, ∀ entry ∈ t.history, entry.exposed = true →
      Covered v entry.tx.slot → ¬ Covered (watermark t.ledger) entry.tx.slot →
      ∀ job ∈ entry.tx.deliveries crates cfg, t.known (Tracked.key job) = true ∧
        (∀ waiting ∈ t.sys.world.channel, Tracked.key waiting ≠ Tracked.key job) ∧
        t.unrecorded ≠ some (Tracked.key job)) ∧ t.rowLost e = false)
    ⟨fun ⟨habove, harrived, hrecorded⟩ => ⟨habove, harrived, hrecorded⟩,
      fun h => ⟨h.above, h.arrived, h.recorded⟩⟩

def notTerminal (uid : String) : (c : TCall) → TReply c → Prop
  | .await (.sql (.isTerminal uid')), r => uid' = uid → r ≠ .ok true
  | _, _ => True

def upsertsRow (uid : String) (c : TCall) : Prop :=
  ∃ u, c = .await (.sql (.upsertJob u)) ∧ u.paymentUid = uid

/-- Code that writes a row of the payment, unless there is a terminal one. -/
def Ahead (uid : String) (code : TaskCode Unit) : Prop :=
  code.Eventually (notTerminal uid) (upsertsRow uid)

theorem workerBody_ahead (hdb : cfg.databaseEnabled = true) (job : EvaluationJob) :
    Ahead (Tracked.key job) (System.workerBody crates cfg job) := by
  unfold Ahead System.workerBody Worker.handleJob Worker.skipDuplicate Worker.evaluateJob
    Worker.recordIntake
  simp only [hdb, if_true]
  -- the queue depth and the probe come before the first write
  refine Or.inr fun _ _ => Or.inr fun r hr => ?_
  have hintake : ∀ u : JobUpsert, u.paymentUid = Tracked.key job →
      upsertsRow (Tracked.key job) (.await (.sql (.upsertJob u))) := fun u hu => ⟨u, rfl, hu⟩
  rcases r with e | terminal
  · exact Or.inl (hintake _ rfl)
  · cases terminal with
    | true => exact absurd rfl (hr rfl)
    | false => exact Or.inl (hintake _ rfl)

/-! ## Steps of the system -/

section
variable {s s' : System} {a : Act}

theorem step_channel {t : TaskId} {choose : (c : TCall) → Timed.Choice c}
    (h : s.next crates cfg (.step t choose) = some s') :
    (∀ job ∈ s.world.channel, job ∈ s'.world.channel) ∧
      ∀ job, Tracked.sent s (.step t choose) = some job → job ∈ s'.world.channel := by
  obtain ⟨c, k, r, hcode, hw, -⟩ := next_step h
  refine ⟨fun job hjob => ?_, fun job hsent => ?_⟩
  · rcases (World.performTimed_frame hw).channel with heq | ⟨job', -, heq⟩
    · rwa [heq]
    · rw [heq]
      exact List.mem_append_left _ hjob
  · rw [Tracked.sent, Tracked.call, hcode] at hsent
    split at hsent
    · next job' hcall =>
      obtain rfl := Option.some.inj hsent
      obtain rfl := Option.some.inj hcall
      obtain ⟨-, hs⟩ := Option.ite_none_right_eq_some.mp hw
      obtain ⟨-, hs'⟩ := Prod.mk.inj (Option.some.inj hs)
      rw [← hs']
      exact List.mem_append_right _ List.mem_cons_self
    · cases hsent

def isOther : Act → Bool
  | .receive => false
  | .crash => false
  | _ => true

theorem other_channel (h : s.next crates cfg a = some s') (ha : isOther a = true) :
    (∀ job ∈ s.world.channel, job ∈ s'.world.channel) ∧
      ∀ job, Tracked.sent s a = some job → job ∈ s'.world.channel := by
  by_cases hinternal : isInternal a = true
  · rw [(next_internal h hinternal).1]
    refine ⟨fun _ h => h, fun job hsent => ?_⟩
    cases a <;> first | cases hsent | cases hinternal
  · cases a with
    | step t choose => exact step_channel h
    | receive => cases ha
    | crash => cases ha
    | _ => exact absurd rfl hinternal

theorem isTerminal_of_probe {w w' : World} {choice : SqlChoice}
    (h : w.performTimed cfg (.await (.sql (.isTerminal uid))) choice = some (.ok true, w')) :
    w.ledger.isTerminal uid = true := by
  have hreply := congrArg Prod.fst (Option.some.inj h)
  cases choice with
  | done now => exact Except.ok.inj hreply
  | refused e => cases hreply
  | lost now e => cases hreply
  | late e => cases hreply

theorem worker_step {choose : (c : TCall) → Timed.Choice c} {c : TCall}
    {k : TReply c → TaskCode Unit} {r : TReply c} {w : World}
    (hcode : s.tasks .worker = .call c k)
    (hw : s.world.performTimed cfg c (choose c) = some (r, w)) (hahead : Ahead uid (.call c k))
    (hrecorded : Tracked.recorded s (.step .worker choose) ≠ some uid) : Ahead uid (k r) := by
  have hupserts : ¬ upsertsRow uid c := by
    rintro ⟨u, rfl, rfl⟩
    rw [Tracked.recorded, Tracked.call, hcode] at hrecorded
    exact hrecorded rfl
  have hprobe : notTerminal uid c r := by
    unfold notTerminal
    split
    · next uid' =>
      rintro rfl rfl
      have hterminal := isTerminal_of_probe hw
      rw [Tracked.recorded, Tracked.call, hcode] at hrecorded
      exact hrecorded (if_pos hterminal)
    · trivial
  exact (Prog.eventually_call.mp hahead).resolve_left hupserts r hprobe

theorem other_worker (h : s.next crates cfg a = some s') (ha : isOther a = true)
    (hahead : Ahead uid (s.tasks .worker)) (hrecorded : Tracked.recorded s a ≠ some uid) :
    Ahead uid (s'.tasks .worker) := by
  by_cases hinternal : isInternal a = true
  · rwa [(next_internal h hinternal).2]
  · cases a with
    | step t choose =>
      obtain ⟨c, k, r, hcode, hw, htasks⟩ := next_step h
      rw [htasks]
      by_cases ht : t = .worker
      · subst ht
        rw [Function.update_self]
        exact worker_step hcode hw (hcode ▸ hahead) hrecorded
      · rwa [Function.update_of_ne (Ne.symm ht)]
    | receive => cases ha
    | crash => cases ha
    | _ => exact absurd rfl hinternal

end

/-! ## The invariant -/

variable {t : Tracked} {sys : System} {a : Act}

structure Inv (crates : Crates) (cfg : OracleConfig) (t : Tracked) : Prop where
  /-- what was handed over has its row, or is on its way to it -/
  way : ∀ uid, t.known uid = true → HasRow t.ledger uid ∨
    (∃ job ∈ t.sys.world.channel, Tracked.key job = uid) ∨ t.unrecorded = some uid
  ahead : ∀ uid, t.unrecorded = some uid → Ahead uid (t.sys.tasks .worker)
  covered : ∀ entry ∈ t.history, entry.exposed = true →
    Covered (watermark t.ledger) entry.tx.slot → ∀ job ∈ entry.tx.deliveries crates cfg,
      HasRow t.ledger (Tracked.key job)

theorem inv_init : Inv crates cfg .init :=
  ⟨fun _ h => (by cases h), fun _ h => (by cases h), fun _ h => (by cases h)⟩

theorem ledger_next (h : t.sys.next crates cfg a = some sys) :
    sys.world.ledger = t.ledger.after (t.sys.executed a) :=
  (System.next_move h).ledger

theorem hasRow_next (h : t.sys.next crates cfg a = some sys) (hrow : HasRow t.ledger uid) :
    HasRow sys.world.ledger uid := by
  rw [ledger_next h]
  exact hrow.after _

theorem hasRow_recorded (hg : CaughtUp crates cfg t (.act a))
    (h : t.sys.next crates cfg a = some sys) (hunrecorded : t.unrecorded = some uid)
    (hrecorded : Tracked.recorded t.sys a = some uid) : HasRow sys.world.ledger uid := by
  unfold Tracked.recorded at hrecorded
  split at hrecorded
  · next choose =>
    obtain ⟨c, k, r, hcode, -, -⟩ := next_step h
    rw [Tracked.call, hcode] at hrecorded
    split at hrecorded
    -- the first upsert, which is executed because no row is lost
    · next u hc =>
      obtain rfl := Option.some.inj hc
      obtain rfl := Option.some.inj hrecorded
      have hexecuted : t.sys.executed (.step .worker choose) ≠ none := by
        have hlost := hg.recorded
        rw [Tracked.rowLost, Tracked.call, hcode] at hlost
        simpa [hunrecorded, Option.isSome_iff_ne_none] using hlost
      obtain ⟨⟨now, q⟩, hq⟩ := Option.ne_none_iff_exists'.mp hexecuted
      have hcall := hq
      rw [System.executed, hcode] at hcall
      obtain rfl := Call.sql.inj (Timed.executed_base hcall)
      rw [ledger_next h, hq]
      exact hasRow_after_upsertJob _ now u
    -- the probe has found a terminal row
    · next uid' hc =>
      obtain ⟨hterminal, huid⟩ := Option.ite_none_right_eq_some.mp hrecorded
      obtain rfl := Option.some.inj huid
      exact hasRow_next h (hasRow_of_isTerminal hterminal)
    · cases hrecorded
  · cases hrecorded

theorem unrecordedAfter_other (ha : isOther a = true) : t.unrecordedAfter a =
    if Tracked.recorded t.sys a = t.unrecorded then none else t.unrecorded := by
  cases a <;> first | rfl | cases ha

theorem knownAfter_other (ha : isOther a = true) (h : t.knownAfter a uid = true) :
    t.known uid = true ∨ ∃ job, Tracked.sent t.sys a = some job ∧ Tracked.key job = uid := by
  have hknown : t.knownAfter a = match Tracked.sent t.sys a with
      | some job => Function.update t.known (Tracked.key job) true
      | none => t.known := by
    cases a <;> first | rfl | cases ha
  rw [hknown] at h
  cases hsent : Tracked.sent t.sys a with
  | none =>
    rw [hsent] at h
    exact Or.inl h
  | some job =>
    rw [hsent] at h
    by_cases huid : uid = Tracked.key job
    · exact Or.inr ⟨job, rfl, huid.symm⟩
    · dsimp only at h
      rw [Function.update_of_ne huid] at h
      exact Or.inl h

theorem way_other (hi : Inv crates cfg t) (hg : CaughtUp crates cfg t (.act a))
    (h : t.sys.next crates cfg a = some sys) (ha : isOther a = true)
    (hknown : t.knownAfter a uid = true) : HasRow sys.world.ledger uid ∨
      (∃ job ∈ sys.world.channel, Tracked.key job = uid) ∨ t.unrecordedAfter a = some uid := by
  obtain ⟨hchannel, hsent⟩ := other_channel h ha
  rcases knownAfter_other ha hknown with hknown | ⟨job, hjob, hkey⟩
  · rcases hi.way uid hknown with hrow | ⟨job, hjob, hkey⟩ | hunrecorded
    · exact Or.inl (hasRow_next h hrow)
    · exact Or.inr (Or.inl ⟨job, hchannel job hjob, hkey⟩)
    · by_cases hrecorded : Tracked.recorded t.sys a = some uid
      · exact Or.inl (hasRow_recorded hg h hunrecorded hrecorded)
      · rw [unrecordedAfter_other ha, hunrecorded, if_neg hrecorded]
        exact Or.inr (Or.inr rfl)
  · exact Or.inr (Or.inl ⟨job, hsent job hjob, hkey⟩)

theorem ahead_other (hi : Inv crates cfg t) (h : t.sys.next crates cfg a = some sys)
    (ha : isOther a = true) (hunrecorded : t.unrecordedAfter a = some uid) :
    Ahead uid (sys.tasks .worker) := by
  rw [unrecordedAfter_other ha] at hunrecorded
  obtain ⟨hrecorded, hold⟩ := Option.ite_none_left_eq_some.mp hunrecorded
  exact other_worker h ha (hi.ahead uid hold) (hold ▸ hrecorded)

theorem unrecorded_of_idle (hi : Inv crates cfg t) (hidle : t.sys.isIdle .worker = true) :
    t.unrecorded = none := by
  cases hunrecorded : t.unrecorded with
  | none => rfl
  | some uid =>
    have hahead := hi.ahead uid hunrecorded
    unfold System.isIdle at hidle
    split at hidle
    · next hcode =>
      rw [hcode] at hahead
      exact hahead.elim
    · cases hidle

theorem way_next (hi : Inv crates cfg t) (hg : CaughtUp crates cfg t (.act a))
    (h : t.sys.next crates cfg a = some sys) (hknown : t.knownAfter a uid = true) :
    HasRow sys.world.ledger uid ∨ (∃ job ∈ sys.world.channel, Tracked.key job = uid) ∨
      t.unrecordedAfter a = some uid := by
  by_cases ha : isOther a = true
  · exact way_other hi hg h ha hknown
  · cases a with
    | receive =>
      obtain ⟨job, hchannel, hidle, -, -⟩ := next_receive h
      have hunrecorded : t.unrecordedAfter .receive = some (Tracked.key job) := by
        rw [Tracked.unrecordedAfter, hchannel]
        rfl
      rcases hi.way uid hknown with hrow | ⟨job', hjob', rfl⟩ | hold
      · exact Or.inl (hasRow_next h hrow)
      · rw [hchannel] at hjob'
        rcases List.mem_cons.mp hjob' with rfl | hrest
        · exact Or.inr (Or.inr hunrecorded)
        · exact Or.inr (Or.inl ⟨job', hrest, rfl⟩)
      · rw [unrecorded_of_idle hi hidle] at hold
        cases hold
    -- what is known after a crash is what has its row
    | crash => exact Or.inl (hasRow_next h hknown)
    | _ => exact absurd rfl ha

theorem ahead_next (hdb : cfg.databaseEnabled = true) (hi : Inv crates cfg t)
    (h : t.sys.next crates cfg a = some sys) (hunrecorded : t.unrecordedAfter a = some uid) :
    Ahead uid (sys.tasks .worker) := by
  by_cases ha : isOther a = true
  · exact ahead_other hi h ha hunrecorded
  · cases a with
    | receive =>
      obtain ⟨job, hchannel, -, -, hcode⟩ := next_receive h
      rw [Tracked.unrecordedAfter, hchannel] at hunrecorded
      obtain rfl := Option.some.inj hunrecorded
      rw [hcode]
      exact workerBody_ahead hdb job
    | crash => cases hunrecorded
    | _ => exact absurd rfl ha

theorem covered_next (hi : Inv crates cfg t) (hg : CaughtUp crates cfg t (.act a))
    (h : t.sys.next crates cfg a = some sys) {entry : Entry} (hentry : entry ∈ t.history)
    (hexposed : entry.exposed = true)
    (hcovered : Covered (watermark sys.world.ledger) entry.tx.slot) {job : EvaluationJob}
    (hjob : job ∈ entry.tx.deliveries crates cfg) :
    HasRow sys.world.ledger (Tracked.key job) := by
  by_cases hold : Covered (watermark t.ledger) entry.tx.slot
  · exact hasRow_next h (hi.covered entry hentry hexposed hold job hjob)
  · rw [ledger_next h, watermark_after] at hcovered
    cases hwritten : writtenBy (t.sys.executed a) with
    | none =>
      rw [hwritten] at hcovered
      exact absurd hcovered hold
    | some v =>
      rw [hwritten] at hcovered
      -- newly covered: neither waiting nor with the worker, so it has its row
      obtain ⟨hknown, hwaiting, hunrecorded⟩ :=
        hg.arrived v hwritten entry hentry hexposed hcovered hold job hjob
      rcases hi.way _ hknown with hrow | ⟨waiting, hmem, hkey⟩ | htaken
      · exact hasRow_next h hrow
      · exact absurd hkey (hwaiting waiting hmem)
      · exact absurd htaken hunrecorded

theorem mem_historyAfter {entry : Entry} (h : entry ∈ t.historyAfter cfg a)
    (hexposed : entry.exposed = true) :
    (∃ old ∈ t.history, old.exposed = true ∧ old.tx = entry.tx) ∨
      (a = .start ∧ entry.tx ∈ t.exposing cfg (.act .start)) := by
  by_cases ha : a = .start
  · subst ha
    rcases List.mem_append.mp h with htake | hdrop
    · obtain ⟨old, hold, rfl⟩ := List.mem_map.mp htake
      cases hwas : old.exposed with
      | true => exact Or.inl ⟨old, List.mem_of_mem_take hold, hwas, rfl⟩
      | false =>
        refine Or.inr ⟨rfl, List.mem_map.mpr ⟨old, List.mem_filter.mpr ⟨hold, ?_⟩, rfl⟩⟩
        rw [hwas]
        rfl
    · exact Or.inl ⟨entry, List.mem_of_mem_drop hdrop, hexposed, rfl⟩
  · have hsame : t.historyAfter cfg a = t.history := by
      cases a <;> first | rfl | exact absurd rfl ha
    exact Or.inl ⟨entry, hsame ▸ h, hexposed, rfl⟩

theorem inv_next (hdb : cfg.databaseEnabled = true) {t t' : Tracked} {e : Event}
    (hi : Inv crates cfg t) (hg : CaughtUp crates cfg t e) (h : t.next crates cfg e = some t') :
    Inv crates cfg t' := by
  cases e with
  | act a =>
    obtain ⟨sys, hsys, rfl⟩ := Option.map_eq_some_iff.mp h
    refine ⟨fun uid => way_next hi hg hsys, fun uid => ahead_next hdb hi hsys, ?_⟩
    intro entry hentry hexposed hcovered job hjob
    rcases mem_historyAfter hentry hexposed with ⟨old, hold, holdExposed, heq⟩ | ⟨rfl, hlight⟩
    · rw [← heq] at hcovered hjob
      exact covered_next hi hg hsys hold holdExposed hcovered hjob
    -- a start brings to light only what lies above the watermark
    · have hledger : sys.world.ledger = t.ledger := ledger_next hsys
      rw [show (Tracked.ledger _) = sys.world.ledger from rfl, hledger] at hcovered
      exact absurd hcovered (hg.above entry.tx hlight (List.ne_nil_of_mem hjob))
  | land tx =>
    obtain rfl := Option.some.inj h
    refine ⟨hi.way, hi.ahead, ?_⟩
    intro entry hentry hexposed hcovered job hjob
    rcases List.mem_cons.mp hentry with rfl | hold
    · have hlight : tx ∈ t.exposing cfg (.land tx) := by
        rw [Tracked.exposing, if_pos hexposed]
        exact List.mem_singleton_self tx
      exact absurd hcovered (hg.above tx hlight (List.ne_nil_of_mem hjob))
    · exact hi.covered entry hold hexposed hcovered job hjob

/-- Every delivery that came to light and that the watermark covers has its row, in every run in
which the worker has caught up whenever the watermark is written. -/
theorem covered_hasRow (crates : Crates) (cfg : OracleConfig) (hdb : cfg.databaseEnabled = true)
    (t : Tracked) (ht : Reach (Tracked.next crates cfg) (CaughtUp crates cfg) .init t)
    (entry : Entry) (hentry : entry ∈ t.history) (hexposed : entry.exposed = true)
    (hcovered : Covered (watermark t.ledger) entry.tx.slot) (job : EvaluationJob)
    (hjob : job ∈ entry.tx.deliveries crates cfg) : HasRow t.ledger (uidHex job.paymentUid) := by
  have hinv : Inv crates cfg t :=
    ht.invariant inv_init fun _ _ _ hi hg h => inv_next hdb hi hg h
  exact hinv.covered entry hentry hexposed hcovered job hjob

/-! ## Runs in which the worker has, and has not, caught up -/

def numberedCrates : Crates :=
  { Crates.toy with
    paymentSize := 1
    paymentFromBytes := fun bytes =>
      { Crates.toy.paymentFromBytes bytes with paymentUid := byte32 (bytes.headD 0) }
    bs58Decode := fun _ => some [3]
    pubkeyFromStr := fun text => some (byte32 (UInt8.ofNat text.length))
    signatureFromStr := fun text => some (List.Vector.replicate 64 (UInt8.ofNat text.length)) }

def monitorCfg : OracleConfig := { OracleConfig.toy with backfillLookbackSignatures := 0 }

def numberedAccounts : DeliveryJob.Accounts := fun key =>
  .ok (some ⟨byte32 6, List.replicate 8 0 ++ [key.head]⟩)

def deliveryOf (text : String) : EncodedTransaction :=
  ⟨some (.parsed [] [.partiallyDecoded (Crates.toy.pubkeyToString (byte32 6))
    ["", "", "", "", text] "delivery"]), none⟩

def numberedTx (slot : Nat) (text : String) : ProgramTx :=
  ⟨slot, false, deliveryOf text, numberedAccounts⟩

def numberedChoice : (c : TCall) → Timed.Choice c
  | .await (.getTransaction sig) => .ok (deliveryOf (if sig.head = 1 then "a" else "bb"))
  | .await (.getAccount key) => numberedAccounts key
  | .race (.getAccount key) => .finished (numberedAccounts key)
  | c => Timed.toyChoice c

def steps (t : TaskId) (n : Nat) : List Event := List.replicate n (.act (.step t numberedChoice))

def delivered (slot : Nat) (text : String) : List Event :=
  [.land (numberedTx slot text), .act (.notify ⟨slot, text, ["Program data: "]⟩)] ++
    steps .monitor 5

def overlooked : List Event :=
  .act .start :: delivered 5 "a" ++ [.act .receive] ++ delivered 7 "bb" ++ steps .worker 22 ++
    [.act .crash]

def caughtUp : List Event :=
  .act .start :: delivered 5 "a" ++ [.act .receive] ++ steps .worker 22

structure Sight where
  slot : Nat
  exposed : Bool
  uid : List String
  hasRow : List Bool
  deriving DecidableEq

def sights (t : Tracked) : List Sight :=
  t.history.map fun e => ⟨e.tx.slot, e.exposed,
    (e.tx.deliveries numberedCrates monitorCfg).map Tracked.key,
    (e.tx.deliveries numberedCrates monitorCfg).map fun job =>
      (t.ledger.jobs (Tracked.key job)).isSome⟩

theorem sights_head {t : Tracked} {slot : Nat} {uid : String} {row : Bool} {rest : List Sight}
    (h : sights t = ⟨slot, true, [uid], [row]⟩ :: rest) :
    ∃ entry ∈ t.history, entry.exposed = true ∧ entry.tx.slot = slot ∧
      ∃ job ∈ entry.tx.deliveries numberedCrates monitorCfg,
        (t.ledger.jobs (uidHex job.paymentUid)).isSome = row := by
  obtain ⟨entry, older, hcons, hentry, -⟩ := List.map_eq_cons_iff.mp h
  obtain ⟨hslot, hexposed, -, hrows⟩ := Sight.mk.inj hentry
  obtain ⟨job, others, hdeliveries, hrow, -⟩ := List.map_eq_cons_iff.mp hrows
  refine ⟨entry, ?_, hexposed, hslot, job, ?_, hrow⟩
  · rw [hcons]
    exact List.mem_cons_self
  · rw [hdeliveries]
    exact List.mem_cons_self

theorem covered_hasRow_caughtUp :
    ∃ t, runChecked (Tracked.next numberedCrates monitorCfg)
        (fun t e => decide (CaughtUp numberedCrates monitorCfg t e)) caughtUp .init = some t ∧
      watermark t.ledger = 5 ∧ ∃ entry ∈ t.history, entry.tx.slot = 5 ∧
        ∃ job ∈ entry.tx.deliveries numberedCrates monitorCfg,
          HasRow t.ledger (uidHex job.paymentUid) := by
  have hsummary : (runChecked (Tracked.next numberedCrates monitorCfg)
      (fun t e => decide (CaughtUp numberedCrates monitorCfg t e)) caughtUp .init).map
        (fun t => (watermark t.ledger, sights t)) =
      some (5, [⟨5, true, [uidHex (byte32 1)], [true]⟩]) := by
    decide +kernel
  obtain ⟨t, hrun, ht⟩ := Option.map_eq_some_iff.mp hsummary
  obtain ⟨hwatermark, hsights⟩ := Prod.mk.inj ht
  obtain ⟨entry, hentry, hexposed, hslot, job, hjob, -⟩ := sights_head hsights
  have hreach : Reach (Tracked.next numberedCrates monitorCfg)
      (CaughtUp numberedCrates monitorCfg) .init t :=
    Reach.first.runChecked (fun _ _ h => of_decide_eq_true h) hrun
  have hcovered : Covered (watermark t.ledger) entry.tx.slot := by
    rw [hwatermark, hslot]
    decide
  exact ⟨t, hrun, hwatermark, entry, hentry, hslot, job, hjob,
    covered_hasRow numberedCrates monitorCfg rfl t hreach entry hentry hexposed hcovered job hjob⟩

theorem delivery_overlooked : ¬ ∀ (t : Tracked) (entry : Entry) (job : EvaluationJob),
    Reach (Tracked.next numberedCrates monitorCfg) (fun _ _ => True) .init t →
    entry ∈ t.history → entry.exposed = true → Covered (watermark t.ledger) entry.tx.slot →
    job ∈ entry.tx.deliveries numberedCrates monitorCfg →
    HasRow t.ledger (uidHex job.paymentUid) := by
  intro h
  have hsummary : (runActs (Tracked.next numberedCrates monitorCfg) overlooked .init).map
        (fun t => (watermark t.ledger, sights t)) =
      some (7, [⟨7, true, [uidHex (byte32 2)], [false]⟩,
        ⟨5, true, [uidHex (byte32 1)], [true]⟩]) := by
    decide +kernel
  obtain ⟨t, hrun, ht⟩ := Option.map_eq_some_iff.mp hsummary
  obtain ⟨hwatermark, hsights⟩ := Prod.mk.inj ht
  obtain ⟨entry, hentry, hexposed, hslot, job, hjob, hrow⟩ := sights_head hsights
  have hcovered : Covered (watermark t.ledger) entry.tx.slot := by
    rw [hwatermark, hslot]
    decide
  have hlost := h t entry job (Reach.first.runActs (fun _ _ _ => trivial) hrun) hentry hexposed
    hcovered hjob
  rw [HasRow, hrow] at hlost
  cases hlost

end OracleQa.Watermark
