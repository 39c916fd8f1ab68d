import OracleQa.Model.System
import OracleQa.Spec.Footprint

/-! What the ledger records of a resolution is what the chain holds, in every state that the worker
and the handlers can reach over restarts, deadlines and failures of the ledger. -/

namespace OracleQa.Agreement
open Interaction Pipeline Text

abbrev Resolutions := String → Option Resolution

def VerdictAgrees (res : Resolution) (v : VerdictRow) : Prop :=
  res.state = (if v.approved then 1 else 2) ∧ res.reason.toNat = v.resolutionReason ∧
    hexEncode res.hash.toList = v.resolutionHash

/-- Every verdict and every resolution hash of the ledger is that of a resolution on chain. -/
structure LedgerAgrees (R : Resolutions) (l : Ledger) : Prop where
  verdict : ∀ uid v, l.verdicts uid = some v → ∃ res, R uid = some res ∧ VerdictAgrees res v
  hash : ∀ uid row hash, l.jobs uid = some row → row.resolutionHash = some hash →
    ∃ res, R uid = some res ∧ hexEncode res.hash.toList = hash

def Backed (R : Resolutions) : Stmt → Prop
  | .upsertJob u => ∀ hash, u.resolutionHash = some hash →
      ∃ res, R u.paymentUid = some res ∧ hexEncode res.hash.toList = hash
  | .upsertVerdict v => ∃ res, R v.paymentUid = some res ∧ VerdictAgrees res v.verdict
  | _ => True

def Grows (R R' : Resolutions) : Prop := ∀ uid res, R uid = some res → R' uid = some res

variable {R R' R'' : Resolutions} {l : Ledger}

theorem Grows.refl (R : Resolutions) : Grows R R := fun _ _ h => h

theorem Grows.trans (h : Grows R R') (h' : Grows R' R'') : Grows R R'' :=
  fun uid res hr => h' uid res (h uid res hr)

theorem grows_update {uid : String} {res : Resolution} (hnone : R uid = none) :
    Grows R (Function.update R uid (some res)) := by
  intro uid' res' hr
  have hne : uid' ≠ uid := by
    rintro rfl
    rw [hnone] at hr
    cases hr
  rwa [Function.update_of_ne hne]

theorem Backed.grows {q : Stmt} (hq : Backed R q) (hR : Grows R R') : Backed R' q := by
  cases q with
  | upsertJob u =>
    intro hash hhash
    obtain ⟨res, hres, hhex⟩ := hq hash hhash
    exact ⟨res, hR _ _ hres, hhex⟩
  | upsertVerdict v =>
    obtain ⟨res, hres, hv⟩ := hq
    exact ⟨res, hR _ _ hres, hv⟩
  | _ => trivial

theorem LedgerAgrees.grows (hl : LedgerAgrees R l) (hR : Grows R R') : LedgerAgrees R' l := by
  refine ⟨fun uid v hv => ?_, fun uid row hash hrow hhash => ?_⟩
  · obtain ⟨res, hres, hagrees⟩ := hl.verdict uid v hv
    exact ⟨res, hR _ _ hres, hagrees⟩
  · obtain ⟨res, hres, hhex⟩ := hl.hash uid row hash hrow hhash
    exact ⟨res, hR _ _ hres, hhex⟩

/-! ## The statements -/

theorem row_hash {u : JobUpsert} {now : Int} {old : Option JobRow} {hash : String}
    (h : (u.row now old).resolutionHash = some hash) :
    u.resolutionHash = some hash ∨ ∃ row, old = some row ∧ row.resolutionHash = some hash := by
  cases old with
  | none => exact Or.inl h
  | some row =>
    rcases Option.or_eq_some_iff.mp h with h | ⟨-, h⟩
    · exact Or.inl h
    · exact Or.inr ⟨row, rfl, h⟩

theorem upsertJob_agrees (hl : LedgerAgrees R l) {u : JobUpsert} {now : Int} {l' : Ledger}
    (hu : Backed R (.upsertJob u)) (h : l.upsertJob now u = .ok l') : LedgerAgrees R l' := by
  simp only [Ledger.upsertJob] at h
  split at h
  · obtain rfl := Except.ok.inj h
    refine ⟨hl.verdict, fun uid row hash hrow hhash => ?_⟩
    by_cases huid : uid = u.paymentUid
    · subst huid
      simp only [Ledger.putJob, Function.update_self] at hrow
      obtain rfl := Option.some.inj hrow
      rcases row_hash hhash with hnew | ⟨row, hold, hold'⟩
      · exact hu hash hnew
      · exact hl.hash _ row hash hold hold'
    · simp only [Ledger.putJob, Function.update_of_ne huid] at hrow
      exact hl.hash uid row hash hrow hhash
  · cases h

theorem upsertVerdict_agrees (hl : LedgerAgrees R l) {v : VerdictUpsert}
    (hv : Backed R (.upsertVerdict v)) : LedgerAgrees R (l.upsertVerdict v) := by
  unfold Ledger.upsertVerdict
  split
  · refine ⟨fun uid verdict hverdict => ?_, hl.hash⟩
    by_cases huid : uid = v.paymentUid
    · subst huid
      simp only [Function.update_self] at hverdict
      obtain rfl := Option.some.inj hverdict
      obtain ⟨res, hres, hagrees⟩ := hv
      refine ⟨res, hres, ?_⟩
      cases l.verdicts v.paymentUid <;> exact hagrees
    · simp only [Function.update_of_ne huid] at hverdict
      exact hl.verdict uid verdict hverdict
  · exact hl

theorem ledgerAgrees_after (hl : LedgerAgrees R l) {now : Int} {q : Stmt} (hq : Backed R q) :
    LedgerAgrees R (l.after (some (now, q))) := by
  cases q with
  | upsertJob u =>
    cases h : l.upsertJob now u with
    | error e =>
      rw [Ledger.after, Stmt.exec, h]
      exact hl
    | ok l' =>
      rw [Ledger.after, Stmt.exec, h]
      exact upsertJob_agrees hl hq h
  | upsertVerdict v => exact upsertVerdict_agrees hl hq
  | insertEvent e =>
    have hsame : (l.insertEvent e).jobs = l.jobs ∧ (l.insertEvent e).verdicts = l.verdicts := by
      unfold Ledger.insertEvent
      split <;> exact ⟨rfl, rfl⟩
    refine ⟨fun uid v hv => hl.verdict uid v (hsame.2 ▸ hv), fun uid row hash hrow => ?_⟩
    exact hl.hash uid row hash (hsame.1 ▸ hrow)
  | isTerminal uid => exact hl
  | attemptCount uid => exact hl
  | getParameter name => exact hl
  | setParameter name value => exact ⟨hl.verdict, hl.hash⟩

/-! ## What a run learns -/

/-- A reply `Ok` to a settlement tells that the chain holds its resolution. -/
def Learns (R : Resolutions) (confirmed : Option Transaction) (R' : Resolutions) : Prop :=
  Grows R R' ∧ ∀ tx, confirmed = some tx → R' tx.ix.paymentUid = some tx.ix.resolution

def next (R : Resolutions) (c : Call) (r : c.Reply) (R' : Resolutions) : Prop :=
  Learns R (c.confirmed r) R'

def nextTimed (R : Resolutions) (c : TCall) (r : TReply c) (R' : Resolutions) : Prop :=
  Learns R (Timed.confirmed c r) R'

def Ok (R : Resolutions) (c : Call) : Prop := ∀ q, c = .sql q → Backed R q

def OkTimed (R : Resolutions) (c : TCall) : Prop := Ok R c.base

def Sound (R : Resolutions) (code : TaskCode Unit) : Prop :=
  code.Wp nextTimed OkTimed (fun _ _ => True) R

theorem Sound.grows {code : TaskCode Unit} (h : Sound R code) (hR : Grows R R') :
    Sound R' code :=
  h.of_state (fun _ hok q hq => (hok q hq).grows hR)
    (fun _ _ _ hn => ⟨hR.trans hn.1, hn.2⟩) fun _ h => h

section Run
variable {crates : Crates} {cfg : OracleConfig} {job : EvaluationJob}

def resolutionOf (outcome : PipelineOutcome) : Resolution :=
  ⟨if outcome.result.approved then 1 else 2, outcome.result.resolutionReason,
    outcome.resolutionHash⟩

def Resolved (job : EvaluationJob) (r : Except OracleError PipelineOutcome) (R : Resolutions) :
    Prop :=
  ∀ outcome, r = .ok outcome → R (uidHex job.paymentUid) = some (resolutionOf outcome)

theorem settle_wp (approved : Bool) (reason : UInt16) (hash : Bytes32) :
    (Settler.settle crates cfg job approved reason hash).Wp next Ok
      (fun r R => ∀ sig, r = .ok sig → R (uidHex job.paymentUid) =
        some ⟨if approved then 1 else 2, reason, hash⟩) R := by
  unfold Settler.settle
  refine Prog.Wp.ask_bind (fun q hq => by cases hq) fun r R₁ _ => ?_
  rcases r with e | blockhash
  · exact fun sig hsig => by cases hsig
  · refine Prog.Wp.ask_bind (fun q hq => by cases hq) fun r R₂ hnext => ?_
    cases r with
    | error e => exact fun sig hsig => by cases hsig
    | ok sig => exact fun _ _ => hnext.2 _ rfl

theorem runPipeline_wp : (runPipeline crates cfg job).Wp next Ok (Resolved job) R := by
  have hok : ∀ (R : Resolutions) (c : Call), True → c.isLookup = true → Ok R c := by
    rintro R c - hc q rfl
    cases hc
  have herror : ∀ (R : Resolutions) e, Resolved job (.error e) R :=
    fun _ _ outcome h => by cases h
  have hgate : (Settler.isEligible crates cfg job).Wp next Ok
      (fun r R => (r = .ok true → True) ∧ ∀ e, Resolved job (.error e) R) R :=
    (Settler.isEligible_calls.wp hok (fun _ _ _ _ _ _ _ => trivial) trivial).mono
      fun _ R _ => ⟨fun _ => trivial, herror R⟩
  refine Pipeline.runPipeline_wp hok (fun _ _ _ _ _ _ _ => trivial) (fun R _ => herror R) ?_ hgate
  intro R _ result hash
  refine (settle_wp _ _ _).mono fun r R hr => ?_
  cases r with
  | error e => exact herror R e
  | ok sig =>
    rintro outcome hout
    obtain rfl := Except.ok.inj hout
    exact hr sig rfl

def Known (job : EvaluationJob) (result : Worker.RunResult) (R : Resolutions) : Prop :=
  Option.elim result True fun r => Resolved job r R

theorem Known.grows {result : Worker.RunResult} (h : Known job result R) (hR : Grows R R') :
    Known job result R' := by
  cases result with
  | none => trivial
  | some r => exact fun outcome hout => hR _ _ (h outcome hout)

theorem writes_backed {statuses : List JobStatus} {c : TCall}
    (h : Writes crates job statuses c) : OkTimed R c := by
  intro q hq
  cases h with
  | job lastError h =>
    obtain rfl := Call.sql.inj hq
    exact fun hash hhash => by cases hhash
  | event e =>
    obtain rfl := Call.sql.inj hq
    trivial
  | count =>
    obtain rfl := Call.sql.inj hq
    trivial
  | memory h =>
    cases hq
    cases h

theorem settles_backed {outcome : PipelineOutcome} {c : TCall}
    (hR : R (uidHex job.paymentUid) = some (resolutionOf outcome))
    (h : Settles crates job outcome c) : OkTimed R c := by
  intro q hq
  cases h with
  | job =>
    obtain rfl := Call.sql.inj hq
    rintro hash hhash
    exact ⟨_, hR, Option.some.inj hhash⟩
  | verdict =>
    obtain rfl := Call.sql.inj hq
    exact ⟨_, hR, rfl, rfl, rfl⟩
  | event e =>
    obtain rfl := Call.sql.inj hq
    trivial
  | parameter value =>
    obtain rfl := Call.sql.inj hq
    trivial
  | memory h =>
    cases hq
    cases h

theorem runRule : RunRule nextTimed OkTimed crates job (Worker.timedPipeline crates cfg job)
    (fun _ => True) (Known job) where
  before_ok _ _ _ h := writes_backed h
  before_next _ _ _ _ _ _ _ := trivial
  run _ _ := Prog.wp_timeout runPipeline_wp (fun _ _ h => h) (fun _ _ _ _ h => h)
    fun _ _ _ _ _ => trivial
  after_ok result R c hknown h := by
    rcases result with _ | e | outcome
    · exact writes_backed h
    · exact writes_backed h
    · exact settles_backed (hknown outcome rfl) h
  after_next result R c r R' hknown _ hnext := hknown.grows hnext.1

theorem wp_plain {α : Type} {p : TaskCode α} {calls : TCall → Prop} (hp : p.Calls calls)
    (hc : ∀ c, calls c → ∀ q, c.base = .sql q → ∀ R, Backed R q) :
    p.Wp nextTimed OkTimed (fun _ _ => True) R :=
  hp.wp (I := fun _ => True) (fun R c _ h q hq => hc c h q hq R) (fun _ _ _ _ _ _ _ => trivial)
    trivial

theorem feed_backed {c : Call} (hc : c.isFeed = true) {q : Stmt} (hq : c = .sql q) :
    Backed R q := by
  subst hq
  cases q <;> trivial

theorem skipDuplicate_calls :
    (Worker.skipDuplicate cfg job).Calls fun c => c = .await (.sql (.isTerminal (uidHex
      job.paymentUid))) ∨ c = .await (.processedInsert job.paymentUid) := by
  unfold Worker.skipDuplicate
  split
  · refine ⟨Or.inl rfl, fun r _ => ?_⟩
    rcases r with e | _ | _ <;> trivial
  · exact ⟨Or.inr rfl, fun _ _ => trivial⟩

theorem handleJob_sound : Sound R (System.workerBody crates cfg job) := by
  have hskip : ∀ R, (Worker.skipDuplicate cfg job).Wp nextTimed OkTimed
      (fun skip _ => skip = false → True) R := by
    intro R
    refine (wp_plain skipDuplicate_calls ?_).mono fun _ _ _ _ => trivial
    rintro c (rfl | rfl) q hq R
    · obtain rfl := Call.sql.inj hq
      trivial
    · cases hq
  have hdepth : (Worker.await .setQueueDepth).Wp nextTimed OkTimed (fun _ R =>
      (Worker.skipDuplicate cfg job).Wp nextTimed OkTimed (fun skip _ => skip = false → True)
        R) R :=
    ⟨fun q hq => (by cases hq), fun _ R' _ => hskip R'⟩
  exact (runRule.handleJob hdepth).bind fun _ _ _ => trivial

theorem manualEvaluate_sound (headers : Server.Headers) (paymentPubkey : String) :
    Sound R (System.handlerBody crates cfg headers paymentPubkey) := by
  refine (RunRule.manualEvaluate ?_).bind fun _ _ _ => trivial
  have hlocal : (Server.authorizeManualEvaluate crates cfg headers).lift.Calls
      fun c => c.base.isLocal = true :=
    Prog.calls_lift (Server.authorizeManualEvaluate_calls headers) fun _ h => h
  refine (wp_plain hlocal ?_).mono fun _ R' _ key _ => ?_
  · intro c hc q hq R
    rw [hq] at hc
    cases hc
  · refine ⟨fun q hq => (by cases hq), fun r R'' _ job _ => ?_⟩
    exact ⟨_, _, runRule, trivial⟩

theorem entry_sound {t : TaskId} {code : TaskCode Unit} (h : System.Entry crates cfg t code) :
    Sound R code := by
  cases h with
  | none => trivial
  | worker job => exact handleJob_sound
  | monitor note =>
    have hfeed : (Chain.monitorNotification crates cfg note).lift.Calls
        fun c => c.base.isFeed = true :=
      Prog.calls_lift (Chain.monitorNotification_calls note) fun _ h => h
    exact (wp_plain hfeed fun c hc q hq R => feed_backed hc hq).bind fun _ _ _ => trivial
  | backfill =>
    have hfeed : (Chain.backfillMissedDeliveries crates cfg).lift.Calls
        fun c => c.base.isFeed = true :=
      Prog.calls_lift Chain.backfillMissedDeliveries_calls fun _ h => h
    exact wp_plain hfeed fun c hc q hq R => feed_backed hc hq
  | handler n headers paymentPubkey => exact manualEvaluate_sound headers paymentPubkey

end Run

/-! ## The process -/

structure Inv (s : System) : Prop where
  landed : ∀ tx ∈ s.world.chain.landed,
    s.world.chain.resolution tx.ix.paymentUid = some tx.ix.resolution
  ledger : LedgerAgrees s.world.chain.resolution s.world.ledger
  unanswered : ∀ q ∈ s.world.unanswered, Backed s.world.chain.resolution q
  tasks : ∀ t, Sound s.world.chain.resolution (s.tasks t)

theorem inv_init : Inv .init :=
  ⟨fun _ h => (by cases h), ⟨fun _ _ h => (by cases h), fun _ _ _ h => (by cases h)⟩,
    fun _ h => (by cases h), fun _ => trivial⟩

theorem land_grows {c : ChainState} {tx : Transaction}
    (hnone : c.resolution tx.ix.paymentUid = none) :
    Grows c.resolution (c.land tx).resolution := grows_update hnone

theorem land_landed {c : ChainState} {tx : Transaction}
    (hnone : c.resolution tx.ix.paymentUid = none)
    (h : ∀ t ∈ c.landed, c.resolution t.ix.paymentUid = some t.ix.resolution) :
    ∀ t ∈ (c.land tx).landed, (c.land tx).resolution t.ix.paymentUid = some t.ix.resolution := by
  intro t ht
  rcases List.mem_cons.mp ht with rfl | ht
  · exact Function.update_self _ _ _
  · exact land_grows hnone _ _ (h t ht)

theorem sent_keeps {c c' : ChainState} {tx : Transaction} (hsent : c.Sent c' tx)
    (h : ∀ t ∈ c.landed, c.resolution t.ix.paymentUid = some t.ix.resolution) :
    Grows c.resolution c'.resolution ∧
      ∀ t ∈ c'.landed, c'.resolution t.ix.paymentUid = some t.ix.resolution := by
  rcases hsent with rfl | ⟨hnone, rfl⟩ | rfl
  · exact ⟨.refl _, h⟩
  · exact ⟨land_grows hnone, land_landed hnone h⟩
  · exact ⟨.refl _, h⟩

theorem frame_keeps {w w' : World} {c : Call} {executed : Option (Int × Stmt)}
    (hframe : World.Frame w w' c executed)
    (h : ∀ t ∈ w.chain.landed, w.chain.resolution t.ix.paymentUid = some t.ix.resolution) :
    Grows w.chain.resolution w'.chain.resolution ∧
      ∀ t ∈ w'.chain.landed, w'.chain.resolution t.ix.paymentUid = some t.ix.resolution := by
  rcases hframe.chain with heq | ⟨tx, -, hsent⟩
  · rw [heq]
    exact ⟨.refl _, h⟩
  · exact sent_keeps hsent h

theorem inv_next {crates : Crates} {cfg : OracleConfig} {s s' : System} {a : Act} (hinv : Inv s)
    (h : s.Move crates cfg a s') : Inv s' := by
  cases h with
  | @call t choose c k r w hcode hw =>
    have hframe := World.performTimed_frame hw
    obtain ⟨hgrows, hlanded⟩ := frame_keeps hframe hinv.landed
    have hcall := hinv.tasks t
    rw [hcode] at hcall
    refine ⟨hlanded, ?_, fun q hq => ?_, ?_⟩
    · have hledger := hinv.ledger
      rw [hframe.ledger]
      cases hex : Timed.executed c (choose c) with
      | none => exact hledger.grows hgrows
      | some p =>
        have hbacked := hcall.1 p.2 (Timed.executed_base hex)
        exact (ledgerAgrees_after hledger hbacked).grows hgrows
    · rcases hframe.unanswered q hq with hmem | hsql
      · exact (hinv.unanswered q hmem).grows hgrows
      · exact (hcall.1 q hsql).grows hgrows
    · refine (Function.forall_update_iff _ fun _ code => Sound w.chain.resolution code).mpr
        ⟨?_, fun t' _ => (hinv.tasks t').grows hgrows⟩
      refine hcall.2 r _ ⟨hgrows, fun tx htx => ?_⟩
      exact hlanded tx (World.performTimed_confirmed hw htx)
  | @spawn _ t _ _ _ hentry hexecuted =>
    refine ⟨hinv.landed, hinv.ledger, hinv.unanswered, ?_⟩
    exact (Function.forall_update_iff _ fun _ code => Sound s.world.chain.resolution code).mpr
      ⟨entry_sound hentry, fun t' _ => hinv.tasks t'⟩
  | @execLate i now q hq =>
    have hbacked := hinv.unanswered q (List.mem_of_getElem? hq)
    refine ⟨hinv.landed, ledgerAgrees_after hinv.ledger hbacked, fun q' hq' => ?_, hinv.tasks⟩
    exact hinv.unanswered q' (List.mem_of_mem_eraseIdx hq')
  | @land i tx htx hnone =>
    have hgrows : Grows s.world.chain.resolution (s.world.chain.land tx).resolution :=
      land_grows hnone
    exact ⟨land_landed hnone hinv.landed, hinv.ledger.grows hgrows,
      fun q hq => (hinv.unanswered q hq).grows hgrows, fun t => (hinv.tasks t).grows hgrows⟩
  | @resolve uid res hnone =>
    have hgrows : Grows s.world.chain.resolution
        (Function.update s.world.chain.resolution uid (some res)) := grows_update hnone
    exact ⟨fun tx htx => hgrows _ _ (hinv.landed tx htx), hinv.ledger.grows hgrows,
      fun q hq => (hinv.unanswered q hq).grows hgrows, fun t => (hinv.tasks t).grows hgrows⟩
  | crash => exact ⟨hinv.landed, hinv.ledger, hinv.unanswered, fun _ => trivial⟩

/-- In every reachable state, what the ledger records of a resolution is what the chain holds. -/
theorem recorded_agrees (crates : Crates) (cfg : OracleConfig) (s : System)
    (hs : Reach (System.next crates cfg) (fun _ _ => True) .init s) :
    LedgerAgrees s.world.chain.resolution s.world.ledger :=
  (hs.invariant inv_init fun _ _ _ hinv _ hnext => inv_next hinv (System.next_move hnext)).ledger

def manualActs : List Act :=
  [.start, .request 0 ⟨none, none⟩ ""] ++ System.toySteps (.handler 0) 17

theorem recorded_agrees_manual :
    ∃ s, runActs (System.next .toy .toy) manualActs .init = some s ∧
      (s.world.ledger.verdicts (uidHex (byte32 1))).isSome = true ∧
      LedgerAgrees s.world.chain.resolution s.world.ledger := by
  have hrun : (runActs (System.next .toy .toy) manualActs .init).map
      (fun s => (s.world.ledger.verdicts (uidHex (byte32 1))).isSome) = some true := by
    decide +kernel
  obtain ⟨s, hs, hverdict⟩ := Option.map_eq_some_iff.mp hrun
  exact ⟨s, hs, hverdict, recorded_agrees .toy .toy s
    (Reach.first.runActs (fun _ _ _ => trivial) hs)⟩

end OracleQa.Agreement
