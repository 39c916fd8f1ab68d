import OracleQa.Interaction.Gate
import OracleQa.Model.System
import OracleQa.Spec.Footprint

/-! Payments that are closed to some of the ledger writes. A run of a payment makes such writes
after it has passed a gate, the dedupe probe of the worker or the payment read of a handler. If no
run is past its gate when the payment closes, and later gates refuse it, none is executed any
more. -/

namespace OracleQa
open Interaction

def Act.task : Act → Option TaskId
  | .step t _ => some t
  | _ => none

/-- One payment, the statuses it gets closed to, and when; `tells` is a reply by which a run that is
past its gate learns that it must not write them. -/
structure Closing where
  key : String
  statuses : JobStatus → Prop
  closed : Ledger → ChainState → Prop
  tells : (c : TCall) → TReply c → Prop

namespace Closing

def gate (key : String) : TCall → Prop
  | .await (.sql (.isTerminal uid)) => uid = key
  | .await (.getAccount _) => True
  | _ => False

/-- The probe finds a terminal row, or the read does not show the payment as pending. -/
def gateRefuses (crates : Crates) (cfg : OracleConfig) (key : String) :
    (c : TCall) → TReply c → Prop
  | .await (.sql (.isTerminal uid)), r => uid = key ∧ r = .ok true
  | .await (.getAccount pk), r => ∀ job,
      Chain.jobOfReply crates cfg.oraclePubkey pk r = .ok (some job) → uidHex job.paymentUid ≠ key
  | _, _ => False

variable (crates : Crates) (cfg : OracleConfig) (K : Closing)

def badStmt : Stmt → Prop
  | .upsertJob u => u.paymentUid = K.key ∧ K.statuses u.status
  | _ => False

def bad (c : TCall) : Prop := ∃ q, c.base = .sql q ∧ K.badStmt q

def refuses (c : TCall) (r : TReply c) : Prop := gateRefuses crates cfg K.key c r ∨ K.tells c r

/-- A run that can make a bad write with no gate before it. -/
def Past (code : TaskCode Unit) : Prop := code.Reaches (gate K.key) K.bad

def Obeys (code : TaskCode Unit) : Prop := Prog.Obeys (K.refuses crates cfg) K.bad code

structure Lawful : Prop where
  settled : ¬ K.statuses .settled
  tells_writes : ∀ {job statuses c r}, Writes crates job statuses c → .settled ∉ statuses →
    ¬ K.tells c r
  tells_gate : ∀ {c r}, gate K.key c → ¬ K.tells c r
  run : ∀ {job : EvaluationJob}, uidHex job.paymentUid = K.key →
    (Worker.timedPipeline crates cfg job).Wp (Prog.refusalNext (K.refuses crates cfg))
      (Prog.refusalOk K.bad)
      (fun result refused => refused → ∃ outcome, result = some (.ok outcome)) False

variable {crates cfg K}

theorem not_bad_of_noSql {c : TCall} (h : NoSql c) : ¬ K.bad c := by
  rintro ⟨q, hq, -⟩
  exact h q hq

theorem not_bad_of_gate {c : TCall} (h : gate K.key c) : ¬ K.bad c := by
  rintro ⟨q, hq, hbad⟩
  rcases c with c | c
  · cases c with
    | sql q' =>
      obtain rfl := Call.sql.inj hq
      cases q' <;> first | exact h | exact hbad
    | _ => cases hq
  · exact h

theorem not_bad_of_feed {c : TCall} (h : c.base.isFeed = true) : ¬ K.bad c := by
  rintro ⟨q, hq, hbad⟩
  rw [hq] at h
  cases q <;> first | exact hbad | cases h

theorem not_bad_of_writes {job : EvaluationJob} {statuses : List JobStatus} {c : TCall}
    (hother : uidHex job.paymentUid ≠ K.key) (h : Writes crates job statuses c) : ¬ K.bad c := by
  rintro ⟨q, hq, hbad⟩
  cases h with
  | job lastError h =>
    obtain rfl := Call.sql.inj hq
    exact hother hbad.1
  | event e =>
    obtain rfl := Call.sql.inj hq
    exact hbad
  | count =>
    obtain rfl := Call.sql.inj hq
    exact hbad
  | memory h =>
    cases hq
    cases h

theorem not_bad_of_settles (hK : K.Lawful crates cfg) {job : EvaluationJob}
    {outcome : Pipeline.PipelineOutcome} {c : TCall} (h : Settles crates job outcome c) :
    ¬ K.bad c := by
  rintro ⟨q, hq, hbad⟩
  cases h with
  | job =>
    obtain rfl := Call.sql.inj hq
    exact hK.settled hbad.2
  | verdict =>
    obtain rfl := Call.sql.inj hq
    exact hbad
  | event e =>
    obtain rfl := Call.sql.inj hq
    exact hbad
  | parameter value =>
    obtain rfl := Call.sql.inj hq
    exact hbad
  | memory h =>
    cases hq
    cases h

theorem gate_writes {job : EvaluationJob} {statuses : List JobStatus} {c : TCall} {r : TReply c}
    (h : Writes crates job statuses c) : ¬ gateRefuses crates cfg K.key c r := by
  cases h with
  | job lastError h => exact id
  | event e => exact id
  | count => exact id
  | @memory c h => cases c <;> first | exact id | cases h

/-! ## The code -/

section Code
variable {job : EvaluationJob}

theorem runRule_same (hK : K.Lawful crates cfg) (hkey : uidHex job.paymentUid = K.key) :
    RunRule (Prog.refusalNext (K.refuses crates cfg)) (Prog.refusalOk K.bad) crates job
      (Worker.timedPipeline crates cfg job) (fun refused => ¬ refused)
      (fun result refused => refused → ∃ outcome, result = some (.ok outcome)) where
  before_ok _ _ hs _ h := absurd h hs
  before_next s c r s' hs h hnext hs' := by
    rcases hnext hs' with h' | h' | h'
    · exact hs h'
    · exact gate_writes h h'
    · exact hK.tells_writes h (by simp) h'
  run refused h := by
    rw [eq_false h]
    exact hK.run hkey
  after_ok result refused c hresult h := by
    intro hrefused
    obtain ⟨outcome, rfl⟩ := hresult hrefused
    exact not_bad_of_settles hK h
  after_next result refused c r refused' hresult h hnext hrefused := by
    rcases result with _ | e | outcome
    · rcases hnext hrefused with h' | h' | h'
      · exact hresult h'
      · exact (gate_writes h h').elim
      · exact (hK.tells_writes h (by simp) h').elim
    · rcases hnext hrefused with h' | h' | h'
      · exact hresult h'
      · exact (gate_writes h h').elim
      · exact (hK.tells_writes h (by simp) h').elim
    · exact ⟨outcome, rfl⟩

theorem runRule_other (hK : K.Lawful crates cfg) (hother : uidHex job.paymentUid ≠ K.key) :
    RunRule (Prog.refusalNext (K.refuses crates cfg)) (Prog.refusalOk K.bad) crates job
      (Worker.timedPipeline crates cfg job) (fun _ => True) (fun _ _ => True) where
  before_ok _ _ _ h _ := not_bad_of_writes hother h
  before_next _ _ _ _ _ _ _ := trivial
  run refused _ := (timedPipeline_noSql.wp (I := fun _ => True)
    (fun _ _ _ h _ => not_bad_of_noSql h) (fun _ _ _ _ _ _ _ => trivial) trivial)
  after_ok result refused c _ h _ := by
    rcases result with _ | e | outcome
    · exact not_bad_of_writes hother h
    · exact not_bad_of_writes hother h
    · exact not_bad_of_settles hK h
  after_next _ _ _ _ _ _ _ _ := trivial

theorem obeys_of_noSql {code : TaskCode Unit} (h : code.Calls NoSql) :
    K.Obeys crates cfg code ∧ ¬ K.Past code := by
  have hbad : code.Calls fun c => ¬ K.bad c := h.mono fun _ => not_bad_of_noSql
  exact ⟨hbad.obeys, Prog.not_reaches_of_calls hbad⟩

theorem obeys_of_feed {code : TaskCode Unit} (h : code.Calls fun c => c.base.isFeed = true) :
    K.Obeys crates cfg code ∧ ¬ K.Past code := by
  have hbad : code.Calls fun c => ¬ K.bad c := h.mono fun _ => not_bad_of_feed
  exact ⟨hbad.obeys, Prog.not_reaches_of_calls hbad⟩

theorem refuses_local (hK : K.Lawful crates cfg) {c : Call} (hc : c.isLocal = true)
    (r : TReply (.await c)) : ¬ K.refuses crates cfg (.await c) r := by
  have hwrites : Writes crates .toy [] (.await c) := .memory hc
  rintro (h | h)
  · exact gate_writes hwrites h
  · exact hK.tells_writes hwrites (by simp) h

theorem workerBody_other (hK : K.Lawful crates cfg) (hother : uidHex job.paymentUid ≠ K.key) :
    K.Obeys crates cfg (System.workerBody crates cfg job) ∧
      ¬ K.Past (System.workerBody crates cfg job) := by
  have hskip : ∀ refused, (Worker.skipDuplicate cfg job).Wp
      (Prog.refusalNext (K.refuses crates cfg)) (Prog.refusalOk K.bad)
      (fun skip _ => skip = false → True) refused := by
    intro refused
    unfold Worker.skipDuplicate
    split
    · refine ⟨fun _ hbad => ?_, fun r _ _ => ?_⟩
      · obtain ⟨q, hq, hq'⟩ := hbad
        obtain rfl := Call.sql.inj hq
        exact hq'
      · rcases r with e | _ | _ <;> exact fun _ => trivial
    · exact ⟨fun _ => not_bad_of_noSql (noSql_of_isLocal rfl), fun _ _ _ _ => trivial⟩
  have hdepth : (Worker.await .setQueueDepth).Wp (Prog.refusalNext (K.refuses crates cfg))
      (Prog.refusalOk K.bad) (fun _ refused => (Worker.skipDuplicate cfg job).Wp
        (Prog.refusalNext (K.refuses crates cfg)) (Prog.refusalOk K.bad)
        (fun skip _ => skip = false → True) refused) True :=
    ⟨fun _ => not_bad_of_noSql (noSql_of_isLocal rfl), fun _ refused _ => hskip refused⟩
  have hbody : (System.workerBody crates cfg job).Wp (Prog.refusalNext (K.refuses crates cfg))
      (Prog.refusalOk K.bad) (fun _ _ => True) True :=
    ((runRule_other hK hother).handleJob hdepth).bind fun _ _ _ => trivial
  exact ⟨Prog.wp_refusal_of_imp hbody fun h => h.elim, Prog.not_reaches_of_refused hbody⟩

theorem workerBody_same (hK : K.Lawful crates cfg) (hkey : uidHex job.paymentUid = K.key)
    (hdb : cfg.databaseEnabled = true) :
    K.Obeys crates cfg (System.workerBody crates cfg job) ∧
      ¬ K.Past (System.workerBody crates cfg job) := by
  have hgate : gate K.key (.await (.sql (.isTerminal (uidHex job.paymentUid)))) := hkey
  have hdepth : ¬ K.bad (.await .setQueueDepth) := not_bad_of_noSql (noSql_of_isLocal rfl)
  refine ⟨((runRule_same hK hkey).handleJob ⟨fun _ => hdepth, fun _ refused hnext => ?_⟩).bind
    fun _ _ h => h, ?_⟩
  · unfold Worker.skipDuplicate
    rw [if_pos hdb]
    refine ⟨fun _ => not_bad_of_gate hgate, fun r refused' hnext' => ?_⟩
    have hopen : refused' → r = .ok true := by
      intro h'
      rcases hnext' h' with h | h | h
      · exact ((hnext h).elim id (refuses_local hK rfl _)).elim
      · exact h.2
      · exact (hK.tells_gate hgate h).elim
    rcases r with e | _ | _
    · exact fun _ h => by cases hopen h
    · exact fun _ h => by cases hopen h
    · exact fun h => by cases h
  · unfold System.workerBody Worker.handleJob Worker.skipDuplicate
    rw [if_pos hdb]
    rintro (h | ⟨-, _, h⟩)
    · exact hdepth h
    · exact Prog.not_reaches_gate hgate (not_bad_of_gate hgate) h

theorem handlerBody_obeys (hK : K.Lawful crates cfg) (headers : Server.Headers)
    (paymentPubkey : String) :
    K.Obeys crates cfg (System.handlerBody crates cfg headers paymentPubkey) ∧
      ¬ K.Past (System.handlerBody crates cfg headers paymentPubkey) := by
  have hlocal : (Server.authorizeManualEvaluate crates cfg headers).lift.Calls
      fun c => ∃ c', c = .await c' ∧ c'.isLocal = true :=
    Prog.calls_lift (Server.authorizeManualEvaluate_calls headers) fun c h => ⟨c, rfl, h⟩
  have hbad : ∀ c, (∃ c', c = .await c' ∧ c'.isLocal = true) → ¬ K.bad c := by
    rintro c ⟨c', rfl, hc⟩
    exact not_bad_of_noSql (noSql_of_isLocal hc)
  have hread : ∀ pk, gate K.key (.await (.getAccount pk)) := fun _ => trivial
  refine ⟨(RunRule.manualEvaluate ?_).bind fun _ _ h => h, ?_⟩
  · refine Prog.Wp.mono (hlocal.wp (I := fun refused => ¬ refused) ?_ ?_ id) ?_
    · exact fun _ c _ hc _ => hbad c hc
    · rintro refused c r refused' h ⟨c', rfl, hc⟩ hnext hrefused'
      rcases hnext hrefused' with h' | h'
      · exact h h'
      · exact refuses_local hK hc r h'
    · intro _ refused hrefused pk _
      refine ⟨fun _ => not_bad_of_gate (hread pk), fun r refused' hnext job hjob => ?_⟩
      by_cases hkey : uidHex job.paymentUid = K.key
      · refine ⟨_, _, runRule_same hK hkey, fun hrefused' => ?_⟩
        rcases hnext hrefused' with h | h | h
        · exact hrefused h
        · exact h job hjob hkey
        · exact hK.tells_gate (hread pk) h
      · exact ⟨_, _, runRule_other hK hkey, trivial⟩
  · unfold System.handlerBody Server.manualEvaluate
    rw [Past, Prog.bind_assoc]
    refine Prog.not_reaches_bind (hlocal.mono hbad) fun r => ?_
    rcases r with ⟨status, msg⟩ | u
    · exact id
    dsimp only
    cases crates.pubkeyFromStr paymentPubkey with
    | none => exact id
    | some pk => exact Prog.not_reaches_gate (hread pk) (not_bad_of_gate (hread pk))

def IsFeed (t : TaskId) : Prop := t = .monitor ∨ t = .backfill

def Feeds (t : TaskId) (code : TaskCode Unit) : Prop :=
  IsFeed t → code.Calls fun c => c.base.isFeed = true

theorem entry_feeds {t : TaskId} {code : TaskCode Unit} (h : System.Entry crates cfg t code) :
    Feeds t code := by
  intro ht
  cases h with
  | none => trivial
  | worker job => rcases ht with ht | ht <;> cases ht
  | monitor note =>
    have hfeed : (Chain.monitorNotification crates cfg note).lift.Calls
        fun c => c.base.isFeed = true :=
      Prog.calls_lift (Chain.monitorNotification_calls note) fun _ h => h
    exact hfeed.bind fun _ => trivial
  | backfill => exact Prog.calls_lift Chain.backfillMissedDeliveries_calls fun _ h => h
  | handler n headers paymentPubkey => rcases ht with ht | ht <;> cases ht

theorem entry_obeys (hK : K.Lawful crates cfg) {t : TaskId} {code : TaskCode Unit}
    (h : System.Entry crates cfg t code) : K.Obeys crates cfg code ∧ ¬ K.Past code := by
  cases h with
  | none => exact obeys_of_noSql trivial
  | worker job =>
    cases hdb : cfg.databaseEnabled with
    | false =>
      have hbody : (System.workerBody crates cfg job).Calls NoSql :=
        (Worker.handleJob_noSql hdb timedPipeline_noSql).bind fun _ => trivial
      exact obeys_of_noSql hbody
    | true =>
      by_cases hkey : uidHex job.paymentUid = K.key
      · exact workerBody_same hK hkey hdb
      · exact workerBody_other hK hkey
  | monitor note => exact obeys_of_feed (entry_feeds (.monitor note) (Or.inl rfl))
  | backfill => exact obeys_of_feed (entry_feeds .backfill (Or.inr rfl))
  | handler n headers paymentPubkey => exact handlerBody_obeys hK headers paymentPubkey

end Code

/-! ## The process -/

section Process
variable (crates cfg K)

/-- While the payment is closed, no task is past its gate and no bad write is left over. -/
structure Safe (s : System) : Prop where
  feed : ∀ t, Feeds t (s.tasks t)
  obeys : ∀ t, K.Obeys crates cfg (s.tasks t)
  free : K.closed s.world.ledger s.world.chain →
    (∀ t, ¬ K.Past (s.tasks t)) ∧ ∀ q ∈ s.world.unanswered, ¬ K.badStmt q

structure Permits (s : System) (a : Act) (s' : System) : Prop where
  /-- a payment closes when no other run of it is past its gate -/
  others : ¬ K.closed s.world.ledger s.world.chain → K.closed s'.world.ledger s'.world.chain →
    (∀ t, a.task ≠ some t → ¬ K.Past (s.tasks t)) ∧ ∀ q ∈ s.world.unanswered, ¬ K.badStmt q
  /-- and the run that closes it is told -/
  own : ∀ {t choose c k r w}, a = .step t choose → s.tasks t = .call c k →
    s.world.performTimed cfg c (choose c) = some (r, w) →
    ¬ K.closed s.world.ledger s.world.chain → K.closed w.ledger w.chain →
    K.refuses crates cfg c r ∧ ¬ K.bad c
  /-- once it is closed, the gates of the worker and of the handlers refuse it -/
  gates : ∀ {t choose c k r w}, a = .step t choose → s.tasks t = .call c k →
    s.world.performTimed cfg c (choose c) = some (r, w) →
    K.closed s.world.ledger s.world.chain → gate K.key c → ¬ IsFeed t → K.refuses crates cfg c r

end Process

variable {s s' : System} {a : Act}

structure Watchful (crates : Crates) (cfg : OracleConfig) (known : String → Prop) (s : System)
    (a : Act) : Prop where
  probe : ∀ t choose uid k, a = .step t choose →
    s.tasks t = .call (.await (.sql (.isTerminal uid))) k → known uid →
    ∃ now, choose (.await (.sql (.isTerminal uid))) = SqlChoice.done now
  read : ∀ t choose pk k job, a = .step t choose → s.tasks t = .call (.await (.getAccount pk)) k →
    ¬ IsFeed t →
    Chain.jobOfReply crates cfg.oraclePubkey pk (choose (.await (.getAccount pk))) =
      .ok (some job) → ¬ known (uidHex job.paymentUid)

theorem Watchful.refuses {known : String → Prop} {key : String} {t : TaskId}
    {choose : (c : TCall) → Timed.Choice c} {c : TCall} {k : TReply c → TaskCode Unit}
    {r : TReply c} {w : World} (hw : Watchful crates cfg known s (.step t choose))
    (hknown : known key) (hcode : s.tasks t = .call c k)
    (hperform : s.world.performTimed cfg c (choose c) = some (r, w)) (hgate : gate key c)
    (hfeed : ¬ IsFeed t)
    (hterminal : c = .await (.sql (.isTerminal key)) → s.world.ledger.isTerminal key = true) :
    gateRefuses crates cfg key c r := by
  rcases c with c | c
  · cases c with
    | sql q =>
      cases q with
      | isTerminal uid =>
        obtain rfl : uid = key := hgate
        obtain ⟨now, hnow⟩ := hw.probe t choose uid k rfl hcode hknown
        rw [hnow] at hperform
        obtain rfl := (Prod.mk.inj (Option.some.inj hperform)).1
        refine ⟨rfl, ?_⟩
        show Except.ok (s.world.ledger.isTerminal uid) = _
        rw [hterminal rfl]
      | _ => exact hgate.elim
    | getAccount pk =>
      obtain rfl := (Prod.mk.inj (Option.some.inj hperform)).1
      intro job hjob hkey
      have hopen := hw.read t choose pk k job rfl hcode hfeed hjob
      rw [hkey] at hopen
      exact hopen hknown
    | _ => exact hgate.elim
  · exact hgate.elim

theorem safe_of_idle (htasks : ∀ t, s.tasks t = .ret ()) (hun : s.world.unanswered = []) :
    K.Safe crates cfg s := by
  refine ⟨fun t _ => ?_, fun t => ?_, fun _ => ⟨fun t => ?_, fun q hq => ?_⟩⟩
  · rw [htasks t]
    trivial
  · rw [htasks t]
    exact trivial
  · rw [htasks t]
    exact id
  · rw [hun] at hq
    cases hq

theorem Safe.executed (hs : K.Safe crates cfg s) (hclosed : K.closed s.world.ledger s.world.chain)
    {now : Int} {q : Stmt} (hq : s.executed a = some (now, q)) : ¬ K.badStmt q := by
  intro hbad
  cases a with
  | step t choose =>
    simp only [System.executed] at hq
    split at hq
    · cases hq
    · next c k hcode =>
      have hpast := (hs.free hclosed).1 t
      rw [hcode] at hpast
      exact hpast (Or.inl ⟨q, Timed.executed_base hq, hbad⟩)
  | execLate i now' =>
    obtain ⟨q', hq', heq⟩ := Option.map_eq_some_iff.mp hq
    obtain ⟨-, rfl⟩ := Prod.mk.inj heq
    exact (hs.free hclosed).2 q' (List.mem_of_getElem? hq') hbad
  | _ => cases hq

theorem Safe.call (hs : K.Safe crates cfg s) {t : TaskId}
    {choose : (c : TCall) → Timed.Choice c} {c : TCall} {k : TReply c → TaskCode Unit}
    {r : TReply c} {w : World} (hcode : s.tasks t = .call c k)
    (hw : s.world.performTimed cfg c (choose c) = some (r, w))
    (hp : K.Permits crates cfg s (.step t choose) ⟨w, Function.update s.tasks t (k r), s.up⟩) :
    K.Safe crates cfg ⟨w, Function.update s.tasks t (k r), s.up⟩ := by
  have hobeys := hs.obeys t
  rw [hcode] at hobeys
  have hnext : K.Obeys crates cfg (k r) := hobeys.next r
  have hrefused : K.refuses crates cfg c r → ¬ K.Past (k r) := fun hr => hobeys.refused hr
  have hun : ∀ q ∈ w.unanswered, ¬ K.bad c → (∀ q ∈ s.world.unanswered, ¬ K.badStmt q) →
      ¬ K.badStmt q := by
    intro q hq hbad hun
    rcases (World.performTimed_frame hw).unanswered q hq with hq | hq
    · exact hun q hq
    · exact fun h => hbad ⟨q, hq, h⟩
  refine ⟨?_, ?_, fun hclosed' => ?_⟩
  · refine (Function.forall_update_iff _ Feeds).mpr ⟨fun ht => ?_, fun t' _ => hs.feed t'⟩
    have hfeed := hs.feed t ht
    rw [hcode] at hfeed
    exact hfeed.2 r trivial
  · exact (Function.forall_update_iff _ fun _ code => K.Obeys crates cfg code).mpr
      ⟨hnext, fun t' _ => hs.obeys t'⟩
  -- the payment was closed already, or this call closed it
  by_cases hclosed : K.closed s.world.ledger s.world.chain
  · obtain ⟨hpast, hunanswered⟩ := hs.free hclosed
    have hcall := hpast t
    rw [hcode] at hcall
    have hbad : ¬ K.bad c := fun h => hcall (Or.inl h)
    have hown : ¬ K.Past (k r) := by
      by_cases hgate : gate K.key c
      · by_cases ht : IsFeed t
        · have hfeed := hs.feed t ht
          rw [hcode] at hfeed
          -- the feed has its gates ahead of it again
          have hboth : K.Obeys crates cfg (k r) ∧ ¬ K.Past (k r) :=
            obeys_of_feed (hfeed.2 r trivial)
          exact hboth.2
        -- the gate of a worker or a handler sees that the payment is closed
        · exact hrefused (hp.gates rfl hcode hw hclosed hgate ht)
      · exact Prog.not_reaches_next hcall hgate r
    exact ⟨(Function.forall_update_iff _ fun _ code => ¬ K.Past code).mpr
      ⟨hown, fun t' _ => hpast t'⟩, fun q hq => hun q hq hbad hunanswered⟩
  · obtain ⟨hothers, hunanswered⟩ := hp.others hclosed hclosed'
    obtain ⟨hrefuses, hbad⟩ := hp.own rfl hcode hw hclosed hclosed'
    refine ⟨(Function.forall_update_iff _ fun _ code => ¬ K.Past code).mpr
      ⟨hrefused hrefuses, fun t' ht => ?_⟩, fun q hq => hun q hq hbad hunanswered⟩
    exact hothers t' fun h => ht (Option.some.inj h).symm

theorem Safe.next (hK : K.Lawful crates cfg) (hs : K.Safe crates cfg s)
    (h : s.Move crates cfg a s') (hp : K.Permits crates cfg s a s') : K.Safe crates cfg s' := by
  -- a step outside of the tasks
  have hfree : ∀ w : World, K.closed w.ledger w.chain → s'.world = w → a.task = none →
      (∀ t, ¬ K.Past (s.tasks t)) ∧ ∀ q ∈ s.world.unanswered, ¬ K.badStmt q := by
    rintro w hclosed' rfl htask
    by_cases hclosed : K.closed s.world.ledger s.world.chain
    · exact hs.free hclosed
    · obtain ⟨hothers, hun⟩ := hp.others hclosed hclosed'
      exact ⟨fun t => hothers t (by rw [htask]; simp), hun⟩
  cases h with
  | call hcode hw => exact hs.call hcode hw hp
  | @spawn _ t code _ _ hentry hexecuted =>
    obtain ⟨hobeys, hpast⟩ := entry_obeys hK hentry
    refine ⟨?_, ?_, fun hclosed => ⟨?_, (hs.free hclosed).2⟩⟩
    · exact (Function.forall_update_iff _ Feeds).mpr ⟨entry_feeds hentry, fun t' _ => hs.feed t'⟩
    · exact (Function.forall_update_iff _ fun _ code => K.Obeys crates cfg code).mpr
        ⟨hobeys, fun t' _ => hs.obeys t'⟩
    · exact (Function.forall_update_iff _ fun _ code => ¬ K.Past code).mpr
        ⟨hpast, fun t' _ => (hs.free hclosed).1 t'⟩
  | execLate hq =>
    refine ⟨hs.feed, hs.obeys, fun hclosed' => ?_⟩
    obtain ⟨hpast, hun⟩ := hfree _ hclosed' rfl rfl
    exact ⟨hpast, fun q hq => hun q (List.mem_of_mem_eraseIdx hq)⟩
  | land htx hnone => exact ⟨hs.feed, hs.obeys, fun hclosed' => hfree _ hclosed' rfl rfl⟩
  | resolve hnone => exact ⟨hs.feed, hs.obeys, fun hclosed' => hfree _ hclosed' rfl rfl⟩
  | crash =>
    refine ⟨fun _ _ => trivial, fun _ => trivial, fun hclosed' => ?_⟩
    exact ⟨fun _ => id, (hfree _ hclosed' rfl rfl).2⟩

end Closing
end OracleQa
