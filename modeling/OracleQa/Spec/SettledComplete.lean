import OracleQa.Spec.Agreement
import OracleQa.Spec.Recording
import OracleQa.Spec.SettledRow
import OracleQa.Spec.Watermark

/-! A settled row has its verdict and its event once `record_settled` is through. -/

namespace OracleQa.SettledComplete
open Interaction Recording SettledRow Watermark

def Complete (l : Ledger) (key : String) : Prop :=
  (l.verdicts key).isSome = true ∧ .settled ∈ l.lifecycle key

/-- The task has settled the row and has not returned from `record_settled`. -/
def InSettle (key : String) (code : TaskCode Unit) : Prop :=
  due code = some (.verdict key) ∨ due code = some (.event key .settled)

def Answered (key : String) : (c : TCall) → Timed.Choice c → Prop
  | .await (.sql (.upsertJob u)), .lost _ _ => u.paymentUid = key → u.status ≠ .settled
  | .await (.sql (.upsertVerdict v)), choice => v.paymentUid = key → ∃ now, choice = .done now
  | .await (.sql (.insertEvent e)), choice =>
    e.paymentUid = key → e.event = .settled → (SqlChoice.time choice).isSome = true
  | _, _ => True

/-- A step that breaks off no `record_settled` between its upsert and its return, as far as its
payment has no complete record yet. -/
structure Unbroken (s : System) (a : Act) : Prop where
  answered : ∀ {t choose c k}, a = .step t choose → s.tasks t = .call c k →
    ∀ key, ¬ Complete s.world.ledger key → Answered key c (choose c)
  late : ∀ {i now u}, a = .execLate i now → s.world.unanswered[i]? = some (.upsertJob u) →
    u.status = .settled → Complete s.world.ledger u.paymentUid
  kept : ∀ {t key}, drops a t → InSettle key (s.tasks t) → Complete s.world.ledger key

variable {crates : Crates} {cfg : OracleConfig} {s s' : System} {a : Act} {l : Ledger}
  {key : String}

theorem verdict_after (h : (l.verdicts key).isSome = true) (executed : Option (Int × Stmt)) :
    ((l.after executed).verdicts key).isSome = true := by
  rcases executed with _ | ⟨now, q⟩
  · exact h
  cases q with
  | upsertJob u =>
    rcases l.after_upsertJob now u with heq | heq
    · rwa [heq]
    · rwa [heq]
  | upsertVerdict v =>
    show ((l.upsertVerdict v).verdicts key).isSome = true
    unfold Ledger.upsertVerdict
    split
    · by_cases hkey : key = v.paymentUid
      · subst hkey
        simp
      · simpa only [Function.update_of_ne hkey] using h
    · exact h
  | insertEvent e =>
    show ((l.insertEvent e).verdicts key).isSome = true
    unfold Ledger.insertEvent
    split <;> exact h
  | _ => exact h

theorem Complete.after (h : Complete l key) (executed : Option (Int × Stmt)) :
    Complete (l.after executed) key :=
  ⟨verdict_after h.1 executed, (lifecycle_grows l executed).subset h.2⟩

theorem verdict_upserted {v : VerdictUpsert} (hrow : HasRow l v.paymentUid) :
    ((l.upsertVerdict v).verdicts v.paymentUid).isSome = true := by
  obtain ⟨row, hrow⟩ := Option.isSome_iff_exists.mp hrow
  unfold Ledger.upsertVerdict
  rw [hrow]
  simp

theorem event_inserted {e : EventRow} (hrow : HasRow l e.paymentUid) :
    e.event ∈ (l.insertEvent e).lifecycle e.paymentUid := by
  obtain ⟨row, hrow⟩ := Option.isSome_iff_exists.mp hrow
  rw [lifecycle_insertEvent hrow, if_pos rfl]
  exact List.mem_append_right _ List.mem_cons_self

def Hashed : Stmt → Prop
  | .upsertJob u => u.status = .settled → u.resolutionHash.isSome = true
  | _ => True

def RowsHashed (l : Ledger) : Prop :=
  ∀ key row, l.jobs key = some row → row.status = .settled → row.resolutionHash.isSome = true

theorem rowsHashed_after (h : RowsHashed l) {now : Int} {q : Stmt} (hq : Hashed q) :
    RowsHashed (l.after (some (now, q))) := by
  by_cases hu : ∃ u, q = .upsertJob u
  · obtain ⟨u, rfl⟩ := hu
    rcases l.after_upsertJob now u with heq | heq
    · rwa [heq]
    · rw [heq]
      intro key row hrow hsettled
      by_cases hkey : key = u.paymentUid
      · subst hkey
        obtain rfl : u.row now (l.jobs u.paymentUid) = row := by
          simpa [Ledger.putJob] using hrow
        rw [JobUpsert.row_status] at hsettled
        obtain ⟨hash, hhash⟩ := Option.isSome_iff_exists.mp (hq hsettled)
        cases l.jobs u.paymentUid with
        | none =>
          show u.resolutionHash.isSome = true
          rw [hhash]
          rfl
        | some row =>
          show (u.resolutionHash.or row.resolutionHash).isSome = true
          rw [hhash]
          rfl
      · have hold : l.jobs key = some row := by
          simpa [Ledger.putJob, Function.update_of_ne hkey] using hrow
        exact h key row hold hsettled
  · intro key row hrow
    rw [Ledger.after_jobs l now fun u hq' => hu ⟨u, hq'⟩] at hrow
    exact h key row hrow

theorem hashed_of_plain {c : TCall} (hc : Plain c) {q : Stmt} (hq : c.base = .sql q) :
    Hashed q := by
  cases q with
  | upsertJob u =>
    intro hsettled
    rcases c with c | c
    · obtain rfl : c = .sql (.upsertJob u) := hq
      exact hc.hash u rfl hsettled
    · obtain rfl : c = .sql (.upsertJob u) := hq
      exact absurd rfl (hc.awaited _)
  | _ => trivial

/-! ## The process -/

/-- A settled row is complete, or some task is still to complete it. -/
structure Covered (s : System) : Prop where
  tracked : Tracked s
  hashed : RowsHashed s.world.ledger
  unanswered : ∀ q ∈ s.world.unanswered, Hashed q
  rows : ∀ t d, due (s.tasks t) = some d → HasRow s.world.ledger d.key
  verdicts : ∀ t key, due (s.tasks t) = some (.event key .settled) →
    (s.world.ledger.verdicts key).isSome = true
  covered : ∀ key, Settled s.world.ledger key →
    Complete s.world.ledger key ∨ ∃ t, InSettle key (s.tasks t)

theorem covered_init : Covered .init where
  tracked := tracked_init
  hashed _ _ h := by cases h
  unanswered _ h := by cases h
  rows _ _ h := by cases h
  verdicts _ _ h := by cases h
  covered _ h := by
    obtain ⟨row, hrow, -⟩ := h
    cases hrow

theorem executed_hashed (hs : Covered s) {now : Int} {q : Stmt}
    (hex : s.executed a = some (now, q)) : Hashed q := by
  cases a with
  | step t choose =>
    simp only [System.executed] at hex
    split at hex
    · cases hex
    · next c k hcode =>
      have hcall := hs.tracked.tasks t
      rw [hcode] at hcall
      exact hashed_of_plain hcall.1.2 (Timed.executed_base hex)
  | execLate i now =>
    obtain ⟨q', hq, hqq⟩ := Option.map_eq_some_iff.mp hex
    obtain ⟨-, rfl⟩ := Prod.mk.inj hqq
    exact hs.unanswered _ (List.mem_of_getElem? hq)
  | _ => cases hex

theorem hashed_next (hs : Covered s) (h : s.Move crates cfg a s') :
    RowsHashed s'.world.ledger := by
  rw [h.ledger]
  cases hex : s.executed a with
  | none => exact hs.hashed
  | some p => exact rowsHashed_after hs.hashed (executed_hashed hs hex)

theorem unanswered_next (hs : Covered s) (h : s.Move crates cfg a s') :
    ∀ q ∈ s'.world.unanswered, Hashed q := by
  intro q hq
  cases h with
  | @call t choose c k r w hcode hw =>
    rcases (World.performTimed_frame hw).unanswered q hq with hold | hbase
    · exact hs.unanswered q hold
    · have hcall := hs.tracked.tasks t
      rw [hcode] at hcall
      exact hashed_of_plain hcall.1.2 hbase
  | spawn hentry hexecuted => exact hs.unanswered q hq
  | execLate hlate => exact hs.unanswered q (List.mem_of_mem_eraseIdx hq)
  | land htx hnone => exact hs.unanswered q hq
  | resolve hnone => exact hs.unanswered q hq
  | crash => exact hs.unanswered q hq

theorem rows_next (hs : Covered s) (h : s.next crates cfg a = some s') (t : TaskId) (d : Due)
    (hd : due (s'.tasks t) = some d) : HasRow s'.world.ledger d.key := by
  rw [(System.next_move h).ledger]
  rcases due_origin hs.tracked h hd with hold | ⟨now, u, hex, rfl⟩ | ⟨now, v, hex, hold, rfl⟩
  · exact (hs.rows t d hold).after _
  · have hrow : HasRow (s.world.ledger.after (some (now, .upsertJob u))) u.paymentUid :=
      hasRow_after_upsertJob _ _ _
    rw [hex]
    split <;> exact hrow
  · exact (hs.rows t _ hold).after _

theorem status_of_event_settled {status : JobStatus} (h : status.event = .settled) :
    status = .settled := by
  cases status <;> first | rfl | cases h

theorem verdicts_next (hs : Covered s) (h : s.next crates cfg a = some s') (t : TaskId)
    (key : String) (hd : due (s'.tasks t) = some (.event key .settled)) :
    (s'.world.ledger.verdicts key).isSome = true := by
  rw [(System.next_move h).ledger]
  rcases due_origin hs.tracked h hd with hold | ⟨now, u, -, heq⟩ | ⟨now, v, hex, hold, heq⟩
  · exact verdict_after (hs.verdicts t key hold) _
  · split at heq
    · cases heq
    · next hstatus =>
      exact absurd (status_of_event_settled (Due.event.inj heq).2.symm) hstatus
  · obtain ⟨rfl, -⟩ := Due.event.inj heq
    rw [hex]
    exact verdict_upserted (hs.rows t _ hold)

/-! ## Coverage -/

theorem covered_upsert (hs : Covered s) (hg : Unbroken s a) (h : s.next crates cfg a = some s')
    {now : Int} {u : JobUpsert} (hex : s.executed a = some (now, .upsertJob u))
    (hstatus : u.status = .settled) (hopen : ¬ Complete s.world.ledger u.paymentUid)
    (hsettles : s'.world.ledger ≠ s.world.ledger) : ∃ t, InSettle u.paymentUid (s'.tasks t) := by
  cases a with
  | step t choose =>
    obtain ⟨c, k, r, hcode, hw, hplain, hafter⟩ := step_due hs.tracked h
    have hcalled : Timed.executed c (choose c) = some (now, .upsertJob u) := by
      rw [System.executed, hcode] at hex
      exact hex
    have hbase := Timed.executed_base hcalled
    rcases c with c | c
    · obtain rfl : c = .sql (.upsertJob u) := hbase
      -- a caller that is not told would leave the record as it is
      have hanswered := hg.answered rfl hcode u.paymentUid hopen
      refine ⟨t, Or.inl ?_⟩
      have hreply : s.world.performSql (.upsertJob u) (choose (.await (.sql (.upsertJob u)))) =
        (r, s'.world) := Option.some.inj hw
      cases hchoice : choose (.await (.sql (.upsertJob u))) with
      | done t₀ =>
        rw [hchoice] at hreply
        simp only [World.performSql, World.execStmt] at hreply
        split at hreply
        · next r' l hexec =>
          obtain ⟨rfl, -⟩ := Prod.mk.inj hreply
          rw [hafter]
          exact congrArg some (if_pos hstatus)
        · obtain ⟨-, hsame⟩ := Prod.mk.inj hreply
          rw [← hsame] at hsettles
          exact absurd rfl hsettles
      | lost t₀ e =>
        rw [hchoice] at hanswered
        exact absurd hstatus (hanswered rfl)
      | refused e =>
        rw [hchoice] at hcalled
        cases hcalled
      | late e =>
        rw [hchoice] at hcalled
        cases hcalled
    · obtain rfl : c = .sql (.upsertJob u) := hbase
      exact absurd rfl (hplain.awaited _)
  | execLate i now =>
    obtain ⟨q, hq, hqq⟩ := Option.map_eq_some_iff.mp hex
    obtain ⟨-, rfl⟩ := Prod.mk.inj hqq
    exact absurd (hg.late rfl hq hstatus) hopen
  | _ => cases hex

theorem covered_step (hs : Covered s) {t : TaskId} {choose : (c : TCall) → Timed.Choice c}
    (hg : Unbroken s (.step t choose)) (h : s.next crates cfg (.step t choose) = some s')
    (hopen : ¬ Complete s.world.ledger key) (hcharge : InSettle key (s.tasks t)) :
    Complete s'.world.ledger key ∨ InSettle key (s'.tasks t) := by
  obtain ⟨c, k, r, hcode, hw, -, hafter⟩ := step_due hs.tracked h
  have hanswered := hg.answered rfl hcode key hopen
  have hledger := (System.next_move h).ledger
  rw [System.executed, hcode] at hledger
  rcases hcharge with hverdict | hevent
  · right
    -- the verdict is written, and the event is due next
    have hrow := hs.rows t _ hverdict
    rw [hcode] at hverdict
    obtain ⟨v, rfl, rfl⟩ := eq_of_dueAt_verdict hverdict
    obtain ⟨now, hchoice⟩ := hanswered rfl
    have hreply : s.world.performSql (.upsertVerdict v)
        (choose (.await (.sql (.upsertVerdict v)))) = (r, s'.world) := Option.some.inj hw
    rw [hchoice] at hreply
    obtain ⟨rfl, -⟩ := Prod.mk.inj hreply
    exact Or.inr hafter
  · left
    have hrow := hs.rows t _ hevent
    have hverdict := hs.verdicts t key hevent
    rw [hcode] at hevent
    obtain ⟨e, rfl, rfl, hsettled⟩ := eq_of_dueAt_event hevent
    obtain ⟨now, hnow⟩ := Option.isSome_iff_exists.mp (hanswered rfl hsettled)
    have hexecuted : Timed.executed (.await (.sql (.insertEvent e)))
        (choose (.await (.sql (.insertEvent e)))) = some (now, .insertEvent e) := by
      show (SqlChoice.time (choose (.await (.sql (.insertEvent e))))).map _ = _
      rw [hnow]
      rfl
    rw [hledger]
    refine ⟨verdict_after hverdict _, ?_⟩
    show .settled ∈ (s.world.ledger.after (Timed.executed _ (choose _))).lifecycle e.paymentUid
    rw [hexecuted, ← hsettled]
    exact event_inserted hrow

theorem covered_next (hs : Covered s) (hg : Unbroken s a) (h : s.next crates cfg a = some s')
    (key : String) (hsettled : Settled s'.world.ledger key) :
    Complete s'.world.ledger key ∨ ∃ t, InSettle key (s'.tasks t) := by
  have hledger := (System.next_move h).ledger
  by_cases hopen : Complete s.world.ledger key
  · rw [hledger]
    exact Or.inl (hopen.after _)
  by_cases hold : Settled s.world.ledger key
  · obtain ⟨t, hcharge⟩ := (hs.covered key hold).resolve_left hopen
    by_cases hstep : a.task = some t
    · cases a with
      | step t' choose =>
        obtain rfl := Option.some.inj hstep
        exact (covered_step hs hg h hopen hcharge).imp_right fun hcharge => ⟨_, hcharge⟩
      | _ => cases hstep
    -- another task steps: the one in charge is not dropped
    · have hdrop : ¬ drops a t := fun hdrop => hopen (hg.kept hdrop hcharge)
      obtain ⟨d, hd⟩ : ∃ d, due (s.tasks t) = some d := hcharge.elim (⟨_, ·⟩) (⟨_, ·⟩)
      refine Or.inr ⟨t, ?_⟩
      rw [due_kept hs.tracked h hd hstep hdrop]
      exact hcharge
  · have hnew : Settled (s.world.ledger.after (s.executed a)) key := hledger ▸ hsettled
    obtain ⟨now, u, hex, rfl, hstatus⟩ := settles_of_after hold hnew
    refine Or.inr (covered_upsert hs hg h hex hstatus hopen ?_)
    intro hsame
    rw [hsame] at hsettled
    exact hold hsettled

theorem inv_next (hs : Covered s) (hg : Unbroken s a) (h : s.next crates cfg a = some s') :
    Covered s' where
  tracked := tracked_next hs.tracked h
  hashed := hashed_next hs (System.next_move h)
  unanswered := unanswered_next hs (System.next_move h)
  rows := rows_next hs h
  verdicts := verdicts_next hs h
  covered := covered_next hs hg h

def Audited (l : Ledger) (key : String) (row : JobRow) : Prop :=
  (∃ v, l.verdicts key = some v ∧ row.resolutionHash = some v.resolutionHash) ∧
    .settled ∈ l.lifecycle key

/-- In every run that breaks off no `record_settled`, a settled row that none is at work on has
its verdict, with the same hash, and its event. -/
theorem settled_complete (crates : Crates) (cfg : OracleConfig) (s : System) (key : String)
    (row : JobRow) (hs : Reach (System.next crates cfg) Unbroken .init s)
    (hidle : ∀ t, ¬ InSettle key (s.tasks t)) (hrow : s.world.ledger.jobs key = some row)
    (hstatus : row.status = .settled) : Audited s.world.ledger key row := by
  have hcovered : Covered s :=
    hs.invariant covered_init fun s a s' hcovered hg hnext => inv_next hcovered hg hnext
  have hagrees : Agreement.LedgerAgrees s.world.chain.resolution s.world.ledger :=
    Agreement.recorded_agrees crates cfg s (hs.mono fun _ _ _ => trivial)
  have hcomplete : Complete s.world.ledger key :=
    (hcovered.covered key ⟨row, hrow, hstatus⟩).resolve_right fun ⟨t, ht⟩ => hidle t ht
  obtain ⟨v, hv⟩ := Option.isSome_iff_exists.mp hcomplete.1
  obtain ⟨hash, hhash⟩ := Option.isSome_iff_exists.mp (hcovered.hashed key row hrow hstatus)
  obtain ⟨res, hres, hrowHash⟩ := hagrees.hash key row hash hrow hhash
  obtain ⟨res', hres', -, -, hverdictHash⟩ := hagrees.verdict key v hv
  obtain rfl : res = res' := Option.some.inj (hres.symm.trans hres')
  refine ⟨⟨v, hv, ?_⟩, hcomplete.2⟩
  rw [hhash, ← hrowHash, hverdictHash]

/-! ## Runs that do, and do not, break off -/

def check (s : System) (a : Act) : Bool := sqlSucceeds s a && !cutsShort a

theorem unbroken_of_check (h : check s a = true) : Unbroken s a := by
  obtain ⟨hsql, hcut⟩ := Bool.and_eq_true_iff.mp h
  refine ⟨fun {t choose c k} ha hcode key hopen => ?_, fun ha hq hstatus => ?_,
    fun hdrop => absurd hdrop (not_drops (Bool.not_eq_true' _ ▸ hcut))⟩
  · subst ha
    have hcall := sqlSucceeds_step hsql hcode
    rcases c with c | c
    · cases c with
      | sql q =>
        obtain ⟨now, r, l', hchoice, -⟩ := succeeds_sql hcall
        rw [hchoice]
        cases q <;> first | trivial | exact fun _ => ⟨now, rfl⟩ | exact fun _ _ => rfl
      | _ => trivial
    · trivial
  · subst ha
    cases hsql

def view (s : System) : Bool × Bool × Option JobStatus × Bool :=
  (s.isIdle .backfill, s.isIdle (.handler 0), s.world.ledger.status (uidHex (byte32 1)),
    (s.world.ledger.verdicts (uidHex (byte32 1))).isSome)

theorem settled_complete_manual : ∃ s row,
    runActs (System.next .toy .toy) (evaluationActs Timed.toyChoice 17) .init = some s ∧
      s.world.ledger.jobs (uidHex (byte32 1)) = some row ∧ row.status = .settled ∧
      Audited s.world.ledger (uidHex (byte32 1)) row := by
  have hview : (runChecked (System.next .toy .toy) check (evaluationActs Timed.toyChoice 17)
      .init).map view = some (true, true, some .settled, true) := by
    decide +kernel
  obtain ⟨s, hs, hs'⟩ := Option.map_eq_some_iff.mp hview
  obtain ⟨hbackfill, hrest⟩ := Prod.mk.inj hs'
  obtain ⟨hhandler, hrest⟩ := Prod.mk.inj hrest
  obtain ⟨row, hrow, hstatus⟩ := Option.map_eq_some_iff.mp (Prod.mk.inj hrest).1
  have hrun := runActs_of_runChecked hs
  refine ⟨s, row, hrun, hrow, hstatus, settled_complete .toy .toy s _ row ?_ (fun t => ?_) hrow
    hstatus⟩
  · exact Reach.first.runChecked (fun s a => unbroken_of_check) hs
  · rw [InSettle, evaluationActs_idle hrun hbackfill hhandler t]
    rintro (h | h) <;> cases h

def refuseVerdict : (c : TCall) → Timed.Choice c
  | .await (.sql (.upsertVerdict _)) => .refused (.pool "timed out")
  | c => Timed.toyChoice c

theorem settled_incomplete : ¬ ∀ (s : System) (key : String) (row : JobRow),
    Reach (System.next .toy .toy) (fun _ _ => True) .init s → (∀ t, s.tasks t = .ret ()) →
    s.world.ledger.jobs key = some row → row.status = .settled →
    Audited s.world.ledger key row := by
  intro h
  have hview : (runActs (System.next .toy .toy) (evaluationActs refuseVerdict 16) .init).map view =
      some (true, true, some .settled, false) := by
    decide +kernel
  obtain ⟨s, hs, hs'⟩ := Option.map_eq_some_iff.mp hview
  obtain ⟨hbackfill, hrest⟩ := Prod.mk.inj hs'
  obtain ⟨hhandler, hrest⟩ := Prod.mk.inj hrest
  obtain ⟨hsettled, hnone⟩ := Prod.mk.inj hrest
  obtain ⟨row, hrow, hstatus⟩ := Option.map_eq_some_iff.mp hsettled
  obtain ⟨⟨v, hv, -⟩, -⟩ := h s _ row (Reach.first.runActs (fun _ _ _ => trivial) hs)
    (evaluationActs_idle hs hbackfill hhandler) hrow hstatus
  rw [hv] at hnone
  cases hnone

end OracleQa.SettledComplete
