import OracleQa.Spec.Recording

/-! The last lifecycle event of a payment tells the status of its row, as long as the events of
overwritten statuses do not come last. -/

namespace OracleQa.AuditTrail
open Interaction Recording

def Agrees (l : Ledger) (key : String) : Prop :=
  (l.status key).map JobStatus.event = (l.lifecycle key).getLast?

/-- The task has still to insert the event of the status that the row has now. -/
def Owes (s : System) (key : String) (t : TaskId) : Prop :=
  ∃ d, due (s.tasks t) = some d ∧ d.key = key ∧
    (s.world.ledger.status key).map JobStatus.event = some d.last

/-- A step of successful calls by which no event comes after that of a later status, and by which
no event is left out. -/
structure Ordered (s : System) (a : Act) : Prop where
  succeeds : sqlSucceeds s a = true
  fresh : ∀ {t choose e k}, a = .step t choose →
    s.tasks t = .call (.await (.sql (.insertEvent e))) k →
    (s.world.ledger.status e.paymentUid).map JobStatus.event = some e.event ∨
      ∃ t', t' ≠ t ∧ Owes s e.paymentUid t'
  kept : ∀ {t key}, drops a t → ¬ Owes s key t

variable {crates : Crates} {cfg : OracleConfig} {s s' : System} {a : Act} {l : Ledger}
  {key : String} {t : TaskId}

theorem status_putJob (l : Ledger) (uid : String) (row : JobRow) :
    (l.putJob uid row).status key = if key = uid then some row.status else l.status key := by
  unfold Ledger.status Ledger.putJob
  by_cases h : key = uid
  · subst h
    simp
  · simp [h]

theorem status_after (l : Ledger) (now : Int) {q : Stmt}
    (hq : ∀ u, q = .upsertJob u → u.paymentUid ≠ key) :
    (l.after (some (now, q))).status key = l.status key := by
  by_cases hu : ∃ u, q = .upsertJob u
  · obtain ⟨u, rfl⟩ := hu
    have hne : key ≠ u.paymentUid := Ne.symm (hq u rfl)
    rcases l.after_upsertJob now u with heq | heq
    · rw [heq]
    · rw [heq, status_putJob, if_neg hne]
  · rw [Ledger.status, l.after_jobs now fun u hu' => hu ⟨u, hu'⟩, Ledger.status]

theorem lifecycle_after (l : Ledger) (now : Int) {q : Stmt}
    (hq : ∀ e, q = .insertEvent e → e.paymentUid ≠ key) :
    (l.after (some (now, q))).lifecycle key = l.lifecycle key := by
  by_cases he : ∃ e, q = .insertEvent e
  · obtain ⟨e, rfl⟩ := he
    show (l.insertEvent e).lifecycle key = l.lifecycle key
    cases hrow : l.jobs e.paymentUid with
    | none => rw [Ledger.insertEvent, hrow]
    | some row => rw [lifecycle_insertEvent hrow, if_neg (hq e rfl)]
  · exact lifecycle_of_events (events_after l now fun e he' => he ⟨e, he'⟩)

theorem status_upserted {now : Int} {u : JobUpsert} {r : Unit} {l' : Ledger}
    (h : Stmt.exec now (.upsertJob u) l = .ok (r, l')) :
    l'.status u.paymentUid = some u.status := by
  simp only [Stmt.exec, Ledger.upsertJob] at h
  split at h
  · obtain ⟨-, rfl⟩ := Prod.mk.inj (Except.ok.inj h)
    rw [status_putJob, if_pos rfl, u.row_status]
  · cases h

theorem agrees_insertEvent {e : EventRow}
    (h : (l.status e.paymentUid).map JobStatus.event = some e.event) :
    Agrees (l.insertEvent e) e.paymentUid := by
  cases hrow : l.jobs e.paymentUid with
  | none =>
    rw [Ledger.status, hrow] at h
    cases h
  | some row =>
    have hne : ∀ u, Stmt.insertEvent e = .upsertJob u → u.paymentUid ≠ e.paymentUid :=
      fun u hu => by cases hu
    have hstatus : (l.insertEvent e).status e.paymentUid = l.status e.paymentUid :=
      status_after l 0 hne
    rw [Agrees, hstatus, h, lifecycle_insertEvent hrow, if_pos rfl, List.getLast?_concat]

/-! ## Steps -/

theorem due_step {choose : (c : TCall) → Timed.Choice c} (hs : Tracked s)
    (hsql : sqlSucceeds s (.step t choose) = true)
    (h : s.next crates cfg (.step t choose) = some s') {d : Due} (hd : due (s.tasks t) = some d) :
    (∃ uid, d = .verdict uid ∧ due (s'.tasks t) = some (.event uid .settled)) ∨
      ∃ now e, d = .event e.paymentUid e.event ∧
        s.executed (.step t choose) = some (now, .insertEvent e) := by
  obtain ⟨c, k, r, hcode, hw, -, hafter⟩ := step_due hs h
  have hcall := sqlSucceeds_step hsql hcode
  rw [hcode] at hd
  cases d with
  | verdict uid =>
    obtain ⟨v, rfl, rfl⟩ := eq_of_dueAt_verdict hd
    obtain ⟨now, r', l', hchoice, hexec⟩ := succeeds_sql hcall
    have hreply : s.world.performSql (.upsertVerdict v)
        (choose (.await (.sql (.upsertVerdict v)))) = (r, s'.world) := Option.some.inj hw
    rw [hchoice] at hreply
    obtain ⟨rfl, -⟩ := Prod.mk.inj hreply
    exact Or.inl ⟨_, rfl, hafter⟩
  | event uid ev =>
    obtain ⟨e, rfl, rfl, rfl⟩ := eq_of_dueAt_event hd
    obtain ⟨now, r', l', hchoice, hexec⟩ := succeeds_sql hcall
    refine Or.inr ⟨now, e, rfl, ?_⟩
    rw [System.executed, hcode]
    show (SqlChoice.time (choose (.await (.sql (.insertEvent e))))).map _ = _
    rw [hchoice]
    rfl

theorem owes_upserted (hs : Tracked s) (hsql : sqlSucceeds s a = true)
    (h : s.next crates cfg a = some s') {now : Int} {u : JobUpsert}
    (hex : s.executed a = some (now, .upsertJob u)) : ∃ t, Owes s' u.paymentUid t := by
  cases a with
  | step t choose =>
    obtain ⟨c, k, r, hcode, hw, hplain, hafter⟩ := step_due hs h
    have hcall := sqlSucceeds_step hsql hcode
    have hcalled : Timed.executed c (choose c) = some (now, .upsertJob u) := by
      rw [System.executed, hcode] at hex
      exact hex
    have hbase := Timed.executed_base hcalled
    rcases c with c | c
    · obtain rfl : c = .sql (.upsertJob u) := hbase
      obtain ⟨now', r', l', hchoice, hexec⟩ := succeeds_sql hcall
      have hreply : s.world.performSql (.upsertJob u) (choose (.await (.sql (.upsertJob u)))) =
        (r, s'.world) := Option.some.inj hw
      rw [hchoice, World.performSql, World.execStmt, hexec] at hreply
      obtain ⟨rfl, hworld⟩ := Prod.mk.inj hreply
      have hstatus : s'.world.ledger.status u.paymentUid = some u.status := by
        rw [← hworld]
        exact status_upserted hexec
      refine ⟨t, _, hafter, ?_, ?_⟩
      · split <;> rfl
      · rw [hstatus]
        split
        · next hsettled =>
          rw [hsettled]
          rfl
        · rfl
    · obtain rfl : c = .sql (.upsertJob u) := hbase
      exact absurd rfl (hplain.awaited _)
  | execLate i now => cases hsql
  | _ => cases hex

theorem owes_kept (hs : Tracked s) (hg : Ordered s a) (h : s.next crates cfg a = some s')
    (hstatus : s'.world.ledger.status key = s.world.ledger.status key) (howes : Owes s key t)
    (hevent : ∀ now e, s.executed a = some (now, .insertEvent e) → e.paymentUid = key →
      a.task ≠ some t) : Owes s' key t := by
  obtain ⟨d, hd, rfl, hlast⟩ := howes
  by_cases hstep : a.task = some t
  · cases a with
    | step t' choose =>
      obtain rfl := Option.some.inj hstep
      rcases due_step hs hg.succeeds h hd with ⟨uid, rfl, hnext⟩ | ⟨now, e, rfl, hex⟩
      · exact ⟨_, hnext, rfl, hstatus ▸ hlast⟩
      · exact absurd hstep (hevent now e hex rfl)
    | _ => cases hstep
  · have hdrop : ¬ drops a t := fun hdrop => hg.kept hdrop ⟨d, hd, rfl, hlast⟩
    refine ⟨d, ?_, rfl, hstatus ▸ hlast⟩
    rw [due_kept hs h hd hstep hdrop]
    exact hd

/-! ## Runs -/

def Settles (s : System) (key : String) : Prop := Agrees s.world.ledger key ∨ ∃ t, Owes s key t

theorem settles_of_same (hs : Tracked s) (hg : Ordered s a) (h : s.next crates cfg a = some s')
    (hstatus : s'.world.ledger.status key = s.world.ledger.status key)
    (hlifecycle : s'.world.ledger.lifecycle key = s.world.ledger.lifecycle key)
    (hevent : ∀ now e, s.executed a = some (now, .insertEvent e) → e.paymentUid ≠ key)
    (hsettles : Settles s key) : Settles s' key := by
  rcases hsettles with hagrees | ⟨t, howes⟩
  · left
    rw [Agrees, hstatus, hlifecycle]
    exact hagrees
  · right
    refine ⟨t, owes_kept hs hg h hstatus howes fun now e hex hkey => ?_⟩
    exact absurd hkey (hevent now e hex)

theorem settles_insertEvent (hs : Tracked s) (hg : Ordered s a)
    (h : s.next crates cfg a = some s') {now : Int} {e : EventRow}
    (hex : s.executed a = some (now, .insertEvent e)) : Settles s' e.paymentUid := by
  have hledger := (System.next_move h).ledger
  rw [hex] at hledger
  have hstatus : s'.world.ledger.status e.paymentUid = s.world.ledger.status e.paymentUid := by
    rw [hledger]
    exact status_after _ now fun u hu => (by cases hu)
  cases a with
  | step t choose =>
    obtain ⟨c, k, r, hcode, hw, hplain, hafter⟩ := step_due hs h
    have hbase : c.base = .sql (.insertEvent e) := by
      rw [System.executed, hcode] at hex
      exact Timed.executed_base hex
    rcases c with c | c
    · obtain rfl : c = .sql (.insertEvent e) := hbase
      rcases hg.fresh rfl hcode with hlast | ⟨t', hne, howes⟩
      · left
        rw [hledger]
        exact agrees_insertEvent hlast
      · right
        refine ⟨t', owes_kept hs hg h hstatus howes fun _ _ _ _ hstep => ?_⟩
        exact hne (Option.some.inj hstep).symm
    · obtain rfl : c = .sql (.insertEvent e) := hbase
      exact absurd rfl (hplain.awaited _)
  | execLate i now => cases hg.succeeds
  | _ => cases hex

theorem settles_next (hs : Tracked s) (hg : Ordered s a) (h : s.next crates cfg a = some s')
    (hsettles : Settles s key) : Settles s' key := by
  have hledger := (System.next_move h).ledger
  cases hex : s.executed a with
  | none =>
    have hsame : s'.world.ledger = s.world.ledger := by rw [hledger, hex]; rfl
    refine settles_of_same hs hg h (congrArg (Ledger.status · key) hsame)
      (congrArg (Ledger.lifecycle · key) hsame) (fun now e he => ?_) hsettles
    rw [hex] at he
    cases he
  | some p =>
    obtain ⟨now, q⟩ := p
    by_cases hupsert : ∃ u, q = .upsertJob u ∧ u.paymentUid = key
    · obtain ⟨u, rfl, rfl⟩ := hupsert
      exact Or.inr (owes_upserted hs hg.succeeds h hex)
    by_cases hinsert : ∃ e, q = .insertEvent e ∧ e.paymentUid = key
    · obtain ⟨e, rfl, rfl⟩ := hinsert
      exact settles_insertEvent hs hg h hex
    have hupsert' : ∀ u, q = .upsertJob u → u.paymentUid ≠ key :=
      fun u hq hkey => hupsert ⟨u, hq, hkey⟩
    have hinsert' : ∀ e, q = .insertEvent e → e.paymentUid ≠ key :=
      fun e hq hkey => hinsert ⟨e, hq, hkey⟩
    rw [hex] at hledger
    refine settles_of_same hs hg h ?_ ?_ (fun now' e he => ?_) hsettles
    · rw [hledger]
      exact status_after _ now hupsert'
    · rw [hledger]
      exact lifecycle_after _ now hinsert'
    · rw [hex] at he
      exact hinsert' e (Prod.mk.inj (Option.some.inj he)).2

/-- In every run of successful calls that lets no event of an overwritten status come last, a row
of which no task has a `record_*` in progress has the status of its last event. -/
theorem status_of_last_event (crates : Crates) (cfg : OracleConfig) (s : System) (key : String)
    (hs : Reach (System.next crates cfg) Ordered .init s)
    (hidle : ∀ t d, due (s.tasks t) = some d → d.key ≠ key) : Agrees s.world.ledger key := by
  have hstep : ∀ s a s', Tracked s ∧ Settles s key → Ordered s a →
      s.next crates cfg a = some s' → Tracked s' ∧ Settles s' key := by
    rintro s a s' ⟨htracked, hsettles⟩ hg hnext
    exact ⟨tracked_next htracked hnext, settles_next htracked hg hnext hsettles⟩
  refine (Reach.invariant ?_ hstep hs).2.resolve_right ?_
  · exact ⟨tracked_init, Or.inl rfl⟩
  · rintro ⟨t, d, hd, hkey, -⟩
    exact hidle t d hd hkey

/-! ## Runs in which writers do, and do not, cross -/

def insertsFresh (s : System) : Act → Bool
  | .step t _ =>
    match s.tasks t with
    | .call (.await (.sql (.insertEvent e))) _ =>
      (s.world.ledger.status e.paymentUid).map JobStatus.event = some e.event
    | _ => true
  | _ => true

def check (s : System) (a : Act) : Bool := sqlSucceeds s a && !cutsShort a && insertsFresh s a

theorem ordered_of_check (h : check s a = true) : Ordered s a := by
  obtain ⟨hrest, hfresh⟩ := Bool.and_eq_true_iff.mp h
  obtain ⟨hsql, hcut⟩ := Bool.and_eq_true_iff.mp hrest
  refine ⟨hsql, fun {t choose e k} ha hcode => Or.inl ?_,
    fun hdrop => absurd hdrop (not_drops (Bool.not_eq_true' _ ▸ hcut))⟩
  subst ha
  rw [insertsFresh, hcode] at hfresh
  exact of_decide_eq_true hfresh

theorem status_of_last_event_manual : ∃ s,
    runActs (System.next .toy .toy) (evaluationActs Timed.toyChoice 17) .init = some s ∧
      s.world.ledger.status (uidHex (byte32 1)) = some .settled ∧
      Agrees s.world.ledger (uidHex (byte32 1)) := by
  have hview : (runChecked (System.next .toy .toy) check (evaluationActs Timed.toyChoice 17)
      .init).map (fun s => (s.isIdle .backfill, s.isIdle (.handler 0),
        s.world.ledger.status (uidHex (byte32 1)))) = some (true, true, some .settled) := by
    decide +kernel
  obtain ⟨s, hs, hs'⟩ := Option.map_eq_some_iff.mp hview
  obtain ⟨hbackfill, hrest⟩ := Prod.mk.inj hs'
  obtain ⟨hhandler, hstatus⟩ := Prod.mk.inj hrest
  have hrun := runActs_of_runChecked hs
  refine ⟨s, hrun, hstatus, status_of_last_event .toy .toy s _ ?_ fun t d hd => ?_⟩
  · exact Reach.first.runChecked (fun s a => ordered_of_check) hs
  · rw [evaluationActs_idle hrun hbackfill hhandler t] at hd
    cases hd

def inRecord : TaskCode Unit → Bool
  | .ret _ => false
  | .call c _ => recordsRow c.base

/-- Handler 0 queues the payment and is overtaken, before its event, by the whole of handler 1. -/
def crossingActs : List Act :=
  [.start] ++ System.toySteps .backfill 2 ++ [.request 0 ⟨none, none⟩ ""] ++
    System.toySteps (.handler 0) 4 ++ [.request 1 ⟨none, none⟩ ""] ++
    System.toySteps (.handler 1) 17 ++ System.toySteps (.handler 0) 1

theorem crossingActs_concerns {t : TaskId} (ht : t ∉ [.backfill, .handler 0, .handler 1]) :
    ∀ a ∈ crossingActs, concerns a t = false := by
  simp only [List.mem_cons, List.not_mem_nil, or_false, not_or] at ht
  intro a ha
  simp only [crossingActs, System.toySteps, List.mem_append, List.mem_replicate,
    List.mem_singleton] at ha
  rcases ha with (((((rfl | ⟨-, rfl⟩) | rfl) | ⟨-, rfl⟩) | rfl) | ⟨-, rfl⟩) | ⟨-, rfl⟩
  · exact decide_eq_false ht.1
  · exact decide_eq_false (Ne.symm ht.1)
  · exact decide_eq_false ht.2.1
  · exact decide_eq_false (Ne.symm ht.2.1)
  · exact decide_eq_false ht.2.2
  · exact decide_eq_false (Ne.symm ht.2.2)
  · exact decide_eq_false (Ne.symm ht.2.1)

theorem status_differs : ¬ ∀ (s : System) (key : String),
    Reach (System.next .toy .toy) (fun s a => sqlSucceeds s a = true) .init s →
    (∀ t, inRecord (s.tasks t) = false) → Agrees s.world.ledger key := by
  intro h
  have hview : (runChecked (System.next .toy .toy) sqlSucceeds crossingActs .init).map (fun s =>
      ((s.world.ledger.status (uidHex (byte32 1)), (s.world.ledger.lifecycle
        (uidHex (byte32 1))).getLast?), [.backfill, .handler 0, .handler 1].map fun t =>
          inRecord (s.tasks t))) = some ((some .settled, some .queued), [false, false, false]) := by
    decide +kernel
  obtain ⟨s, hs, hs'⟩ := Option.map_eq_some_iff.mp hview
  obtain ⟨htrail, hbusy⟩ := Prod.mk.inj hs'
  obtain ⟨hstatus, hlast⟩ := Prod.mk.inj htrail
  have hidle : ∀ t, inRecord (s.tasks t) = false := by
    intro t
    by_cases ht : t ∈ [TaskId.backfill, .handler 0, .handler 1]
    · have hmem := List.mem_map_of_mem (f := fun t => inRecord (s.tasks t)) ht
      rw [hbusy] at hmem
      simpa using hmem
    · rw [tasks_of_runActs (crossingActs_concerns ht) (runActs_of_runChecked hs)]
      rfl
  have hagrees := h s (uidHex (byte32 1)) (Reach.first.runChecked (fun _ _ h => h) hs) hidle
  rw [Agrees, hstatus, hlast] at hagrees
  cases hagrees

end OracleQa.AuditTrail
