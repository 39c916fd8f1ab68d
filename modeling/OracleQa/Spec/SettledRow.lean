import OracleQa.Spec.Closing

/-! A settled row stays settled in every run in which no other run of its payment is past its gate
when it settles, and in which later gates see that it has settled. -/

namespace OracleQa.SettledRow
open Interaction

def Settled (l : Ledger) (key : String) : Prop :=
  ∃ row, l.jobs key = some row ∧ row.status = .settled

/-- Any status but `settled`; the run that settles the row knows. -/
def reopening (key : String) : Closing where
  key := key
  statuses status := status ≠ .settled
  closed l _ := Settled l key
  tells c _ := ∃ u, c.base = .sql (.upsertJob u) ∧ u.paymentUid = key ∧ u.status = .settled

variable {crates : Crates} {cfg : OracleConfig} {key : String} {l : Ledger}

theorem settled_putJob {uid : String} {row : JobRow} :
    Settled (l.putJob uid row) key ↔
      if key = uid then row.status = .settled else Settled l key := by
  unfold Settled Ledger.putJob
  by_cases h : key = uid
  · subst h
    simp
  · simp [h]

theorem settled_after (h : Settled l key) {now : Int} {q : Stmt}
    (hq : ¬ (reopening key).badStmt q) : Settled (l.after (some (now, q))) key := by
  by_cases hu : ∃ u, q = .upsertJob u
  · obtain ⟨u, rfl⟩ := hu
    rcases Ledger.after_upsertJob l now u with heq | heq
    · rwa [heq]
    · rw [heq, settled_putJob]
      split
      · next hkey =>
        rw [JobUpsert.row_status]
        by_contra hstatus
        exact hq ⟨hkey.symm, hstatus⟩
      · exact h
  · obtain ⟨row, hrow, hstatus⟩ := h
    refine ⟨row, ?_, hstatus⟩
    rwa [Ledger.after_jobs l now fun u hq' => hu ⟨u, hq'⟩]

theorem settles_of_after {executed : Option (Int × Stmt)} (h : ¬ Settled l key)
    (h' : Settled (l.after executed) key) :
    ∃ now u, executed = some (now, .upsertJob u) ∧ u.paymentUid = key ∧ u.status = .settled := by
  rcases executed with _ | ⟨now, q⟩
  · exact absurd h' h
  by_cases hu : ∃ u, q = .upsertJob u
  · obtain ⟨u, rfl⟩ := hu
    rcases Ledger.after_upsertJob l now u with heq | heq
    · rw [heq] at h'
      exact absurd h' h
    · rw [heq, settled_putJob] at h'
      split at h'
      · next hkey =>
        rw [JobUpsert.row_status] at h'
        exact ⟨now, u, rfl, hkey.symm, h'⟩
      · exact absurd h' h
  · obtain ⟨row, hrow, hstatus⟩ := h'
    rw [Ledger.after_jobs l now fun u hq => hu ⟨u, hq⟩] at hrow
    exact absurd ⟨row, hrow, hstatus⟩ h

theorem reopening_lawful : (reopening key).Lawful crates cfg where
  settled h := h rfl
  tells_writes := by
    rintro job statuses c r h hsettled ⟨u, hu, -, hstatus⟩
    cases h with
    | job lastError h =>
      obtain rfl := Stmt.upsertJob.inj (Call.sql.inj hu)
      obtain rfl : _ = JobStatus.settled := hstatus
      exact hsettled h
    | event e => cases Call.sql.inj hu
    | count => cases Call.sql.inj hu
    | memory h =>
      cases hu
      cases h
  tells_gate := by
    rintro c r h ⟨u, hu, -⟩
    rcases c with c | c
    · obtain rfl : c = .sql (.upsertJob u) := hu
      exact h
    · exact h
  run := by
    intro job _
    have hrun : (Worker.timedPipeline crates cfg job).Calls
        fun c => ∃ c', c = .race c' ∧ c'.isPipeline = true :=
      Prog.calls_timeout Pipeline.runPipeline_calls fun c h => ⟨c, rfl, h⟩
    refine Prog.Wp.mono (hrun.wp (I := fun refused => ¬ refused) ?_ ?_ id) ?_
    · rintro refused c h -
      exact fun hrefused => absurd hrefused h
    · rintro refused c r refused' h ⟨c', rfl, hc⟩ hnext hrefused'
      rcases hnext hrefused' with h' | h' | ⟨u, hu, -⟩
      · exact h h'
      · exact h'
      · obtain rfl : c' = .sql (.upsertJob u) := hu
        cases hc
    · exact fun result refused h hrefused => absurd hrefused h

/-! ## Runs -/

/-- A step before which the check of a run is not overtaken by the settlement of another. -/
structure Orderly (crates : Crates) (cfg : OracleConfig) (s : System) (a : Act) : Prop where
  /-- when a row settles, no other run of the payment is past its gate, and no write is left over -/
  alone : ∀ now u, s.executed a = some (now, .upsertJob u) → u.status = .settled →
    ¬ Settled s.world.ledger u.paymentUid →
    (∀ t, a.task ≠ some t → ¬ (reopening u.paymentUid).Past (s.tasks t)) ∧
      ∀ q ∈ s.world.unanswered, ¬ (reopening u.paymentUid).badStmt q
  /-- later gates see that a row has settled -/
  gates : Closing.Watchful crates cfg (Settled s.world.ledger) s a

theorem isTerminal_of_settled (h : Settled l key) : l.isTerminal key = true := by
  obtain ⟨row, hrow, hstatus⟩ := h
  simp [Ledger.isTerminal, hrow, hstatus]

theorem orderly_permits {s s' : System} {a : Act} (hg : Orderly crates cfg s a)
    (hmove : s.Move crates cfg a s') : (reopening key).Permits crates cfg s a s' where
  others hclosed hclosed' := by
    rw [show s'.world.ledger = _ from hmove.ledger] at hclosed'
    obtain ⟨now, u, hex, rfl, hstatus⟩ := settles_of_after hclosed hclosed'
    exact hg.alone now u hex hstatus hclosed
  own := by
    rintro t choose c k r w rfl hcode hw hclosed hclosed'
    rw [show w.ledger = _ from (World.performTimed_frame hw).ledger] at hclosed'
    obtain ⟨now, u, hex, hkey, hstatus⟩ := settles_of_after hclosed hclosed'
    have hbase := Timed.executed_base hex
    refine ⟨Or.inr ⟨u, hbase, hkey, hstatus⟩, ?_⟩
    rintro ⟨q, hq, hbad⟩
    rw [hbase] at hq
    obtain rfl := Call.sql.inj hq
    exact hbad.2 hstatus
  gates := by
    rintro t choose c k r w rfl hcode hw hclosed hgate hfeed
    exact Or.inl
      (hg.gates.refuses hclosed hcode hw hgate hfeed fun _ => isTerminal_of_settled hclosed)

theorem safe_next {s s' : System} {a : Act} (hs : (reopening key).Safe crates cfg s)
    (hg : Orderly crates cfg s a) (hnext : s.next crates cfg a = some s') :
    (reopening key).Safe crates cfg s' :=
  hs.next reopening_lawful (System.next_move hnext) (orderly_permits hg (System.next_move hnext))

/-- Once a row is settled it stays settled, in every orderly run of a process that starts with no
task and no statement pending. -/
theorem settled_absorbing (crates : Crates) (cfg : OracleConfig) (s₀ s s' : System) (key : String)
    (htasks : ∀ t, s₀.tasks t = .ret ()) (hunanswered : s₀.world.unanswered = [])
    (hs : Reach (System.next crates cfg) (Orderly crates cfg) s₀ s)
    (hs' : Reach (System.next crates cfg) (Orderly crates cfg) s s')
    (h : Settled s.world.ledger key) : Settled s'.world.ledger key := by
  have hsafe : (reopening key).Safe crates cfg s :=
    hs.invariant (Closing.safe_of_idle htasks hunanswered) fun _ _ _ => safe_next
  have hstep : ∀ s a s', (reopening key).Safe crates cfg s ∧ Settled s.world.ledger key →
      Orderly crates cfg s a → s.next crates cfg a = some s' →
      (reopening key).Safe crates cfg s' ∧ Settled s'.world.ledger key := by
    rintro s a s' ⟨hsafe, hsettled⟩ hg hnext
    refine ⟨safe_next hsafe hg hnext, ?_⟩
    rw [(System.next_move hnext).ledger]
    cases hex : s.executed a with
    | none => exact hsettled
    | some p => exact settled_after hsettled (hsafe.executed hsettled hex)
  refine (Reach.invariant ?_ hstep hs').2
  exact ⟨hsafe, h⟩

/-! ## Runs that are, and are not, orderly -/

def duplicate : System :=
  { System.init with
    up := true
    world := { World.init with
      channel := [.toy]
      ledger := Ledger.empty.putJob (uidHex (byte32 1)) ((Db.upsertArgs .toy .toy .settled none none
        none).insertRow 0) } }

def duplicateActs : List Act :=
  [.receive, .step .worker Timed.toyChoice, .step .worker Timed.toyChoice]

def statusOf (s : System) : Option JobStatus :=
  (s.world.ledger.jobs (uidHex (byte32 1))).map (·.status)

theorem settled_iff_statusOf {s : System} :
    Settled s.world.ledger (uidHex (byte32 1)) ↔ statusOf s = some .settled := by
  simp [Settled, statusOf, Option.map_eq_some_iff]

theorem orderly_toyStep {s : System} {t : TaskId} {c : TCall} {k : TReply c → TaskCode Unit}
    (hcode : s.tasks t = .call c k) (hwrite : ∀ u, c.base ≠ .sql (.upsertJob u))
    (hread : ∀ pk, c ≠ .await (.getAccount pk)) :
    Orderly crates cfg s (.step t Timed.toyChoice) where
  alone := by
    intro now u hex
    rw [System.executed, hcode] at hex
    exact absurd (Timed.executed_base hex) (hwrite u)
  gates := by
    refine ⟨fun t' choose uid k' ha hcode' => ?_, fun t' choose pk k' job ha hcode' => ?_⟩
    · obtain ⟨rfl, rfl⟩ := Act.step.inj ha
      exact fun _ => ⟨0, rfl⟩
    · obtain ⟨rfl, rfl⟩ := Act.step.inj ha
      rw [hcode] at hcode'
      obtain ⟨rfl, -⟩ := Prog.call.inj hcode'
      exact absurd rfl (hread pk)

theorem settled_absorbing_duplicate :
    ∃ s, runActs (System.next .toy .toy) duplicateActs duplicate = some s ∧
      s.isIdle .worker = true ∧ Settled s.world.ledger (uidHex (byte32 1)) := by
  let step := Act.step .worker Timed.toyChoice
  obtain ⟨s₁, s₂, s₃, h₁, h₂, h₃, ⟨k₁, hcode₁⟩, ⟨k₂, hcode₂⟩, hidle⟩ :
      ∃ s₁ s₂ s₃, duplicate.next .toy .toy .receive = some s₁ ∧
        s₁.next .toy .toy step = some s₂ ∧ s₂.next .toy .toy step = some s₃ ∧
        (∃ k, s₁.tasks .worker = .call (.await .setQueueDepth) k) ∧
        (∃ k, s₂.tasks .worker = .call (.await (.sql (.isTerminal (uidHex (byte32 1))))) k) ∧
        s₃.isIdle .worker = true := ⟨_, _, _, rfl, rfl, rfl, ⟨_, rfl⟩, ⟨_, rfl⟩, rfl⟩
  have hreceive : Orderly .toy .toy duplicate .receive :=
    ⟨fun _ _ h => (by cases h), fun _ _ _ _ h => (by cases h), fun _ _ _ _ _ h => (by cases h)⟩
  have hdepth : Orderly .toy .toy s₁ step :=
    orderly_toyStep hcode₁ (fun _ h => by cases h) (fun _ h => by cases h)
  have hprobe : Orderly .toy .toy s₂ step :=
    orderly_toyStep hcode₂ (fun _ h => by cases h) (fun _ h => by cases h)
  refine ⟨s₃, ?_, hidle, settled_absorbing .toy .toy duplicate duplicate s₃ _ (fun _ => rfl) rfl
    .first (.next (.next (.next .first hreceive h₁) hdepth h₂) hprobe h₃)
    (settled_iff_statusOf.mpr (by decide +kernel))⟩
  show runActs _ [.receive, step, step] duplicate = some s₃
  simp only [runActs, h₁, h₂, h₃, Option.bind_some]

/-- Handler 0 reads the payment as pending; handler 1 settles it; handler 0 goes on. -/
def overtakenActs : List Act :=
  [.start, .request 0 ⟨none, none⟩ ""] ++ System.toySteps (.handler 0) 3 ++
    [.request 1 ⟨none, none⟩ ""] ++ System.toySteps (.handler 1) 17

theorem settled_reopened : ¬ ∀ (s s' : System) (key : String),
    Reach (System.next .toy .toy) (fun _ _ => True) .init s →
    Reach (System.next .toy .toy) (fun _ _ => True) s s' →
    Settled s.world.ledger key → Settled s'.world.ledger key := by
  intro h
  have hrun : (runActs (System.next .toy .toy) overtakenActs .init).map
      (fun s => (statusOf s, (s.next .toy .toy (.step (.handler 0) Timed.toyChoice)).map
        statusOf)) = some (some .settled, some (some .queued)) := by
    decide +kernel
  obtain ⟨s, hs, hstatus⟩ := Option.map_eq_some_iff.mp hrun
  obtain ⟨hbefore, hafter⟩ := Prod.mk.inj hstatus
  obtain ⟨s', hs', hqueued⟩ := Option.map_eq_some_iff.mp hafter
  have hsettled := h s s' (uidHex (byte32 1)) (Reach.first.runActs (fun _ _ _ => trivial) hs)
    (.next .first trivial hs') (settled_iff_statusOf.mpr hbefore)
  rw [settled_iff_statusOf, hqueued] at hsettled
  cases hsettled

end OracleQa.SettledRow
