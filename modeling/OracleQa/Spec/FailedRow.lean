import OracleQa.Spec.Recording

/-! When a payment resolved by this oracle is not written down as failed: in every run in which a
settlement lands only in front of its run, with no other run of the payment past its gate, and in
which later gates see it. -/

namespace OracleQa.FailedRow
open Interaction Pipeline

def Landed (c : ChainState) (key : String) : Prop := ∃ tx ∈ c.landed, tx.ix.paymentUid = key

/-- The statuses of a failure; the run whose settlement is confirmed knows. -/
def failing (key : String) : Closing where
  key := key
  statuses status := status = .failed ∨ status = .deadLetter
  closed _ c := Landed c key
  tells c r := ∃ tx, Timed.confirmed c r = some tx ∧ tx.ix.paymentUid = key

variable {crates : Crates} {cfg : OracleConfig} {job : EvaluationJob} {key : String}

/-! ## The code -/

def told (key : String) (confirmed : Prop) (c : Call) (r : c.Reply) (confirmed' : Prop) : Prop :=
  confirmed' → confirmed ∨ ∃ tx, c.confirmed r = some tx ∧ tx.ix.paymentUid = key

def unconfirmed (confirmed : Prop) (_ : Call) : Prop := ¬ confirmed

theorem not_told {confirmed confirmed' : Prop} {c : Call} {r : c.Reply} (h : ¬ confirmed)
    (hc : ∀ tx, c ≠ .sendAndConfirm tx) (hnext : told key confirmed c r confirmed') :
    ¬ confirmed' := by
  intro hconfirmed'
  rcases hnext hconfirmed' with h' | ⟨tx, htx, -⟩
  · exact h h'
  · exact hc tx (Call.confirmed_eq htx)

theorem settle_wp {approved : Bool} {reason : UInt16} {hash : Bytes32} {confirmed : Prop}
    (h : ¬ confirmed) :
    (Settler.settle crates cfg job approved reason hash).Wp (told key) unconfirmed
      (fun r confirmed => confirmed → ∃ sig, r = .ok sig) confirmed := by
  unfold Settler.settle
  refine Prog.Wp.ask_bind h fun r confirmed₁ hnext => ?_
  have h₁ : ¬ confirmed₁ := not_told h (fun _ hc => by cases hc) hnext
  rcases r with e | blockhash
  · exact fun h' => absurd h' h₁
  · refine Prog.Wp.ask_bind h₁ fun r confirmed₂ hnext => ?_
    cases r with
    | ok sig => exact fun _ => ⟨_, rfl⟩
    | error e =>
      intro h'
      rcases hnext h' with h' | ⟨tx, htx, -⟩
      · exact absurd h' h₁
      · cases htx

theorem runPipeline_wp {confirmed : Prop} (h : ¬ confirmed) :
    (runPipeline crates cfg job).Wp (told key) unconfirmed
      (fun r confirmed => confirmed → ∃ outcome, r = .ok outcome) confirmed := by
  have hok : ∀ (confirmed : Prop) (c : Call), ¬ confirmed → c.isLookup = true →
      unconfirmed confirmed c := fun _ _ h _ => h
  have hnext : ∀ (confirmed : Prop) (c : Call) (r : c.Reply) (confirmed' : Prop), ¬ confirmed →
      c.isLookup = true → told key confirmed c r confirmed' → ¬ confirmed' := by
    intro confirmed c r confirmed' h hc
    refine not_told h ?_
    rintro tx rfl
    cases hc
  have hstop : ∀ {confirmed : Prop} {r : Except OracleError PipelineOutcome}, ¬ confirmed →
      confirmed → ∃ outcome, r = .ok outcome := fun h h' => absurd h' h
  have hgate : (Settler.isEligible crates cfg job).Wp (told key) unconfirmed
      (fun _ confirmed => ¬ confirmed) confirmed := Settler.isEligible_calls.wp hok hnext h
  refine Pipeline.runPipeline_wp hok hnext (fun _ h _ => hstop h) ?_
    (hgate.mono fun _ _ h => ⟨fun _ => h, fun _ => hstop h⟩)
  intro confirmed h result hash
  refine (settle_wp h).mono fun r confirmed hr hconfirmed => ?_
  obtain ⟨sig, rfl⟩ := hr hconfirmed
  exact ⟨_, rfl⟩

theorem failing_lawful : (failing key).Lawful crates cfg where
  settled h := by rcases h with h | h <;> cases h
  tells_writes := by
    rintro job statuses c r h - ⟨tx, htx, -⟩
    have hbase := Timed.confirmed_base htx
    cases h with
    | @memory c h =>
      obtain rfl : c = .sendAndConfirm tx := hbase
      cases h
    | _ => cases hbase
  tells_gate := by
    rintro c r h ⟨tx, htx, -⟩
    have hbase := Timed.confirmed_base htx
    rcases c with c | c
    · obtain rfl : c = .sendAndConfirm tx := hbase
      exact h
    · exact h
  run := by
    intro job _
    have hrun : ∀ {refused : Prop}, ¬ refused → (Worker.timedPipeline crates cfg job).Wp
        (Prog.refusalNext ((failing key).refuses crates cfg)) (Prog.refusalOk (failing key).bad)
        (fun result refused => Option.elim result (¬ refused) fun r =>
          refused → ∃ outcome, r = .ok outcome) refused := by
      intro refused h
      have hpipeline : (runPipeline crates cfg job).Wp (told key) unconfirmed
          (fun r refused => refused → ∃ outcome, r = .ok outcome) refused := runPipeline_wp h
      refine Prog.wp_timeout hpipeline ?_ ?_ ?_
      · exact fun refused c hun hrefused => absurd hrefused hun
      · rintro refused c r refused' hnext hrefused'
        rcases hnext hrefused' with h' | h' | h'
        · exact Or.inl h'
        · exact h'.elim
        · exact Or.inr h'
      · rintro refused c refused' hun hnext hrefused'
        rcases hnext hrefused' with h' | h' | ⟨tx, htx, -⟩
        · exact hun h'
        · exact h'
        · cases htx
    refine (hrun id).mono fun result refused hresult hrefused => ?_
    cases result with
    | none => exact absurd hrefused hresult
    | some r =>
      obtain ⟨outcome, rfl⟩ := hresult hrefused
      exact ⟨outcome, rfl⟩

/-! ## Runs -/

def lands (s : System) : Act → Option Transaction
  | .step t choose =>
    match s.tasks t with
    | .ret _ => none
    | .call c _ => Timed.lands c (choose c)
  | .land i => s.world.chain.inFlight[i]?
  | _ => none

/-- A step before which a resolution is known to whoever could write the payment down as failed. -/
structure Informed (crates : Crates) (cfg : OracleConfig) (s : System) (a : Act) : Prop where
  /-- a send that lands its transaction reports it to its run -/
  seen : ∀ t choose c k, a = .step t choose → s.tasks t = .call c k →
    Timed.lands c (choose c) ≠ none → Timed.Informs c (choose c)
  /-- when a settlement lands, no other run of the payment is past its gate, and no write is left
  over -/
  alone : ∀ tx, lands s a = some tx → ¬ Landed s.world.chain tx.ix.paymentUid →
    (∀ t, a.task ≠ some t → ¬ (failing tx.ix.paymentUid).Past (s.tasks t)) ∧
      ∀ q ∈ s.world.unanswered, ¬ (failing tx.ix.paymentUid).badStmt q
  /-- later gates see that the payment is resolved, by then with a terminal row -/
  gates : Closing.Watchful crates cfg (Landed s.world.chain) s a
  terminal : ∀ t choose uid k, a = .step t choose →
    s.tasks t = .call (.await (.sql (.isTerminal uid))) k → Landed s.world.chain uid →
    s.world.ledger.isTerminal uid = true

theorem lands_of_move {s s' : System} {a : Act} (hmove : s.Move crates cfg a s')
    (h : ¬ Landed s.world.chain key) (h' : Landed s'.world.chain key) :
    ∃ tx, lands s a = some tx ∧ tx.ix.paymentUid = key := by
  obtain ⟨tx, htx, hkey⟩ := h'
  cases hmove with
  | @call t choose c k r w hcode hw =>
    rcases World.performTimed_landed hw htx with hmem | hlands
    · exact absurd ⟨tx, hmem, hkey⟩ h
    · refine ⟨tx, ?_, hkey⟩
      rw [lands, hcode]
      exact hlands
  | @land i tx' hi hnone =>
    rcases List.mem_cons.mp htx with rfl | hmem
    · exact ⟨tx, hi, hkey⟩
    · exact absurd ⟨tx, hmem, hkey⟩ h
  | _ => exact absurd ⟨tx, htx, hkey⟩ h

theorem informed_permits {s s' : System} {a : Act} (hg : Informed crates cfg s a)
    (hmove : s.Move crates cfg a s') : (failing key).Permits crates cfg s a s' where
  others hclosed hclosed' := by
    obtain ⟨tx, htx, rfl⟩ := lands_of_move hmove hclosed hclosed'
    exact hg.alone tx htx hclosed
  own := by
    rintro t choose c k r w rfl hcode hw hclosed ⟨tx, htx, hkey⟩
    rcases World.performTimed_landed hw htx with hmem | hlands
    · exact absurd ⟨tx, hmem, hkey⟩ hclosed
    have hinforms := hg.seen t choose c k rfl hcode (by rw [hlands]; simp)
    have hconfirmed := World.performTimed_informs hw hlands hinforms
    refine ⟨Or.inr ⟨tx, hconfirmed, hkey⟩, ?_⟩
    rintro ⟨q, hq, -⟩
    rw [Timed.confirmed_base hconfirmed] at hq
    cases hq
  gates := by
    rintro t choose c k r w rfl hcode hw hclosed hgate hfeed
    refine Or.inl (hg.gates.refuses hclosed hcode hw hgate hfeed ?_)
    rintro rfl
    exact hg.terminal t choose _ k rfl hcode hclosed

/-- No write of a failure follows a landed settlement of the payment, in every informed run of a
process that starts with no task and no statement pending. -/
theorem landed_not_failed (crates : Crates) (cfg : OracleConfig) (s₀ s : System) (a : Act)
    (now : Int) (u : JobUpsert) (htasks : ∀ t, s₀.tasks t = .ret ())
    (hunanswered : s₀.world.unanswered = [])
    (hs : Reach (System.next crates cfg) (Informed crates cfg) s₀ s)
    (hexecuted : s.executed a = some (now, .upsertJob u))
    (hstatus : u.status = .failed ∨ u.status = .deadLetter) :
    ∀ tx ∈ s.world.chain.landed, tx.ix.paymentUid ≠ u.paymentUid := by
  intro tx htx hkey
  have hsafe : (failing u.paymentUid).Safe crates cfg s :=
    hs.invariant (Closing.safe_of_idle htasks hunanswered) fun s a s' hsafe hg hnext =>
      hsafe.next failing_lawful (System.next_move hnext)
        (informed_permits hg (System.next_move hnext))
  exact hsafe.executed ⟨tx, htx, hkey⟩ hexecuted ⟨rfl, hstatus⟩

/-! ## Runs that are, and are not, informed -/

def otherJob : EvaluationJob :=
  { EvaluationJob.toy with paymentUid := byte32 3, paymentPubkey := byte32 4 }

def unreadable : System :=
  { System.init with up := true, world := { World.init with channel := [otherJob, .toy] } }

def unreadableChoice : (c : TCall) → Timed.Choice c
  | .race (.getAccount key) =>
    if key = byte32 2 then .finished (.error "connection refused") else Timed.toyChoice _
  | c => Timed.toyChoice c

def unreadableActs : List Act :=
  .receive :: List.replicate 23 (.step .worker unreadableChoice) ++
    .receive :: List.replicate 10 (.step .worker unreadableChoice)

def workerTold (s : System) : Act → Bool
  | .receive => true
  | .step .worker choose =>
    match s.tasks .worker with
    | .call (.await (.sql (.isTerminal uid))) _ =>
      s.world.chain.landed.all fun tx => tx.ix.paymentUid ≠ uid
    | .call (.await (.getAccount _)) _ => false
    | .call (.race (.sendAndConfirm tx)) _ =>
      s.world.unanswered.isEmpty &&
        match choose (.race (.sendAndConfirm tx)) with
        | .finished (.confirmed _) => true
        | _ => false
    | .call c _ => (Timed.lands c (choose c)).isNone
    | .ret _ => true
  | _ => false

theorem informs_of_lands {s : System} {choose : (c : TCall) → Timed.Choice c} {c : TCall}
    {k : TReply c → TaskCode Unit} (h : workerTold s (.step .worker choose) = true)
    (hcode : s.tasks .worker = .call c k) (hlands : Timed.lands c (choose c) ≠ none) :
    Timed.Informs c (choose c) ∧ s.world.unanswered = [] := by
  rcases c with c | c
  · cases c with
    | sendAndConfirm tx =>
      simp only [workerTold, hcode, Option.isNone_iff_eq_none] at h
      exact absurd h hlands
    | _ => exact absurd rfl hlands
  · cases c with
    | sendAndConfirm tx =>
      simp only [workerTold, hcode, Bool.and_eq_true, List.isEmpty_iff] at h
      obtain ⟨hnone, htold⟩ := h
      split at htold
      · next sig hchoice =>
        rw [hchoice]
        exact ⟨trivial, hnone⟩
      · cases htold
    | _ =>
      revert hlands
      generalize choose _ = choice
      intro hlands
      cases choice <;> exact absurd rfl hlands

theorem informed_of_workerTold {s : System} {a : Act}
    (hidle : ∀ t, t ≠ .worker → s.tasks t = .ret ()) (h : workerTold s a = true) :
    Informed crates cfg s a := by
  have hpast : ∀ {t key}, t ≠ .worker → ¬ (failing key).Past (s.tasks t) := by
    intro t key ht
    rw [hidle t ht]
    exact id
  cases a with
  | receive =>
    exact ⟨fun _ _ _ _ ha => (by cases ha), fun _ htx => (by cases htx),
      ⟨fun _ _ _ _ ha => (by cases ha), fun _ _ _ _ _ ha => (by cases ha)⟩,
      fun _ _ _ _ ha => (by cases ha)⟩
  | step t choose =>
    obtain rfl : t = .worker := by
      cases t with
      | worker => rfl
      | _ => cases h
    have hprobe : ∀ {uid k}, s.tasks .worker = .call (.await (.sql (.isTerminal uid))) k →
        ¬ Landed s.world.chain uid := by
      rintro uid k hcode ⟨tx, htx, hkey⟩
      simp only [workerTold, hcode, List.all_eq_true, decide_eq_true_eq] at h
      exact h tx htx hkey
    have hread : ∀ {key k}, s.tasks .worker ≠ .call (.await (.getAccount key)) k := by
      intro key k hcode
      simp only [workerTold, hcode, Bool.false_eq_true] at h
    refine ⟨?_, ?_, ⟨?_, ?_⟩, ?_⟩
    · rintro t choose' c k ha hcode
      obtain ⟨rfl, rfl⟩ := Act.step.inj ha
      exact fun hlands => (informs_of_lands h hcode hlands).1
    · intro tx htx _
      rw [lands] at htx
      split at htx
      · cases htx
      next c k hcode =>
      have hnone := (informs_of_lands h hcode (by rw [htx]; simp)).2
      refine ⟨fun t ht => hpast fun hworker => ht (congrArg some hworker.symm), fun q hq => ?_⟩
      rw [hnone] at hq
      cases hq
    · rintro t choose' uid k ha hcode hlanded
      obtain ⟨rfl, rfl⟩ := Act.step.inj ha
      exact absurd hlanded (hprobe hcode)
    · rintro t choose' key k job ha hcode
      obtain ⟨rfl, rfl⟩ := Act.step.inj ha
      exact absurd hcode hread
    · rintro t choose' uid k ha hcode hlanded
      obtain ⟨rfl, rfl⟩ := Act.step.inj ha
      exact absurd hlanded (hprobe hcode)
  | _ => cases h

theorem worker_alone (s : System) (a : Act) (s' : System)
    (hidle : ∀ t, t ≠ .worker → s.tasks t = .ret ()) (h : workerTold s a = true)
    (hnext : s.next crates cfg a = some s') : ∀ t, t ≠ .worker → s'.tasks t = .ret () := by
  intro t ht
  have hconcerns : Recording.concerns a t = false := by
    cases a with
    | receive => exact decide_eq_false ht
    | step t' choose =>
      cases t' with
      | worker => exact decide_eq_false ht.symm
      | _ => cases h
    | _ => cases h
  rw [Recording.tasks_of_not_concerns hnext hconcerns]
  exact hidle t ht

def statusWritten : Stmt → Option JobStatus
  | .upsertJob u => some u.status
  | _ => none

theorem landed_not_failed_unreadable :
    ∃ s, runChecked (System.next .toy .toy) workerTold unreadableActs unreadable = some s ∧
      s.world.chain.landed.map (·.ix.paymentUid) = [uidHex (byte32 3)] ∧
      ∃ now u, s.executed (.step .worker unreadableChoice) = some (now, .upsertJob u) ∧
        u.status = .failed ∧ ∀ tx ∈ s.world.chain.landed, tx.ix.paymentUid ≠ u.paymentUid := by
  have hview : (runChecked (System.next .toy .toy) workerTold unreadableActs unreadable).map
      (fun s => (s.world.chain.landed.map (·.ix.paymentUid),
        (s.executed (.step .worker unreadableChoice)).map fun p => statusWritten p.2)) =
      some ([uidHex (byte32 3)], some (some .failed)) := by
    decide +kernel
  obtain ⟨s, hrun, hs⟩ := Option.map_eq_some_iff.mp hview
  obtain ⟨hlanded, hrest⟩ := Prod.mk.inj hs
  obtain ⟨⟨now, q⟩, hexecuted, hq⟩ := Option.map_eq_some_iff.mp hrest
  cases q with
  | upsertJob u =>
    have hstatus : u.status = .failed := Option.some.inj hq
    have hidle : ∀ t, t ≠ .worker → unreadable.tasks t = .ret () := fun _ _ => rfl
    have hs : Reach (System.next .toy .toy) (Informed .toy .toy) unreadable s :=
      (Reach.first.runChecked (fun _ _ h => h) hrun).strengthen hidle worker_alone
        fun _ _ => informed_of_workerTold
    exact ⟨s, hrun, hlanded, now, u, hexecuted, hstatus, landed_not_failed .toy .toy unreadable s _
      now u (fun _ => rfl) rfl hs hexecuted (Or.inl hstatus)⟩
  | _ => cases hq

def unseenChoice : (c : TCall) → Timed.Choice c
  | .race (.sendAndConfirm _) => .finished (.landed "unable to confirm transaction")
  | c => Timed.toyChoice c

def unseenActs : List Act :=
  [.start, .request 0 ⟨none, none⟩ ""] ++ List.replicate 13 (.step (.handler 0) unseenChoice)

def DbSucceeds (_ : System) : Act → Prop
  | .step _ choose => ∀ q, ∃ now, choose (.await (.sql q)) = SqlChoice.done now
  | .execLate _ _ => False
  | _ => True

theorem landed_failed : ¬ ∀ (s : System) (a : Act) (now : Int) (u : JobUpsert),
    Reach (System.next .toy .toy) DbSucceeds .init s → DbSucceeds s a →
    s.executed a = some (now, .upsertJob u) → u.status = .failed ∨ u.status = .deadLetter →
    ∀ tx ∈ s.world.chain.landed, tx.ix.paymentUid ≠ u.paymentUid := by
  intro h
  obtain ⟨s, now, u, tx, hrun, hexecuted, hstatus, hlanded, hkey⟩ : ∃ s now u tx,
      runActs (System.next .toy .toy) unseenActs .init = some s ∧
        s.executed (.step (.handler 0) unseenChoice) = some (now, .upsertJob u) ∧
        u.status = .failed ∧ s.world.chain.landed = [tx] ∧ tx.ix.paymentUid = u.paymentUid :=
    ⟨_, _, _, _, rfl, rfl, rfl, rfl, rfl⟩
  have hdb : ∀ t s, DbSucceeds s (.step t unseenChoice) := fun t s q => ⟨0, rfl⟩
  have hguard : ∀ s, ∀ a ∈ unseenActs, DbSucceeds s a := by
    intro s a ha
    rcases List.mem_append.mp ha with ha | ha
    · simp only [List.mem_cons, List.not_mem_nil, or_false] at ha
      rcases ha with rfl | rfl <;> trivial
    · rw [List.eq_of_mem_replicate ha]
      exact hdb _ s
  refine h s (.step (.handler 0) unseenChoice) now u (Reach.first.runActs hguard hrun) (hdb _ s)
    hexecuted (Or.inl hstatus) tx ?_ hkey
  rw [hlanded]
  exact List.mem_cons_self

end OracleQa.FailedRow
