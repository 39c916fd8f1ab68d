import OracleQa.Interaction.Refinement
import OracleQa.Interaction.WriteOnce
import OracleQa.Spec.Integrity
import OracleQa.Spec.Settlement

/-! What the processes are for, on the side of the chain: a table of resolutions, each written
once, in which every entry of theirs states a verdict on the documents that its payment commits
to. The processes refine it, however they crash, time out or are told of failures. -/

namespace OracleQa.Escrow
open Interaction Integrity

abbrev Table := WriteOnce String Resolution Transaction

def payment (tx : Transaction) : String := tx.ix.paymentUid

def stated (tx : Transaction) : Resolution := tx.ix.resolution

def table (c : ChainState) : Table := ⟨c.resolution, c.landed⟩

/-- The transaction is by this oracle, for a payment whose documents were evaluated to what it
states. -/
def Stated (crates : Crates) (cfg : OracleConfig) (tx : Transaction) : Prop :=
  ∃ (job : EvaluationJob) (result : EvaluationResult), tx.ix = ⟨cfg.oraclePubkey, job.mint,
      uidHex job.paymentUid, job.deliveryHash, tx.ix.resolutionHash,
      if result.approved then 1 else 2, result.resolutionReason⟩ ∧
    Reproduces crates (· = cfg.strictProfile) job result tx.ix.resolutionHash

section
variable {I : Type}

def Justified (crates : Crates) (cfg : I → OracleConfig) (tx : Transaction) : Prop :=
  ∃ i, Stated crates (cfg i) tx

/-- One of the processes enters a justified resolution of an open payment, or someone else
resolves one. -/
abbrev Step (crates : Crates) (cfg : I → OracleConfig) : Table → Table → Prop :=
  WriteOnce.Step payment stated (Justified crates cfg)

abbrev Lawful (crates : Crates) (cfg : I → OracleConfig) : Table → Prop :=
  WriteOnce.Lawful payment stated (Justified crates cfg)

end

variable {crates : Crates} {cfg : OracleConfig} {job : EvaluationJob}

/-! ## What the tasks send -/

def Sends (crates : Crates) (cfg : OracleConfig) (c : TCall) : Prop :=
  ∀ tx, c.base = .sendAndConfirm tx → Stated crates cfg tx

theorem stated_of_settles {h : Settlement.History} {tx : Transaction}
    (hs : Settlement.Settles crates cfg job h tx) : Stated crates cfg tx := by
  obtain ⟨sla, evidence, ⟨rawSla, -, hsla, hparse⟩, ⟨rawDelivery, -, hdelivery, hparse'⟩, result,
    hresult, horacle, huid, hmint, hdeliveryHash, hstate, hreason, hhash⟩ := hs.evidence
  refine ⟨job, result, ?_, rawSla, rawDelivery, sla, evidence, cfg.strictProfile, hsla, hparse,
    hdelivery, hparse', rfl, hresult, hhash⟩
  rw [← horacle, ← huid, ← hmint, ← hdeliveryHash, ← hstate, ← hreason]

theorem runPipeline_sends : (Pipeline.runPipeline crates cfg job).Calls
    fun c => ∀ tx, c = .sendAndConfirm tx → Stated crates cfg tx :=
  Settlement.runPipeline_wp.calls_record fun _ _ hok tx htx => stated_of_settles (hok tx htx)

theorem sends_of_quiet {c : TCall} (hc : ∀ tx, c.base ≠ .sendAndConfirm tx) :
    Sends crates cfg c := fun tx htx => absurd htx (hc tx)

theorem timedPipeline_sends :
    (Worker.timedPipeline crates cfg job).Calls (Sends crates cfg) :=
  Prog.calls_timeout runPipeline_sends fun _ h => h

theorem sends_feed {c : Call} (hc : c.isFeed = true) : Sends crates cfg (.await c) := by
  refine sends_of_quiet ?_
  rintro tx rfl
  cases hc

theorem sends_local {c : Call} (hc : c.isLocal = true) : Sends crates cfg (.await c) := by
  refine sends_of_quiet ?_
  rintro tx rfl
  cases hc

theorem sends_writes {statuses : List JobStatus} {c : TCall} (hc : Writes crates job statuses c) :
    Sends crates cfg c := by
  cases hc with
  | memory h => exact sends_local h
  | _ => exact sends_of_quiet fun tx h => by cases h

theorem sends_finishes {result : Worker.RunResult} {c : TCall}
    (hc : Finishes crates job result c) : Sends crates cfg c := by
  rcases result with _ | e | o
  · exact sends_writes hc
  · exact sends_writes hc
  · cases hc with
    | memory h => exact sends_local h
    | _ => exact sends_of_quiet fun tx h => by cases h

theorem runRule : RunRule (fun (_ : Unit) _ _ _ => True) (fun _ => Sends crates cfg) crates job
    (Worker.timedPipeline crates cfg job) (fun _ => True) (fun _ _ => True) where
  before_ok _ _ _ hc := sends_writes hc
  before_next _ _ _ _ _ _ _ := trivial
  run _ _ := timedPipeline_sends.wp_unit
  after_ok _ _ _ _ hc := sends_finishes hc
  after_next _ _ _ _ _ _ _ _ := trivial

theorem handleJob_sends : (Worker.handleJob crates cfg job
    (Worker.timedPipeline crates cfg job)).Calls (Sends crates cfg) := by
  have hskip : (Worker.skipDuplicate cfg job).Calls (Sends crates cfg) := by
    unfold Worker.skipDuplicate
    split
    · refine ⟨sends_of_quiet fun tx h => (by cases h), fun r _ => ?_⟩
      rcases r with e | _ | _ <;> trivial
    · exact ⟨sends_local rfl, fun _ _ => trivial⟩
  have hdepth : (Worker.await .setQueueDepth).Calls (Sends crates cfg) :=
    ⟨sends_local rfl, fun _ _ => trivial⟩
  apply Prog.Wp.calls
  refine runRule.handleJob (hdepth.wp_unit.mono fun _ _ _ => ?_)
  exact hskip.wp_unit.mono fun _ _ _ _ => trivial

theorem manualEvaluate_sends (headers : Server.Headers) (paymentPubkey : String) :
    (Server.manualEvaluate crates cfg headers paymentPubkey).Calls (Sends crates cfg) := by
  have hauthorize : (Server.authorizeManualEvaluate crates cfg headers).lift.Calls
      (Sends crates cfg) :=
    Prog.calls_lift (Server.authorizeManualEvaluate_calls headers) fun _ => sends_local
  have hread : ∀ key, (Chain.readPayment crates cfg key).lift.Calls (Sends crates cfg) := by
    refine fun key => Prog.calls_lift (Chain.readPayment_calls key) ?_
    rintro c rfl
    exact sends_feed rfl
  apply Prog.Wp.calls
  refine RunRule.manualEvaluate (hauthorize.wp_unit.mono fun _ _ _ key _ => ?_)
  exact (hread key).wp_unit.mono fun _ _ _ job _ => ⟨_, _, runRule, trivial⟩

theorem entry_sends {t : TaskId} {code : TaskCode Unit} (h : System.Entry crates cfg t code) :
    code.Calls (Sends crates cfg) := by
  cases h with
  | none => trivial
  | worker job => exact handleJob_sends.bind fun _ => trivial
  | monitor note =>
    exact (Prog.calls_lift (Chain.monitorNotification_calls note) fun _ => sends_feed).bind
      fun _ => trivial
  | backfill => exact Prog.calls_lift Chain.backfillMissedDeliveries_calls fun _ => sends_feed
  | handler n headers paymentPubkey =>
    exact (manualEvaluate_sends headers paymentPubkey).bind fun _ => trivial

/-! ## The processes -/

section Processes
variable {s s' : System} {a : Act} {just : Transaction → Prop}

theorem land_table {c : ChainState} {tx : Transaction}
    (hfree : c.resolution tx.ix.paymentUid = none) (htx : just tx) :
    WriteOnce.Step payment stated just (table c) (table (c.land tx)) :=
  .enter tx hfree htx

theorem sent_table {c c' : ChainState} {tx : Transaction} (hsent : c.Sent c' tx) (htx : just tx)
    (hflight : ∀ tx ∈ c.inFlight, just tx) : (∀ tx ∈ c'.inFlight, just tx) ∧
      (table c' = table c ∨ WriteOnce.Step payment stated just (table c) (table c')) := by
  rcases hsent with rfl | ⟨hfree, rfl⟩ | rfl
  · exact ⟨hflight, Or.inl rfl⟩
  · exact ⟨hflight, Or.inr (land_table hfree htx)⟩
  · exact ⟨List.forall_mem_cons.mpr ⟨htx, hflight⟩, Or.inl rfl⟩

theorem move_table (hjust : ∀ tx, Stated crates cfg tx → just tx)
    (hflight : ∀ tx ∈ s.world.chain.inFlight, just tx)
    (htasks : ∀ t, (s.tasks t).Calls (Sends crates cfg)) (h : s.Move crates cfg a s') :
    (∀ tx ∈ s'.world.chain.inFlight, just tx) ∧ (∀ t, (s'.tasks t).Calls (Sends crates cfg)) ∧
      (table s'.world.chain = table s.world.chain ∨
        WriteOnce.Step payment stated just (table s.world.chain) (table s'.world.chain)) := by
  have htasks' : ∀ t code, code.Calls (Sends crates cfg) →
      ∀ t', (Function.update s.tasks t code t').Calls (Sends crates cfg) := fun t code hcode =>
    (Function.forall_update_iff _ fun _ => Prog.Calls (Sends crates cfg)).mpr
      ⟨hcode, fun t' _ => htasks t'⟩
  cases h with
  | @call t choose c k r w hcode hw =>
    have hcall := htasks t
    rw [hcode] at hcall
    have hrest := htasks' t (k r) (hcall.2 r trivial)
    dsimp only
    rcases (World.performTimed_frame hw).chain with hsame | ⟨tx, hbase, hsent⟩
    · rw [hsame]
      exact ⟨hflight, hrest, Or.inl rfl⟩
    · obtain ⟨hflight', htable⟩ := sent_table hsent (hjust tx (hcall.1 tx hbase)) hflight
      exact ⟨hflight', hrest, htable⟩
  | spawn hentry hexecuted => exact ⟨hflight, htasks' _ _ (entry_sends hentry), Or.inl rfl⟩
  | execLate hq => exact ⟨hflight, htasks, Or.inl rfl⟩
  | land htx hnone =>
    exact ⟨hflight, htasks, Or.inr (land_table hnone (hflight _ (List.mem_of_getElem? htx)))⟩
  | resolve hnone => exact ⟨hflight, htasks, Or.inr (.other _ _ hnone)⟩
  | crash => exact ⟨hflight, fun _ => trivial, Or.inl rfl⟩

variable {I : Type} [DecidableEq I] {cfg : I → OracleConfig} {s s' : Oracles I}

structure Underway (crates : Crates) (cfg : I → OracleConfig) (s : Oracles I) : Prop where
  flight : ∀ tx ∈ s.shared.chain.inFlight, Justified crates cfg tx
  tasks : ∀ i t, ((s.own i).tasks t).Calls (Sends crates (cfg i))

theorem underway_step (hs : Underway crates cfg s) {a : I × Act}
    (h : Oracles.next crates cfg s a = some s') : Underway crates cfg s' ∧
      (table s'.shared.chain = table s.shared.chain ∨
        Step crates cfg (table s.shared.chain) (table s'.shared.chain)) := by
  obtain ⟨l, hperformed, hown⟩ := Fleet.next_eq_some h
  have hmove := System.next_move (Oracles.step_eq_some hperformed)
  have hjust : ∀ tx, Stated crates (cfg a.1) tx → Justified crates cfg tx := fun tx h => ⟨a.1, h⟩
  obtain ⟨hflight, htasks, htable⟩ := move_table hjust hs.flight (hs.tasks a.1) hmove
  refine ⟨⟨hflight, fun i => ?_⟩, htable⟩
  rw [hown]
  by_cases hi : i = a.1
  · subst hi
    rw [Function.update_self]
    exact htasks
  · rw [Function.update_of_ne hi]
    exact hs.tasks i

theorem fleet_refines (crates : Crates) (cfg : I → OracleConfig) :
    Refines (Oracles.next crates cfg) (fun _ _ => True) .init (Step crates cfg)
      fun s => table s.shared.chain :=
  .of_invariant ⟨List.forall_mem_nil _, fun _ _ => trivial⟩ fun _ _ _ hs _ h => underway_step hs h

/-- Whatever the processes do together is, on the chain, a run of the table: they resolve open
payments only, one at a time, and with justified verdicts. -/
theorem fleet_refines_table (crates : Crates) (cfg : I → OracleConfig) (s s' : Oracles I)
    (hs : Oracles.Reached crates cfg s)
    (hrun : Reach (Oracles.next crates cfg) (fun _ _ => True) s s') :
    Relation.ReflTransGen (Step crates cfg) (table s.shared.chain) (table s'.shared.chain) :=
  (fleet_refines crates cfg).run hs hrun

theorem fleet_refines_table_two :
    ∃ s, Oracles.run .toy (fun _ : Bool => .toy) twoEvaluations = some s ∧
      s.shared.chain.landed.length = 1 ∧ Relation.ReflTransGen (Step .toy fun _ : Bool => .toy)
        (table (Oracles.init : Oracles Bool).shared.chain) (table s.shared.chain) := by
  have hrun : (Oracles.run .toy (fun _ : Bool => .toy) twoEvaluations).map
      (fun s => s.shared.chain.landed.length) = some 1 := by decide +kernel
  obtain ⟨s, hs, hlanded⟩ := Option.map_eq_some_iff.mp hrun
  exact ⟨s, hs, hlanded, fleet_refines_table .toy (fun _ => .toy) .init s .first
    (Oracles.reached_of_run hs)⟩

/-- At any time, what the processes have resolved is justified, final, and for different
payments. -/
theorem fleet_lawful (crates : Crates) (cfg : I → OracleConfig) (s s' : Oracles I)
    (hs : Oracles.Reached crates cfg s)
    (hrun : Reach (Oracles.next crates cfg) (fun _ _ => True) s s') :
    Lawful crates cfg (table s'.shared.chain) ∧ ∀ key res,
      s.shared.chain.resolution key = some res → s'.shared.chain.resolution key = some res := by
  have hlawful : Lawful crates cfg (table s.shared.chain) :=
    (fleet_refines crates cfg).keeps .first hs (fun _ _ hw h => h.lawful hw)
      (WriteOnce.lawful_nil _)
  have hboth : Lawful crates cfg (table s'.shared.chain) :=
    (fleet_refines crates cfg).keeps hs hrun (fun _ _ hw h => h.lawful hw) hlawful
  refine ⟨hboth, fun key res hres => ?_⟩
  exact (fleet_refines crates cfg).keeps (P := fun w => w.value key = some res) hs hrun
    (fun _ _ hw h => h.stays hw) hres

theorem fleet_lawful_two :
    ∃ s s', Oracles.run .toy (fun _ : Bool => .toy) (manualEvaluation.map fun a => (true, a)) =
        some s ∧
      runActs (Oracles.next .toy fun _ : Bool => .toy) (manualEvaluation.map fun a => (false, a))
        s = some s' ∧
      s.shared.chain.landed.length = 1 ∧
      Lawful .toy (fun _ : Bool => .toy) (table s'.shared.chain) ∧ ∀ key res,
        s.shared.chain.resolution key = some res → s'.shared.chain.resolution key = some res := by
  have hrun : ((Oracles.run .toy (fun _ : Bool => .toy)
      (manualEvaluation.map fun a => (true, a))).bind fun s =>
        (runActs (Oracles.next .toy fun _ : Bool => .toy)
          (manualEvaluation.map fun a => (false, a)) s).map fun _ =>
            s.shared.chain.landed.length) = some 1 := by decide +kernel
  obtain ⟨s, hs, hrest⟩ := Option.bind_eq_some_iff.mp hrun
  obtain ⟨s', hs', hlanded⟩ := Option.map_eq_some_iff.mp hrest
  exact ⟨s, s', hs, hs', hlanded, fleet_lawful .toy (fun _ => .toy) s s'
    (Oracles.reached_of_run hs) (Reach.first.runActs (fun _ _ _ => trivial) hs')⟩

end Processes
end OracleQa.Escrow
