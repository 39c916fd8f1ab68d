import OracleQa.Interaction.Turns
import OracleQa.Spec.Recording
import OracleQa.Spec.Runs

/-! Left to itself, the process comes to rest: no task waits for ever on another one, and what was
handed over through the bounded channel is worked off, whatever the environment answers. -/

namespace OracleQa.Quiescence
open Interaction

def isOwn : Act → Bool
  | .step _ _ => true
  | .receive => true
  | _ => false

section
variable (crates : Crates) (cfg : OracleConfig)

def Proceeds (s s' : System) : Prop := ∃ a, isOwn a = true ∧ s.next crates cfg a = some s'

end

structure AtRest (s : System) : Prop where
  idle : ∀ t, s.isIdle t = true
  drained : s.world.channel = []

def NoSend (c : TCall) : Prop := ∀ job, c.base ≠ .sendJob job

structure Flows (s : System) : Prop where
  /-- the worker never waits for room in the channel that it alone empties -/
  worker : (s.tasks .worker).Calls NoSend
  busy : {t | (s.tasks t).IsBusy}.Finite
  tasks_down : s.up = false → ∀ t, s.tasks t = .ret ()
  channel_down : s.up = false → s.world.channel = []

variable {crates : Crates} {cfg : OracleConfig} {job : EvaluationJob} {s s' : System} {a : Act}

/-! ## The worker's calls -/

theorem noSend_of_isLocal {c : Call} (h : c.isLocal = true) : NoSend (.await c) := by
  rintro job rfl
  cases h

theorem noSend_of_writes {l : List JobStatus} {c : TCall} (h : Writes crates job l c) :
    NoSend c := by
  cases h with
  | memory h => exact noSend_of_isLocal h
  | job lastError h => exact fun _ h => by cases h
  | event e => exact fun _ h => by cases h
  | count => exact fun _ h => by cases h

theorem noSend_of_settles {outcome : Pipeline.PipelineOutcome} {c : TCall}
    (h : Settles crates job outcome c) : NoSend c := by
  cases h with
  | memory h => exact noSend_of_isLocal h
  | job => exact fun _ h => by cases h
  | verdict => exact fun _ h => by cases h
  | event e => exact fun _ h => by cases h
  | parameter value => exact fun _ h => by cases h

theorem noSend_of_finishes {result : Worker.RunResult} {c : TCall}
    (h : Finishes crates job result c) : NoSend c := by
  rcases result with _ | e | outcome
  · exact noSend_of_writes h
  · exact noSend_of_writes h
  · exact noSend_of_settles h

theorem timedPipeline_noSend : (Worker.timedPipeline crates cfg job).Calls NoSend := by
  refine Prog.calls_timeout Pipeline.runPipeline_calls ?_
  rintro c hc job rfl
  cases hc

theorem workerBody_noSend : (System.workerBody crates cfg job).Calls NoSend := by
  have hrule : RunRule (fun _ _ _ _ => True) (fun (_ : Unit) c => NoSend c) crates job
      (Worker.timedPipeline crates cfg job) (fun _ => True) (fun _ _ => True) := {
    before_ok := fun _ _ _ h => noSend_of_writes h
    before_next := fun _ _ _ _ _ _ _ => trivial
    run := fun _ _ => timedPipeline_noSend.wp_unit
    after_ok := fun _ _ _ _ h => noSend_of_finishes h
    after_next := fun _ _ _ _ _ _ _ _ => trivial }
  have hskip : (Worker.skipDuplicate cfg job).Calls NoSend := by
    unfold Worker.skipDuplicate
    split
    · have hread : (Db.isTerminal job.paymentUid).lift.Calls NoSend :=
        ⟨fun _ h => (by cases h), fun _ _ => trivial⟩
      refine hread.bind fun r => ?_
      rcases r with e | _ | _ <;> trivial
    · exact ⟨noSend_of_isLocal rfl, fun _ _ => trivial⟩
  have hhandle : (Worker.handleJob crates cfg job (Worker.timedPipeline crates cfg job)).Calls
      NoSend := by
    apply Prog.Wp.calls
    refine hrule.handleJob ⟨noSend_of_isLocal rfl, fun _ _ _ => ?_⟩
    exact hskip.wp_unit.mono fun _ _ _ _ => trivial
  exact hhandle.bind fun _ => trivial

theorem entry_noSend {code : TaskCode Unit} (h : System.Entry crates cfg .worker code) :
    code.Calls NoSend := by
  cases h with
  | none t => trivial
  | worker job => exact workerBody_noSend

/-! ## What every step keeps -/

theorem update_noSend {t : TaskId} {code : TaskCode Unit} (hs : Flows s)
    (hcode : t = .worker → code.Calls NoSend) :
    (Function.update s.tasks t code .worker).Calls NoSend := by
  by_cases ht : t = .worker
  · subst ht
    rw [Function.update_self]
    exact hcode rfl
  · rw [Function.update_of_ne (Ne.symm ht)]
    exact hs.worker

theorem update_busy {t : TaskId} {code : TaskCode Unit} (hs : Flows s) :
    {t' | (Function.update s.tasks t code t').IsBusy}.Finite := by
  refine (hs.busy.insert t).subset fun t' ht' => ?_
  by_cases h : t' = t
  · exact Or.inl h
  · rw [Set.mem_ofPred_eq, Function.update_of_ne h] at ht'
    exact Or.inr ht'

theorem tasks_next (hs : Flows s) (h : s.next crates cfg a = some s') :
    (s'.tasks .worker).Calls NoSend ∧ {t | (s'.tasks t).IsBusy}.Finite := by
  cases System.next_move h with
  | @call t choose c k r w hcode hw =>
    refine ⟨update_noSend hs fun ht => ?_, update_busy hs⟩
    subst ht
    have hcalls := hs.worker
    rw [hcode] at hcalls
    exact hcalls.2 r trivial
  | @spawn a t code channel up hentry hexecuted =>
    refine ⟨update_noSend hs fun ht => ?_, update_busy hs⟩
    subst ht
    exact entry_noSend hentry
  | execLate hq => exact ⟨hs.worker, hs.busy⟩
  | land htx hnone => exact ⟨hs.worker, hs.busy⟩
  | resolve hnone => exact ⟨hs.worker, hs.busy⟩
  | crash =>
    refine ⟨trivial, Set.finite_empty.subset fun t ht => ?_⟩
    exact Prog.not_isBusy_ret () ht

theorem up_next (h : s.next crates cfg a = some s') (hcrash : a ≠ .crash)
    (hdown : s'.up = false) : s.up = false := by
  cases a with
  | step t choose =>
    simp only [System.next, System.stepTask] at h
    split at h
    · cases h
    · obtain ⟨p, -, rfl⟩ := Option.map_eq_some_iff.mp h
      exact hdown
  | receive =>
    simp only [System.next, System.receive] at h
    split at h
    · cases h
    · obtain ⟨-, hspawn⟩ := Option.ite_none_right_eq_some.mp h
      obtain rfl := Option.some.inj hspawn
      exact hdown
  | notify note =>
    obtain ⟨-, hspawn⟩ := Option.ite_none_right_eq_some.mp h
    obtain rfl := Option.some.inj hspawn
    exact hdown
  | request n headers paymentPubkey =>
    obtain ⟨-, hspawn⟩ := Option.ite_none_right_eq_some.mp h
    obtain rfl := Option.some.inj hspawn
    exact hdown
  | disconnect n =>
    obtain rfl := Option.some.inj h
    exact hdown
  | execLate i now =>
    obtain ⟨q, -, rfl⟩ := Option.map_eq_some_iff.mp h
    exact hdown
  | land i =>
    simp only [System.next, System.land] at h
    split at h
    · cases h
    · obtain ⟨-, hland⟩ := Option.ite_none_right_eq_some.mp h
      obtain rfl := Option.some.inj hland
      exact hdown
  | resolve uid res =>
    obtain ⟨-, hresolve⟩ := Option.ite_none_right_eq_some.mp h
    obtain rfl := Option.some.inj hresolve
    exact hdown
  | crash => exact absurd rfl hcrash
  | start =>
    obtain ⟨-, hspawn⟩ := Option.ite_none_left_eq_some.mp h
    obtain rfl := Option.some.inj hspawn
    cases hdown

theorem channel_down_next (hs : Flows s) (h : s.next crates cfg a = some s')
    (hdown : s'.up = false) : s'.world.channel = [] := by
  by_cases hcrash : a = .crash
  · subst hcrash
    obtain rfl := Option.some.inj h
    rfl
  have hup := up_next h hcrash hdown
  by_cases hinternal : System.isInternal a = true
  · rw [(System.next_internal h hinternal).1]
    exact hs.channel_down hup
  cases a with
  | step t choose =>
    obtain ⟨c, k, r, hcode, -, -⟩ := System.next_step h
    rw [hs.tasks_down hup t] at hcode
    cases hcode
  | receive =>
    obtain ⟨job, hchannel, -⟩ := System.next_receive h
    rw [hs.channel_down hup] at hchannel
    cases hchannel
  | crash => exact absurd rfl hcrash
  | _ => exact absurd rfl hinternal

theorem flows_init : Flows .init :=
  ⟨trivial, Set.finite_empty.subset fun _ ht => Prog.not_isBusy_ret () ht, fun _ _ => rfl,
    fun _ => rfl⟩

theorem flows_next (hs : Flows s) (h : s.next crates cfg a = some s') : Flows s' :=
  ⟨(tasks_next hs h).1, (tasks_next hs h).2,
    fun hdown t => Recording.down_next (fun t hup => hs.tasks_down hup t) h t hdown,
    channel_down_next hs h⟩

theorem flows_of_reach (hs : Reach (System.next crates cfg) (fun _ _ => True) .init s) :
    Flows s :=
  hs.invariant flows_init fun _ _ _ hs _ h => flows_next hs h

/-! ## Something is left to do, or something can be done -/

def plainAnswer : (c : TCall) → Timed.Choice c
  | .await (.sendAndConfirm _) => .rejected ""
  | .await c => c.toyChoice
  | .race _ => .droppedBefore

/-- A task waits for room in the channel, and for nothing else. -/
theorem performTimed_plain {w : World} {c : TCall}
    (h : ∀ job, c = .await (.sendJob job) → w.channel.length < cfg.jobChannelCapacity) :
    ∃ p, w.performTimed cfg c (plainAnswer c) = some p := by
  cases c with
  | race c => exact ⟨_, rfl⟩
  | await c =>
    cases c with
    | sendJob job => exact ⟨_, if_pos (h job rfl)⟩
    | _ => exact ⟨_, rfl⟩

theorem proceeds_step {t : TaskId} {c : TCall} {k : TReply c → TaskCode Unit}
    (hcode : s.tasks t = .call c k)
    (h : ∀ job, c = .await (.sendJob job) → s.world.channel.length < cfg.jobChannelCapacity) :
    ∃ s', Proceeds crates cfg s s' := by
  obtain ⟨p, hp⟩ := performTimed_plain h
  have hsome : (s.next crates cfg (.step t plainAnswer)).isSome = true := by
    simp only [System.next, System.stepTask, hcode, hp, Option.map_some, Option.isSome_some]
  obtain ⟨s', hs'⟩ := Option.isSome_iff_exists.mp hsome
  exact ⟨s', _, rfl, hs'⟩

theorem proceeds_channel (hs : Flows s) (h : s.world.channel ≠ []) :
    ∃ s', Proceeds crates cfg s s' := by
  cases hworker : s.tasks .worker with
  | call c k =>
    have hcalls := hs.worker
    rw [hworker] at hcalls
    exact proceeds_step hworker fun job hc => absurd (congrArg Timed.base hc) (hcalls.1 job)
  | ret u =>
    obtain ⟨job, rest, hchannel⟩ := List.exists_cons_of_ne_nil h
    have hup : s.up = true := by
      by_contra hdown
      exact h (hs.channel_down (Bool.eq_false_of_not_eq_true hdown))
    have hidle : s.isIdle .worker = true := by rw [System.isIdle, hworker]
    have hsome : (s.next crates cfg .receive).isSome = true := by
      simp only [System.next, System.receive, hchannel, hup, hidle, Bool.and_self, if_true,
        Option.isSome_some]
    obtain ⟨s', hs'⟩ := Option.isSome_iff_exists.mp hsome
    exact ⟨s', _, rfl, hs'⟩

theorem atRest_or_proceeds (hcap : 0 < cfg.jobChannelCapacity) (hs : Flows s) :
    AtRest s ∨ ∃ s', Proceeds crates cfg s s' := by
  by_cases hchannel : s.world.channel = []
  · by_cases hidle : ∀ t, s.isIdle t = true
    · exact Or.inl ⟨hidle, hchannel⟩
    · right
      obtain ⟨t, ht⟩ := not_forall.mp hidle
      cases hcode : s.tasks t with
      | ret u => exact absurd (by rw [System.isIdle, hcode]) ht
      | call c k =>
        refine proceeds_step hcode fun _ _ => ?_
        rw [hchannel]
        exact hcap
  · exact Or.inr (proceeds_channel hs hchannel)

theorem AtRest.stays (h : AtRest s) : ¬ Proceeds crates cfg s s' := by
  rintro ⟨a, ha, hnext⟩
  cases a with
  | step t choose =>
    obtain ⟨c, k, r, hcode, -⟩ := System.next_step hnext
    rw [Recording.ret_of_isIdle (h.idle t)] at hcode
    cases hcode
  | receive =>
    obtain ⟨job, hchannel, -⟩ := System.next_receive hnext
    rw [h.drained] at hchannel
    cases hchannel
  | _ => cases ha

/-! ## Nothing goes on for ever -/

theorem proceeds_turn (hs : Flows s) (h : Proceeds crates cfg s s') :
    Turn System.tasks TaskId.worker (fun s => s.world.channel.length) s s' := by
  obtain ⟨a, ha, hnext⟩ := h
  cases a with
  | step t choose =>
    obtain ⟨c, k, r, hcode, hw, htasks⟩ := System.next_step hnext
    by_cases ht : t = .worker
    · subst ht
      refine .work hcode htasks ?_
      rcases (World.performTimed_frame hw).channel with heq | ⟨job, hc, -⟩
      · exact congrArg List.length heq
      · have hcalls := hs.worker
        rw [hcode] at hcalls
        exact absurd hc (hcalls.1 job)
    · exact .feed ht hcode htasks
  | receive =>
    obtain ⟨job, hchannel, -⟩ := System.next_receive hnext
    have hothers : ∀ t, t ≠ .worker → s'.tasks t = s.tasks t := fun t ht =>
      Recording.tasks_of_not_concerns hnext (decide_eq_false ht)
    have htasks : s'.tasks = Function.update s.tasks .worker (s'.tasks .worker) :=
      (Function.update_eq_iff.mpr ⟨rfl, fun t ht => (hothers t ht).symm⟩).symm
    refine .take htasks ?_
    rw [hchannel, List.length_cons]
    exact Nat.lt_succ_self _
  | _ => cases ha

/-- From every reachable state, the process left to itself comes to rest after finitely many
steps, and it stops nowhere else. -/
theorem process_quiesces (crates : Crates) (cfg : OracleConfig) {s : System}
    (hcap : 0 < cfg.jobChannelCapacity)
    (hs : Reach (System.next crates cfg) (fun _ _ => True) .init s) :
    Acc (fun s' s => Proceeds crates cfg s s') s ∧
      ∀ s', Relation.ReflTransGen (Proceeds crates cfg) s s' →
        ((∀ s'', ¬ Proceeds crates cfg s' s'') ↔ AtRest s') := by
  have hflows : ∀ {s s'}, Flows s → Proceeds crates cfg s s' → Flows s' :=
    fun hs ⟨_, _, h⟩ => flows_next hs h
  have hs := flows_of_reach hs
  refine ⟨acc_of_turns (fun s s' hs h => ⟨hflows hs h, proceeds_turn hs h⟩) hs hs.busy, ?_⟩
  intro s' hrun
  have hs' : Flows s' := by
    induction hrun with
    | refl => exact hs
    | tail _ h ih => exact hflows ih h
  constructor
  · intro h
    rcases atRest_or_proceeds hcap hs' with hrest | ⟨s'', hs''⟩
    · exact hrest
    · exact absurd hs'' (h s'')
  · exact fun h s'' => h.stays

def waiting : List Act :=
  [.start, .notify ⟨1, "sig", ["Program data: "]⟩] ++ RunLog.missedSteps .monitor 5 ++
    [.notify ⟨2, "sig", ["Program data: "]⟩] ++ RunLog.missedSteps .monitor 4

def narrow : OracleConfig := { OracleConfig.toy with jobChannelCapacity := 1 }

theorem process_quiesces_waiting :
    ∃ s, runActs (System.next .toy narrow) waiting .init = some s ∧
      s.world.channel.length = 1 ∧ s.isIdle .monitor = false ∧
      Acc (fun s' s => Proceeds .toy narrow s s') s ∧
      ∀ s', Relation.ReflTransGen (Proceeds .toy narrow) s s' →
        ((∀ s'', ¬ Proceeds .toy narrow s' s'') ↔ AtRest s') := by
  have hrun : (runActs (System.next .toy narrow) waiting .init).map
      (fun s => (s.world.channel.length, s.isIdle .monitor)) = some (1, false) := by decide +kernel
  obtain ⟨s, hs, heq⟩ := Option.map_eq_some_iff.mp hrun
  obtain ⟨hchannel, hbusy⟩ := Prod.mk.inj heq
  exact ⟨s, hs, hchannel, hbusy, process_quiesces .toy narrow (by decide)
    (Reach.first.runActs (fun _ _ _ => trivial) hs)⟩

end OracleQa.Quiescence
