import OracleQa.Spec.Footprint
import OracleQa.Spec.Runs

/-! The worker without a ledger. Its set of processed payments, its map of attempts and its counter
of dead letters are a function of how its runs have ended, whatever the other tasks do. -/

namespace OracleQa.MemoryWorker
open Interaction Worker
open RunLog (delivered missedSteps)

/-! ## The memory that the worker keeps of its runs -/

structure Book where
  processed : Finset Bytes32
  attempts : Bytes32 → Option UInt32
  deadLetters : Nat

def book (w : World) : Book := ⟨w.processed, w.attempts, w.stats.totalDeadLetter⟩

def Book.after (b : Book) : Call → Book
  | .processedInsert uid => { b with processed := insert uid b.processed }
  | .processedRemove uid => { b with processed := b.processed.erase uid }
  | .attemptsIncrement uid => { b with
      attempts := Function.update b.attempts uid (some ((b.attempts uid).getD 0 + 1)) }
  | .attemptsRemove uid => { b with attempts := Function.update b.attempts uid none }
  | .countError deadLetter => { b with
      deadLetters := b.deadLetters + if deadLetter then 1 else 0 }
  | _ => b

def Book.afterTimed (b : Book) : TCall → Book
  | .await c => b.after c
  | .race _ => b

def keepsBook : Call → Bool
  | .processedInsert _ => false
  | .processedRemove _ => false
  | .attemptsIncrement _ => false
  | .attemptsRemove _ => false
  | .countError deadLetter => !deadLetter
  | _ => true

theorem Book.after_of_keepsBook (b : Book) {c : Call} (hc : keepsBook c = true) :
    b.after c = b := by
  cases c with
  | countError deadLetter =>
    cases deadLetter with
    | true => cases hc
    | false => rfl
  | _ => first | rfl | cases hc

section
variable {cfg : OracleConfig} {w w' : World}

theorem perform_book {c : Call} {choice : c.Choice} {r : c.Reply}
    (h : w.perform cfg c choice = some (r, w')) : book w' = (book w).after c := by
  cases c with
  | sql q =>
    obtain rfl := (Prod.mk.inj (Option.some.inj h)).2
    have hexec : ∀ now, book (w.execStmt now q).2 = book w := by
      intro now
      rw [World.execStmt_snd]
      rfl
    cases choice with
    | done now => exact hexec now
    | lost now e => exact hexec now
    | refused e => rfl
    | late e => rfl
  | sendAndConfirm tx =>
    obtain ⟨chain, rfl, -⟩ := World.performSend_frame h
    rfl
  | sendJob job =>
    obtain ⟨-, h⟩ := Option.ite_none_right_eq_some.mp h
    obtain ⟨-, rfl⟩ := Prod.mk.inj (Option.some.inj h)
    rfl
  | raiseLastSeenSlot slot =>
    obtain ⟨-, rfl⟩ := Prod.mk.inj (Option.some.inj h)
    unfold World.raiseLastSeenSlot
    split <;> rfl
  | observeSlot slot =>
    obtain ⟨-, rfl⟩ := Prod.mk.inj (Option.some.inj h)
    unfold World.raiseLastSeenSlot
    split <;> rfl
  | admitRequest now window limit =>
    obtain rfl := congrArg Prod.snd (Option.some.inj h)
    unfold World.admitRequest
    dsimp only
    split <;> rfl
  | _ =>
    obtain rfl := congrArg Prod.snd (Option.some.inj h)
    rfl

theorem performTimed_book {c : TCall} {choice : Timed.Choice c} {r : TReply c}
    (h : w.performTimed cfg c choice = some (r, w')) (hc : keepsBook c.base = true) :
    book w' = book w := by
  have hkeeps : ∀ {c' : Call} {choice' : c'.Choice} {r' : c'.Reply}, keepsBook c' = true →
      w.perform cfg c' choice' = some (r', w') → book w' = book w :=
    fun hc' h' => (perform_book h').trans ((book w).after_of_keepsBook hc')
  cases c with
  | await c => exact hkeeps hc h
  | race c =>
    cases choice with
    | finished choice =>
      obtain ⟨p, hp, hr⟩ := Option.map_eq_some_iff.mp h
      obtain ⟨-, rfl⟩ := Prod.mk.inj hr
      exact hkeeps hc hp
    | droppedBefore =>
      obtain ⟨-, rfl⟩ := Prod.mk.inj (Option.some.inj h)
      rfl
    | droppedAfter choice =>
      obtain ⟨p, hp, hr⟩ := Option.map_eq_some_iff.mp h
      obtain ⟨-, rfl⟩ := Prod.mk.inj hr
      exact hkeeps hc hp

end

/-! ## The other tasks -/

section
variable {crates : Crates} {cfg : OracleConfig}

def Aside (code : TaskCode Unit) : Prop := code.Calls fun c => keepsBook c.base = true

theorem keepsBook_of_isPipeline {c : Call} (h : c.isPipeline = true) : keepsBook c = true := by
  cases c <;> first | rfl | cases h

theorem keepsBook_of_isFeed {c : Call} (h : c.isFeed = true) : keepsBook c = true := by
  cases c <;> first | rfl | cases h

theorem timedPipeline_aside (job : EvaluationJob) :
    (timedPipeline crates cfg job).Calls fun c => keepsBook c.base = true :=
  Prog.calls_timeout Pipeline.runPipeline_calls fun _ h => keepsBook_of_isPipeline h

theorem finishManual_aside (hdb : cfg.databaseEnabled = false) (job : EvaluationJob)
    (result : RunResult) :
    (Server.finishManual crates cfg job result).Calls fun c => keepsBook c.base = true := by
  have hfailed : ∀ msg, (Server.recordManualFailure crates cfg job msg).Calls
      fun c => keepsBook c.base = true := by
    intro msg
    unfold Server.recordManualFailure
    rw [if_neg (by simp [hdb])]
    exact ⟨rfl, fun _ _ => trivial⟩
  have hsettled : ∀ outcome, (Server.recordManualSettled crates cfg job outcome).Calls
      fun c => keepsBook c.base = true := by
    intro outcome
    unfold Server.recordManualSettled
    rw [if_neg (by simp [hdb])]
    exact ⟨rfl, fun _ _ => trivial⟩
  rcases result with _ | e | outcome
  · exact (hfailed _).bind fun _ => trivial
  · exact (hfailed _).bind fun _ => trivial
  · exact (hsettled outcome).bind fun _ => trivial

theorem evaluateManually_aside (hdb : cfg.databaseEnabled = false) (job : EvaluationJob) :
    (Server.evaluateManually crates cfg job (timedPipeline crates cfg job)).Calls
      fun c => keepsBook c.base = true := by
  unfold Server.evaluateManually
  rw [if_neg (by simp [hdb])]
  apply (timedPipeline_aside job).bind
  intro result
  exact finishManual_aside hdb job result

theorem manualEvaluate_aside (hdb : cfg.databaseEnabled = false) (headers : Server.Headers)
    (paymentPubkey : String) : (Server.manualEvaluate crates cfg headers paymentPubkey).Calls
      fun c => keepsBook c.base = true := by
  have hauthorize : (Server.authorizeManualEvaluate crates cfg headers).Calls
      fun c => keepsBook c = true := by
    unfold Server.authorizeManualEvaluate
    split
    · trivial
    · refine ⟨rfl, fun now _ => ⟨rfl, fun admitted _ => ?_⟩⟩
      cases admitted <;> trivial
  have hread : ∀ key, (Chain.readPayment crates cfg key).Calls fun c => keepsBook c = true :=
    fun _ => ⟨rfl, fun _ _ => trivial⟩
  unfold Server.manualEvaluate
  refine (Prog.calls_lift hauthorize fun _ h => h).bind fun r => ?_
  rcases r with ⟨status, msg⟩ | u
  · trivial
  dsimp only
  split
  · trivial
  refine (Prog.calls_lift (hread _) fun _ h => h).bind fun r => ?_
  rcases r with e | _ | job
  · trivial
  · trivial
  · exact evaluateManually_aside hdb job

theorem entry_aside (hdb : cfg.databaseEnabled = false) {task : TaskId} {code : TaskCode Unit}
    (h : System.Entry crates cfg task code) (htask : task ≠ .worker) : Aside code := by
  have hfeed : ∀ {p : Async Unit}, p.Calls (·.isFeed = true) → Aside p.lift :=
    fun hp => Prog.calls_lift hp fun _ h => keepsBook_of_isFeed h
  cases h with
  | none => trivial
  | worker job => exact absurd rfl htask
  | monitor note =>
    have hlift : (Chain.monitorNotification crates cfg note).lift.Calls
        fun c => keepsBook c.base = true :=
      Prog.calls_lift (Chain.monitorNotification_calls note) fun _ h => keepsBook_of_isFeed h
    exact hlift.bind fun _ => trivial
  | backfill => exact hfeed Chain.backfillMissedDeliveries_calls
  | handler n headers paymentPubkey =>
    exact (manualEvaluate_aside hdb headers paymentPubkey).bind fun _ => trivial

def OthersAside (s : System) : Prop := ∀ task, task ≠ .worker → Aside (s.tasks task)

theorem othersAside_next (hdb : cfg.databaseEnabled = false) {s s' : System} {a : Act}
    (hs : OthersAside s) (h : s.next crates cfg a = some s') : OthersAside s' := by
  intro task htask
  cases System.next_move h with
  | @call t choose c k r w hcode hw =>
    show Aside (Function.update s.tasks t (k r) task)
    by_cases heq : task = t
    · subst heq
      rw [Function.update_self]
      have hcalls := hs task htask
      rw [hcode] at hcalls
      exact hcalls.2 r trivial
    · rw [Function.update_of_ne heq]
      exact hs task htask
  | @spawn a t code channel up hentry hexecuted =>
    show Aside (Function.update s.tasks t code task)
    by_cases heq : task = t
    · subst heq
      rw [Function.update_self]
      exact entry_aside hdb hentry htask
    · rw [Function.update_of_ne heq]
      exact hs task htask
  | execLate hq => exact hs task htask
  | land htx hnone => exact hs task htask
  | resolve hnone => exact hs task htask
  | crash => trivial

theorem book_next {s s' : System} {a : Act} (hs : OthersAside s)
    (h : s.next crates cfg a = some s') (hstep : ∀ choose, a ≠ .step .worker choose)
    (hcrash : a ≠ .crash) : book s'.world = book s.world := by
  cases System.next_move h with
  | @call t choose c k r w hcode hw =>
    have htask : t ≠ .worker := by
      rintro rfl
      exact hstep choose rfl
    have hcalls := hs t htask
    rw [hcode] at hcalls
    exact performTimed_book hw hcalls.1
  | spawn hentry hexecuted => rfl
  | execLate hq => rfl
  | land htx hnone => rfl
  | resolve hnone => rfl
  | crash => exact absurd rfl hcrash

end

/-! ## Stages of the worker's code for one job -/

inductive Stage
  | fresh
  /-- past it, with the attempt still to be counted -/
  | taken
  /-- in the run, or at the first note of how it ended -/
  | running (attemptCount : UInt32)
  /-- taken out of the set again after a failure -/
  | released
  /-- settled or dead-lettered, with the attempts still in the map -/
  | closing
  | done

namespace Stage

def after : Stage → (c : TCall) → TReply c → Stage
  | .fresh, .await (.processedInsert _), inserted => if inserted = true then .taken else .done
  | .taken, .await (.attemptsIncrement _), n => .running n
  | .running _, .await (.processedRemove _), _ => .released
  | .running _, .await _, _ => .closing
  | .released, _, _ => .done
  | .closing, _, _ => .done
  | st, _, _ => st

def Permits (cfg : OracleConfig) (uid : Bytes32) : Stage → TCall → Prop
  | .fresh, c => c = .await .setQueueDepth ∨ c = .await (.processedInsert uid)
  | .taken, c => c = .await (.attemptsIncrement uid)
  | .running n, c => (∃ c', c = .race c' ∧ c'.isPipeline = true) ∨
      (∃ approved, c = .await (.countSettled approved)) ∨
      (c = .await (.countError true) ∧ cfg.deadLetterMaxAttempts ≤ n) ∨
      (c = .await (.processedRemove uid) ∧ n < cfg.deadLetterMaxAttempts)
  | .released, c => c = .await (.countError false)
  | .closing, c => c = .await (.attemptsRemove uid)
  | .done, _ => False

def next (st : Stage) (c : TCall) (r : TReply c) (st' : Stage) : Prop := st' = st.after c r

end Stage

section
variable {crates : Crates} {cfg : OracleConfig} {job : EvaluationJob}

variable (cfg job) in
def Staged (st : Stage) (code : TaskCode Unit) : Prop :=
  code.Wp Stage.next (Stage.Permits cfg job.paymentUid) (fun _ st => st = .done) st

theorem timedPipeline_wp (n : UInt32) :
    (timedPipeline crates cfg job).Wp Stage.next (Stage.Permits cfg job.paymentUid)
      (fun _ st => st = .running n) (.running n) := by
  have hrun : (timedPipeline crates cfg job).Calls fun c => ∃ c', c = .race c' ∧
      c'.isPipeline = true :=
    Prog.calls_timeout Pipeline.runPipeline_calls fun c hc => ⟨c, rfl, hc⟩
  refine hrun.wp (I := fun st => st = Stage.running n) ?_ ?_ rfl
  · rintro st c rfl hc
    exact Or.inl hc
  · rintro st c r st' rfl ⟨c', rfl, -⟩ rfl
    rfl

theorem countFailure_wp (n : UInt32) :
    (countFailure job (decide (n ≥ cfg.deadLetterMaxAttempts))).Wp Stage.next
      (Stage.Permits cfg job.paymentUid) (fun _ st => st = .done) (.running n) := by
  unfold countFailure
  by_cases hlimit : cfg.deadLetterMaxAttempts ≤ n
  · rw [if_pos (decide_eq_true hlimit)]
    refine ⟨Or.inr (Or.inr (Or.inl ⟨rfl, hlimit⟩)), ?_⟩
    rintro _ st rfl
    refine ⟨rfl, ?_⟩
    rintro _ st rfl
    rfl
  · rw [if_neg (by simpa using hlimit)]
    refine ⟨Or.inr (Or.inr (Or.inr ⟨rfl, UInt32.not_le.mp hlimit⟩)), ?_⟩
    rintro _ st rfl
    refine ⟨rfl, ?_⟩
    rintro _ st rfl
    rfl

theorem finishFailed_wp (hdb : cfg.databaseEnabled = false) (n : UInt32) (msg : String) :
    (finishFailed crates cfg job n msg).Wp Stage.next (Stage.Permits cfg job.paymentUid)
      (fun _ st => st = .done) (.running n) := by
  have hrecord : recordFailure crates cfg job (decide (n ≥ cfg.deadLetterMaxAttempts)) msg =
      .ret () := by
    unfold recordFailure
    rw [if_neg (by simp [hdb])]
    rfl
  unfold finishFailed
  dsimp only
  rw [hrecord]
  refine (countFailure_wp n).bind ?_
  rintro _ st rfl
  rfl

theorem finish_wp (hdb : cfg.databaseEnabled = false) (n : UInt32) (result : RunResult) :
    (finish crates cfg job n result).Wp Stage.next (Stage.Permits cfg job.paymentUid)
      (fun _ st => st = .done) (.running n) := by
  rcases result with _ | e | outcome
  · exact finishFailed_wp hdb n _
  · exact finishFailed_wp hdb n _
  · have hrecord : finishSettled crates cfg job outcome = .ret () := by
      unfold finishSettled
      rw [if_neg (by simp [hdb])]
      rfl
    unfold finish
    dsimp only
    rw [hrecord]
    refine ⟨Or.inr (Or.inl ⟨_, rfl⟩), ?_⟩
    rintro _ st rfl
    refine ⟨rfl, ?_⟩
    rintro _ st rfl
    rfl

theorem evaluateJob_wp (hdb : cfg.databaseEnabled = false) :
    (evaluateJob crates cfg job (timedPipeline crates cfg job)).Wp Stage.next
      (Stage.Permits cfg job.paymentUid) (fun _ st => st = .done) .taken := by
  unfold evaluateJob recordIntake startAttempt
  rw [if_neg (by simp [hdb]), if_neg (by simp [hdb])]
  refine ⟨rfl, ?_⟩
  rintro n st rfl
  refine (timedPipeline_wp n).bind ?_
  rintro result st rfl
  exact finish_wp hdb n result

theorem workerBody_staged (hdb : cfg.databaseEnabled = false) :
    Staged cfg job .fresh (System.workerBody crates cfg job) := by
  have hjob : (handleJob crates cfg job (timedPipeline crates cfg job)).Wp Stage.next
      (Stage.Permits cfg job.paymentUid) (fun _ st => st = .done) .fresh := by
    unfold handleJob skipDuplicate
    rw [if_neg (by simp [hdb])]
    refine ⟨Or.inl rfl, ?_⟩
    rintro _ st rfl
    refine ⟨Or.inr rfl, ?_⟩
    rintro (_ | _) st rfl
    · rfl
    · exact evaluateJob_wp hdb
  refine hjob.bind ?_
  rintro _ st rfl
  rfl

theorem inRun_of_staged {st : Stage} {code : TaskCode Unit} (h : Staged cfg job st code)
    (hin : inRun code = true) : ∃ n, st = .running n := by
  unfold inRun at hin
  split at hin
  · next c k =>
    cases st with
    | running n => exact ⟨n, rfl⟩
    | fresh => rcases h.1 with h | h <;> cases h
    | taken => cases h.1
    | released => cases h.1
    | closing => cases h.1
    | done => exact h.1.elim
  · cases hin

end

section Outcomes
variable {ended : List (Bytes32 × Ending)} {uid uid' : Bytes32} {e : Ending}

def outcomes (ended : List (Bytes32 × Ending)) (uid : Bytes32) : List Ending :=
  (ended.filter fun p => p.1 = uid).map Prod.snd

def failures (ended : List (Bytes32 × Ending)) (uid : Bytes32) : Nat :=
  (outcomes ended uid).countP (· ≠ .settled)

def deadLettered (ended : List (Bytes32 × Ending)) : Finset Bytes32 :=
  ((ended.filter fun p => p.2 = .deadLetter).map Prod.fst).toFinset

theorem outcomes_snoc_self :
    outcomes (ended ++ [(uid, e)]) uid = outcomes ended uid ++ [e] := by
  simp [outcomes]

theorem outcomes_snoc_of_ne (h : uid' ≠ uid) :
    outcomes (ended ++ [(uid, e)]) uid' = outcomes ended uid' := by
  simp [outcomes, Ne.symm h]

theorem mem_outcomes : e ∈ outcomes ended uid ↔ (uid, e) ∈ ended := by
  simp [outcomes]

theorem mem_deadLettered : uid ∈ deadLettered ended ↔ .deadLetter ∈ outcomes ended uid := by
  simp [deadLettered, mem_outcomes]

theorem deadLettered_snoc (he : e ≠ .deadLetter) :
    deadLettered (ended ++ [(uid, e)]) = deadLettered ended := by
  simp [deadLettered, he]

theorem card_deadLettered_snoc (h : .deadLetter ∉ outcomes ended uid) :
    (deadLettered (ended ++ [(uid, .deadLetter)])).card = (deadLettered ended).card + 1 := by
  have hinsert : deadLettered (ended ++ [(uid, .deadLetter)]) =
      insert uid (deadLettered ended) := by
    ext uid'
    simp [deadLettered]
  rw [hinsert, Finset.card_insert_of_notMem (mem_deadLettered.not.mpr h)]

end Outcomes

/-! ## The book and the outcomes -/

def counted : Nat → Option UInt32
  | 0 => none
  | f + 1 => some (UInt32.ofNat (f + 1))

section
variable (cfg : OracleConfig) (t : RunLog) (uid : Bytes32)

/-- What the book holds of a payment while no job for it is being handled. -/
inductive AtRest : Prop
  | retried {f : Nat} (below : f < maxRuns cfg)
      (outcomes : outcomes t.ended uid = List.replicate f .failed)
      (processed : uid ∉ t.sys.world.processed) (attempts : t.sys.world.attempts uid = counted f)
      (runs : t.runs uid ≤ f)
  | closed {f : Nat} {e : Ending} (below : f < maxRuns cfg)
      (outcomes : outcomes t.ended uid = List.replicate f .failed ++ [e]) (closes : e ≠ .failed)
      (last : e = .deadLetter → f + 1 = maxRuns cfg) (processed : uid ∈ t.sys.world.processed)
      (attempts : t.sys.world.attempts uid = none) (runs : t.runs uid ≤ f + 1)

inductive Handled : Stage → Prop
  | fresh (h : AtRest cfg t uid) : Handled .fresh
  | taken {f : Nat} (below : f < maxRuns cfg)
      (outcomes : outcomes t.ended uid = List.replicate f .failed)
      (processed : uid ∈ t.sys.world.processed) (attempts : t.sys.world.attempts uid = counted f)
      (runs : t.runs uid ≤ f) : Handled .taken
  | running {f : Nat} {n : UInt32} (below : f < maxRuns cfg)
      (outcomes : outcomes t.ended uid = List.replicate f .failed)
      (processed : uid ∈ t.sys.world.processed) (attempts : t.sys.world.attempts uid = some n)
      (count : n.toNat = f + 1) (runs : t.runs uid ≤ f + 1) : Handled (.running n)
  | released {f : Nat} (below : f + 1 < maxRuns cfg)
      (outcomes : outcomes t.ended uid = List.replicate f .failed)
      (processed : uid ∉ t.sys.world.processed)
      (attempts : t.sys.world.attempts uid = counted (f + 1))
      (runs : t.runs uid ≤ f + 1) : Handled .released
  | closing {f : Nat} {e : Ending} (below : f < maxRuns cfg)
      (outcomes : outcomes t.ended uid = List.replicate f .failed ++ [e]) (closes : e ≠ .failed)
      (last : e = .deadLetter → f + 1 = maxRuns cfg) (processed : uid ∈ t.sys.world.processed)
      (runs : t.runs uid ≤ f + 1) : Handled .closing
  | done (h : AtRest cfg t uid) : Handled .done

def Total : Prop := t.sys.world.stats.totalDeadLetter = (deadLettered t.ended).card

structure Alike (t' : RunLog) : Prop where
  processed : uid ∈ t'.sys.world.processed ↔ uid ∈ t.sys.world.processed
  attempts : t'.sys.world.attempts uid = t.sys.world.attempts uid
  outcomes : outcomes t'.ended uid = outcomes t.ended uid
  runs : t'.runs uid = t.runs uid

end

section
variable {cfg : OracleConfig} {t t' : RunLog} {uid : Bytes32} {st : Stage}

theorem Alike.of_book (hbook : book t'.sys.world = book t.sys.world) (hended : t'.ended = t.ended)
    (hruns : t'.runs uid = t.runs uid) : Alike t uid t' where
  processed := by
    rw [show t'.sys.world.processed = t.sys.world.processed from congrArg Book.processed hbook]
  attempts := congrFun (congrArg Book.attempts hbook) uid
  outcomes := by rw [hended]
  runs := hruns

theorem AtRest.alike (h : AtRest cfg t uid) (ha : Alike t uid t') : AtRest cfg t' uid := by
  cases h with
  | retried below outcomes processed attempts runs =>
    exact .retried below (ha.outcomes.trans outcomes) (ha.processed.not.mpr processed)
      (ha.attempts.trans attempts) (ha.runs ▸ runs)
  | closed below outcomes closes last processed attempts runs =>
    exact .closed below (ha.outcomes.trans outcomes) closes last (ha.processed.mpr processed)
      (ha.attempts.trans attempts) (ha.runs ▸ runs)

theorem Handled.alike (h : Handled cfg t uid st) (ha : Alike t uid t') :
    Handled cfg t' uid st := by
  cases h with
  | fresh h => exact .fresh (h.alike ha)
  | taken below outcomes processed attempts runs =>
    exact .taken below (ha.outcomes.trans outcomes) (ha.processed.mpr processed)
      (ha.attempts.trans attempts) (ha.runs ▸ runs)
  | running below outcomes processed attempts count runs =>
    exact .running below (ha.outcomes.trans outcomes) (ha.processed.mpr processed)
      (ha.attempts.trans attempts) count (ha.runs ▸ runs)
  | released below outcomes processed attempts runs =>
    exact .released below (ha.outcomes.trans outcomes) (ha.processed.not.mpr processed)
      (ha.attempts.trans attempts) (ha.runs ▸ runs)
  | closing below outcomes closes last processed runs =>
    exact .closing below (ha.outcomes.trans outcomes) closes last (ha.processed.mpr processed)
      (ha.runs ▸ runs)
  | done h => exact .done (h.alike ha)

theorem AtRest.runs_bounded (h : AtRest cfg t uid) : t.runs uid ≤ maxRuns cfg := by
  cases h with
  | retried below outcomes processed attempts runs => omega
  | closed below outcomes closes last processed attempts runs => omega

theorem Handled.runs_bounded (h : Handled cfg t uid st) : t.runs uid ≤ maxRuns cfg := by
  cases h with
  | fresh h => exact h.runs_bounded
  | taken below outcomes processed attempts runs => omega
  | running below outcomes processed attempts count runs => omega
  | released below outcomes processed attempts runs => omega
  | closing below outcomes closes last processed runs => omega
  | done h => exact h.runs_bounded

theorem toNat_counted {f : Nat} (hf : f < maxRuns cfg) :
    ((counted f).getD 0 + 1).toNat = f + 1 := by
  have hmax : maxRuns cfg ≤ 2 ^ 32 - 1 :=
    max_le (by decide) (Nat.le_pred_of_lt cfg.deadLetterMaxAttempts.toNat_lt)
  cases f with
  | zero => rfl
  | succ f =>
    have hmod : (f + 1 + 1) % 2 ^ 32 = f + 1 + 1 := Nat.mod_eq_of_lt (by omega)
    simpa [counted] using hmod

theorem counted_of_toNat {f : Nat} {n : UInt32} (h : n.toNat = f + 1) :
    counted (f + 1) = some n := by
  rw [counted, ← h, UInt32.ofNat_toNat]

theorem last_of_reached {f : Nat} {n : UInt32} (hf : f < maxRuns cfg) (hn : n.toNat = f + 1)
    (hlimit : cfg.deadLetterMaxAttempts ≤ n) : f + 1 = maxRuns cfg := by
  have hle : cfg.deadLetterMaxAttempts.toNat ≤ f + 1 := hn ▸ UInt32.le_iff_toNat_le.mp hlimit
  have hmax : maxRuns cfg ≤ f + 1 := max_le (by omega) hle
  omega

theorem below_of_not_reached {f : Nat} {n : UInt32} (hn : n.toNat = f + 1)
    (hlimit : n < cfg.deadLetterMaxAttempts) : f + 1 < maxRuns cfg := by
  have hlt : f + 1 < cfg.deadLetterMaxAttempts.toNat := hn ▸ UInt32.lt_iff_toNat_lt.mp hlimit
  exact lt_of_lt_of_le hlt (Nat.le_max_right ..)

structure Called (t t' : RunLog) (uid : Bytes32) (st : Stage) (c : TCall) : Prop where
  book : book t'.sys.world = (book t.sys.world).afterTimed c
  ended : t'.ended = t.ended ++ ((ending c).map fun e => (uid, e)).toList
  runs : t'.runs uid = t.runs uid ∨ (st = .taken ∧ t'.runs uid = t.runs uid + 1)

namespace Called
variable {c : TCall}

theorem same_runs (h : Called t t' uid st c) (hst : st ≠ .taken) : t'.runs uid = t.runs uid :=
  h.runs.resolve_right fun h => hst h.1

theorem outcomes_self (h : Called t t' uid st c) :
    outcomes t'.ended uid = outcomes t.ended uid ++ (ending c).toList := by
  rw [h.ended]
  cases ending c with
  | none => simp
  | some e => exact outcomes_snoc_self

theorem same_outcomes (h : Called t t' uid st c) (hc : ending c = none) :
    outcomes t'.ended uid = outcomes t.ended uid := by
  rw [h.outcomes_self, hc]
  exact List.append_nil _

end Called

theorem handled_insert {r : Bool} (h : AtRest cfg t uid)
    (hc : Called t t' uid .fresh (.await (.processedInsert uid)))
    (hr : r = decide (uid ∉ t.sys.world.processed)) :
    Handled cfg t' uid (if r = true then .taken else .done) := by
  have hprocessed : t'.sys.world.processed = insert uid t.sys.world.processed :=
    congrArg Book.processed hc.book
  have hattempts : t'.sys.world.attempts uid = t.sys.world.attempts uid :=
    congrFun (congrArg Book.attempts hc.book) uid
  have hin : uid ∈ t'.sys.world.processed := hprocessed ▸ Finset.mem_insert_self ..
  have houtcomes := hc.same_outcomes rfl
  have hruns := hc.same_runs Stage.noConfusion
  cases h with
  | retried below outcomes processed attempts runs =>
    rw [if_pos (by rw [hr, decide_eq_true processed])]
    exact .taken below (houtcomes.trans outcomes) hin (hattempts.trans attempts) (hruns ▸ runs)
  | closed below outcomes closes last processed attempts runs =>
    rw [if_neg (by simp [hr, processed])]
    exact .done (.closed below (houtcomes.trans outcomes) closes last hin
      (hattempts.trans attempts) (hruns ▸ runs))

theorem handled_increment {r : UInt32} (h : Handled cfg t uid .taken)
    (hc : Called t t' uid .taken (.await (.attemptsIncrement uid)))
    (hr : r = (t.sys.world.attempts uid).getD 0 + 1) : Handled cfg t' uid (.running r) := by
  cases h with
  | @taken f below outcomes processed attempts runs =>
    have hprocessed : t'.sys.world.processed = t.sys.world.processed :=
      congrArg Book.processed hc.book
    have hattempts : t'.sys.world.attempts uid = some r := by
      rw [show t'.sys.world.attempts = _ from congrArg Book.attempts hc.book, hr]
      exact Function.update_self ..
    have hcount : r.toNat = f + 1 := by
      rw [hr, attempts]
      exact toNat_counted below
    have hruns : t'.runs uid ≤ f + 1 := by
      rcases hc.runs with h | ⟨-, h⟩
      · omega
      · omega
    exact .running below ((hc.same_outcomes rfl).trans outcomes) (hprocessed ▸ processed) hattempts
      hcount hruns

theorem handled_ended {n : UInt32} {c : Call} {e : Ending} (h : Handled cfg t uid (.running n))
    (hc : Called t t' uid (.running n) (.await c)) (he : ending (.await c) = some e)
    (hcloses : e ≠ .failed) (hlimit : e = .deadLetter → cfg.deadLetterMaxAttempts ≤ n)
    (hprocessed : t'.sys.world.processed = t.sys.world.processed) :
    Handled cfg t' uid .closing := by
  have houtcomes := hc.outcomes_self
  rw [he] at houtcomes
  have hruns := hc.same_runs Stage.noConfusion
  cases h with
  | running below outcomes processed attempts count runs =>
    rw [outcomes] at houtcomes
    exact .closing below houtcomes hcloses (fun he => last_of_reached below count (hlimit he))
      (hprocessed ▸ processed) (hruns ▸ runs)

theorem handled_release {n : UInt32} (h : Handled cfg t uid (.running n))
    (hc : Called t t' uid (.running n) (.await (.processedRemove uid)))
    (hlimit : n < cfg.deadLetterMaxAttempts) : Handled cfg t' uid .released := by
  have hprocessed : t'.sys.world.processed = t.sys.world.processed.erase uid :=
    congrArg Book.processed hc.book
  have hattempts : t'.sys.world.attempts uid = t.sys.world.attempts uid :=
    congrFun (congrArg Book.attempts hc.book) uid
  have hout : uid ∉ t'.sys.world.processed := by
    rw [hprocessed]
    exact Finset.notMem_erase uid t.sys.world.processed
  have houtcomes := hc.same_outcomes rfl
  have hruns := hc.same_runs Stage.noConfusion
  cases h with
  | running below outcomes processed attempts count runs =>
    have hcounted := hattempts.trans (attempts.trans (counted_of_toNat count).symm)
    exact .released (below_of_not_reached count hlimit) (houtcomes.trans outcomes) hout hcounted
      (hruns ▸ runs)

theorem handled_running {n : UInt32} {c : TCall} {r : TReply c} (h : Handled cfg t uid (.running n))
    (hp : (Stage.running n).Permits cfg uid c) (hc : Called t t' uid (.running n) c) :
    Handled cfg t' uid ((Stage.running n).after c r) := by
  rcases hp with ⟨c', rfl, -⟩ | ⟨approved, rfl⟩ | ⟨rfl, hlimit⟩ | ⟨rfl, hlimit⟩
  · have hended : t'.ended = t.ended := by simpa [ending] using hc.ended
    exact h.alike (.of_book hc.book hended (hc.same_runs Stage.noConfusion))
  · exact handled_ended h hc rfl Ending.noConfusion Ending.noConfusion
      (congrArg Book.processed hc.book)
  · exact handled_ended h hc rfl Ending.noConfusion (fun _ => hlimit)
      (congrArg Book.processed hc.book)
  · exact handled_release h hc hlimit

theorem handled_fail (h : Handled cfg t uid .released)
    (hc : Called t t' uid .released (.await (.countError false))) : Handled cfg t' uid .done := by
  have hprocessed : t'.sys.world.processed = t.sys.world.processed :=
    congrArg Book.processed hc.book
  have hattempts : t'.sys.world.attempts uid = t.sys.world.attempts uid :=
    congrFun (congrArg Book.attempts hc.book) uid
  have houtcomes := hc.outcomes_self
  have hruns := hc.same_runs Stage.noConfusion
  cases h with
  | @released f below outcomes processed attempts runs =>
    rw [outcomes] at houtcomes
    have hreplicate : List.replicate f Ending.failed ++ [.failed] =
        List.replicate (f + 1) .failed := List.replicate_succ'.symm
    exact .done (.retried below (houtcomes.trans hreplicate) (hprocessed ▸ processed)
      (hattempts.trans attempts) (hruns ▸ runs))

theorem handled_close (h : Handled cfg t uid .closing)
    (hc : Called t t' uid .closing (.await (.attemptsRemove uid))) :
    Handled cfg t' uid .done := by
  have hprocessed : t'.sys.world.processed = t.sys.world.processed :=
    congrArg Book.processed hc.book
  have hattempts : t'.sys.world.attempts uid = none := by
    rw [show t'.sys.world.attempts = _ from congrArg Book.attempts hc.book]
    exact Function.update_self ..
  have houtcomes := hc.same_outcomes rfl
  have hruns := hc.same_runs Stage.noConfusion
  cases h with
  | closing below outcomes closes last processed runs =>
    exact .done (.closed below (houtcomes.trans outcomes) closes last (hprocessed ▸ processed)
      hattempts (hruns ▸ runs))

theorem handled_call {c : TCall} {choice : Timed.Choice c} {r : TReply c} {w : World}
    (h : Handled cfg t uid st) (hp : st.Permits cfg uid c) (hc : Called t t' uid st c)
    (hw : t.sys.world.performTimed cfg c choice = some (r, w)) :
    Handled cfg t' uid (st.after c r) := by
  cases st with
  | fresh =>
    have hrest : AtRest cfg t uid := by
      cases h with
      | fresh h => exact h
    rcases hp with rfl | rfl
    · have hended : t'.ended = t.ended := by simpa [ending] using hc.ended
      exact .fresh (hrest.alike (.of_book hc.book hended (hc.same_runs Stage.noConfusion)))
    · obtain rfl := (Prod.mk.inj (Option.some.inj hw)).1
      exact handled_insert hrest hc rfl
  | taken =>
    obtain rfl := hp
    obtain rfl := (Prod.mk.inj (Option.some.inj hw)).1
    exact handled_increment h hc rfl
  | running n => exact handled_running h hp hc
  | released =>
    obtain rfl := hp
    exact handled_fail h hc
  | closing =>
    obtain rfl := hp
    exact handled_close h hc
  | done => exact hp.elim

theorem alike_call {c : TCall} {uid' : Bytes32} (hp : st.Permits cfg uid c)
    (hc : Called t t' uid st c) (hne : uid' ≠ uid) (hruns : t'.runs uid' = t.runs uid') :
    Alike t uid' t' := by
  have houtcomes : outcomes t'.ended uid' = outcomes t.ended uid' := by
    rw [hc.ended]
    cases ending c with
    | none => rw [Option.map_none, Option.toList_none, List.append_nil]
    | some e => exact outcomes_snoc_of_ne hne
  have hbook : (uid' ∈ (book t'.sys.world).processed ↔ uid' ∈ (book t.sys.world).processed) ∧
      (book t'.sys.world).attempts uid' = (book t.sys.world).attempts uid' := by
    rw [hc.book]
    cases st with
    | fresh => rcases hp with rfl | rfl <;> simp [Book.afterTimed, Book.after, hne]
    | taken =>
      obtain rfl := hp
      simp [Book.afterTimed, Book.after, hne]
    | running n =>
      rcases hp with ⟨c', rfl, -⟩ | ⟨approved, rfl⟩ | ⟨rfl, -⟩ | ⟨rfl, -⟩ <;>
        simp [Book.afterTimed, Book.after, hne]
    | released =>
      obtain rfl := hp
      simp [Book.afterTimed, Book.after]
    | closing =>
      obtain rfl := hp
      simp [Book.afterTimed, Book.after, hne]
    | done => exact hp.elim
  exact ⟨hbook.1, hbook.2, houtcomes, hruns⟩

theorem total_call {c : TCall} (ht : Total t) (h : Handled cfg t uid st)
    (hp : st.Permits cfg uid c) (hc : Called t t' uid st c) : Total t' := by
  have hother : ∀ {b : Book}, ending c ≠ some .deadLetter → book t'.sys.world = b →
      b.deadLetters = (book t.sys.world).deadLetters → Total t' := by
    intro b hending hbook hb
    have hsame : deadLettered t'.ended = deadLettered t.ended := by
      rw [hc.ended]
      cases hcase : ending c with
      | none => rw [Option.map_none, Option.toList_none, List.append_nil]
      | some e => exact deadLettered_snoc fun he => hending (by rw [hcase, he])
    rw [Total, hsame]
    exact (congrArg Book.deadLetters hbook).trans (hb.trans ht)
  cases st with
  | fresh => rcases hp with rfl | rfl <;> exact hother nofun hc.book rfl
  | taken =>
    obtain rfl := hp
    exact hother nofun hc.book rfl
  | running n =>
    rcases hp with ⟨c', rfl, -⟩ | ⟨approved, rfl⟩ | ⟨rfl, -⟩ | ⟨rfl, -⟩
    · exact hother nofun hc.book rfl
    · exact hother nofun hc.book rfl
    · have hfirst : Ending.deadLetter ∉ outcomes t.ended uid := by
        cases h with
        | running below outcomes processed attempts count runs =>
          rw [outcomes]
          simp
      rw [Total, show t'.sys.world.stats.totalDeadLetter = t.sys.world.stats.totalDeadLetter + 1
        from congrArg Book.deadLetters hc.book, ht, hc.ended]
      exact (card_deadLettered_snoc hfirst).symm
    · exact hother nofun hc.book rfl
  | released =>
    obtain rfl := hp
    exact hother nofun hc.book rfl
  | closing =>
    obtain rfl := hp
    exact hother nofun hc.book rfl
  | done => exact hp.elim

/-! ## What the book at rest says -/

theorem AtRest.processed_iff (h : AtRest cfg t uid) : uid ∈ t.sys.world.processed ↔
    ∃ e, (outcomes t.ended uid).getLast? = some e ∧ e ≠ .failed := by
  cases h with
  | @retried f below outcomes processed attempts runs =>
    have hlast : ∀ e, (MemoryWorker.outcomes t.ended uid).getLast? = some e → e = .failed := by
      intro e he
      rw [outcomes] at he
      exact List.eq_of_mem_replicate (List.mem_of_getLast? he)
    refine ⟨fun hin => absurd hin processed, ?_⟩
    rintro ⟨e, he, hfailed⟩
    exact absurd (hlast e he) hfailed
  | @closed f e below outcomes closes last processed attempts runs =>
    refine ⟨fun _ => ⟨e, ?_, closes⟩, fun _ => processed⟩
    rw [outcomes]
    exact List.getLast?_concat

theorem AtRest.attempts_iff (h : AtRest cfg t uid) (n : UInt32) :
    t.sys.world.attempts uid = some n ↔ uid ∉ t.sys.world.processed ∧
      failures t.ended uid = n.toNat ∧ 0 < n ∧ n < cfg.deadLetterMaxAttempts := by
  cases h with
  | @retried f below outcomes processed attempts runs =>
    have hfailures : failures t.ended uid = f := by
      rw [failures, outcomes, List.countP_replicate]
      rfl
    rw [attempts, hfailures]
    have hmax : maxRuns cfg ≤ 2 ^ 32 - 1 :=
      max_le (by decide) (Nat.le_pred_of_lt cfg.deadLetterMaxAttempts.toNat_lt)
    cases f with
    | zero =>
      refine ⟨fun h => (by cases h), ?_⟩
      rintro ⟨-, hzero, hpos, -⟩
      have hlt : 0 < n.toNat := UInt32.lt_iff_toNat_lt.mp hpos
      omega
    | succ f =>
      have hrange : f + 1 < UInt32.size := by
        rw [show UInt32.size = 2 ^ 32 from rfl]
        omega
      have htoNat : (UInt32.ofNat (f + 1)).toNat = f + 1 := UInt32.toNat_ofNat_of_lt' hrange
      have hlimit : f + 1 < cfg.deadLetterMaxAttempts.toNat := by
        rcases lt_max_iff.mp below with h | h
        · omega
        · exact h
      refine ⟨fun h => ?_, ?_⟩
      · obtain rfl := Option.some.inj h
        refine ⟨processed, htoNat.symm, ?_, ?_⟩
        · rw [UInt32.lt_iff_toNat_lt, htoNat]
          exact Nat.succ_pos f
        · rwa [UInt32.lt_iff_toNat_lt, htoNat]
      · rintro ⟨-, hn, -, -⟩
        exact counted_of_toNat hn.symm
  | closed below outcomes closes last processed attempts runs =>
    rw [attempts]
    refine ⟨fun h => (by cases h), ?_⟩
    rintro ⟨hout, -⟩
    exact absurd processed hout

end

/-! ## Runs of the process -/

section
variable {crates : Crates} {cfg : OracleConfig} {t t' : RunLog} {a : Act} {st : Stage}
  {uid : Bytes32}

def Alive (_ : RunLog) (a : Act) : Prop := a ≠ .crash

variable (cfg t st) in
structure Holds : Prop where
  code : ∀ job, t.hand = some job → Staged cfg job st (t.sys.tasks .worker)
  idle : t.hand = none → t.sys.tasks .worker = .ret ()
  aside : OthersAside t.sys
  handled : ∀ job, t.hand = some job → Handled cfg t job.paymentUid st
  rest : ∀ uid, (∀ job, t.hand = some job → uid ≠ job.paymentUid) → AtRest cfg t uid
  total : Total t

theorem holds_fresh (w : World) : Holds cfg (.fresh w) .done where
  code job h := by cases h
  idle _ := rfl
  aside _ _ := trivial
  handled job h := by cases h
  rest uid _ := .retried (f := 0) one_le_maxRuns rfl (Finset.notMem_empty uid) rfl (Nat.le_refl 0)
  total := rfl

theorem Holds.atRest (hs : Holds cfg t st) (hidle : t.sys.isIdle .worker = true) (uid : Bytes32) :
    AtRest cfg t uid := by
  by_cases hhand : ∃ job, t.hand = some job ∧ uid = job.paymentUid
  · obtain ⟨job, hjob, rfl⟩ := hhand
    have hstaged := hs.code job hjob
    have hhandled := hs.handled job hjob
    unfold System.isIdle at hidle
    split at hidle
    · next hret =>
      rw [hret] at hstaged
      obtain rfl : st = .done := hstaged
      cases hhandled with
      | done h => exact h
    · cases hidle
  · exact hs.rest uid fun job hjob huid => hhand ⟨job, hjob, huid⟩

theorem Holds.runs_bounded (hs : Holds cfg t st) (uid : Bytes32) : t.runs uid ≤ maxRuns cfg := by
  by_cases hhand : ∃ job, t.hand = some job ∧ uid = job.paymentUid
  · obtain ⟨job, hjob, rfl⟩ := hhand
    exact (hs.handled job hjob).runs_bounded
  · exact (hs.rest uid fun job hjob huid => hhand ⟨job, hjob, huid⟩).runs_bounded

theorem holds_other (hdb : cfg.databaseEnabled = false) (hs : Holds cfg t st)
    (h : t.next crates cfg a = some t') (hstep : ∀ choose, a ≠ .step .worker choose)
    (hcrash : a ≠ .crash) (hcode : t'.sys.tasks .worker = t.sys.tasks .worker)
    (hhand : t'.hand = t.hand) (hended : t'.ended = t.ended) : Holds cfg t' st := by
  have hsys := (RunLog.next_sys h).1
  have hbook := book_next hs.aside hsys hstep hcrash
  have hruns : t'.runs = t.runs := by
    rcases RunLog.runs_next h with hsame | ⟨job, -, hout, hin, -⟩
    · exact hsame
    · rw [hcode, hout] at hin
      cases hin
  have halike : ∀ uid, Alike t uid t' := fun uid => .of_book hbook hended (congrFun hruns uid)
  refine ⟨fun job hjob => ?_, fun hnone => ?_, othersAside_next hdb hs.aside hsys,
    fun job hjob => ?_, fun uid huid => ?_, ?_⟩
  · rw [hcode]
    exact hs.code job (hhand ▸ hjob)
  · rw [hcode]
    exact hs.idle (hhand ▸ hnone)
  · exact (hs.handled job (hhand ▸ hjob)).alike (halike _)
  · exact (hs.rest uid (hhand ▸ huid)).alike (halike uid)
  · rw [Total, hended]
    exact (congrArg Book.deadLetters hbook).trans hs.total

theorem holds_receive (hdb : cfg.databaseEnabled = false) (hs : Holds cfg t st)
    (h : t.next crates cfg .receive = some t') {job : EvaluationJob}
    (hidle : t.sys.isIdle .worker = true)
    (hcode : t'.sys.tasks .worker = System.workerBody crates cfg job)
    (hhand : t'.hand = some job) : Holds cfg t' .fresh := by
  obtain ⟨hsys, -, -, hended⟩ := RunLog.next_sys h
  have hbook := book_next hs.aside hsys nofun nofun
  have hstaged : Staged cfg job .fresh (t'.sys.tasks .worker) := by
    rw [hcode]
    exact workerBody_staged hdb
  have hruns : t'.runs = t.runs := by
    rcases RunLog.runs_next h with hsame | ⟨job, -, -, hin, -⟩
    · exact hsame
    · obtain ⟨n, hn⟩ := inRun_of_staged hstaged hin
      cases hn
  have hrest : ∀ uid, AtRest cfg t' uid := fun uid =>
    (hs.atRest hidle uid).alike (.of_book hbook hended (congrFun hruns uid))
  refine ⟨fun job' hjob' => ?_, fun hnone => ?_, othersAside_next hdb hs.aside hsys,
    fun job' hjob' => .fresh (hrest _), fun uid _ => hrest uid, ?_⟩
  · rw [hhand] at hjob'
    obtain rfl := Option.some.inj hjob'
    exact hstaged
  · rw [hhand] at hnone
    cases hnone
  · rw [Total, hended]
    exact (congrArg Book.deadLetters hbook).trans hs.total

theorem permitted_book {w w' : World} {c : TCall} {choice : Timed.Choice c} {r : TReply c}
    (hp : st.Permits cfg uid c) (hw : w.performTimed cfg c choice = some (r, w')) :
    book w' = (book w).afterTimed c := by
  cases c with
  | await c => exact perform_book hw
  | race c =>
    have hpipeline : c.isPipeline = true := by
      cases st with
      | running n =>
        rcases hp with ⟨c', hc, hpipeline⟩ | ⟨approved, hc⟩ | ⟨hc, -⟩ | ⟨hc, -⟩
        · rwa [Timed.race.inj hc]
        all_goals cases hc
      | fresh => rcases hp with hc | hc <;> cases hc
      | taken => cases hp
      | released => cases hp
      | closing => cases hp
      | done => exact hp.elim
    exact performTimed_book hw (keepsBook_of_isPipeline hpipeline)

theorem entered {c : TCall} {r : TReply c} {n : UInt32} (hp : st.Permits cfg uid c)
    (h : st.after c r = .running n) : st = .taken ∨ ∃ c', c = .race c' := by
  cases st with
  | taken => exact Or.inl rfl
  | running m =>
    rcases hp with ⟨c', rfl, -⟩ | ⟨approved, rfl⟩ | ⟨rfl, -⟩ | ⟨rfl, -⟩
    · exact Or.inr ⟨c', rfl⟩
    all_goals cases h
  | fresh =>
    rcases hp with rfl | rfl
    · cases h
    · cases r <;> cases h
  | released => cases h
  | closing => cases h
  | done => exact hp.elim

theorem called {choose : (c : TCall) → Timed.Choice c} (hs : Holds cfg t st)
    (h : t.next crates cfg (.step .worker choose) = some t') {c : TCall}
    {k : TReply c → TaskCode Unit} {r : TReply c} {job : EvaluationJob}
    (hcode : t.sys.tasks .worker = .call c k)
    (hw : t.sys.world.performTimed cfg c (choose c) = some (r, t'.sys.world))
    (hcode' : t'.sys.tasks .worker = k r) (hjob : t.hand = some job) :
    Called t t' job.paymentUid st c ∧ ∀ uid, uid ≠ job.paymentUid → t'.runs uid = t.runs uid := by
  have hstaged := hs.code job hjob
  rw [hcode] at hstaged
  have hnext : Staged cfg job (st.after c r) (t'.sys.tasks .worker) := by
    rw [hcode']
    exact hstaged.2 r _ rfl
  have hbook := permitted_book hstaged.1 hw
  have hended : t'.ended = t.ended ++ ((ending c).map fun e => (job.paymentUid, e)).toList := by
    rw [(RunLog.next_sys h).2.2.2, RunLog.endedAfter, hjob, hcode]
  rcases RunLog.runs_next h with hruns | ⟨job', hjob', hout, hin, hruns⟩
  · exact ⟨⟨hbook, hended, Or.inl (congrFun hruns _)⟩, fun uid _ => congrFun hruns uid⟩
  · rw [hjob] at hjob'
    obtain rfl := Option.some.inj hjob'
    obtain ⟨n, hn⟩ := inRun_of_staged hnext hin
    -- a run is entered from the count of its attempt only
    have htaken : st = .taken := by
      rcases entered hstaged.1 hn with htaken | ⟨c', rfl⟩
      · exact htaken
      · rw [hcode] at hout
        cases hout
    refine ⟨⟨hbook, hended, Or.inr ⟨htaken, ?_⟩⟩, fun uid huid => ?_⟩
    · rw [hruns, Function.update_self]
    · rw [hruns, Function.update_of_ne huid]

theorem holds_call (hdb : cfg.databaseEnabled = false) (hs : Holds cfg t st)
    {choose : (c : TCall) → Timed.Choice c}
    (h : t.next crates cfg (.step .worker choose) = some t') {c : TCall}
    {k : TReply c → TaskCode Unit} {r : TReply c} (hcode : t.sys.tasks .worker = .call c k)
    (hw : t.sys.world.performTimed cfg c (choose c) = some (r, t'.sys.world))
    (hcode' : t'.sys.tasks .worker = k r) (hhand' : t'.hand = t.hand) :
    Holds cfg t' (st.after c r) := by
  obtain ⟨job, hhand⟩ : ∃ job, t.hand = some job := by
    cases hhand : t.hand with
    | none =>
      have hidle := hs.idle hhand
      rw [hcode] at hidle
      cases hidle
    | some job => exact ⟨job, rfl⟩
  have hstaged := hs.code job hhand
  rw [hcode] at hstaged
  obtain ⟨hcalled, hruns⟩ := called hs h hcode hw hcode' hhand
  refine ⟨fun job' hjob' => ?_, fun hnone => ?_,
    othersAside_next hdb hs.aside (RunLog.next_sys h).1,
    fun job' hjob' => ?_, fun uid huid => ?_, ?_⟩
  · rw [hhand', hhand] at hjob'
    obtain rfl := Option.some.inj hjob'
    rw [hcode']
    exact hstaged.2 r _ rfl
  · rw [hhand', hhand] at hnone
    cases hnone
  · rw [hhand', hhand] at hjob'
    obtain rfl := Option.some.inj hjob'
    exact handled_call (hs.handled job hhand) hstaged.1 hcalled hw
  · rw [hhand'] at huid
    have hne := huid job hhand
    exact (hs.rest uid huid).alike (alike_call hstaged.1 hcalled hne (hruns uid hne))
  · exact total_call hs.total (hs.handled job hhand) hstaged.1 hcalled

variable (cfg t) in
def Exact : Prop := ∃ st, Holds cfg t st

theorem exact_next (hdb : cfg.databaseEnabled = false) (hs : Exact cfg t) (ha : Alive t a)
    (h : t.next crates cfg a = some t') : Exact cfg t' := by
  obtain ⟨st, hs⟩ := hs
  cases RunLog.next_turn h with
  | call hcode hw hcode' hhand => exact ⟨_, holds_call hdb hs h hcode hw hcode' hhand⟩
  | receive hidle hcode' hhand => exact ⟨_, holds_receive hdb hs h hidle hcode' hhand⟩
  | crash => exact absurd rfl ha
  | other hstep hcrash hcode' hhand hended =>
    exact ⟨st, holds_other hdb hs h hstep hcrash hcode' hhand hended⟩

theorem closed_next (hdb : cfg.databaseEnabled = false) (hs : Holds cfg t st)
    (h : t.next crates cfg a = some t') {e : Ending} (hended : (uid, e) ∈ t.ended)
    (he : e ≠ .failed) :
    (uid, e) ∈ t'.ended ∧ t'.runs uid = t.runs uid := by
  have hmore : (uid, e) ∈ t'.ended := by
    rw [(RunLog.next_sys h).2.2.2]
    unfold RunLog.endedAfter
    split
    · split
      · exact List.mem_append_left _ hended
      · exact hended
    · exact hended
  refine ⟨hmore, ?_⟩
  rcases RunLog.runs_next h with hruns | ⟨job, hjob, hout, hin, hruns⟩
  · rw [hruns]
  rw [hruns]
  apply Function.update_of_ne
  rintro rfl
  -- the worker takes up only what has failed so far
  have hretried : ∀ f, outcomes t.ended job.paymentUid ≠ List.replicate f .failed := by
    intro f hf
    rw [← mem_outcomes, hf] at hended
    exact he (List.eq_of_mem_replicate hended)
  cases RunLog.next_turn h with
  | call hcode hw hcode' hhand =>
    obtain ⟨hcalled, -⟩ := called hs h hcode hw hcode' hjob
    have hgrown : t'.runs job.paymentUid = t.runs job.paymentUid + 1 := by
      rw [hruns, Function.update_self]
    rcases hcalled.runs with hsame | ⟨rfl, -⟩
    · omega
    · cases hs.handled job hjob with
      | taken below outcomes processed attempts runs => exact hretried _ outcomes
  | @receive job' hidle hcode' hhand =>
    have hstaged : Staged cfg job' .fresh (t'.sys.tasks .worker) := by
      rw [hcode']
      exact workerBody_staged hdb
    obtain ⟨n, hn⟩ := inRun_of_staged hstaged hin
    cases hn
  | crash htasks hhand =>
    rw [htasks] at hin
    cases hin
  | other hstep hcrash hcode' hhand hended =>
    rw [hcode', hout] at hin
    cases hin

end

theorem exact_of_reach {crates : Crates} {cfg : OracleConfig} (hdb : cfg.databaseEnabled = false)
    {w : World} {t : RunLog} (ht : Reach (RunLog.next crates cfg) Alive (.fresh w) t) :
    Exact cfg t :=
  ht.invariant ⟨.done, holds_fresh w⟩ fun _ _ _ hs ha h => exact_next hdb hs ha h

theorem runs_closed {crates : Crates} {cfg : OracleConfig} (hdb : cfg.databaseEnabled = false)
    {t t' : RunLog} (hs : Exact cfg t) {uid : Bytes32} {e : Ending} (hended : (uid, e) ∈ t.ended)
    (he : e ≠ .failed) (ht : Reach (RunLog.next crates cfg) Alive t t') :
    t'.runs uid = t.runs uid := by
  have hstep : ∀ t₁ a t₂, (Exact cfg t₁ ∧ (uid, e) ∈ t₁.ended ∧ t₁.runs uid = t.runs uid) →
      Alive t₁ a → t₁.next crates cfg a = some t₂ →
      Exact cfg t₂ ∧ (uid, e) ∈ t₂.ended ∧ t₂.runs uid = t.runs uid := by
    rintro t₁ a t₂ ⟨⟨st, hs₁⟩, hended₁, hruns₁⟩ ha h
    obtain ⟨hended₂, hruns₂⟩ := closed_next hdb hs₁ h hended₁ he
    exact ⟨exact_next hdb ⟨st, hs₁⟩ ha h, hended₂, hruns₂.trans hruns₁⟩
  exact (ht.invariant ⟨hs, hended, rfl⟩ hstep).2.2

/-- Whatever jobs arrive and however their runs end, among whatever the other tasks do: the book of
an idle worker is decided by how the runs of each payment have ended. -/
theorem book_exact (crates : Crates) (cfg : OracleConfig) (hdb : cfg.databaseEnabled = false)
    (w : World) (t : RunLog) (ht : Reach (RunLog.next crates cfg) Alive (.fresh w) t) :
    (t.sys.isIdle .worker = true → ∀ uid,
      (uid ∈ t.sys.world.processed ↔
        ∃ e, (outcomes t.ended uid).getLast? = some e ∧ (e = .settled ∨ e = .deadLetter)) ∧
      ∀ n, t.sys.world.attempts uid = some n ↔ uid ∉ t.sys.world.processed ∧
        failures t.ended uid = n.toNat ∧ 0 < n ∧ n < cfg.deadLetterMaxAttempts) ∧
    (∀ uid e t', (uid, e) ∈ t.ended → e = .settled ∨ e = .deadLetter →
      Reach (RunLog.next crates cfg) Alive t t' → t'.runs uid = t.runs uid) ∧
    (∀ uid, t.runs uid ≤ max 1 cfg.deadLetterMaxAttempts.toNat) ∧
    t.sys.world.stats.totalDeadLetter = (deadLettered t.ended).card := by
  have hcloses : ∀ e : Ending, e ≠ .failed ↔ e = .settled ∨ e = .deadLetter := by
    rintro (_ | _ | _) <;> decide
  obtain ⟨st, hs⟩ := exact_of_reach hdb ht
  refine ⟨fun hidle uid => ⟨?_, (hs.atRest hidle uid).attempts_iff⟩, ?_, hs.runs_bounded, hs.total⟩
  · simpa only [hcloses] using (hs.atRest hidle uid).processed_iff
  · intro uid e t' hended he ht'
    exact runs_closed hdb ⟨st, hs⟩ hended ((hcloses e).mpr he) ht'

def isAlive (_ : RunLog) : Act → Bool
  | .crash => false
  | _ => true

theorem alive_of_isAlive (t : RunLog) (a : Act) (h : isAlive t a = true) : Alive t a := by
  rintro rfl
  cases h

def twiceCfg : OracleConfig :=
  { OracleConfig.toy with databaseEnabled := false, deadLetterMaxAttempts := 2 }

def runTwice (acts : List Act) (t : RunLog) : Option RunLog :=
  runChecked (RunLog.next .toy twiceCfg) isAlive acts t

def missedTwice : List Act :=
  .start :: delivered ++ missedSteps .worker 6 ++ delivered ++ missedSteps .worker 6

theorem book_exact_missedTwice : ∃ t t', runTwice missedTwice (.fresh .init) = some t ∧
    runTwice (delivered ++ missedSteps .worker 2) t = some t' ∧
    outcomes t.ended (byte32 1) = [.failed, .deadLetter] ∧
    byte32 1 ∈ t.sys.world.processed ∧ t.sys.world.attempts (byte32 1) ≠ some 2 ∧
    t'.runs (byte32 1) = t.runs (byte32 1) ∧ t.runs (byte32 1) ≤ max 1 2 ∧
    t.sys.world.stats.totalDeadLetter = (deadLettered t.ended).card := by
  have hsummary : (runTwice missedTwice (.fresh .init)).bind (fun t =>
      (runTwice (delivered ++ missedSteps .worker 2) t).map fun _ =>
        (t.sys.isIdle .worker, outcomes t.ended (byte32 1))) =
      some (true, [.failed, .deadLetter]) := by
    decide +kernel
  obtain ⟨t, hrun, hrest⟩ := Option.bind_eq_some_iff.mp hsummary
  obtain ⟨t', hrun', hvalue⟩ := Option.map_eq_some_iff.mp hrest
  obtain ⟨hidle, houtcomes⟩ := Prod.mk.inj hvalue
  have hreach : Reach (RunLog.next .toy twiceCfg) Alive (.fresh .init) t :=
    Reach.first.runChecked alive_of_isAlive hrun
  have hreach' : Reach (RunLog.next .toy twiceCfg) Alive t t' :=
    Reach.first.runChecked alive_of_isAlive hrun'
  obtain ⟨hbook, hclosed, hbound, htotal⟩ := book_exact .toy twiceCfg rfl .init t hreach
  obtain ⟨hprocessed, hattempts⟩ := hbook hidle (byte32 1)
  have hlast : (byte32 1, Ending.deadLetter) ∈ t.ended := by
    rw [← mem_outcomes, houtcomes]
    decide
  have hin : byte32 1 ∈ t.sys.world.processed :=
    hprocessed.mpr ⟨.deadLetter, by rw [houtcomes]; rfl, Or.inr rfl⟩
  refine ⟨t, t', hrun, hrun', houtcomes, hin, ?_, ?_, hbound (byte32 1), htotal⟩
  · exact fun h => ((hattempts 2).mp h).1 hin
  · exact hclosed (byte32 1) .deadLetter t' hlast (Or.inr rfl) hreach'

end OracleQa.MemoryWorker
