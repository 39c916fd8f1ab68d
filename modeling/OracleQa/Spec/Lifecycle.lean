import OracleQa.Spec.LedgerMode

/-! The life of a payment in the ledger: failed runs, and then perhaps one last run that settles it
or is its last attempt. -/

namespace OracleQa.Lifecycle
open Interaction Worker

inductive Ending
  | pending
  | settled
  | deadLetter
  deriving DecidableEq

def block (last : LifecycleEvent) : List LifecycleEvent := [.detected, .queued, .started, last]

def Ending.block : Ending → List LifecycleEvent
  | pending => []
  | settled => Lifecycle.block .settled
  | deadLetter => Lifecycle.block .deadLetter

def word (failures : Nat) (ending : Ending) : List LifecycleEvent :=
  (List.replicate failures (block .failed)).flatten ++ ending.block

/-- The row, its verdict and the events of a payment tell the same. -/
structure Consistent (l : Ledger) (uid : String) : Prop where
  status : (l.status uid).map (·.event) = (l.lifecycle uid).getLast?
  attempts : l.attemptCount uid = (l.lifecycle uid).count .started
  verdict : (l.verdicts uid).isSome ↔ (l.lifecycle uid).getLast? = some .settled

structure IsLife (m : Nat) (l : Ledger) (uid : String) (failures : Nat) (ending : Ending) :
    Prop where
  lifecycle : l.lifecycle uid = word failures ending
  failures_lt : failures < m
  deadLetter : ending = .deadLetter → failures = m - 1
  consistent : Consistent l uid

variable {l l' : Ledger} {uid : String} {m k : Nat} {ending : Ending}

theorem word_succ (k : Nat) : word (k + 1) .pending = word k .pending ++ block .failed := by
  simp [word, Ending.block, List.replicate_succ']

theorem word_pending_append (k : Nat) (ending : Ending) :
    word k .pending ++ ending.block = word k ending := by
  simp [word, Ending.block]

theorem getLast?_word_pending (k : Nat) :
    (word k .pending).getLast? = none ∨ (word k .pending).getLast? = some .failed := by
  cases k with
  | zero => exact Or.inl rfl
  | succ k =>
    rw [word_succ, List.getLast?_append]
    exact Or.inr rfl

theorem count_started_word_pending (k : Nat) : (word k .pending).count .started = k := by
  induction k with
  | zero => rfl
  | succ k ih =>
    rw [word_succ, List.count_append, ih]
    rfl

theorem event_eq_settled {status : JobStatus} : status.event = .settled ↔ status = .settled := by
  cases status <;> decide

/-! ## Steps -/

theorem Consistent.congr (h : Consistent l uid) (hjobs : l'.jobs uid = l.jobs uid)
    (hverdicts : l'.verdicts uid = l.verdicts uid) (hlife : l'.lifecycle uid = l.lifecycle uid) :
    Consistent l' uid where
  status := by rw [Ledger.status, hjobs, hlife]; exact h.status
  attempts := by rw [Ledger.attemptCount, hjobs, hlife]; exact h.attempts
  verdict := by rw [hverdicts, hlife]; exact h.verdict

theorem IsLife.congr (h : IsLife m l uid k ending) (hjobs : l'.jobs uid = l.jobs uid)
    (hverdicts : l'.verdicts uid = l.verdicts uid) (hlife : l'.lifecycle uid = l.lifecycle uid) :
    IsLife m l' uid k ending :=
  ⟨hlife.trans h.lifecycle, h.failures_lt, h.deadLetter, h.consistent.congr hjobs hverdicts hlife⟩

theorem isLife_empty (hm : 0 < m) (hlife : l.lifecycle uid = []) (hjobs : l.jobs uid = none)
    (hverdicts : l.verdicts uid = none) : IsLife m l uid 0 .pending where
  lifecycle := hlife
  failures_lt := hm
  deadLetter h := by cases h
  consistent :=
    ⟨by rw [Ledger.status, hjobs, hlife]; rfl, by rw [Ledger.attemptCount, hjobs, hlife]; rfl,
      by simp [hverdicts, hlife]⟩

theorem IsLife.attemptCount (h : IsLife m l uid k .pending) : l.attemptCount uid = k := by
  rw [h.consistent.attempts, h.lifecycle, count_started_word_pending]

theorem isTerminal_iff (h : Consistent l uid) : l.isTerminal uid = true ↔
    (l.lifecycle uid).getLast? = some .settled ∨ (l.lifecycle uid).getLast? = some .deadLetter := by
  have hstatus := h.status
  rw [Ledger.status] at hstatus
  rw [← hstatus, Ledger.isTerminal]
  cases l.jobs uid with
  | none => simp
  | some row => cases hrow : row.status <;> simp [hrow, JobStatus.event]

theorem IsLife.isTerminal (h : IsLife m l uid k ending) :
    l.isTerminal uid = decide (ending ≠ .pending) := by
  rw [Bool.eq_iff_iff, isTerminal_iff h.consistent, h.lifecycle, decide_eq_true_iff]
  cases ending with
  | pending =>
    rcases getLast?_word_pending k with hlast | hlast
    · simp [hlast]
    · simp [hlast]
  | settled => simp [word, Ending.block, block]
  | deadLetter => simp [word, Ending.block, block]

theorem Consistent.recorded {final : JobStatus} (h : Consistent l uid)
    (hopen : (l.lifecycle uid).getLast? ≠ some .settled)
    (hr : Recorded l l' uid [.detected, .queued, .running, final]) (hfinal : final ≠ .running) :
    Consistent l' uid where
  status := by simp [hr.status, hr.lifecycle]
  attempts := by
    rw [hr.attempts, hr.lifecycle, h.attempts, List.count_append]
    cases final with
    | running => exact absurd rfl hfinal
    | _ => rfl
  verdict := by
    have hnone : ¬ (l.verdicts uid).isSome := fun hsome => hopen (h.verdict.mp hsome)
    rw [hr.verdict, hr.lifecycle, List.getLast?_append]
    simp [hnone, event_eq_settled, @eq_comm _ JobStatus.settled]

/-! ## Jobs -/

variable {σ : Type} {env : Outside σ} {crates : Crates} {cfg : OracleConfig} {job : EvaluationJob}
  {w : World} {s : σ}

def maxAttempts (cfg : OracleConfig) : Nat := max 1 cfg.deadLetterMaxAttempts.toNat

theorem finalStatus_cases (result : RunResult) (max : UInt32) (hrange : k + 1 < 2 ^ 31) :
    finalStatus max (UInt32.ofNat (k + 1)) result = .settled ∨
      (finalStatus max (UInt32.ofNat (k + 1)) result = .deadLetter ∧ max.toNat ≤ k + 1) ∨
      (finalStatus max (UInt32.ofNat (k + 1)) result = .failed ∧ k + 1 < max.toNat) := by
  have hcount : (UInt32.ofNat (k + 1)).toNat = k + 1 :=
    UInt32.toNat_ofNat_of_lt (Nat.lt_trans hrange (by decide))
  have hle : max ≤ UInt32.ofNat (k + 1) ↔ max.toNat ≤ k + 1 := by
    rw [UInt32.le_iff_toNat_le, hcount]
  have hfailed : ((if UInt32.ofNat (k + 1) ≥ max then JobStatus.deadLetter else .failed) =
      .deadLetter ∧ max.toNat ≤ k + 1) ∨
      ((if UInt32.ofNat (k + 1) ≥ max then JobStatus.deadLetter else .failed) = .failed ∧
        k + 1 < max.toNat) := by
    by_cases h : max ≤ UInt32.ofNat (k + 1)
    · exact Or.inl ⟨if_pos h, hle.mp h⟩
    · exact Or.inr ⟨if_neg h, Nat.lt_of_not_le (mt hle.mpr h)⟩
  rcases result with _ | e | outcome
  · exact Or.inr hfailed
  · exact Or.inr hfailed
  · exact Or.inl rfl

theorem IsLife.recorded (h : IsLife (maxAttempts cfg) l uid k .pending) (result : RunResult)
    (hrange : k + 1 < 2 ^ 31)
    (hr : Recorded l l' uid [.detected, .queued, .running,
      finalStatus cfg.deadLetterMaxAttempts (UInt32.ofNat (k + 1)) result]) :
    ∃ k' ending, IsLife (maxAttempts cfg) l' uid k' ending := by
  have hopen : (l.lifecycle uid).getLast? ≠ some .settled := by
    rw [h.lifecycle]
    rcases getLast?_word_pending k with hlast | hlast <;> simp [hlast]
  have hlt := h.failures_lt
  have hlife := hr.lifecycle
  rw [h.lifecycle] at hlife
  rcases finalStatus_cases result cfg.deadLetterMaxAttempts hrange with
    hfinal | ⟨hfinal, hmax⟩ | ⟨hfinal, hmax⟩
  · rw [hfinal] at hr hlife
    refine ⟨k, .settled, hlife.trans (word_pending_append k .settled), hlt, fun h => ?_,
      h.consistent.recorded hopen hr (by decide)⟩
    cases h
  · rw [hfinal] at hr hlife
    refine ⟨k, .deadLetter, hlife.trans (word_pending_append k .deadLetter), hlt, fun _ => ?_,
      h.consistent.recorded hopen hr (by decide)⟩
    unfold maxAttempts at hlt ⊢
    omega
  · rw [hfinal] at hr hlife
    refine ⟨k + 1, .pending, hlife.trans (word_succ k).symm, ?_, fun h => ?_,
      h.consistent.recorded hopen hr (by decide)⟩
    · unfold maxAttempts
      omega
    · cases h

def Lives (cfg : OracleConfig) (l : Ledger) : Prop :=
  ∀ uid, ∃ k ending, IsLife (maxAttempts cfg) l uid k ending

/-- Lives go on from `l` to `l'`, and those that were over are as they were. -/
def Continues (cfg : OracleConfig) (l l' : Ledger) : Prop :=
  Lives cfg l' ∧ ∀ uid k ending, ending ≠ .pending → IsLife (maxAttempts cfg) l uid k ending →
    IsLife (maxAttempts cfg) l' uid k ending

theorem Continues.trans {l₁ l₂ l₃ : Ledger} (h₁ : Continues cfg l₁ l₂)
    (h₂ : Continues cfg l₂ l₃) : Continues cfg l₁ l₃ :=
  ⟨h₂.1, fun uid k ending hending h => h₂.2 uid k ending hending (h₁.2 uid k ending hending h)⟩

theorem continues_of_parameters (h : Lives cfg l) (hjobs : l'.jobs = l.jobs)
    (hverdicts : l'.verdicts = l.verdicts) (hevents : l'.events = l.events) :
    Continues cfg l l' := by
  have hcongr : ∀ uid k ending, IsLife (maxAttempts cfg) l uid k ending →
      IsLife (maxAttempts cfg) l' uid k ending := by
    intro uid k ending hlife
    refine hlife.congr (congrFun hjobs uid) (congrFun hverdicts uid) ?_
    rw [Ledger.lifecycle, hevents, Ledger.lifecycle]
  refine ⟨fun uid => ?_, fun uid k ending _ hlife => hcongr uid k ending hlife⟩
  obtain ⟨k, ending, hlife⟩ := h uid
  exact ⟨k, ending, hcongr uid k ending hlife⟩

theorem continues_handleNext (hdb : cfg.databaseEnabled = true) (hm : maxAttempts cfg < 2 ^ 31)
    (h : Lives cfg w.ledger) (run : PipelineRun) :
    Continues cfg w.ledger (handleNext env crates cfg job run (w, s)).2.1.ledger := by
  obtain ⟨k, ending, hlife⟩ := h (key job)
  by_cases hending : ending = .pending
  · subst hending
    have hlive : w.ledger.isTerminal (key job) = false := hlife.isTerminal
    have hrange : k + 1 < 2 ^ 31 := Nat.lt_of_le_of_lt hlife.failures_lt hm
    obtain ⟨w', hr, -, hrun⟩ := handleNext_live env crates hdb run w s hlive
      (hlife.attemptCount ▸ hrange) rfl
    rw [hlife.attemptCount] at hr
    have hothers : ∀ uid k ending, uid ≠ key job → IsLife (maxAttempts cfg) w.ledger uid k ending →
        IsLife (maxAttempts cfg) w'.ledger uid k ending := by
      intro uid k ending hne hlife'
      obtain ⟨hjobs, hverdicts, hlifecycle⟩ := hr.others uid hne
      exact hlife'.congr hjobs hverdicts hlifecycle
    rw [hrun]
    refine ⟨fun uid => ?_, fun uid k' ending' hending' hlife' => hothers uid k' ending' ?_ hlife'⟩
    · by_cases huid : uid = key job
      · subst huid
        exact hlife.recorded _ hrange hr
      · obtain ⟨k', ending', hlife'⟩ := h uid
        exact ⟨k', ending', hothers uid k' ending' huid hlife'⟩
    · rintro rfl
      have hterminal := hlife'.isTerminal
      rw [hlive, eq_comm, decide_eq_false_iff_not] at hterminal
      exact hterminal hending'
  · have hterminal : w.ledger.isTerminal (key job) = true := by
      rw [hlife.isTerminal, decide_eq_true_iff]
      exact hending
    rw [handleNext_terminal env crates hdb run w s hterminal]
    exact continues_of_parameters h rfl rfl rfl

/-! ## Runs -/

inductive Item
  | job (job : EvaluationJob) (run : PipelineRun)
  | restart
  /-- what the other tasks leave in the memory and in the parameters -/
  | others (memory : World)

def others (memory w : World) : World :=
  { memory with ledger := { w.ledger with parameters := memory.ledger.parameters } }

variable (env crates cfg) in
def runItems : List Item → World × σ → World × σ
  | [], p => p
  | .job job run :: items, p => runItems items (handleNext env crates cfg job run p).2
  | .restart :: items, (w, s) => runItems items (w.restart, s)
  | .others memory :: items, (w, s) => runItems items (others memory w, s)

theorem runItems_append (items₁ items₂ : List Item) (p : World × σ) :
    runItems env crates cfg (items₁ ++ items₂) p =
      runItems env crates cfg items₂ (runItems env crates cfg items₁ p) := by
  induction items₁ generalizing p with
  | nil => rfl
  | cons item items ih => cases item <;> exact ih _

theorem continues_runItems (hdb : cfg.databaseEnabled = true) (hm : maxAttempts cfg < 2 ^ 31)
    (items : List Item) (w : World) (s : σ) (h : Lives cfg w.ledger) :
    Continues cfg w.ledger (runItems env crates cfg items (w, s)).1.ledger := by
  induction items generalizing w s with
  | nil => exact ⟨h, fun _ _ _ _ hlife => hlife⟩
  | cons item items ih =>
    cases item with
    | job job run =>
      have hjob : Continues cfg w.ledger (handleNext env crates cfg job run (w, s)).2.1.ledger :=
        continues_handleNext hdb hm h run
      exact hjob.trans (ih _ _ hjob.1)
    | restart => exact ih w.restart s h
    | others memory =>
      have hothers : Continues cfg w.ledger (others memory w).ledger :=
        continues_of_parameters h rfl rfl rfl
      exact hothers.trans (ih _ _ hothers.1)

theorem lifecycle_word (env : Outside σ) (crates : Crates) (cfg : OracleConfig)
    (hdb : cfg.databaseEnabled = true) (hm : max 1 cfg.deadLetterMaxAttempts.toNat < 2 ^ 31)
    (items later : List Item) (s : σ) (uid : String) :
    let l := (runItems env crates cfg items (World.init, s)).1.ledger
    let l' := (runItems env crates cfg (items ++ later) (World.init, s)).1.ledger
    ∃ k ending, IsLife (max 1 cfg.deadLetterMaxAttempts.toNat) l uid k ending ∧
      (ending ≠ .pending → l'.lifecycle uid = l.lifecycle uid) := by
  intro l l'
  have hinit : Lives cfg World.init.ledger := fun uid =>
    ⟨0, .pending, isLife_empty (Nat.lt_of_lt_of_le Nat.one_pos (Nat.le_max_left ..)) rfl rfl rfl⟩
  have hl : Continues cfg World.init.ledger l := continues_runItems hdb hm items World.init s hinit
  have hl' : Continues cfg l l' := by
    have happend : l' = (runItems env crates cfg later
        (runItems env crates cfg items (World.init, s))).1.ledger :=
      congrArg (·.1.ledger) (runItems_append items later (World.init, s))
    rw [happend]
    exact continues_runItems hdb hm later _ _ hl.1
  obtain ⟨k, ending, hlife⟩ := hl.1 uid
  refine ⟨k, ending, hlife, fun hending => ?_⟩
  exact (hl'.2 uid k ending hending hlife).lifecycle.trans hlife.lifecycle.symm

def toyItems : List Item :=
  [.job .toy .missed, .restart, .job .toy (pipelineRun .toy .toy .toy)]

theorem lifecycle_word_toy :
    let l := (runItems Outside.toy .toy .toy toyItems (World.init, ())).1.ledger
    let l' := (runItems Outside.toy .toy .toy (toyItems ++ toyItems) (World.init, ())).1.ledger
    l.lifecycle (uidHex (byte32 1)) = word 1 .settled ∧
      ∃ k ending, IsLife 5 l (uidHex (byte32 1)) k ending ∧
        (ending ≠ .pending → l'.lifecycle (uidHex (byte32 1)) = l.lifecycle (uidHex (byte32 1))) :=
  ⟨by decide +kernel, lifecycle_word .toy .toy .toy rfl (by decide) toyItems toyItems () _⟩

end OracleQa.Lifecycle
