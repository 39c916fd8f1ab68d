import Mathlib.Algebra.Order.Group.Nat
import OracleQa.Model.Binding

/-! The job row as a fold of the calls of `upsert_job`. The statement is right: executed each time,
it leaves in each column a summary of the whole history. But the client refuses to bind one of its
parameters, so that no call is executed, and there is no row. -/

namespace OracleQa.UpsertFold
open Text

/-- A call of `upsert_job`, executed at server time `now`. -/
structure UpsertCall where
  now : Int
  job : EvaluationJob
  status : JobStatus
  lastError : Option String
  signature : Option String
  resolutionHash : Option String

def UpsertCall.args (crates : Crates) (c : UpsertCall) : JobUpsert :=
  Db.upsertArgs crates c.job c.status c.lastError c.signature c.resolutionHash

def UpsertCall.startedAt (c : UpsertCall) : Option Int :=
  if c.status = .running then some c.now else none

def UpsertCall.completedAt (c : UpsertCall) : Option Int :=
  if c.status.isCompletion then some c.now else none

def upsert (crates : Crates) (l : Ledger) (c : UpsertCall) : Except String Ledger :=
  (Stmt.exec c.now (.upsertJob (c.args crates)) l).map Prod.snd

section
variable {α β : Type}

def lastGiven (f : α → Option β) (xs : List α) : Option β := (xs.filterMap f).getLast?

theorem lastGiven_concat (f : α → Option β) (xs : List α) (x : α) :
    lastGiven f (xs ++ [x]) = (f x).or (lastGiven f xs) := by
  rw [lastGiven, List.filterMap_append, List.filterMap_cons]
  cases f x with
  | none =>
    show (xs.filterMap f ++ []).getLast? = lastGiven f xs
    rw [List.append_nil, lastGiven]
  | some b =>
    show (xs.filterMap f ++ [b]).getLast? = some b
    exact List.getLast?_concat

end

def history (crates : Crates) (calls : List UpsertCall) (last : UpsertCall) : JobRow where
  columns := Db.jobColumns crates last.job
  status := last.status
  attempts := (calls ++ [last]).countP (·.status = .running)
  startedAt := lastGiven UpsertCall.startedAt (calls ++ [last])
  completedAt := lastGiven UpsertCall.completedAt (calls ++ [last])
  lastError := lastGiven UpsertCall.lastError (calls ++ [last])
  settlementSignature := lastGiven UpsertCall.signature (calls ++ [last])
  resolutionHash := lastGiven UpsertCall.resolutionHash (calls ++ [last])
  updatedAt := last.now

/-! ## One call -/

structure Blank (row : JobRow) : Prop where
  attempts : row.attempts = 0
  startedAt : row.startedAt = none
  completedAt : row.completedAt = none
  lastError : row.lastError = none
  settlementSignature : row.settlementSignature = none
  resolutionHash : row.resolutionHash = none

structure Keeps (row row' : JobRow) : Prop where
  attempts : row.attempts ≤ row'.attempts
  signature : row.settlementSignature.isSome → row'.settlementSignature.isSome
  hash : row.resolutionHash.isSome → row'.resolutionHash.isSome

variable {crates : Crates} {l l' : Ledger} {key : String} {row : JobRow}

theorem insertRow_eq_updateRow (u : JobUpsert) (now : Int) (h : Blank row) :
    u.insertRow now = u.updateRow now row := by
  rw [JobUpsert.insertRow, JobUpsert.updateRow, h.attempts, h.startedAt, h.completedAt,
    h.lastError, h.settlementSignature, h.resolutionHash]
  simp

theorem Keeps.refl (row : JobRow) : Keeps row row := ⟨le_rfl, id, id⟩

theorem keeps_updateRow (u : JobUpsert) (now : Int) (row : JobRow) :
    Keeps row (u.updateRow now row) where
  attempts := Nat.le_add_right _ _
  signature h := by
    show (u.signature.or row.settlementSignature).isSome
    rw [Option.isSome_or, h, Bool.or_true]
  hash h := by
    show (u.resolutionHash.or row.resolutionHash).isSome
    rw [Option.isSome_or, h, Bool.or_true]

theorem Keeps.trans {row' row'' : JobRow} (h : Keeps row row') (h' : Keeps row' row'') :
    Keeps row row'' :=
  ⟨h.attempts.trans h'.attempts, h'.signature ∘ h.signature, h'.hash ∘ h.hash⟩

theorem keeps_after (now : Int) (q : Stmt) (hrow : l.jobs key = some row) :
    ∃ row', (l.after (some (now, q))).jobs key = some row' ∧ Keeps row row' := by
  by_cases hu : ∃ u, q = .upsertJob u
  · obtain ⟨u, rfl⟩ := hu
    rcases l.after_upsertJob now u with heq | heq
    · rw [heq]
      exact ⟨row, hrow, .refl row⟩
    · rw [heq]
      by_cases hkey : key = u.paymentUid
      · subst hkey
        have hput : (l.putJob u.paymentUid (u.row now (l.jobs u.paymentUid))).jobs u.paymentUid =
            some (u.updateRow now row) := by
          rw [hrow]
          exact Function.update_self _ _ _
        exact ⟨_, hput, keeps_updateRow u now row⟩
      · have hput : (l.putJob u.paymentUid (u.row now (l.jobs u.paymentUid))).jobs key =
            l.jobs key := Function.update_of_ne hkey _ _
        exact ⟨row, hput.trans hrow, .refl row⟩
  · rw [l.after_jobs now fun u hq => hu ⟨u, hq⟩]
    exact ⟨row, hrow, .refl row⟩

theorem keeps_foldl (qs : List (Int × Stmt)) (hrow : l.jobs key = some row) :
    ∃ row', (qs.foldl (fun l q => l.after (some q)) l).jobs key = some row' ∧ Keeps row row' := by
  induction qs generalizing l row with
  | nil => exact ⟨row, hrow, .refl row⟩
  | cons q qs ih =>
    obtain ⟨row₁, hrow₁, hkeeps⟩ := keeps_after q.1 q.2 hrow
    obtain ⟨row₂, hrow₂, hrest⟩ := ih hrow₁
    exact ⟨row₂, hrow₂, hkeeps.trans hrest⟩

/-! ## The whole history -/

/-- The columns in which calls add up tell of all the calls. -/
structure Summarizes (calls : List UpsertCall) (row : JobRow) : Prop where
  attempts : row.attempts = calls.countP (·.status = .running)
  startedAt : row.startedAt = lastGiven UpsertCall.startedAt calls
  completedAt : row.completedAt = lastGiven UpsertCall.completedAt calls
  lastError : row.lastError = lastGiven UpsertCall.lastError calls
  settlementSignature : row.settlementSignature = lastGiven UpsertCall.signature calls
  resolutionHash : row.resolutionHash = lastGiven UpsertCall.resolutionHash calls

theorem summarizes_history (calls : List UpsertCall) (last : UpsertCall) :
    Summarizes (calls ++ [last]) (history crates calls last) := ⟨rfl, rfl, rfl, rfl, rfl, rfl⟩

theorem updateRow_eq_history {calls : List UpsertCall} (h : Summarizes calls row)
    (c : UpsertCall) : (c.args crates).updateRow c.now row = history crates calls c := by
  have hstarted : (if c.status = .running then some c.now else row.startedAt) =
      c.startedAt.or row.startedAt := by
    unfold UpsertCall.startedAt
    split <;> rfl
  have hcompleted : (if c.status.isCompletion then some c.now else row.completedAt) =
      c.completedAt.or row.completedAt := by
    unfold UpsertCall.completedAt
    split <;> rfl
  have hattempts : row.attempts + (if c.status = .running then 1 else 0) =
      (calls ++ [c]).countP (·.status = .running) := by
    rw [List.countP_append, h.attempts, List.countP_singleton]
    simp only [decide_eq_true_eq]
  rw [history, lastGiven_concat, lastGiven_concat, lastGiven_concat, lastGiven_concat,
    lastGiven_concat, ← h.startedAt, ← h.completedAt, ← h.lastError, ← h.settlementSignature,
    ← h.resolutionHash, ← hstarted, ← hcompleted, ← hattempts]
  rfl

theorem insertRow_eq_history (c : UpsertCall) :
    (c.args crates).insertRow c.now = history crates [] c := by
  -- an insert is the update of a blank row
  let row : JobRow :=
    ⟨Db.jobColumns crates c.job, .detected, 0, none, none, none, none, none, c.now⟩
  have hblank : Blank row := ⟨rfl, rfl, rfl, rfl, rfl, rfl⟩
  have hsummarizes : Summarizes [] row := ⟨rfl, rfl, rfl, rfl, rfl, rfl⟩
  rw [insertRow_eq_updateRow _ _ hblank, updateRow_eq_history hsummarizes]

theorem upsert_eq_history {uid : Bytes32} {calls : List UpsertCall} {c : UpsertCall}
    (huid : c.job.paymentUid = uid) (hcount : (calls ++ [c]).length < 2 ^ 31)
    (hrow : (c.args crates).row c.now (l.jobs (uidHex uid)) = history crates calls c) :
    ∃ l', upsert crates l c = .ok l' ∧
      l'.jobs (uidHex uid) = some (history crates calls c) := by
  subst huid
  have hattempts : (history crates calls c).attempts < 2 ^ 31 :=
    lt_of_le_of_lt List.countP_le_length hcount
  have hexec : l.upsertJob c.now (c.args crates) =
      .ok (l.putJob (uidHex c.job.paymentUid) (history crates calls c)) := by
    rw [← hrow] at hattempts ⊢
    exact if_pos hattempts
  refine ⟨l.putJob (uidHex c.job.paymentUid) (history crates calls c), ?_,
    Function.update_self _ _ _⟩
  rw [upsert, Stmt.exec, hexec]
  rfl

theorem upserts_eq_history {uid : Bytes32} (hnew : l.jobs (uidHex uid) = none)
    {calls : List UpsertCall} {last : UpsertCall}
    (hsame : ∀ c ∈ calls ++ [last], c.job.paymentUid = uid)
    (hcount : (calls ++ [last]).length < 2 ^ 31) :
    ∃ l', (calls ++ [last]).foldlM (upsert crates) l = .ok l' ∧
      l'.jobs (uidHex uid) = some (history crates calls last) := by
  have hlast : last.job.paymentUid = uid :=
    hsame last (List.mem_append_right _ List.mem_cons_self)
  -- from the last call backwards: the row it finds tells of all the others
  induction calls using List.reverseRecOn generalizing last with
  | nil =>
    have hrow : (last.args crates).row last.now (l.jobs (uidHex uid)) =
        history crates [] last := by
      rw [hnew]
      exact insertRow_eq_history last
    obtain ⟨l', hupsert, hjobs⟩ := upsert_eq_history hlast hcount hrow
    refine ⟨l', ?_, hjobs⟩
    show upsert crates l last >>= pure = _
    rw [hupsert]
    rfl
  | append_singleton calls c ih =>
    have hbefore : ∀ c' ∈ calls ++ [c], c'.job.paymentUid = uid :=
      fun c' hc' => hsame c' (List.mem_append_left _ hc')
    have hshort : (calls ++ [c]).length < 2 ^ 31 := by
      rw [List.length_append] at hcount
      exact Nat.lt_of_le_of_lt (Nat.le_add_right _ _) hcount
    obtain ⟨l₁, hrun, hjobs₁⟩ := ih hbefore hshort (hbefore c (by simp))
    have hrow : (last.args crates).row last.now (l₁.jobs (uidHex uid)) =
        history crates (calls ++ [c]) last := by
      rw [hjobs₁]
      exact updateRow_eq_history (summarizes_history calls c) last
    obtain ⟨l', hupsert, hjobs⟩ := upsert_eq_history hlast hcount hrow
    refine ⟨l', ?_, hjobs⟩
    rw [List.foldlM_append, hrun]
    show upsert crates l₁ last >>= pure = _
    rw [hupsert]
    rfl

/-- Executed each time, the statement leaves the summary of the calls in the row; its two branches
agree; and no statement takes back what a row records. -/
theorem upsertJob_fold (crates : Crates) {uid : Bytes32} {l : Ledger}
    (hnew : l.jobs (uidHex uid) = none) {calls : List UpsertCall} {last : UpsertCall}
    (hsame : ∀ c ∈ calls ++ [last], c.job.paymentUid = uid)
    (hcount : (calls ++ [last]).length < 2 ^ 31) :
    (∃ l', (calls ++ [last]).foldlM (upsert crates) l = .ok l' ∧
        l'.jobs (uidHex uid) = some (history crates calls last)) ∧
      (∀ (u : JobUpsert) (now : Int) {row : JobRow}, Blank row →
        u.insertRow now = u.updateRow now row) ∧
      ∀ (qs : List (Int × Stmt)) {l : Ledger} {key : String} {row : JobRow},
        l.jobs key = some row → ∃ row',
          (qs.foldl (fun l q => l.after (some q)) l).jobs key = some row' ∧ Keeps row row' :=
  ⟨upserts_eq_history hnew hsame hcount, fun u now _ h => insertRow_eq_updateRow u now h,
    fun qs _ _ _ h => keeps_foldl qs h⟩

/-! ## The calls of the client -/

/-- A call, and what becomes of its statement. -/
abbrev Attempt := UpsertCall × SqlChoice

def attempt (crates : Crates) (w : World) (c : Attempt) : World :=
  (w.performSql (.upsertJob (c.1.args crates)) c.2).2

/-- What the client can bring about. -/
def Attempt.Possible (crates : Crates) (c : Attempt) : Prop :=
  (Stmt.upsertJob (c.1.args crates)).Admits c.2

/-- The row that the calls leave is the summary of their history. -/
def Folds (crates : Crates) (w : World) (uid : Bytes32) (calls : List Attempt) (last : Attempt) :
    Prop :=
  ((calls ++ [last]).foldl (attempt crates) w).ledger.jobs (uidHex uid) =
    some (history crates (calls.map Prod.fst) last.1)

def UpsertCall.executed (c : UpsertCall) : Attempt := (c, .done c.now)

section
variable {w : World} {uid : Bytes32} {calls : List Attempt} {last : Attempt}

theorem attempt_executed {c : UpsertCall} (h : upsert crates w.ledger c = .ok l') :
    (attempt crates w c.executed).ledger = l' := by
  have hexec : w.ledger.upsertJob c.now (c.args crates) = .ok l' := by
    unfold upsert at h
    rw [Stmt.exec] at h
    cases hu : w.ledger.upsertJob c.now (c.args crates) with
    | error e =>
      rw [hu] at h
      cases h
    | ok l =>
      rw [hu] at h
      exact h
  rw [attempt, UpsertCall.executed, World.performSql, World.execStmt_snd]
  simp only [Ledger.after, Stmt.exec, hexec, Except.map]

theorem foldl_executed {calls : List UpsertCall}
    (h : calls.foldlM (upsert crates) w.ledger = .ok l') :
    ((calls.map UpsertCall.executed).foldl (attempt crates) w).ledger = l' := by
  induction calls generalizing w with
  | nil => exact Except.ok.inj h
  | cons c calls ih =>
    rw [List.foldlM_cons] at h
    cases hc : upsert crates w.ledger c with
    | error e =>
      rw [hc] at h
      cases h
    | ok l =>
      rw [hc, ← attempt_executed hc] at h
      exact ih h

/-- Had the server executed every call, the row would be the summary of them. -/
theorem folds_of_executed {calls : List UpsertCall} {last : UpsertCall}
    (hnew : w.ledger.jobs (uidHex uid) = none)
    (hsame : ∀ c ∈ calls ++ [last], c.job.paymentUid = uid)
    (hcount : (calls ++ [last]).length < 2 ^ 31) :
    Folds crates w uid (calls.map UpsertCall.executed) last.executed := by
  obtain ⟨⟨l', hrun, hrow⟩, -⟩ := upsertJob_fold crates hnew hsame hcount
  have hfst : (calls.map UpsertCall.executed).map Prod.fst = calls := by
    rw [List.map_map]
    exact List.map_id calls
  have hledger := foldl_executed hrun
  rw [List.map_append, List.map_singleton] at hledger
  rw [Folds, hfst, hledger]
  exact hrow

theorem attempt_possible {c : Attempt} (h : c.Possible crates) : attempt crates w c = w := by
  obtain ⟨e, he⟩ := Stmt.upsertJob_refused h
  rw [attempt, he]
  rfl

theorem foldl_possible (h : ∀ c ∈ calls, c.Possible crates) :
    calls.foldl (attempt crates) w = w := by
  induction calls with
  | nil => rfl
  | cons c calls ih =>
    obtain ⟨hc, hrest⟩ := List.forall_mem_cons.mp h
    rw [List.foldl_cons, attempt_possible hc]
    exact ih hrest

end

/-- Whatever calls the client makes, they leave no row. -/
theorem upsertJob_never_folds (crates : Crates) (w : World) (uid : Bytes32) (calls : List Attempt)
    (last : Attempt) (hnew : w.ledger.jobs (uidHex uid) = none)
    (hpossible : ∀ c ∈ calls ++ [last], c.Possible crates) : ¬ Folds crates w uid calls last := by
  intro hfolds
  rw [Folds, foldl_possible hpossible, hnew] at hfolds
  cases hfolds

def threeCalls : List UpsertCall :=
  [⟨10, .toy, .running, none, none, none⟩, ⟨20, .toy, .failed, some "timeout", none, none⟩,
    ⟨30, .toy, .running, none, none, none⟩]

def settledCall : UpsertCall := ⟨40, .toy, .settled, none, some "sig", some "00"⟩

def UpsertCall.refused (c : UpsertCall) : Attempt :=
  (c, .refused (.query "error serializing parameter 7"))

theorem refused_possible {c : Attempt}
    (h : c ∈ threeCalls.map UpsertCall.refused ++ [settledCall.refused]) : c.Possible .toy := by
  rw [← List.map_singleton, ← List.map_append] at h
  obtain ⟨c', -, rfl⟩ := List.mem_map.mp h
  exact Or.inl ⟨_, rfl⟩

theorem upsertJob_never_folds_settled :
    ¬ Folds .toy .init (byte32 1) (threeCalls.map UpsertCall.refused) settledCall.refused :=
  upsertJob_never_folds .toy .init (byte32 1) _ _ rfl fun _ h => refused_possible h

theorem upsertJob_unrecorded : ¬ ∀ (crates : Crates) (w : World) (uid : Bytes32)
    (calls : List Attempt) (last : Attempt), w.ledger.jobs (uidHex uid) = none →
    (∀ c ∈ calls ++ [last], c.Possible crates) →
    (∀ c ∈ calls ++ [last], c.1.job.paymentUid = uid) → (calls ++ [last]).length < 2 ^ 31 →
    Folds crates w uid calls last := by
  intro hall
  have hsame : ∀ c ∈ threeCalls.map UpsertCall.refused ++ [settledCall.refused],
      c.1.job.paymentUid = byte32 1 := by
    simp only [threeCalls, settledCall, UpsertCall.refused]
    decide
  have hrow := hall .toy .init (byte32 1) (threeCalls.map UpsertCall.refused)
    settledCall.refused rfl
    (fun _ h => refused_possible h) hsame (by decide)
  cases hrow

end OracleQa.UpsertFold
