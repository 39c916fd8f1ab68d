import OracleQa.Interaction.Shards
import OracleQa.Spec.Integrity

/-! Payments do not disturb one another. What the ledger holds of a payment is what the statements
about it have made of it, whatever any process has done for other payments in between. -/

namespace OracleQa.Isolation
open Interaction

deriving instance DecidableEq for Stmt

def written : Stmt → Option String
  | .upsertJob u => some u.paymentUid
  | .upsertVerdict v => some v.paymentUid
  | .insertEvent e => some e.paymentUid
  | _ => none

/-- The rows of one payment. -/
def part (uid : String) (l : Ledger) : Ledger where
  jobs key := if key = uid then l.jobs key else none
  verdicts key := if key = uid then l.verdicts key else none
  events := l.events.filter fun e => e.paymentUid = uid
  parameters _ := none

def apply (l : Ledger) (p : Int × Stmt) : Ledger := l.after (some p)

variable {uid : String} {l : Ledger}

/-! ## Statements -/

theorem part_jobs (uid : String) (l : Ledger) : (part uid l).jobs uid = l.jobs uid := if_pos rfl

theorem part_verdicts (uid : String) (l : Ledger) :
    (part uid l).verdicts uid = l.verdicts uid := if_pos rfl

theorem update_here {V : Type} (f : String → Option V) (uid : String) (v : Option V) :
    (fun key => if key = uid then Function.update f uid v key else none) =
      Function.update (fun key => if key = uid then f key else none) uid v := by
  funext key
  by_cases hkey : key = uid
  · subst hkey
    rw [if_pos rfl, Function.update_self, Function.update_self]
  · rw [if_neg hkey, Function.update_of_ne hkey, if_neg hkey]

theorem update_elsewhere {V : Type} (f : String → Option V) {uid other : String}
    (hne : other ≠ uid) (v : Option V) :
    (fun key => if key = uid then Function.update f other v key else none) =
      fun key => if key = uid then f key else none := by
  funext key
  by_cases hkey : key = uid
  · rw [if_pos hkey, if_pos hkey, Function.update_of_ne (hkey ▸ hne.symm)]
  · rw [if_neg hkey, if_neg hkey]

theorem putJob_here (row : JobRow) :
    part uid (l.putJob uid row) = (part uid l).putJob uid row := by
  simp only [part, Ledger.putJob, update_here]

theorem part_own (now : Int) {q : Stmt} (hq : written q = some uid) :
    part uid (apply l (now, q)) = apply (part uid l) (now, q) := by
  cases q with
  | upsertJob u =>
    obtain rfl := Option.some.inj hq
    simp only [apply, Ledger.after, Stmt.exec, Ledger.upsertJob, part_jobs]
    by_cases hroom : (u.row now (l.jobs u.paymentUid)).attempts < 2 ^ 31
    · simp only [if_pos hroom, Except.map]
      exact putJob_here _
    · simp only [if_neg hroom, Except.map]
  | upsertVerdict v =>
    obtain rfl := Option.some.inj hq
    simp only [apply, Ledger.after, Stmt.exec, Ledger.upsertVerdict, part_jobs, part_verdicts]
    split
    · simp only [part, update_here]
    · rfl
  | insertEvent e =>
    obtain rfl := Option.some.inj hq
    simp only [apply, Ledger.after, Stmt.exec, Ledger.insertEvent, part_jobs]
    split
    · simp [part]
    · rfl
  | _ => cases hq

theorem part_other (now : Int) {q : Stmt} (hq : written q ≠ some uid) :
    part uid (apply l (now, q)) = part uid l := by
  cases q with
  | upsertJob u =>
    have hne : u.paymentUid ≠ uid := fun h => hq (congrArg some h)
    rcases Ledger.after_upsertJob l now u with h | h
    · rw [apply, h]
    · rw [apply, h]
      simp only [part, Ledger.putJob, update_elsewhere _ hne]
  | upsertVerdict v =>
    have hne : v.paymentUid ≠ uid := fun h => hq (congrArg some h)
    simp only [apply, Ledger.after, Stmt.exec, Ledger.upsertVerdict]
    split
    · simp only [part, update_elsewhere _ hne]
    · rfl
  | insertEvent e =>
    have hne : e.paymentUid ≠ uid := fun h => hq (congrArg some h)
    simp only [apply, Ledger.after, Stmt.exec, Ledger.insertEvent]
    split
    · simp [part, hne]
    · rfl
  | _ => rfl

theorem sharded : Sharded apply (fun p => written p.2) part where
  own _ _ p hp := part_own p.1 hp
  other _ _ p hp := part_other p.1 hp

/-! ## Runs -/

section Runs
variable {I : Type} [DecidableEq I] {crates : Crates} {cfg : I → OracleConfig}

def statements (crates : Crates) (cfg : I → OracleConfig) :
    List (I × Act) → Oracles I → List (Int × Stmt)
  | [], _ => []
  | (i, a) :: as, s =>
    (((s.own i).within s.shared).executed a).toList ++
      ((Oracles.next crates cfg s (i, a)).elim [] fun s' => statements crates cfg as s')

theorem next_ledger {s s' : Oracles I} {i : I} {a : Act}
    (h : Oracles.next crates cfg s (i, a) = some s') :
    s'.shared.ledger = (((s.own i).within s.shared).executed a).toList.foldl apply
      s.shared.ledger := by
  obtain ⟨l, hstep, -⟩ := Fleet.next_eq_some h
  have hledger := (System.next_move (Oracles.step_eq_some hstep)).ledger
  cases hexecuted : ((s.own i).within s.shared).executed a with
  | none =>
    rw [hexecuted] at hledger
    exact hledger
  | some p =>
    rw [hexecuted] at hledger
    exact hledger

theorem run_ledger {as : List (I × Act)} {s s' : Oracles I}
    (h : runActs (Oracles.next crates cfg) as s = some s') :
    s'.shared.ledger = (statements crates cfg as s).foldl apply s.shared.ledger := by
  induction as generalizing s with
  | nil =>
    obtain rfl := Option.some.inj h
    rfl
  | cons act as ih =>
    obtain ⟨i, a⟩ := act
    obtain ⟨s₁, hnext, hrest⟩ := Option.bind_eq_some_iff.mp h
    rw [ih hrest, next_ledger hnext, statements, hnext, Option.elim_some, List.foldl_append]

/-- In two runs of any processes, in which the same statements about a payment are executed at the
same times and in the same order, the ledger holds the same of it. -/
theorem payment_isolated {I' : Type} [DecidableEq I'] (crates crates' : Crates)
    (cfg : I → OracleConfig) (cfg' : I' → OracleConfig) (as : List (I × Act))
    (as' : List (I' × Act)) (s : Oracles I) (s' : Oracles I') (uid : String)
    (hrun : Oracles.run crates cfg as = some s) (hrun' : Oracles.run crates' cfg' as' = some s')
    (hsame : ((statements crates cfg as .init).filter fun p => written p.2 = some uid) =
      (statements crates' cfg' as' .init).filter fun p => written p.2 = some uid) :
    part uid s.shared.ledger = part uid s'.shared.ledger := by
  have hledger := run_ledger hrun
  have hledger' := run_ledger hrun'
  rw [hledger, hledger']
  exact sharded.foldl_eq _ hsame

def beside : List (Bool × Act) :=
  [(false, .start), (false, .step .backfill Timed.toyChoice), (false, .crash)]

def alone : List (Unit × Act) := Integrity.manualEvaluation.map fun a => ((), a)

def accompanied : List (Bool × Act) :=
  beside ++ Integrity.manualEvaluation.map fun a => (true, a)

theorem payment_isolated_beside :
    ∃ s s', Oracles.run .toy (fun _ : Unit => .toy) alone = some s ∧
      Oracles.run .toy (fun _ : Bool => .toy) accompanied = some s' ∧
      (statements .toy (fun _ : Unit => .toy) alone .init).length <
        (statements .toy (fun _ : Bool => .toy) accompanied .init).length ∧
      part (uidHex (byte32 1)) s.shared.ledger = part (uidHex (byte32 1)) s'.shared.ledger := by
  have hrun : (Oracles.run .toy (fun _ : Unit => .toy) alone).isSome = true := by decide +kernel
  have hrun' : (Oracles.run .toy (fun _ : Bool => .toy) accompanied).isSome = true := by
    decide +kernel
  obtain ⟨s, hs⟩ := Option.isSome_iff_exists.mp hrun
  obtain ⟨s', hs'⟩ := Option.isSome_iff_exists.mp hrun'
  exact ⟨s, s', hs, hs', by decide +kernel, payment_isolated .toy .toy _ _ _ _ s s' _ hs hs'
    (by decide +kernel)⟩

end Runs
end OracleQa.Isolation
