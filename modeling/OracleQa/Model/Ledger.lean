import Mathlib.Logic.Function.Basic
import OracleQa.Model.Types

/-! The PostgreSQL ledger: its tables, and each statement of `db.rs` as a function of them. Rows
are found by `payment_uid`, which is unique in `oracle_jobs` and is never deleted, so that it also
stands for the row id that the verdicts refer to. -/

namespace OracleQa

inductive JobStatus
  | detected
  | queued
  | running
  | failed
  | deadLetter
  | settled
  deriving DecidableEq

inductive LifecycleEvent
  | detected
  | queued
  | started
  | failed
  | deadLetter
  | settled
  deriving DecidableEq

inductive EventPayload
  | empty
  | error (msg : String)
  | settled (approved : Bool) (resolutionReason : UInt16) (resolutionHash : String)
      (signature : Option String)
  deriving DecidableEq

/-- The columns that every upsert overwrites with the values of its job. -/
structure JobColumns where
  paymentPubkey : String
  mint : String
  amount : Int
  slaHash : String
  deliveryHash : String
  oracleAuthority : String
  expiresAt : Int
  deriving DecidableEq

structure JobRow where
  columns : JobColumns
  status : JobStatus
  attempts : Nat
  startedAt : Option Int
  completedAt : Option Int
  lastError : Option String
  settlementSignature : Option String
  resolutionHash : Option String
  updatedAt : Int
  deriving DecidableEq

structure VerdictRow where
  approved : Bool
  resolutionReason : Nat
  resolutionHash : String
  checks : List CheckResult
  settlementSignature : Option String
  deriving DecidableEq

structure EventRow where
  paymentUid : String
  event : LifecycleEvent
  payload : EventPayload
  deriving DecidableEq

structure ParameterRow where
  value : String
  inactive : Bool
  deriving DecidableEq

structure Ledger where
  jobs : String → Option JobRow
  verdicts : String → Option VerdictRow
  events : List EventRow
  parameters : String → Option ParameterRow

def Ledger.empty : Ledger := ⟨fun _ => none, fun _ => none, [], fun _ => none⟩

/-- The parameters of the statement in `upsert_job`. -/
structure JobUpsert where
  paymentUid : String
  columns : JobColumns
  status : JobStatus
  lastError : Option String
  signature : Option String
  resolutionHash : Option String
  deriving DecidableEq

structure VerdictUpsert where
  paymentUid : String
  verdict : VerdictRow
  deriving DecidableEq

def JobStatus.isCompletion : JobStatus → Bool
  | settled => true
  | failed => true
  | deadLetter => true
  | _ => false

def JobUpsert.insertRow (u : JobUpsert) (now : Int) : JobRow where
  columns := u.columns
  status := u.status
  attempts := if u.status = .running then 1 else 0
  startedAt := if u.status = .running then some now else none
  completedAt := if u.status.isCompletion then some now else none
  lastError := u.lastError
  settlementSignature := u.signature
  resolutionHash := u.resolutionHash
  updatedAt := now

/-- `ON CONFLICT (payment_uid) DO UPDATE SET ...` of the job upsert. -/
def JobUpsert.updateRow (u : JobUpsert) (now : Int) (row : JobRow) : JobRow where
  columns := u.columns
  status := u.status
  attempts := row.attempts + if u.status = .running then 1 else 0
  startedAt := if u.status = .running then some now else row.startedAt
  completedAt := if u.status.isCompletion then some now else row.completedAt
  lastError := u.lastError.or row.lastError
  settlementSignature := u.signature.or row.settlementSignature
  resolutionHash := u.resolutionHash.or row.resolutionHash
  updatedAt := now

def JobUpsert.row (u : JobUpsert) (now : Int) : Option JobRow → JobRow
  | none => u.insertRow now
  | some row => u.updateRow now row

theorem JobUpsert.row_status (u : JobUpsert) (now : Int) (old : Option JobRow) :
    (u.row now old).status = u.status := by
  cases old <;> rfl

/-- `ON CONFLICT (oracle_job_id) DO UPDATE SET ...` of the verdict upsert. -/
def VerdictRow.onConflict (v : VerdictRow) : Option VerdictRow → VerdictRow
  | none => v
  | some old => { v with settlementSignature := v.settlementSignature.or old.settlementSignature }

inductive Stmt
  | isTerminal (paymentUid : String)
  | attemptCount (paymentUid : String)
  | getParameter (name : String)
  | setParameter (name value : String)
  | upsertJob (u : JobUpsert)
  | upsertVerdict (v : VerdictUpsert)
  | insertEvent (e : EventRow)

@[reducible] def Stmt.Result : Stmt → Type
  | isTerminal _ => Bool
  | attemptCount _ => Nat
  | getParameter _ => Option String
  | _ => Unit

namespace Ledger

def isTerminal (l : Ledger) (uid : String) : Bool :=
  match l.jobs uid with
  | some row => row.status = .settled || row.status = .deadLetter
  | none => false

def attemptCount (l : Ledger) (uid : String) : Nat :=
  match l.jobs uid with
  | some row => row.attempts
  | none => 0

def getParameter (l : Ledger) (name : String) : Option String :=
  match l.parameters name with
  | some row => if row.inactive then none else some row.value
  | none => none

def setParameter (l : Ledger) (name value : String) : Ledger :=
  { l with parameters := Function.update l.parameters name (some ⟨value, false⟩) }

def putJob (l : Ledger) (uid : String) (row : JobRow) : Ledger :=
  { l with jobs := Function.update l.jobs uid (some row) }

/-- The job upsert as the server executes it. It is never sent: the client has no `i64` for the
`double precision` of `$8` (`Stmt.upsertJob_refused`), and every call of it is refused. A server
that gets it refuses an `expires_at` that is out of the range of `to_timestamp`, too. Both are the
choice `SqlChoice.refused` at the call, and not an error here, where only the attempts column, a
32-bit integer, makes the statement fail. -/
def upsertJob (l : Ledger) (now : Int) (u : JobUpsert) : Except String Ledger :=
  let row := u.row now (l.jobs u.paymentUid)
  if row.attempts < 2 ^ 31 then .ok (l.putJob u.paymentUid row)
  else .error "integer out of range"

/-- `INSERT ... SELECT ... FROM oracle_jobs`: nothing happens without a job row. -/
def upsertVerdict (l : Ledger) (v : VerdictUpsert) : Ledger :=
  match l.jobs v.paymentUid with
  | some _ =>
    let verdict := v.verdict.onConflict (l.verdicts v.paymentUid)
    { l with verdicts := Function.update l.verdicts v.paymentUid (some verdict) }
  | none => l

def insertEvent (l : Ledger) (e : EventRow) : Ledger :=
  match l.jobs e.paymentUid with
  | some _ => { l with events := l.events ++ [e] }
  | none => l

end Ledger

def Stmt.exec (now : Int) : (q : Stmt) → Ledger → Except String (q.Result × Ledger)
  | isTerminal uid, l => .ok (l.isTerminal uid, l)
  | attemptCount uid, l => .ok (l.attemptCount uid, l)
  | getParameter name, l => .ok (l.getParameter name, l)
  | setParameter name value, l => .ok ((), l.setParameter name value)
  | upsertJob u, l => (l.upsertJob now u).map fun l' => ((), l')
  | upsertVerdict v, l => .ok ((), l.upsertVerdict v)
  | insertEvent e, l => .ok ((), l.insertEvent e)

end OracleQa
