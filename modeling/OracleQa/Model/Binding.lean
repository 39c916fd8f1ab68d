import OracleQa.Model.Db
import OracleQa.Model.World

/-! How the statements of `db.rs` bind their parameters. The client takes the types of the
parameters from the server, and where a Rust value does not fit its type it sends nothing. -/

namespace OracleQa

inductive SqlType
  | text
  | bool
  | int4
  | int8
  | float8
  | jsonb
  deriving DecidableEq

inductive RustType
  | str
  | optionStr
  | bool
  | i32
  | i64
  | json
  deriving DecidableEq

/-- `ToSql::accepts` -/
def RustType.accepts : RustType → SqlType → Bool
  | str, .text => true
  | optionStr, .text => true
  | bool, .bool => true
  | i32, .int4 => true
  | i64, .int8 => true
  | json, .jsonb => true
  | _, _ => false

namespace Stmt

/-- The values bound, and the types of their parameters: those of the columns, or of a cast. -/
def params : Stmt → List (RustType × SqlType)
  | isTerminal _ => [(.str, .text)]
  | attemptCount _ => [(.str, .text)]
  | getParameter _ => [(.str, .text)]
  | setParameter _ _ => [(.str, .text), (.str, .text)]
  | upsertJob _ =>
    [(.str, .text), (.str, .text), (.str, .text), (.i64, .int8), (.str, .text), (.str, .text),
      -- `to_timestamp($8::double precision)` of the `i64` in `expires_at`
      (.str, .text), (.i64, .float8), (.str, .text), (.optionStr, .text), (.optionStr, .text),
      (.optionStr, .text)]
  | upsertVerdict _ =>
    [(.str, .text), (.bool, .bool), (.i32, .int4), (.str, .text), (.json, .jsonb),
      (.optionStr, .text)]
  | insertEvent _ => [(.str, .text), (.str, .text), (.json, .jsonb)]

def binds (q : Stmt) : Bool := q.params.all fun p => p.1.accepts p.2

/-- What may become of the statement: it is refused, or it binds. -/
def Admits (q : Stmt) (choice : SqlChoice) : Prop := (∃ e, choice = .refused e) ∨ q.binds = true

/-- A ledger where nothing fails: what binds is executed and answered. -/
def Serves (q : Stmt) (choice : SqlChoice) : Prop :=
  q.binds = true ∧ (∃ now, choice = .done now) ∨ q.binds = false ∧ ∃ e, choice = .refused e

theorem binds_eq_false_iff (q : Stmt) : q.binds = false ↔ ∃ u, q = .upsertJob u := by
  cases q with
  | upsertJob u => exact ⟨fun _ => ⟨u, rfl⟩, fun _ => rfl⟩
  | _ => exact ⟨fun h => (by cases h), fun ⟨_, h⟩ => (by cases h)⟩

theorem upsertJob_refused {u : JobUpsert} {choice : SqlChoice}
    (h : (upsertJob u).Admits choice) : ∃ e, choice = .refused e :=
  h.resolve_right fun hbinds => by cases hbinds

theorem serves_upsertJob {u : JobUpsert} {choice : SqlChoice} :
    (upsertJob u).Serves choice ↔ ∃ e, choice = .refused e :=
  ⟨fun h => (h.resolve_left fun hdone => by cases hdone.1).2, fun h => Or.inr ⟨rfl, h⟩⟩

end Stmt
end OracleQa
