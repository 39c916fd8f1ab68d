import Mathlib.Data.List.Basic

/-! A state in shards. Commands that each concern one shard, or none, leave in a shard what its own
commands alone would have left there. -/

namespace OracleQa.Interaction
variable {S Q K : Type} [DecidableEq K] {exec : S → Q → S} {key : Q → Option K} {shard : K → S → S}

structure Sharded (exec : S → Q → S) (key : Q → Option K) (shard : K → S → S) : Prop where
  own : ∀ k s q, key q = some k → shard k (exec s q) = exec (shard k s) q
  other : ∀ k s q, key q ≠ some k → shard k (exec s q) = shard k s

theorem Sharded.foldl (h : Sharded exec key shard) (k : K) (qs : List Q) (s : S) :
    shard k (qs.foldl exec s) = (qs.filter fun q => key q = some k).foldl exec (shard k s) := by
  induction qs generalizing s with
  | nil => rfl
  | cons q qs ih =>
    rw [List.foldl_cons, ih]
    by_cases hq : key q = some k
    · rw [List.filter_cons_of_pos (by simpa using hq), List.foldl_cons, h.own k s q hq]
    · rw [List.filter_cons_of_neg (by simpa using hq), h.other k s q hq]

/-- How the commands of different shards are interleaved does not matter. -/
theorem Sharded.foldl_eq (h : Sharded exec key shard) {k : K} {qs qs' : List Q} (s : S)
    (hsame : (qs.filter fun q => key q = some k) = qs'.filter fun q => key q = some k) :
    shard k (qs.foldl exec s) = shard k (qs'.foldl exec s) := by
  rw [h.foldl, h.foldl, hsame]

end OracleQa.Interaction
