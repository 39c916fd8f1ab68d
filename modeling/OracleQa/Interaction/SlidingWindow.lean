import Mathlib.Data.List.Basic

/-! A sliding-window limiter over natural times: a queue of admitted times, oldest first, whose
expired front is dropped at each request, against the list of all admitted times, newest first. -/

namespace OracleQa.Interaction

def recent (window now : Nat) (ts : List Nat) : List Nat := ts.filter fun t => now - t ≤ window

section
variable {window limit now now' : Nat} {ts queue past : List Nat}

theorem recent_sublist : (recent window now ts).Sublist ts := List.filter_sublist

theorem dropWhile_eq_recent (hqueue : queue.Pairwise (· ≤ ·)) :
    (queue.dropWhile fun t => now - t > window) = recent window now queue := by
  induction queue with
  | nil => rfl
  | cons t ts ih =>
    obtain ⟨hfirst, hrest⟩ := List.pairwise_cons.mp hqueue
    by_cases hexpired : now - t > window
    · have hgone : decide (now - t ≤ window) = false := decide_eq_false (by omega)
      rw [List.dropWhile_cons, if_pos (decide_eq_true hexpired), ih hrest, recent, recent,
        List.filter_cons, hgone]
      simp
    · -- nothing after a time that is still within the window has expired
      have hall : ∀ t' ∈ t :: ts, decide (now - t' ≤ window) = true := by
        intro t' ht'
        rcases List.mem_cons.mp ht' with rfl | ht'
        · exact decide_eq_true (by omega)
        · have hle : t ≤ t' := hfirst t' ht'
          exact decide_eq_true (by omega)
      rw [List.dropWhile_cons, if_neg (by simpa using hexpired), recent,
        List.filter_eq_self.mpr hall]

theorem recent_recent (hnow : now ≤ now') :
    recent window now' (recent window now ts) = recent window now' ts := by
  rw [recent, recent, List.filter_filter, recent]
  apply List.filter_congr
  intro t _
  have himp : now' - t ≤ window → now - t ≤ window := by omega
  rw [Bool.eq_iff_iff, Bool.and_eq_true, decide_eq_true_iff, decide_eq_true_iff]
  exact ⟨And.left, fun h => ⟨h, himp h⟩⟩

theorem recent_append_length (hpast : ∀ t ∈ past, window < now - t) :
    (recent window now (ts ++ past)).length ≤ ts.length := by
  have hnone : recent window now past = [] := by
    rw [recent, List.filter_eq_nil_iff]
    intro t ht
    have hexpired := hpast t ht
    simp only [decide_eq_true_eq]
    omega
  have happend : recent window now (ts ++ past) = recent window now ts := by
    rw [recent, List.filter_append]
    exact (congrArg _ hnone).trans (List.append_nil _)
  rw [happend]
  exact recent_sublist.length_le

/-- Newest first: fewer than `limit` of the earlier times lie within a window of each time. -/
def Spaced (limit window : Nat) : List Nat → Prop
  | [] => True
  | t :: ts => (recent window t ts).length < limit ∧ Spaced limit window ts

theorem Spaced.interval_le (hspaced : Spaced limit window ts) (hdesc : ts.Pairwise (· ≥ ·))
    (x : Nat) : (ts.filter fun t => x ≤ t ∧ t ≤ x + window).length ≤ limit := by
  induction ts with
  | nil => exact Nat.zero_le _
  | cons t ts ih =>
    obtain ⟨hfew, hspaced⟩ := hspaced
    obtain ⟨hfirst, hrest⟩ := List.pairwise_cons.mp hdesc
    by_cases hin : x ≤ t ∧ t ≤ x + window
    · -- all others of the interval lie within a window of its newest time
      have hsub : (ts.filter fun t => x ≤ t ∧ t ≤ x + window).Sublist (recent window t ts) := by
        apply List.monotone_filter_right
        intro t' ht'
        have hle := of_decide_eq_true ht'
        exact decide_eq_true (by omega)
      have hlength := hsub.length_le
      rw [List.filter_cons, if_pos (decide_eq_true hin), List.length_cons]
      omega
    · rw [List.filter_cons, if_neg (by simpa using hin)]
      exact ih hspaced hrest

/-! ## The queue of the limiter -/

/-- The queue tells of the admitted times what any later request needs to know. -/
structure Tracks (limit window clock : Nat) (past queue : List Nat) : Prop where
  sorted : queue.Pairwise (· ≤ ·)
  bounded : queue.length ≤ limit
  past_le : ∀ t ∈ past, t ≤ clock
  kept : ∀ t ∈ queue, t ∈ past
  recent_eq : ∀ now, clock ≤ now → recent window now queue = (recent window now past).reverse

theorem Tracks.empty : Tracks limit window 0 [] [] :=
  ⟨.nil, Nat.zero_le _, nofun, nofun, fun _ _ => rfl⟩

variable {clock : Nat}

theorem Tracks.recent_length (h : Tracks limit window clock past queue) (hnow : clock ≤ now) :
    (recent window now queue).length = (recent window now past).length := by
  rw [h.recent_eq now hnow, List.length_reverse]

theorem Tracks.mono (h : Tracks limit window clock past queue) (hnow : clock ≤ now) :
    Tracks limit window now past queue :=
  ⟨h.sorted, h.bounded, fun t ht => Nat.le_trans (h.past_le t ht) hnow, h.kept,
    fun now' hnow' => h.recent_eq now' (Nat.le_trans hnow hnow')⟩

theorem Tracks.expire (h : Tracks limit window clock past queue) (hnow : clock ≤ now) :
    Tracks limit window now past (recent window now queue) where
  sorted := h.sorted.sublist recent_sublist
  bounded := Nat.le_trans recent_sublist.length_le h.bounded
  past_le t ht := Nat.le_trans (h.past_le t ht) hnow
  kept t ht := h.kept t (recent_sublist.subset ht)
  recent_eq now' hnow' := by
    rw [recent_recent hnow']
    exact h.recent_eq now' (Nat.le_trans hnow hnow')

theorem Tracks.push (h : Tracks limit window clock past queue) (hroom : queue.length < limit) :
    Tracks limit window clock (clock :: past) (queue ++ [clock]) where
  sorted := by
    rw [List.pairwise_append]
    refine ⟨h.sorted, List.pairwise_singleton _ _, fun t ht t' ht' => ?_⟩
    rw [List.mem_singleton.mp ht']
    exact h.past_le t (h.kept t ht)
  bounded := by
    rw [List.length_append, List.length_singleton]
    exact hroom
  past_le t ht := by
    rcases List.mem_cons.mp ht with rfl | ht
    · exact Nat.le_refl _
    · exact h.past_le t ht
  kept t ht := by
    rcases List.mem_append.mp ht with ht | ht
    · exact List.mem_cons_of_mem _ (h.kept t ht)
    · rw [List.mem_singleton.mp ht]
      exact List.mem_cons_self
  recent_eq now hnow := by
    have hold := h.recent_eq now hnow
    unfold recent at hold ⊢
    rw [List.filter_append, hold, List.filter_cons, List.filter_cons, List.filter_nil]
    split
    · rw [List.reverse_cons]
    · rw [List.append_nil]

end
end OracleQa.Interaction
