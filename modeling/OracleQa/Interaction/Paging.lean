import Mathlib.Data.List.Basic

/-! A cursor that goes through a list in pages, and can only be left standing at some of the
elements: the next page starts behind the last element of its page at which it can stand. -/

namespace OracleQa.Interaction
variable {α : Type}

/-- The list divides into pages up to its last standing place: each ends in one, none is longer
than `size`, and each uses up `size` of what is left. -/
inductive Divides (size : Nat) (stands : α → Bool) : Nat → List α → Prop
  | done {left : Nat} {xs : List α} (h : ∀ x ∈ xs, stands x = false) : Divides size stands left xs
  | page {left : Nat} {run xs : List α} {last : α} (hlast : stands last = true)
      (hlength : run.length + 1 ≤ min left size) (h : Divides size stands (left - size) xs) :
      Divides size stands left (run ++ last :: xs)

theorem exists_last_stands (stands : α → Bool) (xs : List α) :
    (∀ x ∈ xs, stands x = false) ∨ ∃ run last tail, xs = run ++ last :: tail ∧
      stands last = true ∧ ∀ x ∈ tail, stands x = false := by
  induction xs with
  | nil => exact Or.inl (List.forall_mem_nil _)
  | cons x xs ih =>
    rcases ih with hnone | ⟨run, last, tail, rfl, hlast, htail⟩
    · cases hx : stands x with
      | false => exact Or.inl (List.forall_mem_cons.mpr ⟨hx, hnone⟩)
      | true => exact Or.inr ⟨[], x, xs, rfl, hx, hnone⟩
    · exact Or.inr ⟨x :: run, last, tail, rfl, hlast, htail⟩

namespace Divides
variable {size left left' : Nat} {stands : α → Bool} {run xs ys : List α} {last : α}

theorem drop_append_cons (k : Nat) : (run ++ last :: xs).drop (run.length + 1 + k) = xs.drop k := by
  rw [Nat.add_assoc, List.drop_length_add_append, Nat.add_comm 1 k, List.drop_succ_cons]

theorem mono (h : Divides size stands left xs) (hle : left ≤ left') :
    Divides size stands left' xs := by
  induction h generalizing left' with
  | done h => exact .done h
  | page hlast hlength h ih =>
    exact .page hlast (by omega) (ih (Nat.sub_le_sub_right hle size))

theorem of_length_le (h : xs.length ≤ min left size) : Divides size stands left xs := by
  rcases exists_last_stands stands xs with hnone | ⟨run, last, tail, rfl, hlast, htail⟩
  · exact .done hnone
  · refine .page hlast ?_ (.done htail)
    rw [List.length_append, List.length_cons] at h
    omega

theorem none_iff (h : min left size = 0) :
    Divides size stands left xs ↔ ∀ x ∈ xs, stands x = false := by
  constructor
  · intro hdivides
    cases hdivides with
    | done h => exact h
    | page hlast hlength hrest => omega
  · exact .done

theorem drop (h : Divides size stands left xs) (n : Nat) :
    Divides size stands left (xs.drop n) := by
  induction h generalizing n with
  | done h => exact .done fun x hx => h x (List.mem_of_mem_drop hx)
  | @page left run xs last hlast hlength h ih =>
    by_cases hn : n ≤ run.length
    · rw [List.drop_append_of_le_length hn]
      refine .page hlast ?_ h
      rw [List.length_drop]
      omega
    · obtain ⟨k, rfl⟩ : ∃ k, n = run.length + 1 + k := ⟨n - (run.length + 1), by omega⟩
      rw [drop_append_cons]
      exact (ih k).mono (Nat.sub_le _ _)

/-- From a page without a standing place the cursor does not move. -/
theorem skip_iff (h : ∀ x ∈ xs.take (min left size), stands x = false) :
    Divides size stands left xs ↔ Divides size stands (left - size) xs := by
  constructor
  · intro hdivides
    cases hdivides with
    | done h => exact .done h
    | @page _ run xs last hlast hlength hrest =>
      have hmem : last ∈ (run ++ last :: xs).take (min left size) := by
        rw [List.take_append]
        apply List.mem_append_right
        obtain ⟨k, hk⟩ : ∃ k, min left size - run.length = k + 1 :=
          ⟨min left size - run.length - 1, by omega⟩
        rw [hk, List.take_succ_cons]
        exact List.mem_cons_self
      rw [h last hmem] at hlast
      cases hlast
  · exact fun hdivides => hdivides.mono (Nat.sub_le _ _)

theorem page_iff (hlast : stands last = true) (hlength : run.length + 1 ≤ min left size)
    (hrest : ∀ x ∈ xs.take (min left size - (run.length + 1)), stands x = false) :
    Divides size stands left (run ++ last :: xs) ↔ Divides size stands (left - size) xs := by
  constructor
  · intro h
    generalize hys : run ++ last :: xs = ys at h
    cases h with
    | done h =>
      rw [h last (by rw [← hys]; simp)] at hlast
      cases hlast
    | @page _ run' xs' last' hlast' hlength' hrest' =>
      -- the division starts with a page that ends no later
      have hshort : run'.length ≤ run.length := by
        by_contra hlong
        have hget : (run ++ last :: xs)[run'.length]? = some last' := by
          rw [hys]
          simp
        rw [List.getElem?_append_right (by omega)] at hget
        obtain ⟨k, hk⟩ : ∃ k, run'.length = run.length + (k + 1) :=
          ⟨run'.length - run.length - 1, by omega⟩
        rw [hk, Nat.add_sub_cancel_left, List.getElem?_cons_succ] at hget
        have hmem : last' ∈ xs.take (min left size - (run.length + 1)) := by
          have htake : (xs.take (min left size - (run.length + 1)))[k]? = some last' := by
            rw [List.getElem?_take_of_lt (by omega), hget]
          exact List.mem_of_getElem? htake
        rw [hrest last' hmem] at hlast'
        cases hlast'
      obtain ⟨k, hk⟩ : ∃ k, run.length = run'.length + k := ⟨_, (Nat.add_sub_of_le hshort).symm⟩
      have hdrop := congrArg (List.drop (run.length + 1 + 0)) hys
      rw [drop_append_cons, List.drop_zero, Nat.add_zero, hk, Nat.add_right_comm,
        drop_append_cons] at hdrop
      rw [hdrop]
      exact hrest'.drop k
  · exact .page hlast hlength

end Divides
end OracleQa.Interaction
