import Mathlib.Data.List.Basic

/-! Screening by an ordered list of rules, where the first rule that fails is the reason given. -/

namespace OracleQa.Interaction
variable {ρ : Type} [DecidableEq ρ] {holds holds' : ρ → Prop} {order : List ρ} {r : ρ}

/-- `r` fails, and every rule before it holds. -/
def FirstToFail (order : List ρ) (holds : ρ → Prop) (r : ρ) : Prop :=
  ∃ before after, order = before ++ r :: after ∧ ¬ holds r ∧ ∀ r' ∈ before, holds r'

omit [DecidableEq ρ] in
theorem FirstToFail.mem (h : FirstToFail order holds r) : r ∈ order := by
  obtain ⟨before, after, rfl, -, -⟩ := h
  exact List.mem_append_right before List.mem_cons_self

theorem exists_firstToFail (hr : r ∈ order) (hfail : ¬ holds r) :
    ∃ r', FirstToFail order holds r' ∧ order.idxOf r' ≤ order.idxOf r := by
  induction order with
  | nil => exact absurd hr List.not_mem_nil
  | cons x xs ih =>
    by_cases hx : holds x
    · have hne : x ≠ r := fun heq => hfail (heq ▸ hx)
      have hmem : r ∈ xs := (List.mem_cons.mp hr).resolve_left hne.symm
      obtain ⟨r', ⟨before, after, hxs, hfail', hbefore⟩, hle⟩ := ih hmem
      have hne' : x ≠ r' := fun heq => hfail' (heq ▸ hx)
      refine ⟨r', ⟨x :: before, after, congrArg (List.cons x) hxs, hfail', ?_⟩, ?_⟩
      · exact List.forall_mem_cons.mpr ⟨hx, hbefore⟩
      · rw [List.idxOf_cons_ne _ hne, List.idxOf_cons_ne _ hne']
        exact Nat.succ_le_succ hle
    · refine ⟨x, ⟨[], xs, rfl, hx, List.forall_mem_nil _⟩, ?_⟩
      rw [List.idxOf_cons_self]
      exact Nat.zero_le _

theorem FirstToFail.of_weaker (h : FirstToFail order holds' r)
    (hweaker : ∀ r, holds r → holds' r) :
    ∃ r', FirstToFail order holds r' ∧ order.idxOf r' ≤ order.idxOf r := by
  have hmem := h.mem
  obtain ⟨before, after, -, hfail, -⟩ := h
  exact exists_firstToFail hmem fun hr => hfail (hweaker r hr)

omit [DecidableEq ρ] in
theorem FirstToFail.unique {r' : ρ} (h : FirstToFail order holds r)
    (h' : FirstToFail order holds r') : r = r' := by
  obtain ⟨before, after, rfl, hfail, hbefore⟩ := h
  obtain ⟨before', after', heq, hfail', hbefore'⟩ := h'
  induction before generalizing before' with
  | nil =>
    cases before' with
    | nil => exact (List.cons.inj heq).1
    | cons x xs =>
      obtain ⟨rfl, -⟩ := List.cons.inj heq
      exact absurd (hbefore' _ List.mem_cons_self) hfail
  | cons x xs ih =>
    cases before' with
    | nil =>
      obtain ⟨rfl, -⟩ := List.cons.inj heq
      exact absurd (hbefore _ List.mem_cons_self) hfail'
    | cons y ys =>
      obtain ⟨-, hrest⟩ := List.cons.inj heq
      exact ih (fun r hr => hbefore r (List.mem_cons_of_mem x hr)) ys hrest
        (fun r hr => hbefore' r (List.mem_cons_of_mem y hr))

end OracleQa.Interaction
