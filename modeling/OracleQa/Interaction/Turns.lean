import Mathlib.Data.Set.Finite.Basic
import Mathlib.Logic.Hydra
import OracleQa.Interaction.Prog

/-! Programs that take turns in any order: one of them consumes a queue, and the others may fill it.
Each is answered finitely often, and what is left in the queue is finite, so that all comes to
rest. -/

namespace OracleQa.Interaction
namespace Prog
variable {E : Type} {R : E → Type} {α : Type}

/-- What a program is once its call has been answered. -/
inductive Resumes : Prog E R α → Prog E R α → Prop
  | answer (e : E) (k : R e → Prog E R α) (r : R e) : Resumes (k r) (call e k)

theorem resumes_wf : WellFounded (Resumes : Prog E R α → Prog E R α → Prop) := by
  refine ⟨fun p => ?_⟩
  induction p with
  | ret a => exact ⟨_, fun q h => by cases h⟩
  | call e k ih =>
    refine ⟨_, fun q h => ?_⟩
    cases h
    exact ih _

def IsBusy (p : Prog E R α) : Prop := ∃ e k, p = call e k

theorem not_isBusy_ret (a : α) : ¬ IsBusy (ret a : Prog E R α) := by
  rintro ⟨e, k, h⟩
  cases h

end Prog

section
variable {E : Type} {R : E → Type} {α S ι : Type} [DecidableEq ι]
  (tasks : S → ι → Prog E R α) (consumer : ι) (queue : S → Nat)

inductive Turn (s s' : S) : Prop
  | feed {i : ι} {e : E} {k : R e → Prog E R α} {r : R e} (hi : i ≠ consumer)
      (hcall : tasks s i = .call e k) (h : tasks s' = Function.update (tasks s) i (k r))
  | work {e : E} {k : R e → Prog E R α} {r : R e} (hcall : tasks s consumer = .call e k)
      (h : tasks s' = Function.update (tasks s) consumer (k r)) (hqueue : queue s' = queue s)
  | take {p : Prog E R α} (h : tasks s' = Function.update (tasks s) consumer p)
      (hqueue : queue s' < queue s)

variable {tasks consumer queue}

/-- The feeders among `F`, the length of the queue, and the consumer. -/
def remaining (tasks : S → ι → Prog E R α) (consumer : ι) (queue : S → Nat) (F : Finset ι) (s : S) :
    Multiset (Prog E R α) × Nat × Prog E R α :=
  ((F.erase consumer).val.map (tasks s), queue s, tasks s consumer)

def Falls : Multiset (Prog E R α) × Nat × Prog E R α → Multiset (Prog E R α) × Nat × Prog E R α →
    Prop :=
  Prod.Lex (Relation.CutExpand Prog.Resumes) (Prod.Lex (· < ·) Prog.Resumes)

theorem falls_wf : WellFounded (Falls : _ → Multiset (Prog E R α) × Nat × Prog E R α → Prop) :=
  Prog.resumes_wf.cutExpand.prod_lex (Nat.lt_wfRel.wf.prod_lex Prog.resumes_wf)

theorem map_update_of_notMem {F : Finset ι} {i : ι} (hi : i ∉ F) (f : ι → Prog E R α)
    (p : Prog E R α) : F.val.map (Function.update f i p) = F.val.map f := by
  refine Multiset.map_congr rfl fun j hj => Function.update_of_ne ?_ _ _
  rintro rfl
  exact hi hj

theorem map_update_of_mem {F : Finset ι} {i : ι} (hi : i ∈ F) (f : ι → Prog E R α)
    (p : Prog E R α) :
    F.val.map (Function.update f i p) + {f i} = F.val.map f + {p} := by
  have hsplit : F.val = i ::ₘ (F.erase i).val := by
    rw [Finset.erase_val, Multiset.cons_erase hi]
  rw [hsplit, Multiset.map_cons, Multiset.map_cons, Function.update_self,
    map_update_of_notMem (Finset.notMem_erase i F), ← Multiset.singleton_add,
    ← Multiset.singleton_add, add_assoc, add_comm, add_comm (Multiset.map f _)]

theorem Turn.falls {s s' : S} {F : Finset ι} (h : Turn tasks consumer queue s s')
    (hbusy : ∀ i, (tasks s i).IsBusy → i ∈ F) :
    Falls (remaining tasks consumer queue F s') (remaining tasks consumer queue F s) := by
  have hrest : ∀ p, (F.erase consumer).val.map (Function.update (tasks s) consumer p) =
      (F.erase consumer).val.map (tasks s) :=
    map_update_of_notMem (Finset.notMem_erase consumer F) _
  cases h with
  | @feed i e k r hi hcall h =>
    have hmem : i ∈ F.erase consumer := Finset.mem_erase.mpr ⟨hi, hbusy i ⟨e, k, hcall⟩⟩
    refine Prod.Lex.left _ _ ⟨{k r}, tasks s i, ?_, ?_⟩
    · intro p hp
      rw [Multiset.mem_singleton.mp hp, hcall]
      exact .answer e k r
    · rw [h]
      exact map_update_of_mem hmem _ _
  | @work e k r hcall h hqueue =>
    unfold remaining
    rw [h, hrest, hqueue, hcall, Function.update_self]
    exact Prod.Lex.right _ (Prod.Lex.right _ (.answer e k r))
  | take h hqueue =>
    unfold remaining
    rw [h, hrest]
    exact Prod.Lex.right _ (Prod.Lex.left _ _ hqueue)

theorem Turn.busy {s s' : S} {F : Finset ι} (h : Turn tasks consumer queue s s')
    (hbusy : ∀ i, (tasks s i).IsBusy → i ∈ F) (i : ι) (hi : (tasks s' i).IsBusy) :
    i ∈ insert consumer F := by
  have hupdate : ∀ {j : ι} {p : Prog E R α}, j ∈ insert consumer F →
      (Function.update (tasks s) j p i).IsBusy → i ∈ insert consumer F := by
    intro j p hj hp
    by_cases hij : i = j
    · exact hij ▸ hj
    · rw [Function.update_of_ne hij] at hp
      exact Finset.mem_insert_of_mem (hbusy i hp)
  cases h with
  | @feed j e k r hj hcall h =>
    rw [h] at hi
    exact hupdate (Finset.mem_insert_of_mem (hbusy j ⟨e, k, hcall⟩)) hi
  | work hcall h hqueue =>
    rw [h] at hi
    exact hupdate (Finset.mem_insert_self _ _) hi
  | take h hqueue =>
    rw [h] at hi
    exact hupdate (Finset.mem_insert_self _ _) hi

/-- A step that is a turn leads to no infinite run from where finitely many programs are busy. -/
theorem acc_of_turns {step : S → S → Prop} {Inv : S → Prop}
    (hstep : ∀ s s', Inv s → step s s' → Inv s' ∧ Turn tasks consumer queue s s') {s : S}
    (hs : Inv s) (hbusy : {i | (tasks s i).IsBusy}.Finite) : Acc (fun s' s => step s s') s := by
  suffices h : ∀ (F : Finset ι), consumer ∈ F → ∀ m s, remaining tasks consumer queue F s = m →
      Inv s → (∀ i, (tasks s i).IsBusy → i ∈ F) → Acc (fun s' s => step s s') s from
    h (insert consumer hbusy.toFinset) (Finset.mem_insert_self _ _) _ s rfl hs fun i hi =>
      Finset.mem_insert_of_mem (hbusy.mem_toFinset.mpr hi)
  intro F hconsumer m
  induction m using falls_wf.induction with
  | _ m ih =>
    rintro s rfl hs hbusy
    refine ⟨_, fun s' hnext => ?_⟩
    obtain ⟨hs', hturn⟩ := hstep s s' hs hnext
    refine ih _ (hturn.falls hbusy) s' rfl hs' fun i hi => ?_
    have hmem := hturn.busy hbusy i hi
    rwa [Finset.insert_eq_of_mem hconsumer] at hmem

end
end OracleQa.Interaction
