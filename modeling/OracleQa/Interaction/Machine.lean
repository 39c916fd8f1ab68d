import Mathlib.Logic.Basic

/-! Machines whose next state is determined by an action that they may refuse: the states reached
by permitted actions, the invariant rule, and explicit runs; and machines that answer inputs. -/

namespace OracleQa.Interaction
variable {S A : Type} {next : S → A → Option S} {guard guard' : S → A → Prop} {first s s' : S}

/-- The states reached from `first` by actions that `guard` permits in the state before them. -/
inductive Reach (next : S → A → Option S) (guard : S → A → Prop) (first : S) : S → Prop
  | first : Reach next guard first first
  | next {s s' : S} {a : A} (hs : Reach next guard first s) (hguard : guard s a)
      (hnext : next s a = some s') : Reach next guard first s'

theorem Reach.mono (hs : Reach next guard first s) (hg : ∀ s a, guard s a → guard' s a) :
    Reach next guard' first s := by
  induction hs with
  | first => exact .first
  | next hs hguard hnext ih => exact .next ih (hg _ _ hguard) hnext

theorem Reach.invariant {Inv : S → Prop} (hfirst : Inv first)
    (hnext : ∀ s a s', Inv s → guard s a → next s a = some s' → Inv s')
    (hs : Reach next guard first s) : Inv s := by
  induction hs with
  | first => exact hfirst
  | next _ hguard hstep ih => exact hnext _ _ _ ih hguard hstep

theorem Reach.strengthen {Inv : S → Prop} (hfirst : Inv first)
    (hnext : ∀ s a s', Inv s → guard s a → next s a = some s' → Inv s')
    (hg : ∀ s a, Inv s → guard s a → guard' s a) (hs : Reach next guard first s) :
    Reach next guard' first s := by
  induction hs with
  | first => exact .first
  | @next s s' a hs hguard hstep ih =>
    exact .next ih (hg s a (hs.invariant hfirst hnext) hguard) hstep

def runActs (next : S → A → Option S) : List A → S → Option S
  | [], s => some s
  | a :: as, s => (next s a).bind (runActs next as)

theorem runActs_append (as bs : List A) (s : S) :
    runActs next (as ++ bs) s = (runActs next as s).bind (runActs next bs) := by
  induction as generalizing s with
  | nil => rfl
  | cons a as ih =>
    rw [List.cons_append, runActs, runActs, Option.bind_assoc]
    exact congrArg (Option.bind (next s a)) (funext ih)

theorem Reach.runActs {as : List A} (hs : Reach next guard first s)
    (hguard : ∀ s, ∀ a ∈ as, guard s a) (hrun : runActs next as s = some s') :
    Reach next guard first s' := by
  induction as generalizing s with
  | nil =>
    obtain rfl := Option.some.inj hrun
    exact hs
  | cons a as ih =>
    obtain ⟨s₁, hnext, hrest⟩ := Option.bind_eq_some_iff.mp hrun
    exact ih (.next hs (hguard s a List.mem_cons_self) hnext)
      (fun s b hb => hguard s b (List.mem_cons_of_mem a hb)) hrest

/-- The same, as long as every action passes a check in the state before it. -/
def runChecked (next : S → A → Option S) (check : S → A → Bool) : List A → S → Option S
  | [], s => some s
  | a :: as, s => if check s a then (next s a).bind (runChecked next check as) else none

theorem Reach.runChecked {check : S → A → Bool} {as : List A} (hs : Reach next guard first s)
    (hguard : ∀ s a, check s a = true → guard s a)
    (hrun : runChecked next check as s = some s') : Reach next guard first s' := by
  induction as generalizing s with
  | nil =>
    obtain rfl := Option.some.inj hrun
    exact hs
  | cons a as ih =>
    rw [Interaction.runChecked] at hrun
    split at hrun
    · next hcheck =>
      obtain ⟨s₁, hnext, hrest⟩ := Option.bind_eq_some_iff.mp hrun
      exact ih (.next hs (hguard s a hcheck) hnext) hrest
    · cases hrun

theorem runActs_of_runChecked {check : S → A → Bool} {as : List A}
    (h : Interaction.runChecked next check as s = some s') :
    Interaction.runActs next as s = some s' := by
  induction as generalizing s with
  | nil => exact h
  | cons a as ih =>
    rw [Interaction.runChecked] at h
    split at h
    · obtain ⟨s₁, hnext, hrest⟩ := Option.bind_eq_some_iff.mp h
      rw [Interaction.runActs, hnext]
      exact ih hrest
    · cases h

section
variable {I O T : Type} {step : I → S → O × S} {step' : I → T → O × T}

def answers (step : I → S → O × S) : List I → S → List O × S
  | [], s => ([], s)
  | i :: is, s =>
    let first := step i s
    let rest := answers step is first.2
    (first.1 :: rest.1, rest.2)

theorem answers_eq {R : List I → S → T → Prop}
    (hstep : ∀ i is s t, R (i :: is) s t →
      (step i s).1 = (step' i t).1 ∧ R is (step i s).2 (step' i t).2) :
    ∀ {is s t}, R is s t → (answers step is s).1 = (answers step' is t).1 ∧
      R [] (answers step is s).2 (answers step' is t).2 := by
  intro is
  induction is with
  | nil => exact fun h => ⟨rfl, h⟩
  | cons i is ih =>
    intro s t h
    obtain ⟨hfirst, hnext⟩ := hstep i is s t h
    obtain ⟨hrest, hlast⟩ := ih hnext
    refine ⟨?_, hlast⟩
    rw [answers, answers, hfirst, hrest]

end

end OracleQa.Interaction
