import Mathlib.Logic.Relation
import OracleQa.Interaction.Machine

/-! Forward simulation: a machine refines a specification if each of its steps, seen through an
abstraction, is a step of the specification or none at all. -/

namespace OracleQa.Interaction
variable {S A T : Type} {next : S → A → Option S} {guard : S → A → Prop} {first s s' : S}
  {spec : T → T → Prop} {abs : S → T}

/-- Every step from a state that the machine reaches shows up as one step of `spec`, or as none. -/
def Refines (next : S → A → Option S) (guard : S → A → Prop) (first : S) (spec : T → T → Prop)
    (abs : S → T) : Prop :=
  ∀ s a s', Reach next guard first s → guard s a → next s a = some s' →
    abs s' = abs s ∨ spec (abs s) (abs s')

namespace Refines

theorem of_invariant {Inv : S → Prop} (hfirst : Inv first)
    (hstep : ∀ s a s', Inv s → guard s a → next s a = some s' →
      Inv s' ∧ (abs s' = abs s ∨ spec (abs s) (abs s'))) :
    Refines next guard first spec abs := by
  intro s a s' hs hguard hnext
  have hinv : Inv s := hs.invariant hfirst fun s a s' hs hguard hnext =>
    (hstep s a s' hs hguard hnext).1
  exact (hstep s a s' hinv hguard hnext).2

variable (h : Refines next guard first spec abs) (hs : Reach next guard first s)
  (hrun : Reach next guard s s')
include h hs hrun

theorem run : Relation.ReflTransGen spec (abs s) (abs s') := by
  suffices hboth : Reach next guard first s' ∧ Relation.ReflTransGen spec (abs s) (abs s') from
    hboth.2
  induction hrun with
  | first => exact ⟨hs, .refl⟩
  | next _ hguard hnext ih =>
    refine ⟨.next ih.1 hguard hnext, ?_⟩
    rcases h _ _ _ ih.1 hguard hnext with hsame | hspec
    · rw [hsame]
      exact ih.2
    · exact ih.2.tail hspec

theorem keeps {P : T → Prop} (hP : ∀ t t', P t → spec t t' → P t') (hfirst : P (abs s)) :
    P (abs s') := by
  suffices hspec : ∀ t, Relation.ReflTransGen spec (abs s) t → P t from hspec _ (h.run hs hrun)
  intro t ht
  induction ht with
  | refl => exact hfirst
  | tail _ hstep ih => exact hP _ _ ih hstep

end Refines
end OracleQa.Interaction
