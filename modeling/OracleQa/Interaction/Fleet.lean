import Mathlib.Logic.Function.Basic
import OracleQa.Interaction.Machine

/-! Any number of machines that share one part of their state and have the rest to themselves, and
the rely-guarantee rule: what each of them keeps if no step of another can spoil it. -/

namespace OracleQa.Interaction

structure Fleet (I G L : Type) where
  shared : G
  own : I → L

namespace Fleet
variable {I G L A : Type} [DecidableEq I] {step : I → G × L → A → Option (G × L)}

def next (step : I → G × L → A → Option (G × L)) (s : Fleet I G L) (a : I × A) :
    Option (Fleet I G L) :=
  (step a.1 (s.shared, s.own a.1) a.2).map fun p => ⟨p.1, Function.update s.own a.1 p.2⟩

theorem next_eq_some {s s' : Fleet I G L} {a : I × A} (h : next step s a = some s') :
    ∃ l, step a.1 (s.shared, s.own a.1) a.2 = some (s'.shared, l) ∧
      s'.own = Function.update s.own a.1 l := by
  obtain ⟨⟨g, l⟩, hstep, rfl⟩ := Option.map_eq_some_iff.mp h
  exact ⟨l, hstep, rfl⟩

theorem invariant (Glob : G → Prop) (Inv : I → G → L → Prop) (rely : G → G → Prop)
    {guard : Fleet I G L → I × A → Prop} {first s : Fleet I G L} (hglob : Glob first.shared)
    (hinv : ∀ i, Inv i first.shared (first.own i))
    (hstep : ∀ i g l a g' l', Glob g → Inv i g l → step i (g, l) a = some (g', l') →
      Glob g' ∧ Inv i g' l' ∧ rely g g')
    (hstable : ∀ i g g' l, Inv i g l → rely g g' → Inv i g' l)
    (hs : Reach (next step) guard first s) : Glob s.shared ∧ ∀ i, Inv i s.shared (s.own i) := by
  induction hs with
  | first => exact ⟨hglob, hinv⟩
  | @next s s' a hs hguard hnext ih =>
    obtain ⟨l, hperformed, hown⟩ := next_eq_some hnext
    obtain ⟨hglob', hinv', hrely⟩ := hstep _ _ _ _ _ _ ih.1 (ih.2 a.1) hperformed
    refine ⟨hglob', fun i => ?_⟩
    rw [hown]
    by_cases hi : i = a.1
    · subst hi
      rwa [Function.update_self]
    · rw [Function.update_of_ne hi]
      exact hstable i _ _ _ (ih.2 i) hrely

/-- A machine that has nobody to share with reaches the same states alone. -/
theorem reach_alone (guard : G × L → A → Prop) {step : G × L → A → Option (G × L)} {g g' : G}
    {l l' : L} (hs : Reach step guard (g, l) (g', l')) :
    Reach (next fun _ : Unit => step) (fun s a => guard (s.shared, s.own ()) a.2) ⟨g, fun _ => l⟩
      ⟨g', fun _ => l'⟩ := by
  generalize hp : (g', l') = p at hs
  induction hs generalizing g' l' with
  | first =>
    cases hp
    exact .first
  | @next p p' a hs hguard hnext ih =>
    subst hp
    refine @Reach.next _ _ _ _ _ _ _ ((), a) (ih rfl) hguard ?_
    have hupdate : Function.update (fun _ : Unit => p.2) () l' = fun _ => l' := by
      funext u
      cases u
      exact Function.update_self ..
    simp only [next, hnext, Option.map_some, hupdate]

theorem alone_of_reach (guard : G × L → A → Prop) {step : G × L → A → Option (G × L)}
    {first s : Fleet Unit G L}
    (hs : Reach (next fun _ : Unit => step) (fun s a => guard (s.shared, s.own ()) a.2) first s) :
    Reach step guard (first.shared, first.own ()) (s.shared, s.own ()) := by
  induction hs with
  | first => exact .first
  | next hs hguard hnext ih =>
    obtain ⟨l, hperformed, hown⟩ := next_eq_some hnext
    rw [hown, Function.update_self]
    exact .next ih hguard hperformed

end Fleet
end OracleQa.Interaction
