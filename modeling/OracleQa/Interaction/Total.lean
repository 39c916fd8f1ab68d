import Mathlib.Logic.Relation
import OracleQa.Interaction.Timeout

/-! Total correctness: a program under an environment that has an answer to every call ends, and
ends as promised, whichever of the answers it gets. -/

namespace OracleQa.Interaction
namespace Prog
variable {E : Type} {R : E → Type} {α β S : Type}

/-- Every call is answered, and every return value meets `Q` in the state reached by then. -/
def Ensures (next : S → (e : E) → R e → S → Prop) : Prog E R α → (α → S → Prop) → S → Prop
  | ret a, Q, s => Q a s
  | call e k, Q, s =>
    (∃ r s', next s e r s') ∧ ∀ r s', next s e r s' → Ensures next (k r) Q s'

section
variable {next : S → (e : E) → R e → S → Prop} {Q Q' : α → S → Prop} {p : Prog E R α} {s s' : S}

theorem ensures_iff_wp :
    p.Ensures next Q s ↔ p.Wp next (fun s e => ∃ r s', next s e r s') Q s := by
  induction p generalizing s with
  | ret a => rfl
  | call e k ih =>
    exact and_congr_right fun _ => forall_congr' fun r => forall_congr' fun _ =>
      imp_congr_right fun _ => ih r

theorem ensures_call {e : E} {k : R e → Prog E R α} {P : R e → S → Prop}
    (hanswers : ∀ r s', next s e r s' ↔ P r s') (hsome : ∃ r s', P r s')
    (hk : ∀ r s', P r s' → (k r).Ensures next Q s') : (call e k).Ensures next Q s := by
  obtain ⟨r, s', hP⟩ := hsome
  exact ⟨⟨r, s', (hanswers r s').mpr hP⟩, fun r s' h => hk r s' ((hanswers r s').mp h)⟩

theorem ensures_call_eq {e : E} {k : R e → Prog E R α} {r : R e}
    (hanswers : ∀ r' t, next s e r' t ↔ r' = r ∧ t = s') (hk : (k r).Ensures next Q s') :
    (call e k).Ensures next Q s := by
  refine ensures_call hanswers ⟨r, s', rfl, rfl⟩ ?_
  rintro r' t ⟨rfl, rfl⟩
  exact hk

theorem Ensures.mono (h : p.Ensures next Q s) (hQ : ∀ a s', Q a s' → Q' a s') :
    p.Ensures next Q' s := by
  induction p generalizing s with
  | ret a => exact hQ a s h
  | call e k ih => exact ⟨h.1, fun r s' hr => ih r (h.2 r s' hr)⟩

theorem Ensures.bind {f : α → Prog E R β} {Q : β → S → Prop} {P : α → S → Prop}
    (hp : p.Ensures next P s) (hf : ∀ a s', P a s' → (f a).Ensures next Q s') :
    (p >>= f).Ensures next Q s := by
  induction p generalizing s with
  | ret a => exact hf a s hp
  | call e k ih => exact ⟨hp.1, fun r s' hr => ih r (hp.2 r s' hr)⟩

variable {next' : S → (e : Timed E) → Timed.Reply R e → S → Prop}

theorem Ensures.lift (h : p.Ensures next Q s)
    (hnext : ∀ s e r s', next' s (.await e) r s' ↔ next s e r s') : p.lift.Ensures next' Q s := by
  induction p generalizing s with
  | ret a => exact h
  | call e k ih => exact ensures_call (hnext s e) h.1 fun r s' hr => ih r (h.2 r s' hr)

theorem Ensures.timeout (h : p.Ensures next Q s)
    (hnext : ∀ s e r s', next' s (.race e) r s' ↔ ∃ r', r = some r' ∧ next s e r' s') :
    p.timeout.Ensures next' (fun result s => ∃ a, result = some a ∧ Q a s) s := by
  induction p generalizing s with
  | ret a => exact ⟨a, rfl, h⟩
  | call e k ih =>
    obtain ⟨⟨r, s', hr⟩, hk⟩ := h
    refine ensures_call (hnext s e) ⟨some r, s', r, rfl, hr⟩ ?_
    rintro _ t ⟨r', rfl, hr'⟩
    exact ih r' (hk r' t hr')

/-- A machine that runs the program, and stops only where no answer is left: it stops, and where it
stops the program has returned. -/
theorem Ensures.run {C : Type} {step : C → C → Prop} (code : C → Prog E R α) (state : C → S)
    (hstep : ∀ c c', step c c' → ∃ e k r, code c = call e k ∧ code c' = k r ∧
      next (state c) e r (state c'))
    (hanswer : ∀ c e k r s', code c = call e k → next (state c) e r s' → ∃ c', step c c')
    {c : C} (h : (code c).Ensures next Q (state c)) :
    Acc (fun c' c => step c c') c ∧ ∀ c', Relation.ReflTransGen step c c' →
      (∀ c'', ¬ step c' c'') → ∃ a, code c' = ret a ∧ Q a (state c') := by
  generalize hp : code c = p at h
  induction p generalizing c with
  | ret a =>
    have hstops : ∀ c', ¬ step c c' := by
      intro c' hc'
      obtain ⟨e, k, r, hcode, -⟩ := hstep c c' hc'
      rw [hp] at hcode
      cases hcode
    refine ⟨⟨c, fun c' hc' => absurd hc' (hstops c')⟩, fun c' hrun _ => ?_⟩
    cases hrun.cases_head with
    | inl heq =>
      subst heq
      exact ⟨a, hp, h⟩
    | inr hfirst =>
      obtain ⟨c₁, hc₁, -⟩ := hfirst
      exact absurd hc₁ (hstops c₁)
  | call e k ih =>
    obtain ⟨⟨r, s', hr⟩, hk⟩ := h
    have hrest : ∀ c', step c c' → Acc (fun c' c => step c c') c' ∧
        ∀ c'', Relation.ReflTransGen step c' c'' → (∀ c₃, ¬ step c'' c₃) →
          ∃ a, code c'' = ret a ∧ Q a (state c'') := by
      intro c' hc'
      obtain ⟨e', k', r', hcode, hcode', hnext⟩ := hstep c c' hc'
      rw [hp] at hcode
      cases hcode
      exact ih r' hcode' (hk r' _ hnext)
    refine ⟨⟨c, fun c' hc' => (hrest c' hc').1⟩, fun c' hrun hstops => ?_⟩
    cases hrun.cases_head with
    | inl heq =>
      subst heq
      obtain ⟨c₁, hc₁⟩ := hanswer c e k r s' hp hr
      exact absurd hc₁ (hstops c₁)
    | inr hfirst =>
      obtain ⟨c₁, hc₁, hrun₁⟩ := hfirst
      exact (hrest c₁ hc₁).2 c' hrun₁ hstops

end
end Prog
end OracleQa.Interaction
