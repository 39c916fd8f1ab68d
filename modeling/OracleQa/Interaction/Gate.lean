import OracleQa.Interaction.Trace

/-! Gates: programs that give up their `bad` calls once a reply refuses, and programs that make
none before they have passed a gate. -/

namespace OracleQa.Interaction.Prog
variable {E : Type} {R : E → Type} {α β : Type}

section
variable (refuses : (e : E) → R e → Prop) (bad : E → Prop)

def refusalNext (refused : Prop) (e : E) (r : R e) (refused' : Prop) : Prop :=
  refused' → refused ∨ refuses e r

def refusalOk (refused : Prop) (e : E) : Prop := refused → ¬ bad e

/-- No `bad` call is made once a reply `refuses`. -/
def Obeys (p : Prog E R α) : Prop :=
  p.Wp (refusalNext refuses) (refusalOk bad) (fun _ _ => True) False

end

variable {refuses : (e : E) → R e → Prop} {bad stop goal : E → Prop}

theorem wp_refusal_of_imp {p : Prog E R α} {refused refused' : Prop}
    (h : p.Wp (refusalNext refuses) (refusalOk bad) (fun _ _ => True) refused)
    (himp : refused' → refused) :
    p.Wp (refusalNext refuses) (refusalOk bad) (fun _ _ => True) refused' :=
  h.of_state (fun _ hok hr => hok (himp hr)) (fun _ _ _ hn ht => (hn ht).imp_left himp)
    fun _ h => h

theorem Calls.obeys {p : Prog E R α} (hp : p.Calls fun e => ¬ bad e) : p.Obeys refuses bad := by
  have hok : ∀ refused e, True → ¬ bad e → refusalOk bad refused e := fun _ _ _ hbad _ => hbad
  exact hp.wp (I := fun _ => True) hok (fun _ _ _ _ _ _ _ => trivial) trivial

theorem Obeys.next {e : E} {k : R e → Prog E R α} (h : (call e k).Obeys refuses bad) (r : R e) :
    (k r).Obeys refuses bad := h.2 r False fun hfalse => hfalse.elim

theorem not_reaches_of_calls {p : Prog E R α} (hp : p.Calls fun e => ¬ goal e) :
    ¬ p.Reaches stop goal := by
  induction p with
  | ret a => exact id
  | call e k ih =>
    rintro (hgoal | ⟨-, r, hr⟩)
    · exact hp.1 hgoal
    · exact ih r (hp.2 r trivial) hr

theorem not_reaches_bind {p : Prog E R α} {f : α → Prog E R β} (hp : p.Calls fun e => ¬ goal e)
    (hf : ∀ a, ¬ (f a).Reaches stop goal) : ¬ (p >>= f).Reaches stop goal := by
  induction p with
  | ret a => exact hf a
  | call e k ih =>
    rintro (hgoal | ⟨-, r, hr⟩)
    · exact hp.1 hgoal
    · exact ih r (hp.2 r trivial) hr

/-- Behind a gate that is still to be asked, nothing is reached without passing it. -/
theorem not_reaches_gate {e : E} {k : R e → Prog E R α} (hstop : stop e) (hgoal : ¬ goal e) :
    ¬ (call e k).Reaches stop goal := by
  rintro (h | ⟨h, -⟩)
  · exact hgoal h
  · exact h hstop

theorem not_reaches_next {e : E} {k : R e → Prog E R α} (h : ¬ (call e k).Reaches stop goal)
    (hstop : ¬ stop e) (r : R e) : ¬ (k r).Reaches stop goal :=
  fun hr => h (Or.inr ⟨hstop, r, hr⟩)

theorem not_reaches_of_refused {p : Prog E R α}
    (hp : p.Wp (refusalNext refuses) (refusalOk bad) (fun _ _ => True) True) :
    ¬ p.Reaches stop bad := by
  induction p with
  | ret a => exact id
  | call e k ih =>
    rintro (hbad | ⟨-, r, hreach⟩)
    · exact hp.1 trivial hbad
    · exact ih r (hp.2 r True fun _ => Or.inl trivial) hreach

theorem Obeys.refused {e : E} {k : R e → Prog E R α} (h : (call e k).Obeys refuses bad) {r : R e}
    (hr : refuses e r) : ¬ (k r).Reaches stop bad :=
  not_reaches_of_refused (h.2 r True fun _ => Or.inr hr)

end OracleQa.Interaction.Prog
