import Mathlib.Data.List.Induction
import OracleQa.Interaction.Prog

/-! Traces of a program against an arbitrary environment, and a weakest-precondition calculus
whose state is what the caller has learnt so far. -/

namespace OracleQa.Interaction

/-- A call and its reply; `none` when the program was dropped while the call was in flight. -/
structure Event (E : Type) (R : E → Type) where
  call : E
  reply : Option (R call)

namespace Prog
variable {E : Type} {R : E → Type} {α β S : Type}

/-- The traces of a program that may be dropped at any call. -/
inductive Trace : Prog E R α → List (Event E R) → Prop
  | stop (p : Prog E R α) : Trace p []
  | cut (e : E) (k : R e → Prog E R α) : Trace (call e k) [⟨e, none⟩]
  | step {e : E} {k : R e → Prog E R α} {r : R e} {tr : List (Event E R)} :
      Trace (k r) tr → Trace (call e k) (⟨e, some r⟩ :: tr)

def transcript (answer : (e : E) → R e) : Prog E R α → List (Event E R)
  | ret _ => []
  | call e k => ⟨e, some (answer e)⟩ :: transcript answer (k (answer e))

theorem trace_transcript (answer : (e : E) → R e) (p : Prog E R α) :
    p.Trace (p.transcript answer) := by
  induction p with
  | ret a => exact .stop _
  | call e k ih => exact .step (ih _)

theorem transcript_bind (answer : (e : E) → R e) (p : Prog E R α) (f : α → Prog E R β) :
    (p >>= f).transcript answer =
      p.transcript answer ++ (f (p.eval answer)).transcript answer := by
  induction p with
  | ret a => rfl
  | call e k ih =>
    rw [call_bind, transcript, transcript, ih]
    rfl

/-! ## Complete runs -/

/-- The runs to the end in which every reply is allowed, with their transcript and value. -/
inductive Runs (allowed : (e : E) → R e → Prop) : Prog E R α → List (Event E R) → α → Prop
  | ret (a : α) : Runs allowed (ret a) [] a
  | call {e : E} {k : R e → Prog E R α} {r : R e} {tr : List (Event E R)} {a : α}
      (hr : allowed e r) (h : Runs allowed (k r) tr a) :
      Runs allowed (call e k) (⟨e, some r⟩ :: tr) a

section Runs
variable {allowed allowed' : (e : E) → R e → Prop} {a b : α} {tr : List (Event E R)}

theorem runs_ret : Runs allowed (ret a : Prog E R α) tr b ↔ tr = [] ∧ a = b := by
  constructor
  · rintro ⟨⟩
    exact ⟨rfl, rfl⟩
  · rintro ⟨rfl, rfl⟩
    exact .ret a

theorem runs_call {e : E} {k : R e → Prog E R α} : Runs allowed (call e k) tr b ↔
    ∃ r tr', allowed e r ∧ Runs allowed (k r) tr' b ∧ tr = ⟨e, some r⟩ :: tr' := by
  constructor
  · intro h
    cases h with
    | call hr h => exact ⟨_, _, hr, h, rfl⟩
  · rintro ⟨r, tr', hr, h, rfl⟩
    exact .call hr h

theorem runs_bind {p : Prog E R α} {f : α → Prog E R β} {c : β} :
    Runs allowed (p >>= f) tr c ↔
      ∃ tr₁ a tr₂, Runs allowed p tr₁ a ∧ Runs allowed (f a) tr₂ c ∧ tr = tr₁ ++ tr₂ := by
  induction p generalizing tr with
  | ret a =>
    constructor
    · intro h
      exact ⟨[], a, tr, .ret a, h, rfl⟩
    · rintro ⟨tr₁, a', tr₂, hret, h, rfl⟩
      obtain ⟨rfl, rfl⟩ := runs_ret.mp hret
      exact h
  | call e k ih =>
    rw [call_bind, runs_call]
    simp only [ih]
    constructor
    · rintro ⟨r, _, hr, ⟨tr₁, a, tr₂, hk, hf, rfl⟩, rfl⟩
      exact ⟨_, a, tr₂, .call hr hk, hf, rfl⟩
    · rintro ⟨_, a, tr₂, hp, hf, rfl⟩
      obtain ⟨r, tr₁, hr, hk, rfl⟩ := runs_call.mp hp
      exact ⟨r, tr₁ ++ tr₂, hr, ⟨tr₁, a, tr₂, hk, hf, rfl⟩, rfl⟩

theorem runs_transcript {answer : (e : E) → R e} (h : ∀ e, allowed e (answer e))
    (p : Prog E R α) : Runs allowed p (p.transcript answer) (p.eval answer) := by
  induction p with
  | ret a => exact .ret a
  | call e k ih => exact .call (h e) (ih _)

theorem Runs.calls {ok : E → Prop} {p : Prog E R α} (hp : p.Calls ok)
    (h : Runs allowed p tr a) : ∀ ev ∈ tr, ok ev.call := by
  induction h with
  | ret a => exact nofun
  | call hr h ih =>
    intro ev hev
    rcases List.mem_cons.mp hev with rfl | hev
    · exact hp.1
    · exact ih (hp.2 _ trivial) ev hev

theorem Runs.mono {p : Prog E R α} (h : Runs allowed p tr a)
    (hr : ∀ e r, allowed e r → allowed' e r) : Runs allowed' p tr a := by
  induction h with
  | ret a => exact .ret a
  | call he h ih => exact .call (hr _ _ he) ih

theorem Runs.replies {p : Prog E R α} (h : Runs allowed p tr a) :
    ∀ ev ∈ tr, ∃ r, ev.reply = some r ∧ allowed ev.call r := by
  induction h with
  | ret a => exact List.forall_mem_nil _
  | call hr h ih => exact List.forall_mem_cons.mpr ⟨⟨_, rfl, hr⟩, ih⟩

theorem Runs.eval {called : E → Prop} {answer : (e : E) → R e} {p : Prog E R α}
    (h : Runs allowed p tr a) (hp : p.Calls called)
    (hanswer : ∀ e r, called e → allowed e r → r = answer e) : a = p.eval answer := by
  induction h with
  | ret a => rfl
  | call hr h ih =>
    obtain rfl := hanswer _ _ hp.1 hr
    exact ih (hp.2 _ trivial)

theorem Runs.append_inj {p : Prog E R α} {tr' rest rest' : List (Event E R)}
    (h : Runs allowed p tr a) (h' : Runs allowed' p tr' b) (heq : tr ++ rest = tr' ++ rest') :
    tr = tr' ∧ a = b := by
  induction h generalizing tr' with
  | ret a =>
    obtain ⟨rfl, hab⟩ := runs_ret.mp h'
    exact ⟨rfl, hab⟩
  | call hr h ih =>
    obtain ⟨r', tr'', -, hk, rfl⟩ := runs_call.mp h'
    obtain ⟨hevent, hrest⟩ := List.cons.inj heq
    cases hevent
    obtain ⟨rfl, hab⟩ := ih hk hrest
    exact ⟨rfl, hab⟩

theorem Runs.trace {p : Prog E R α} (h : Runs allowed p tr a) : p.Trace tr := by
  induction h with
  | ret a => exact .stop _
  | call hr h ih => exact .step ih

end Runs

/-! ## Traces of a sequence -/

theorem Trace.bind_left {p : Prog E R α} {f : α → Prog E R β} {tr : List (Event E R)}
    (h : p.Trace tr) : (p >>= f).Trace tr := by
  induction h with
  | stop p => exact .stop _
  | cut e k => exact .cut e _
  | step h ih => exact .step ih

theorem Trace.of_bind {p : Prog E R α} {f : α → Prog E R β} {tr : List (Event E R)}
    (h : (p >>= f).Trace tr) : p.Trace tr ∨ ∃ tr₁ a tr₂,
      Runs (fun _ _ => True) p tr₁ a ∧ (f a).Trace tr₂ ∧ tr = tr₁ ++ tr₂ := by
  induction p generalizing tr with
  | ret a => exact Or.inr ⟨[], a, tr, .ret a, h, rfl⟩
  | call e k ih =>
    rw [call_bind] at h
    cases h with
    | stop => exact Or.inl (.stop _)
    | cut => exact Or.inl (.cut e k)
    | @step _ _ r tr h =>
      rcases ih r h with hk | ⟨tr₁, a, tr₂, hk, hf, rfl⟩
      · exact Or.inl (.step hk)
      · exact Or.inr ⟨_, a, tr₂, .call trivial hk, hf, rfl⟩

/-- Every call made is `ok` in the state reached by then, and every return value meets `Q`. -/
def Wp (next : S → (e : E) → R e → S → Prop) (ok : S → E → Prop) :
    Prog E R α → (α → S → Prop) → S → Prop
  | ret a, Q, s => Q a s
  | call e k, Q, s => ok s e ∧ ∀ r s', next s e r s' → Wp next ok (k r) Q s'

section Wp
variable {next : S → (e : E) → R e → S → Prop} {ok : S → E → Prop}

@[simp] theorem wp_ret {a : α} {Q : α → S → Prop} {s : S} :
    (ret a : Prog E R α).Wp next ok Q s ↔ Q a s := Iff.rfl

@[simp] theorem wp_call {e : E} {k : R e → Prog E R α} {Q : α → S → Prop} {s : S} :
    (call e k).Wp next ok Q s ↔ ok s e ∧ ∀ r s', next s e r s' → (k r).Wp next ok Q s' := Iff.rfl

theorem Wp.ask_bind {e : E} {f : R e → Prog E R α} {Q : α → S → Prop} {s : S} (he : ok s e)
    (hf : ∀ r s', next s e r s' → (f r).Wp next ok Q s') : (ask e >>= f).Wp next ok Q s :=
  ⟨he, hf⟩

theorem wp_bind {p : Prog E R α} {f : α → Prog E R β} {Q : β → S → Prop} {s : S} :
    (p >>= f).Wp next ok Q s ↔ p.Wp next ok (fun a s' => (f a).Wp next ok Q s') s := by
  induction p generalizing s with
  | ret a => rfl
  | call e k ih => simp only [call_bind, wp_call, ih]

theorem Wp.mono {p : Prog E R α} {Q Q' : α → S → Prop} {s : S} (h : p.Wp next ok Q s)
    (hQ : ∀ a s', Q a s' → Q' a s') : p.Wp next ok Q' s := by
  induction p generalizing s with
  | ret a => exact hQ a s h
  | call e k ih => exact ⟨h.1, fun r s' hs => ih r (h.2 r s' hs)⟩

theorem Wp.bind {p : Prog E R α} {f : α → Prog E R β} {P : α → S → Prop} {Q : β → S → Prop}
    {s : S} (hp : p.Wp next ok P s) (hf : ∀ a s', P a s' → (f a).Wp next ok Q s') :
    (p >>= f).Wp next ok Q s := wp_bind.mpr (hp.mono hf)

theorem Wp.of_state {p : Prog E R α} {Q : α → S → Prop} {s s' : S} (h : p.Wp next ok Q s)
    (hok : ∀ e, ok s e → ok s' e) (hnext : ∀ e r t, next s' e r t → next s e r t)
    (hQ : ∀ a, Q a s → Q a s') : p.Wp next ok Q s' := by
  cases p with
  | ret a => exact hQ a h
  | call e k => exact ⟨hok e h.1, fun r t ht => h.2 r t (hnext e r t ht)⟩

theorem Calls.wp {calls : E → Prop} {I : S → Prop} {p : Prog E R α} (hp : p.Calls calls)
    (hok : ∀ s e, I s → calls e → ok s e)
    (hnext : ∀ s e r s', I s → calls e → next s e r s' → I s') {s : S} (hs : I s) :
    p.Wp next ok (fun _ s => I s) s := by
  induction p generalizing s with
  | ret a => exact hs
  | call e k ih =>
    refine ⟨hok s e hs hp.1, fun r s' hr => ?_⟩
    exact ih r (hp.2 r trivial) (hnext s e r s' hs hp.1 hr)

theorem Calls.wp_unit {called : E → Prop} {p : Prog E R α} (h : p.Calls called) :
    p.Wp (fun _ _ _ _ => True) (fun _ => called) (fun _ (_ : Unit) => True) () :=
  h.wp (fun _ _ _ he => he) (fun _ _ _ _ _ _ _ => trivial) trivial

theorem Wp.calls {called : E → Prop} {p : Prog E R α} {Q : α → Unit → Prop}
    (h : p.Wp (fun _ _ _ _ => True) (fun _ => called) Q ()) : p.Calls called := by
  induction p with
  | ret a => trivial
  | call e k ih => exact ⟨h.1, fun r _ => ih r (h.2 r () trivial)⟩

theorem Wp.returns {p : Prog E R α} {Q : α → Prop}
    (h : p.Wp (fun _ _ _ _ => True) (fun _ _ => True) (fun a (_ : Unit) => Q a) ()) :
    p.Returns Q := by
  induction p with
  | ret a => exact h
  | call e k ih => exact fun r => ih r (h.2 r () trivial)

end Wp

/-! ## Histories as the state of the calculus -/

def record (h : List (Event E R)) (e : E) (r : R e) (h' : List (Event E R)) : Prop :=
  h' = h ++ [⟨e, some r⟩]

theorem Wp.calls_record {ok : List (Event E R) → E → Prop} {called : E → Prop}
    {Q : α → List (Event E R) → Prop} {p : Prog E R α} {h : List (Event E R)}
    (hp : p.Wp record ok Q h) (hok : ∀ h e, ok h e → called e) : p.Calls called := by
  induction p generalizing h with
  | ret a => trivial
  | call e k ih => exact ⟨hok h e hp.1, fun r _ => ih r (hp.2 r _ rfl)⟩

/-- What the calculus proves of every call holds of every call of every trace. -/
theorem Trace.ok_of_wp {ok : List (Event E R) → E → Prop} {Q : α → List (Event E R) → Prop}
    {p : Prog E R α} {tr : List (Event E R)} (ht : p.Trace tr) {h : List (Event E R)}
    (hp : p.Wp record ok Q h) {before after : List (Event E R)} {ev : Event E R}
    (hsplit : tr = before ++ ev :: after) : ok (h ++ before) ev.call := by
  induction ht generalizing h before with
  | stop p => simp at hsplit
  | cut e k =>
    cases before with
    | nil =>
      obtain ⟨rfl, -⟩ := List.cons.inj hsplit
      simpa using hp.1
    | cons b bs => simp at hsplit
  | @step e k r tr ht ih =>
    cases before with
    | nil =>
      obtain ⟨rfl, -⟩ := List.cons.inj hsplit
      simpa using hp.1
    | cons b bs =>
      obtain ⟨rfl, rfl⟩ := List.cons.inj hsplit
      simpa using ih (hp.2 r _ rfl) rfl

theorem Runs.of_wp {allowed : (e : E) → R e → Prop} {ok : List (Event E R) → E → Prop}
    {Q : α → List (Event E R) → Prop} {p : Prog E R α} {tr : List (Event E R)} {a : α}
    (h : Runs allowed p tr a) {s : List (Event E R)} (hp : p.Wp record ok Q s) : Q a (s ++ tr) := by
  induction h generalizing s with
  | ret a =>
    rw [List.append_nil]
    exact hp
  | call hr h ih =>
    rw [List.append_cons]
    exact ih (hp.2 _ _ rfl)

theorem countP_record {counted : E → Bool} {h h' : List (Event E R)} {e : E} {r : R e}
    (hr : record h e r h') : h'.countP (fun ev => counted ev.call) =
      h.countP (fun ev => counted ev.call) + if counted e then 1 else 0 := by
  rw [hr, List.countP_append, List.countP_singleton]

theorem countP_le_of_before {p : α → Bool} {n : Nat} {xs : List α}
    (h : ∀ before x after, xs = before ++ x :: after → p x = true → before.countP p < n) :
    xs.countP p ≤ n := by
  induction xs using List.reverseRecOn with
  | nil => exact Nat.zero_le n
  | append_singleton xs x ih =>
    rw [List.countP_append, List.countP_singleton]
    cases hx : p x with
    | true => exact h xs x [] rfl hx
    | false =>
      refine ih fun before y after hsplit hy => h before y (after ++ [x]) ?_ hy
      rw [hsplit, List.append_assoc, List.cons_append]

theorem Trace.countP_le_of_wp {counted : E → Bool} {n : Nat} {ok : List (Event E R) → E → Prop}
    {Q : α → List (Event E R) → Prop} {p : Prog E R α} {tr : List (Event E R)} (ht : p.Trace tr)
    (hp : p.Wp record ok Q [])
    (hok : ∀ h e, ok h e → counted e = true → h.countP (fun ev => counted ev.call) < n) :
    tr.countP (fun ev => counted ev.call) ≤ n := by
  refine countP_le_of_before fun before ev after hsplit hev => ?_
  exact hok before ev.call (ht.ok_of_wp hp hsplit) hev

end Prog
end OracleQa.Interaction
