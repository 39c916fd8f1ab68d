import Mathlib.Logic.Basic

/-! Programs that suspend at each call to their environment and resume with its reply. A call
`e : E` is answered by a value of `R e`; nothing is assumed here about who answers. -/

namespace OracleQa.Interaction

inductive Prog (E : Type) (R : E → Type) (α : Type) : Type
  | ret (a : α)
  | call (e : E) (k : R e → Prog E R α)

namespace Prog
variable {E : Type} {R : E → Type} {α β γ : Type}

def bind : Prog E R α → (α → Prog E R β) → Prog E R β
  | ret a, f => f a
  | call e k, f => call e fun r => bind (k r) f

def ask (e : E) : Prog E R (R e) := call e ret

instance : Monad (Prog E R) where
  pure := ret
  bind := bind

@[simp] theorem pure_eq (a : α) : (pure a : Prog E R α) = ret a := rfl

@[simp] theorem ret_bind (a : α) (f : α → Prog E R β) : (ret a >>= f) = f a := rfl

@[simp] theorem call_bind (e : E) (k : R e → Prog E R α) (f : α → Prog E R β) :
    (call e k >>= f) = call e fun r => k r >>= f := rfl

@[simp] theorem ask_bind (e : E) (f : R e → Prog E R β) : (ask e >>= f) = call e f := rfl

theorem bind_ret (p : Prog E R α) : (p >>= ret) = p := by
  induction p with
  | ret a => rfl
  | call e k ih => simp only [call_bind, ih]

theorem bind_assoc (p : Prog E R α) (f : α → Prog E R β) (g : β → Prog E R γ) :
    (p >>= f >>= g) = (p >>= fun a => f a >>= g) := by
  induction p with
  | ret a => rfl
  | call e k ih => simp only [call_bind, ih]

instance : LawfulMonad (Prog E R) :=
  LawfulMonad.mk' _ (fun p => bind_ret p) (fun _ _ => rfl) bind_assoc

/-! ## What a program may call -/

/-- Under replies that `allowed` permits, every call satisfies `ok`. -/
def Always (allowed : (e : E) → R e → Prop) (ok : E → Prop) : Prog E R α → Prop
  | ret _ => True
  | call e k => ok e ∧ ∀ r, allowed e r → Always allowed ok (k r)

/-- Under replies that `allowed` permits, the program does not return before a `goal` call. -/
def Eventually (allowed : (e : E) → R e → Prop) (goal : E → Prop) : Prog E R α → Prop
  | ret _ => False
  | call e k => goal e ∨ ∀ r, allowed e r → Eventually allowed goal (k r)

/-- Some replies lead to a `goal` call with no `stop` call before it. -/
def Reaches (stop goal : E → Prop) : Prog E R α → Prop
  | ret _ => False
  | call e k => goal e ∨ (¬ stop e ∧ ∃ r, Reaches stop goal (k r))

abbrev Calls (ok : E → Prop) (p : Prog E R α) : Prop := p.Always (fun _ _ => True) ok

def Returns (Q : α → Prop) : Prog E R α → Prop
  | ret a => Q a
  | call _ k => ∀ r, Returns Q (k r)

theorem Returns.bind {P : α → Prop} {Q : β → Prop} {p : Prog E R α} {f : α → Prog E R β}
    (hp : p.Returns P) (hf : ∀ a, P a → (f a).Returns Q) : (p >>= f).Returns Q := by
  induction p with
  | ret a => exact hf a hp
  | call e k ih => exact fun r => ih r (hp r)

theorem Returns.ask_bind {Q : α → Prop} {e : E} {f : R e → Prog E R α}
    (hf : ∀ r, (f r).Returns Q) : (ask e >>= f).Returns Q := hf

theorem returns_true (p : Prog E R α) : p.Returns fun _ => True := by
  induction p with
  | ret a => trivial
  | call e k ih => exact ih

section Always
variable {allowed allowed' : (e : E) → R e → Prop} {ok ok' : E → Prop}

@[simp] theorem always_ret (a : α) : (ret a : Prog E R α).Always allowed ok := trivial

@[simp] theorem always_call {e : E} {k : R e → Prog E R α} :
    (call e k).Always allowed ok ↔ ok e ∧ ∀ r, allowed e r → (k r).Always allowed ok := Iff.rfl

@[simp] theorem always_ask {e : E} :
    (ask e : Prog E R (R e)).Always allowed ok ↔ ok e := by
  simp [ask]

theorem Always.bind {p : Prog E R α} {f : α → Prog E R β} (hp : p.Always allowed ok)
    (hf : ∀ a, (f a).Always allowed ok) : (p >>= f).Always allowed ok := by
  induction p with
  | ret a => exact hf a
  | call e k ih => exact ⟨hp.1, fun r hr => ih r (hp.2 r hr)⟩

theorem Always.mono {p : Prog E R α} (hp : p.Always allowed ok)
    (hr : ∀ e r, allowed' e r → allowed e r) (he : ∀ e, ok e → ok' e) :
    p.Always allowed' ok' := by
  induction p with
  | ret a => trivial
  | call e k ih => exact ⟨he e hp.1, fun r h => ih r (hp.2 r (hr e r h))⟩

theorem Calls.mono {p : Prog E R α} (hp : p.Calls ok) (he : ∀ e, ok e → ok' e) : p.Calls ok' :=
  Always.mono hp (fun _ _ h => h) he

theorem Calls.bind_returns {p : Prog E R α} {f : α → Prog E R β} {P : α → Prop} (hp : p.Calls ok)
    (hreturns : p.Returns P) (hf : ∀ a, P a → (f a).Calls ok) : (p >>= f).Calls ok := by
  induction p with
  | ret a => exact hf a hreturns
  | call e k ih => exact ⟨hp.1, fun r _ => ih r (hp.2 r trivial) (hreturns r)⟩

theorem Calls.ask_bind {e : E} {f : R e → Prog E R α} (he : ok e) (hf : ∀ r, (f r).Calls ok) :
    (ask e >>= f).Calls ok := ⟨he, fun r _ => hf r⟩

end Always

section Eventually
variable {allowed : (e : E) → R e → Prop} {goal : E → Prop}

theorem eventually_call {e : E} {k : R e → Prog E R α} :
    (call e k).Eventually allowed goal ↔
      goal e ∨ ∀ r, allowed e r → (k r).Eventually allowed goal := Iff.rfl

end Eventually

def eval (answer : (e : E) → R e) : Prog E R α → α
  | ret a => a
  | call e k => eval answer (k (answer e))

/-- The value and final state when calls are answered by a state-transforming server. -/
def run {S : Type} (serve : (e : E) → S → R e × S) : Prog E R α → S → α × S
  | ret a, s => (a, s)
  | call e k, s => run serve (k (serve e s).1) (serve e s).2

section Fixed
variable {answer : (e : E) → R e} {S : Type} {serve : (e : E) → S → R e × S}

@[simp] theorem eval_ret (a : α) : (ret a : Prog E R α).eval answer = a := rfl

@[simp] theorem eval_call (e : E) (k : R e → Prog E R α) :
    (call e k).eval answer = (k (answer e)).eval answer := rfl

@[simp] theorem eval_ask (e : E) : (ask e : Prog E R (R e)).eval answer = answer e := rfl

@[simp] theorem eval_bind (p : Prog E R α) (f : α → Prog E R β) :
    (p >>= f).eval answer = (f (p.eval answer)).eval answer := by
  induction p with
  | ret a => rfl
  | call e k ih => exact ih _

@[simp] theorem run_ret (a : α) (s : S) : (ret a : Prog E R α).run serve s = (a, s) := rfl

@[simp] theorem run_call (e : E) (k : R e → Prog E R α) (s : S) :
    (call e k).run serve s = (k (serve e s).1).run serve (serve e s).2 := rfl

@[simp] theorem run_ask (e : E) (s : S) : (ask e : Prog E R (R e)).run serve s = serve e s := rfl

@[simp] theorem run_bind (p : Prog E R α) (f : α → Prog E R β) (s : S) :
    (p >>= f).run serve s = (f (p.run serve s).1).run serve (p.run serve s).2 := by
  induction p generalizing s with
  | ret a => rfl
  | call e k ih => exact ih _ _

theorem run_bind_of {p : Prog E R α} {f : α → Prog E R β} {s s' : S} {a : α}
    (h : p.run serve s = (a, s')) : (p >>= f).run serve s = (f a).run serve s' := by
  rw [run_bind, h]

theorem run_ask_bind {e : E} {f : R e → Prog E R β} {s s' : S} {r : R e}
    (h : serve e s = (r, s')) : (ask e >>= f).run serve s = (f r).run serve s' :=
  run_bind_of h

end Fixed
end Prog
end OracleQa.Interaction
