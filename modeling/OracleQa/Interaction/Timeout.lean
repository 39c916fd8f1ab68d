import OracleQa.Interaction.Trace

/-! Deadlines. A program raced against a deadline is dropped at one of its calls: the call may
by then have taken effect, or not, and its reply is lost either way. -/

namespace OracleQa.Interaction

/-- A call awaited to its end, or one raced against a deadline. -/
inductive Timed (E : Type) : Type
  | await (e : E)
  | race (e : E)

namespace Timed
variable {E : Type}

@[reducible] def Reply (R : E → Type) : Timed E → Type
  | await e => R e
  | race e => Option (R e)

def base : Timed E → E
  | await e => e
  | race e => e

end Timed

namespace Prog
variable {E : Type} {R : E → Type} {α β S : Type}

def lift : Prog E R α → Prog (Timed E) (Timed.Reply R) α
  | ret a => ret a
  | call e k => call (.await e) fun r => lift (k r)

def timeout : Prog E R α → Prog (Timed E) (Timed.Reply R) (Option α)
  | ret a => ret (some a)
  | call e k => call (.race e) fun r => Option.elim r (ret none) fun r => timeout (k r)

@[simp] theorem lift_ret (a : α) : lift (ret a : Prog E R α) = ret a := rfl

@[simp] theorem lift_call (e : E) (k : R e → Prog E R α) :
    lift (call e k) = call (.await e) fun r => lift (k r) := rfl

@[simp] theorem timeout_ret (a : α) : timeout (ret a : Prog E R α) = ret (some a) := rfl

@[simp] theorem timeout_call (e : E) (k : R e → Prog E R α) :
    timeout (call e k) =
      call (.race e) fun r => Option.elim r (ret none) fun r => timeout (k r) := rfl

@[simp] theorem run_lift {serve : (e : Timed E) → S → Timed.Reply R e × S} (p : Prog E R α)
    (s : S) : p.lift.run serve s = p.run (fun e => serve (.await e)) s := by
  induction p generalizing s with
  | ret a => rfl
  | call e k ih => exact ih _ _

theorem always_lift {allowed : (e : E) → R e → Prop}
    {allowed' : (e : Timed E) → Timed.Reply R e → Prop} {ok : E → Prop} {ok' : Timed E → Prop}
    {p : Prog E R α} (hp : p.Always allowed ok)
    (hallowed : ∀ e r, allowed' (.await e) r → allowed e r) (h : ∀ e, ok e → ok' (.await e)) :
    p.lift.Always allowed' ok' := by
  induction p with
  | ret a => trivial
  | call e k ih => exact ⟨h e hp.1, fun r hr => ih r (hp.2 r (hallowed e r hr))⟩

theorem calls_lift {ok : E → Prop} {ok' : Timed E → Prop} {p : Prog E R α} (hp : p.Calls ok)
    (h : ∀ e, ok e → ok' (.await e)) : p.lift.Calls ok' :=
  always_lift hp (fun _ _ hr => hr) h

theorem calls_timeout {ok : E → Prop} {ok' : Timed E → Prop} {p : Prog E R α} (hp : p.Calls ok)
    (h : ∀ e, ok e → ok' (.race e)) : p.timeout.Calls ok' := by
  induction p with
  | ret a => trivial
  | call e k ih =>
    refine ⟨h e hp.1, fun r _ => ?_⟩
    cases r with
    | none => trivial
    | some r => exact ih r (hp.2 r trivial)

theorem returns_timeout {P : α → Prop} {p : Prog E R α} (hp : p.Returns P) :
    p.timeout.Returns fun result => ∀ a, result = some a → P a := by
  induction p with
  | ret a =>
    rintro a' ⟨⟩
    exact hp
  | call e k ih =>
    intro r
    cases r with
    | none => exact fun a h => by cases h
    | some r => exact ih r (hp r)

section Wp
variable {next : S → (e : E) → R e → S → Prop} {ok : S → E → Prop}
  {next' : S → (e : Timed E) → Timed.Reply R e → S → Prop} {ok' : S → Timed E → Prop}
  {p : Prog E R α} {Q : α → S → Prop} {s : S}

theorem wp_lift (hp : p.Wp next ok Q s) (hok : ∀ s e, ok s e → ok' s (.await e))
    (hnext : ∀ s e r s', next' s (.await e) r s' → next s e r s') : p.lift.Wp next' ok' Q s := by
  induction p generalizing s with
  | ret a => exact hp
  | call e k ih => exact ⟨hok s e hp.1, fun r s' hr => ih r (hp.2 r s' (hnext s e r s' hr))⟩

/-- A run that a deadline may cut, at a call that may have changed the state, promises `Cut`. -/
theorem wp_timeout {Cut : S → Prop} (hp : p.Wp next ok Q s)
    (hok : ∀ s e, ok s e → ok' s (.race e))
    (hnext : ∀ s e r s', next' s (.race e) (some r) s' → next s e r s')
    (hcut : ∀ s e s', ok s e → next' s (.race e) none s' → Cut s') :
    p.timeout.Wp next' ok' (fun a s => Option.elim a (Cut s) fun a => Q a s) s := by
  induction p generalizing s with
  | ret a => exact hp
  | call e k ih =>
    refine ⟨hok s e hp.1, fun r s' hr => ?_⟩
    cases r with
    | none => exact hcut s e s' hp.1 hr
    | some r => exact ih r (hp.2 r s' (hnext s e r s' hr))

end Wp

/-- What the program that was raced has seen of its calls. -/
def raced (ev : Event (Timed E) (Timed.Reply R)) : Option (Event E R) :=
  match ev with
  | ⟨.race e, some r⟩ => some ⟨e, r⟩
  | _ => none

section Runs
variable {allowed : (e : Timed E) → Timed.Reply R e → Prop} {p : Prog E R α}
  {tr : List (Event (Timed E) (Timed.Reply R))}

theorem Runs.of_timeout_some {allowed' : (e : E) → R e → Prop} {a : α}
    (hr : ∀ e r, allowed (.race e) (some r) → allowed' e r)
    (h : Runs allowed p.timeout tr (some a)) : Runs allowed' p (tr.filterMap raced) a := by
  induction p generalizing tr with
  | ret b =>
    obtain ⟨rfl, hb⟩ := runs_ret.mp h
    obtain rfl := Option.some.inj hb
    exact .ret b
  | call e k ih =>
    obtain ⟨r, tr', hallowed, hk, rfl⟩ := runs_call.mp h
    cases r with
    | none =>
      obtain ⟨-, hnone⟩ := runs_ret.mp hk
      cases hnone
    | some r => exact .call (hr e r hallowed) (ih r hk)

theorem Runs.of_timeout_none (h : Runs allowed p.timeout tr none) :
    ∃ before e, tr.filterMap raced = before ++ [⟨e, none⟩] ∧ p.Trace (tr.filterMap raced) := by
  induction p generalizing tr with
  | ret b =>
    obtain ⟨-, hb⟩ := runs_ret.mp h
    cases hb
  | call e k ih =>
    obtain ⟨r, tr', -, hk, rfl⟩ := runs_call.mp h
    cases r with
    | none =>
      obtain ⟨rfl, -⟩ := runs_ret.mp hk
      exact ⟨[], e, rfl, .cut e k⟩
    | some r =>
      obtain ⟨before, e', hlast, htrace⟩ := ih r hk
      refine ⟨⟨e, some r⟩ :: before, e', ?_, .step htrace⟩
      exact congrArg (List.cons ⟨e, some r⟩) hlast

end Runs
end Prog
end OracleQa.Interaction
