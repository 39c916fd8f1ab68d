import OracleQa.Interaction.Trace

/-! Programs that report, between their calls, a value of their own: the marks are not answered, and
without them the program does what it did. -/

namespace OracleQa.Interaction

inductive Marked (E M : Type) : Type
  | call (e : E)
  | mark (m : M)

abbrev Marked.Reply {E M : Type} (R : E → Type) : Marked E M → Type
  | call e => R e
  | mark _ => Unit

namespace Prog
variable {E M : Type} {R : E → Type} {α β S : Type}

def unmarked : Prog E R α → Prog (Marked E M) (Marked.Reply R) α
  | ret a => ret a
  | call e k => call (.call e) fun r => unmarked (k r)

/-- The program without its reports. -/
def erase : Prog (Marked E M) (Marked.Reply R) α → Prog E R α
  | ret a => ret a
  | call (.call e) k => call e fun r => erase (k r)
  | call (.mark _) k => erase (k ())

@[simp] theorem erase_ret (a : α) :
    (ret a : Prog (Marked E M) (Marked.Reply R) α).erase = ret a := rfl

@[simp] theorem erase_call (e : E) (k : R e → Prog (Marked E M) (Marked.Reply R) α) :
    (call (.call e) k : Prog (Marked E M) (Marked.Reply R) α).erase =
      call e fun r => (k r).erase := rfl

@[simp] theorem erase_mark (m : M) (k : Unit → Prog (Marked E M) (Marked.Reply R) α) :
    (call (.mark m) k : Prog (Marked E M) (Marked.Reply R) α).erase = (k ()).erase := rfl

theorem erase_bind (p : Prog (Marked E M) (Marked.Reply R) α)
    (f : α → Prog (Marked E M) (Marked.Reply R) β) :
    (p >>= f).erase = (p.erase >>= fun a => (f a).erase) := by
  induction p with
  | ret a => rfl
  | call e k ih =>
    cases e with
    | call e => simp only [call_bind, erase_call, ih]
    | mark m => exact ih ()

@[simp] theorem erase_unmarked (p : Prog E R α) :
    (p.unmarked : Prog (Marked E M) (Marked.Reply R) α).erase = p := by
  induction p with
  | ret a => rfl
  | call e k ih => exact congrArg (call e) (funext ih)

theorem Calls.unmarked {ok : E → Prop} {p : Prog E R α} (h : p.Calls ok) :
    (p.unmarked : Prog (Marked E M) (Marked.Reply R) α).Calls fun c => ∃ e, c = .call e ∧ ok e := by
  induction p with
  | ret a => exact always_ret a
  | call e k ih => exact ⟨⟨e, rfl, h.1⟩, fun r _ => ih r (h.2 r trivial)⟩

end Prog
end OracleQa.Interaction
