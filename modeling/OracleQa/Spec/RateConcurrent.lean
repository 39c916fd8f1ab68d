import OracleQa.Spec.RateLimit

/-! The rate limit of the operator endpoint while any number of requests are under way: each reads
the clock and comes to the queue later, and it is the reading that it leaves there. -/

namespace OracleQa.RateConcurrent
open Interaction Server
open RateLimit (clocked twoPerMs)

/-- An accepted request: what it read from the clock, and when it was pushed. -/
structure Acceptance where
  read : Nat
  pushed : Nat
  deriving DecidableEq

/-- The process with its clock and the requests under way. The queue with its true times and the
acceptances, newest first, are kept beside it. -/
structure Handlers where
  world : World
  clock : Nat
  code : List (Async (Except (Nat × String) Unit))
  queued : List Acceptance
  accepted : List Acceptance

inductive Act
  | tick (ns : Nat)
  | arrive (headers : Headers)
  | step (i : Nat)

namespace Handlers

def init (w : World) : Handlers := ⟨w.restart, 0, [], [], []⟩

def expired (window now : Nat) (a : Acceptance) : Bool := now - a.read > window

def note (s : Handlers) : (c : Call) → c.Reply → Handlers
  | .admitRequest now window _, admitted =>
    let queued := s.queued.dropWhile (expired window now)
    if admitted then
      { s with queued := queued ++ [⟨now, s.clock⟩], accepted := ⟨now, s.clock⟩ :: s.accepted }
    else { s with queued := queued }
  | _, _ => s

def answer (s : Handlers) (i : Nat) (c : Call)
    (k : c.Reply → Async (Except (Nat × String) Unit)) : Handlers :=
  let o := clocked.serveCall c (s.world, s.clock)
  { s.note c o.1 with world := o.2.1, code := s.code.set i (k o.1) }

def next (crates : Crates) (cfg : OracleConfig) (s : Handlers) : Act → Option Handlers
  | .tick ns => some { s with clock := s.clock + ns }
  | .arrive headers =>
    some { s with code := s.code ++ [authorizeManualEvaluate crates cfg headers] }
  | .step i =>
    match s.code[i]? with
    | some (.call c k) => some (s.answer i c k)
    | _ => none

def admitting (s : Handlers) (i : Nat) : Option Nat :=
  match s.code[i]? with
  | some (.call (.admitRequest now _ _) _) => some now
  | _ => none

end Handlers

/-- What a request drops from the queue was pushed more than a window before. -/
def Timely (cfg : OracleConfig) (s : Handlers) : Act → Prop
  | .step i => ∀ now ∈ s.admitting i,
    ∀ a ∈ s.queued.takeWhile (Handlers.expired (rateWindowNs cfg) now),
      rateWindowNs cfg < s.clock - a.pushed
  | _ => True

instance (cfg : OracleConfig) (s : Handlers) : (a : Act) → Decidable (Timely cfg s a)
  | .step i => inferInstanceAs (Decidable (∀ now ∈ s.admitting i,
    ∀ a ∈ s.queued.takeWhile (Handlers.expired (rateWindowNs cfg) now),
      rateWindowNs cfg < s.clock - a.pushed))
  | .tick _ => isTrue trivial
  | .arrive _ => isTrue trivial

/-- While the queue holds the true times nothing leaves it too early. -/
theorem timely_of_true_times {cfg : OracleConfig} {s : Handlers} {i : Nat}
    (hread : ∀ a ∈ s.queued, a.read = a.pushed) (hpast : ∀ now ∈ s.admitting i, now ≤ s.clock) :
    Timely cfg s (.step i) := by
  intro now hnow a ha
  have hexpired : Handlers.expired (rateWindowNs cfg) now a = true := List.mem_takeWhile_imp ha
  have htrue : a.read = a.pushed := hread a ((List.takeWhile_sublist _).subset ha)
  have hle := hpast now hnow
  simp only [Handlers.expired, decide_eq_true_eq] at hexpired
  omega

def IsRequest (cfg : OracleConfig) (c : Call) : Prop :=
  c = .instantNow ∨
    ∃ now, c = .admitRequest now (rateWindowNs cfg) cfg.manualEvaluateRateLimit

variable {crates : Crates} {cfg : OracleConfig} {s s' : Handlers} {a : Act}

theorem authorize_calls (headers : Headers) :
    (authorizeManualEvaluate crates cfg headers).Calls (IsRequest cfg) := by
  unfold authorizeManualEvaluate
  cases checkToken crates cfg headers with
  | error e => trivial
  | ok token =>
    refine ⟨Or.inl rfl, fun now _ => ⟨Or.inr ⟨now, rfl⟩, fun admitted _ => ?_⟩⟩
    cases admitted <;> trivial

structure Inv (cfg : OracleConfig) (s : Handlers) : Prop where
  queue : s.world.manualRequests = s.queued.map Acceptance.read
  kept : ∃ older, s.accepted = s.queued.reverse ++ older ∧
    ∀ a ∈ older, rateWindowNs cfg < s.clock - a.pushed
  past : ∀ a ∈ s.accepted, a.pushed ≤ s.clock
  descending : (s.accepted.map Acceptance.pushed).Pairwise (· ≥ ·)
  spaced : Spaced cfg.manualEvaluateRateLimit (rateWindowNs cfg)
    (s.accepted.map Acceptance.pushed)
  calls : ∀ p ∈ s.code, p.Calls (IsRequest cfg)

theorem inv_init (w : World) : Inv cfg (.init w) :=
  ⟨rfl, ⟨[], rfl, nofun⟩, nofun, .nil, trivial, nofun⟩

theorem inv_tick (hi : Inv cfg s) (ns : Nat) : Inv cfg { s with clock := s.clock + ns } := by
  obtain ⟨older, haccepted, holder⟩ := hi.kept
  refine ⟨hi.queue, ⟨older, haccepted, fun a ha => ?_⟩, fun a ha => ?_, hi.descending, hi.spaced,
    hi.calls⟩
  · have hexpired := holder a ha
    show _ < s.clock + ns - a.pushed
    omega
  · have hle := hi.past a ha
    show a.pushed ≤ s.clock + ns
    omega

theorem inv_code (hi : Inv cfg s) {code : List (Async (Except (Nat × String) Unit))}
    (hcode : ∀ p ∈ code, p.Calls (IsRequest cfg)) : Inv cfg { s with code := code } :=
  ⟨hi.queue, hi.kept, hi.past, hi.descending, hi.spaced, hcode⟩

section
variable {now : Nat}

def kept (cfg : OracleConfig) (s : Handlers) (now : Nat) : List Acceptance :=
  s.queued.dropWhile (Handlers.expired (rateWindowNs cfg) now)

theorem kept_accepted (hi : Inv cfg s)
    (htimely : ∀ a ∈ s.queued.takeWhile (Handlers.expired (rateWindowNs cfg) now),
      rateWindowNs cfg < s.clock - a.pushed) :
    ∃ older, s.accepted = (kept cfg s now).reverse ++ older ∧
      ∀ a ∈ older, rateWindowNs cfg < s.clock - a.pushed := by
  obtain ⟨older, haccepted, holder⟩ := hi.kept
  refine ⟨(s.queued.takeWhile (Handlers.expired (rateWindowNs cfg) now)).reverse ++ older, ?_, ?_⟩
  · rw [haccepted, ← List.append_assoc, ← List.reverse_append, kept,
      List.takeWhile_append_dropWhile]
  · intro a ha
    rcases List.mem_append.mp ha with ha | ha
    · exact htimely a (List.mem_reverse.mp ha)
    · exact holder a ha

theorem admitRequest_kept (hi : Inv cfg s) :
    s.world.admitRequest now (rateWindowNs cfg) cfg.manualEvaluateRateLimit =
      let room := (kept cfg s now).length < cfg.manualEvaluateRateLimit
      let queue := (kept cfg s now).map Acceptance.read
      (decide room, { s.world with manualRequests := if room then queue ++ [now] else queue }) := by
  have hqueue : (s.world.manualRequests.dropWhile fun t => now - t > rateWindowNs cfg) =
      (kept cfg s now).map Acceptance.read := by
    rw [hi.queue, List.dropWhile_map]
    rfl
  rw [World.admitRequest, hqueue, List.length_map]
  by_cases hroom : (kept cfg s now).length < cfg.manualEvaluateRateLimit
  · simp only [if_neg (Nat.not_le.mpr hroom), hroom, decide_true, if_true]
  · simp only [if_pos (Nat.not_lt.mp hroom), hroom, decide_false, if_false]

def entered (cfg : OracleConfig) (s : Handlers) (now : Nat) : Handlers :=
  let room := (kept cfg s now).length < cfg.manualEvaluateRateLimit
  let queue := (kept cfg s now).map Acceptance.read
  { s with
    world := { s.world with manualRequests := if room then queue ++ [now] else queue }
    queued := if room then kept cfg s now ++ [⟨now, s.clock⟩] else kept cfg s now
    accepted := if room then ⟨now, s.clock⟩ :: s.accepted else s.accepted }

theorem answer_entered (hi : Inv cfg s) (i : Nat)
    (k : Bool → Async (Except (Nat × String) Unit)) :
    s.answer i (.admitRequest now (rateWindowNs cfg) cfg.manualEvaluateRateLimit) k =
      { entered cfg s now with
        code := s.code.set i (k (decide ((kept cfg s now).length <
          cfg.manualEvaluateRateLimit))) } := by
  have hserve : clocked.serveCall
      (.admitRequest now (rateWindowNs cfg) cfg.manualEvaluateRateLimit) (s.world, s.clock) =
        let o := s.world.admitRequest now (rateWindowNs cfg) cfg.manualEvaluateRateLimit
        (o.1, (o.2, s.clock)) := rfl
  rw [Handlers.answer, hserve, admitRequest_kept hi]
  unfold entered Handlers.note
  by_cases hroom : (kept cfg s now).length < cfg.manualEvaluateRateLimit
  · simp only [hroom, decide_true, if_true]
    rfl
  · simp only [hroom, decide_false, if_false]
    rfl

theorem inv_entered (hi : Inv cfg s)
    (htimely : ∀ a ∈ s.queued.takeWhile (Handlers.expired (rateWindowNs cfg) now),
      rateWindowNs cfg < s.clock - a.pushed) : Inv cfg (entered cfg s now) := by
  obtain ⟨older, haccepted, holder⟩ := kept_accepted hi htimely
  unfold entered
  by_cases hroom : (kept cfg s now).length < cfg.manualEvaluateRateLimit
  · simp only [if_pos hroom]
    refine ⟨?_, ⟨older, ?_, holder⟩, ?_, ?_, ⟨?_, hi.spaced⟩, hi.calls⟩
    · simp
    · simp [haccepted]
    · exact List.forall_mem_cons.mpr ⟨le_rfl, hi.past⟩
    · refine List.pairwise_cons.mpr ⟨fun t ht => ?_, hi.descending⟩
      obtain ⟨a, ha, rfl⟩ := List.mem_map.mp ht
      exact hi.past a ha
    · -- all acceptances within the last window are among those in the queue
      have hexpired : ∀ t ∈ older.map Acceptance.pushed, rateWindowNs cfg < s.clock - t := by
        intro t ht
        obtain ⟨a, ha, rfl⟩ := List.mem_map.mp ht
        exact holder a ha
      have hfew : (recent (rateWindowNs cfg) s.clock ((kept cfg s now).reverse.map
          Acceptance.pushed ++ older.map Acceptance.pushed)).length ≤ _ :=
        recent_append_length hexpired
      rw [← List.map_append, ← haccepted, List.length_map, List.length_reverse] at hfew
      exact hfew.trans_lt hroom
  · simp only [if_neg hroom]
    exact ⟨rfl, ⟨older, haccepted, holder⟩, hi.past, hi.descending, hi.spaced, hi.calls⟩

end

theorem inv_step (hi : Inv cfg s) {i : Nat} (hg : Timely cfg s (.step i))
    (h : s.next crates cfg (.step i) = some s') : Inv cfg s' := by
  rw [Handlers.next] at h
  split at h
  · next c k hcode =>
    obtain rfl := Option.some.inj h
    have hcalls : (Prog.call c k).Calls (IsRequest cfg) :=
      hi.calls _ (List.mem_of_getElem? hcode)
    have hset : ∀ r, ∀ p ∈ s.code.set i (k r), p.Calls (IsRequest cfg) := by
      intro r p hp
      rcases List.mem_or_eq_of_mem_set hp with hp | rfl
      · exact hi.calls p hp
      · exact hcalls.2 r trivial
    -- the reading of the clock, or the section under the lock
    rcases hcalls.1 with rfl | ⟨now, rfl⟩
    · exact inv_code hi (hset _)
    · have hadmitting : s.admitting i = some now := by
        rw [Handlers.admitting, hcode]
      rw [answer_entered hi]
      exact inv_code (inv_entered hi (hg now hadmitting)) (hset _)
  · cases h

theorem inv_next (hi : Inv cfg s) (hg : Timely cfg s a) (h : s.next crates cfg a = some s') :
    Inv cfg s' := by
  cases a with
  | tick ns =>
    obtain rfl := Option.some.inj h
    exact inv_tick hi ns
  | arrive headers =>
    obtain rfl := Option.some.inj h
    refine inv_code hi fun p hp => ?_
    rcases List.mem_append.mp hp with hp | hp
    · exact hi.calls p hp
    · rw [List.mem_singleton.mp hp]
      exact authorize_calls headers
  | step i => exact inv_step hi hg h

/-- In every run in which no request drops from the queue what was pushed within the last window,
no interval of the length of the window holds more acceptances than the limit. -/
theorem acceptances_spaced (crates : Crates) (cfg : OracleConfig) (w : World) (s : Handlers)
    (hs : Reach (Handlers.next crates cfg) (Timely cfg) (.init w) s) (x : Nat) :
    ((s.accepted.map Acceptance.pushed).filter fun t => x ≤ t ∧ t ≤ x + rateWindowNs cfg).length ≤
      cfg.manualEvaluateRateLimit := by
  have hinv : Inv cfg s := hs.invariant (inv_init w) fun _ _ _ hi hg h => inv_next hi hg h
  exact hinv.spaced.interval_le hinv.descending x

def onePerMs : OracleConfig := { twoPerMs with manualEvaluateRateLimit := 1 }

def prompt : List Act :=
  [.arrive ⟨none, none⟩, .step 0, .step 0, .tick 1000001, .arrive ⟨none, none⟩, .step 1, .step 1]

theorem acceptances_spaced_prompt :
    ∃ s, runChecked (Handlers.next .toy onePerMs) (fun s a => decide (Timely onePerMs s a)) prompt
        (.init .init) = some s ∧ s.accepted.map Acceptance.pushed = [1000001, 0] ∧
      ((s.accepted.map Acceptance.pushed).filter fun t =>
        1 ≤ t ∧ t ≤ 1 + rateWindowNs onePerMs).length ≤ 1 := by
  have hsummary : (runChecked (Handlers.next .toy onePerMs)
      (fun s a => decide (Timely onePerMs s a)) prompt (.init .init)).map
        (fun s => s.accepted.map Acceptance.pushed) = some [1000001, 0] := by
    decide +kernel
  obtain ⟨s, hrun, hpushed⟩ := Option.map_eq_some_iff.mp hsummary
  have hreach : Reach (Handlers.next .toy onePerMs) (Timely onePerMs) (.init .init) s :=
    Reach.first.runChecked (fun _ _ h => of_decide_eq_true h) hrun
  exact ⟨s, hrun, hpushed, acceptances_spaced .toy onePerMs .init s hreach 1⟩

def delayed : List Act :=
  [.arrive ⟨none, none⟩, .arrive ⟨none, none⟩, .step 0, .tick 1000000, .step 0, .tick 1, .step 1,
    .step 1]

theorem acceptances_crowded : ¬ ∀ (cfg : OracleConfig) (s : Handlers) (x : Nat),
    Reach (Handlers.next .toy cfg) (fun _ _ => True) (.init .init) s →
    ((s.accepted.map Acceptance.pushed).filter fun t => x ≤ t ∧ t ≤ x + rateWindowNs cfg).length ≤
      cfg.manualEvaluateRateLimit := by
  intro h
  have hsummary : (runActs (Handlers.next .toy onePerMs) delayed (.init .init)).map
      (fun s => s.accepted.map Acceptance.pushed) = some [1000001, 1000000] := by
    decide +kernel
  obtain ⟨s, hrun, hpushed⟩ := Option.map_eq_some_iff.mp hsummary
  have hcrowded := h onePerMs s 1000000 (Reach.first.runActs (fun _ _ _ => trivial) hrun)
  rw [hpushed] at hcrowded
  exact absurd hcrowded (by decide)

end OracleQa.RateConcurrent
