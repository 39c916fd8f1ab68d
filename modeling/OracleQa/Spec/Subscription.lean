import OracleQa.Model.Monitor
import OracleQa.Spec.Recording

/-! The reconnect loop of the monitor and what it tells of itself: the process is one whose
notifications come over a subscription, and `/health` answers 200 only during one. -/

namespace OracleQa.Subscription
open Interaction Server

variable {crates : Crates} {cfg : OracleConfig} {l l' : Live} {a : LiveAct}

theorem turned_sys (h : Live.Turned l l') : l'.sys = l.sys := by
  cases h <;> rfl

theorem sys_reached (hl : Reach (Live.next crates cfg) (fun _ _ => True) (.fresh .init) l) :
    Reach (System.next crates cfg) (fun _ _ => True) .init l.sys := by
  induction hl with
  | first => exact .first
  | @next l l' a hl _ hnext ih =>
    by_cases ha : ∃ b now, a = .system b now
    · obtain ⟨b, now, rfl⟩ := ha
      exact .next ih trivial (Live.next_system hnext).2.1
    · rw [turned_sys (Live.next_turned hnext fun b now h => ha ⟨b, now, h⟩)]
      exact ih

/-! ## What the monitor tells of itself -/

structure Tuned (l : Live) : Prop where
  connected : l.monitor.websocketConnected = true → l.monitor.lastMonitorError = none ∧
    l.monitor.lastWebsocketConnectedAt.isSome = true ∧
    (l.phase = .streaming ∨ l.phase = .ended)
  streaming : l.phase = .streaming → l.monitor.websocketConnected = true
  /-- disconnected without an error: there has been no subscription, and no failure, so far -/
  silent : l.monitor.websocketConnected = false → l.monitor.lastMonitorError = none →
    l.monitor.lastWebsocketConnectedAt = none
  sleeping : l.phase = .sleeping →
    l.monitor.websocketConnected = false ∧ l.monitor.lastMonitorError.isSome = true
  /-- a notification is handled only while subscribed -/
  handling : l.sys.isIdle .monitor = false → l.phase = .streaming

theorem isIdle_of_ret {s : System} {t : TaskId} (h : s.tasks t = .ret ()) : s.isIdle t = true := by
  rw [System.isIdle, h]

theorem tuned_fresh {sys : System} (h : sys.isIdle .monitor = true) : Tuned (.fresh sys) :=
  ⟨fun h => (by cases h), fun h => (by cases h), fun _ _ => rfl, fun h => (by cases h),
    fun hbusy => absurd (h.symm.trans hbusy) Bool.noConfusion⟩

theorem tuned_turned (hl : Tuned l) (h : Live.Turned l l') : Tuned l' := by
  cases h with
  | same huptime requests =>
    exact ⟨hl.connected, hl.streaming, hl.silent, hl.sleeping, hl.handling⟩
  | @goes phase hidle hstreaming hsleeping hended hconnected =>
    refine ⟨fun hup => ?_, fun h => absurd h hstreaming, hl.silent, fun h => absurd h hsleeping,
      fun hbusy => absurd (hidle.symm.trans hbusy) Bool.noConfusion⟩
    obtain ⟨herror, hat, hphase⟩ := hl.connected hup
    refine ⟨herror, hat, Or.inr ?_⟩
    by_cases hstream : l.phase = .streaming
    · exact hended hstream
    · exact absurd (hphase.resolve_left hstream) (hconnected hstream _)
  | opened now hidle =>
    exact ⟨fun _ => ⟨rfl, rfl, Or.inl rfl⟩, fun _ => rfl, fun h => (by cases h),
      fun h => (by cases h), fun _ => rfl⟩
  | closed e hidle =>
    exact ⟨fun h => (by cases h), fun h => (by cases h), fun _ h => (by cases h),
      fun _ => ⟨rfl, rfl⟩, fun hbusy => absurd (hidle.symm.trans hbusy) Bool.noConfusion⟩

theorem tuned_follow (hl : Tuned l) {b : Act} {now : String} {sys : System}
    (hfresh : b = .crash ∨ b = .start → sys.isIdle .monitor = true)
    (hbusy : sys.isIdle .monitor = false → l.sys.isIdle .monitor = false ∨ l.phase = .streaming) :
    Tuned (l.follow b now sys) := by
  have hhandling : sys.isIdle .monitor = false → l.phase = .streaming :=
    fun h => (hbusy h).elim hl.handling id
  unfold Live.follow
  split
  · exact tuned_fresh (hfresh (Or.inl rfl))
  · exact tuned_fresh (hfresh (Or.inr rfl))
  · split
    · exact ⟨hl.connected, hl.streaming, hl.silent, hl.sleeping, hhandling⟩
    · exact ⟨hl.connected, hl.streaming, hl.silent, hl.sleeping, hhandling⟩
    · exact ⟨hl.connected, hl.streaming, hl.silent, hl.sleeping, hhandling⟩

theorem busy_next {s s' : System} {b : Act} (h : s.next crates cfg b = some s')
    (hbusy : s'.isIdle .monitor = false) :
    s.isIdle .monitor = false ∨ ∃ note, b = .notify note := by
  by_cases hconcerns : Recording.concerns b .monitor = false
  · left
    rw [System.isIdle, ← Recording.tasks_of_not_concerns h hconcerns]
    exact hbusy
  · cases b with
    | step t choose =>
      obtain ⟨c, k, r, hcode, -, -⟩ := System.next_step h
      obtain rfl : t = .monitor := by
        simpa [Recording.concerns] using hconcerns
      exact Or.inl (by rw [System.isIdle, hcode])
    | notify note => exact Or.inr ⟨note, rfl⟩
    | crash =>
      obtain rfl := Option.some.inj h
      cases hbusy
    | _ => simp [Recording.concerns] at hconcerns

theorem tuned_next (hl : Tuned l) (h : l.next crates cfg a = some l')
    (hdown : l.sys.up = false → ∀ t, l.sys.tasks t = .ret ()) : Tuned l' := by
  by_cases ha : ∃ b now, a = .system b now
  · obtain ⟨b, now, rfl⟩ := ha
    obtain ⟨hpermits, hnext, heq⟩ := Live.next_system h
    rw [heq]
    refine tuned_follow hl ?_ fun hbusy => ?_
    · rintro (rfl | rfl)
      · obtain hsys := Option.some.inj hnext
        rw [← hsys]
        rfl
      · obtain ⟨hup, hsys⟩ := Option.ite_none_left_eq_some.mp hnext
        rw [← Option.some.inj hsys]
        refine isIdle_of_ret ?_
        show Function.update l.sys.tasks .backfill (System.backfillBody crates cfg) .monitor =
          .ret ()
        rw [Function.update_of_ne (fun h => by cases h)]
        exact hdown (Bool.eq_false_of_not_eq_true hup) .monitor
    · rcases busy_next hnext hbusy with hold | ⟨note, rfl⟩
      · exact Or.inl hold
      · exact Or.inr (of_decide_eq_true hpermits)
  · exact tuned_turned hl (Live.next_turned h fun b now h => ha ⟨b, now, h⟩)

theorem tracked_of_reach {s : System}
    (hs : Reach (System.next crates cfg) (fun _ _ => True) .init s) : Recording.Tracked s :=
  hs.invariant Recording.tracked_init fun _ _ _ hs _ h => Recording.tracked_next hs h

theorem tuned_of_reach (hl : Reach (Live.next crates cfg) (fun _ _ => True) (.fresh .init) l) :
    Tuned l := by
  induction hl with
  | first => exact tuned_fresh rfl
  | next hl _ hnext ih =>
    exact tuned_next ih hnext (tracked_of_reach (sys_reached hl)).down

/-- The process inside is one of those that the other results are about, and the health record of
the monitor tells whether it is subscribed, or why it is not. -/
theorem subscription_tracked (crates : Crates) (cfg : OracleConfig) (l : Live)
    (hl : Reach (Live.next crates cfg) (fun _ _ => True) (.fresh .init) l) :
    Reach (System.next crates cfg) (fun _ _ => True) .init l.sys ∧ Tuned l :=
  ⟨sys_reached hl, tuned_of_reach hl⟩

def subscribe : List LiveAct :=
  [.system .start "", .connected (.ok ()), .subscribed (.ok ()),
    .opened "2026-01-01T00:00:00+00:00"]

theorem subscription_tracked_subscribe :
    ∃ l, runActs (Live.next .toy .toy) subscribe (.fresh .init) = some l ∧
      l.monitor.websocketConnected = true ∧
      Reach (System.next .toy .toy) (fun _ _ => True) .init l.sys ∧ Tuned l := by
  obtain ⟨l, hrun, hconnected⟩ : ∃ l, runActs (Live.next .toy .toy) subscribe (.fresh .init) =
      some l ∧ l.monitor.websocketConnected = true := ⟨_, rfl, rfl⟩
  exact ⟨l, hrun, hconnected,
    subscription_tracked .toy .toy l (Reach.first.runActs (fun _ _ _ => trivial) hrun)⟩

/-! ## `/health` -/

/-- What a request has seen: whether the node told its slot, and the health record if it was read
in the last call. -/
def seen (s : Bool × Option HealthSnapshot) : (p : Probe) → p.Reply → Bool × Option HealthSnapshot
  | .getSlot, r => (isOk r, none)
  | .readHealth, h => (s.1, some h)
  | _, _ => (s.1, none)

def Truthful (crates : Crates) (cfg : OracleConfig) (resp : Response)
    (s : Bool × Option HealthSnapshot) : Prop :=
  ∃ h registryOk balance, s.2 = some h ∧
    resp = ⟨if s.1 && h.monitor.websocketConnected then 200 else 503,
      .json (healthJson crates cfg s.1 registryOk balance h)⟩

def Tells (crates : Crates) (cfg : OracleConfig) (s : Bool × Option HealthSnapshot)
    (code : Handler Response) : Prop :=
  code.Wp (fun s p r s' => s' = seen s p r) (fun _ _ => True) (Truthful crates cfg) s

theorem health_tells : Tells crates cfg (false, none) (health crates cfg) := by
  have hread : ∀ (ok registryOk : Bool) (balance : Option Nat) s, s.1 = ok →
      Tells crates cfg s (probe .readHealth >>= fun runtime =>
        pure ⟨if ok && runtime.monitor.websocketConnected then 200 else 503,
          .json (healthJson crates cfg ok registryOk balance runtime)⟩) := by
    rintro ok registryOk balance s rfl
    refine ⟨trivial, ?_⟩
    rintro runtime s' rfl
    exact ⟨runtime, registryOk, balance, rfl, rfl⟩
  refine ⟨trivial, ?_⟩
  rintro slot s rfl
  refine ⟨trivial, ?_⟩
  rintro balance s rfl
  unfold registryProbe
  split
  · exact hread _ _ _ _ rfl
  · refine ⟨trivial, ?_⟩
    rintro r s rfl
    cases r with
    | ok status => exact hread _ _ _ _ rfl
    | error e => exact hread _ _ _ _ rfl

def Telling (crates : Crates) (cfg : OracleConfig) (l : Live) : Prop :=
  ∀ n q, l.requests n = some q → q.endpoint = .health →
    ∃ h, Tells crates cfg (q.slotOk, h) q.code

theorem answered_slotOk (q : Request) {p : Probe} {r : p.Reply} {k : p.Reply → Handler Response}
    (s : Option HealthSnapshot) : (q.answered p r k).slotOk = (seen (q.slotOk, s) p r).1 ∧
      (q.answered p r k).code = k r ∧ (q.answered p r k).endpoint = q.endpoint := by
  cases p <;> exact ⟨rfl, rfl, rfl⟩

theorem tells_answered {q : Request} {p : Probe} {k : p.Reply → Handler Response}
    (hcode : q.code = .call p k) {h : Option HealthSnapshot}
    (hq : Tells crates cfg (q.slotOk, h) q.code) (r : p.Reply) :
    Tells crates cfg (seen (q.slotOk, h) p r) (k r) := by
  rw [hcode] at hq
  exact hq.2 r _ rfl

theorem telling_next (hl : Telling crates cfg l) (h : l.next crates cfg a = some l') :
    Telling crates cfg l' := by
  intro n q' hq' hhealth
  rcases Live.requests_next h hq' with hold | ⟨e, rfl⟩ | ⟨q, p, k, r, hq, hcode, -, rfl⟩
  · exact hl n q' hold hhealth
  · obtain rfl : e = .health := hhealth
    exact ⟨none, health_tells⟩
  · obtain ⟨hslot, hk, he⟩ := answered_slotOk q none
    obtain ⟨seen₀, htells⟩ := hl n q hq (he.symm.trans hhealth)
    refine ⟨(seen (q.slotOk, seen₀) p (l.reply r p)).2, ?_⟩
    have hnext := tells_answered hcode htells (l.reply r p)
    cases p <;> exact hnext

theorem telling_of_reach (hl : Reach (Live.next crates cfg) (fun _ _ => True) (.fresh .init) l) :
    Telling crates cfg l :=
  hl.invariant (fun _ _ h => by cases h) fun _ _ _ hl _ h => telling_next hl h

theorem seen_read {s : Bool × Option HealthSnapshot} {p : Probe} {r : Except String Nat}
    {h : HealthSnapshot} (hseen : (seen s p (l.reply r p)).2 = some h) :
    h = ⟨l.monitor, l.sys.world.health⟩ := by
  cases p with
  | readHealth => exact (Option.some.inj hseen).symm
  | _ => cases hseen

/-- A request for `/health` is answered out of the state in which its last call is: with 200 if the
node told its slot and the monitor is subscribed, and with 503 otherwise. -/
theorem health_truthful (crates : Crates) (cfg : OracleConfig) (l l' : Live) (n : Nat)
    (r : Except String Nat) (q : Request) (resp : Response)
    (hl : Reach (Live.next crates cfg) (fun _ _ => True) (.fresh .init) l)
    (hnext : l.next crates cfg (.answer n r) = some l') (hq : l'.requests n = some q)
    (hhealth : q.endpoint = .health) (hcode : q.code = .ret resp) :
    (∃ registryOk balance, resp.body = .json (healthJson crates cfg q.slotOk registryOk balance
      ⟨l.monitor, l.sys.world.health⟩)) ∧
    (resp.status = 200 ∨ resp.status = 503) ∧
    (resp.status = 200 → q.slotOk = true ∧ (l.phase = .streaming ∨ l.phase = .ended)) ∧
    (q.slotOk = true → l.phase = .streaming → resp.status = 200) := by
  obtain ⟨q₀, p, k, hq₀, hcall, rfl⟩ := Live.answer_next hnext
  rw [Live.putRequest_self] at hq
  obtain rfl := Option.some.inj hq
  obtain ⟨hslot, hk, he⟩ := answered_slotOk q₀ none
  obtain ⟨seen₀, htells⟩ := telling_of_reach hl n q₀ hq₀ (he.symm.trans hhealth)
  have hdone := tells_answered hcall htells (l.reply r p)
  rw [← hk, hcode] at hdone
  obtain ⟨h, registryOk, balance, hread, rfl⟩ := hdone
  obtain rfl := seen_read hread
  have hok : (q₀.answered p (l.reply r p) k).slotOk = (seen (q₀.slotOk, seen₀) p (l.reply r p)).1 :=
    (answered_slotOk q₀ seen₀).1
  have htuned := tuned_of_reach hl
  rw [← hok]
  refine ⟨⟨registryOk, balance, rfl⟩, ?_, ?_, ?_⟩
  · dsimp only
    split
    · exact Or.inl rfl
    · exact Or.inr rfl
  · dsimp only
    split
    · next hboth =>
      obtain ⟨hslotOk, hconnected⟩ := Bool.and_eq_true_iff.mp hboth
      exact fun _ => ⟨hslotOk, (htuned.connected hconnected).2.2⟩
    · exact fun h => by cases h
  · intro hslotOk hstreaming
    exact if_pos (Bool.and_eq_true_iff.mpr ⟨hslotOk, htuned.streaming hstreaming⟩)

def askedHealth : List LiveAct :=
  subscribe ++ [.get 0 .health, .answer 0 (.ok 1), .answer 0 (.ok 1), .answer 0 (.ok 404)]

theorem health_truthful_subscribed : ∃ l l' q resp,
    runActs (Live.next .toy .toy) askedHealth (.fresh .init) = some l ∧
    l.next .toy .toy (.answer 0 (.ok 0)) = some l' ∧ l'.requests 0 = some q ∧
    q.code = .ret resp ∧ q.slotOk = true ∧ l.phase = .streaming ∧ resp.status = 200 := by
  obtain ⟨l, l', q, resp, hrun, hnext, hq, hhealth, hcode, hslot, hphase⟩ : ∃ l l' q resp,
      runActs (Live.next .toy .toy) askedHealth (.fresh .init) = some l ∧
      l.next .toy .toy (.answer 0 (.ok 0)) = some l' ∧ l'.requests 0 = some q ∧
      q.endpoint = .health ∧ q.code = .ret resp ∧ q.slotOk = true ∧ l.phase = .streaming :=
    ⟨_, _, _, _, rfl, rfl, rfl, rfl, rfl, rfl, rfl⟩
  have hl : Reach (Live.next .toy .toy) (fun _ _ => True) (.fresh .init) l :=
    Reach.first.runActs (fun _ _ _ => trivial) hrun
  exact ⟨l, l', q, resp, hrun, hnext, hq, hcode, hslot, hphase,
    (health_truthful .toy .toy l l' 0 _ q resp hl hnext hq hhealth hcode).2.2.2 hslot hphase⟩

end OracleQa.Subscription
