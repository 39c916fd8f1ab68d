import OracleQa.Model.Endpoints
import OracleQa.Model.System

/-! The process with the reconnect loop of `monitor_deliveries` around the notifications, and with
the requests to the endpoints that only read. -/

namespace OracleQa
open Interaction Server

inductive MonitorPhase
  /-- `PubsubClient::new` -/
  | connecting
  /-- `logs_subscribe` -/
  | subscribing
  /-- the lock under which the subscription is noted -/
  | opening
  | streaming
  /-- the lock under which `error` is noted -/
  | closing (error : String)
  | sleeping
  deriving DecidableEq

abbrev MonitorPhase.ended : MonitorPhase := .closing "log subscription stream ended"

def MonitorPhase.attempted (next : MonitorPhase) : Except String Unit → MonitorPhase
  | .ok () => next
  | .error e => .closing e

structure Request where
  endpoint : Endpoint
  code : Handler Response
  slotOk : Bool

def Request.answered (q : Request) :
    (p : Probe) → p.Reply → (p.Reply → Handler Response) → Request
  | .getSlot, r, k => { q with code := k r, slotOk := isOk r }
  | _, r, k => { q with code := k r }

structure Live where
  sys : System
  phase : MonitorPhase
  monitor : MonitorHealth
  lastEvaluationAt : Option String
  uptime : Nat
  requests : Nat → Option Request

inductive LiveAct
  /-- a time stamp is taken where the step takes one -/
  | system (a : Act) (now : String)
  | connected (r : Except String Unit)
  | subscribed (r : Except String Unit)
  | opened (now : String)
  | ended
  | closed
  | slept
  | elapse (secs : Nat)
  | get (n : Nat) (e : Endpoint)
  | hangUp (n : Nat)
  /-- a request has its next call answered, which `r` is for if it goes to the network -/
  | answer (n : Nat) (r : Except String Nat)

namespace Live

def fresh (sys : System) : Live := ⟨sys, .connecting, .default, none, 0, fun _ => none⟩

def reply (l : Live) (r : Except String Nat) : (p : Probe) → p.Reply
  | .getSlot => r
  | .getBalance _ => r
  | .head _ => r
  | .readHealth => ⟨l.monitor, l.sys.world.health⟩
  | .readStats => ⟨l.sys.world.stats, l.lastEvaluationAt⟩
  | .elapsedSecs => l.uptime

def called (s : System) : Act → Option TCall
  | .step t _ =>
    match s.tasks t with
    | .call c _ => some c
    | .ret _ => none
  | _ => none

def follow (l : Live) (a : Act) (now : String) (sys : System) : Live :=
  match a with
  | .crash => fresh sys
  | .start => fresh sys
  | a =>
    match called l.sys a with
    | some (.await (.observeSlot _)) =>
      { l with sys := sys, monitor := { l.monitor with lastWebsocketMessageAt := some now } }
    | some (.await (.countSettled _)) => { l with sys := sys, lastEvaluationAt := some now }
    | _ => { l with sys := sys }

def permits (l : Live) : Act → Bool
  | .notify _ => l.phase = .streaming
  | _ => true

/-- The monitor waits in its loop and not inside of a notification. -/
def waits (l : Live) (phase : MonitorPhase) : Bool :=
  l.sys.up && l.sys.isIdle .monitor && l.phase = phase

def putRequest (l : Live) (n : Nat) (q : Option Request) : Live :=
  { l with requests := Function.update l.requests n q }

def next (crates : Crates) (cfg : OracleConfig) (l : Live) : LiveAct → Option Live
  | .system a now =>
    if l.permits a then (l.sys.next crates cfg a).map (l.follow a now) else none
  | .connected r =>
    if l.waits .connecting then some { l with phase := .attempted .subscribing r } else none
  | .subscribed r =>
    if l.waits .subscribing then some { l with phase := .attempted .opening r } else none
  | .opened now =>
    if l.waits .opening then
      some { l with
        phase := .streaming
        monitor := { l.monitor with
          websocketConnected := true
          lastWebsocketConnectedAt := some now
          lastMonitorError := none } }
    else none
  | .ended =>
    if l.waits .streaming then some { l with phase := .ended } else none
  | .closed =>
    match l.phase with
    | .closing e =>
      if l.sys.up && l.sys.isIdle .monitor then
        some { l with
          phase := .sleeping
          monitor := { l.monitor with
            websocketConnected := false
            lastMonitorError := some e } }
      else none
    | _ => none
  | .slept => if l.waits .sleeping then some { l with phase := .connecting } else none
  | .elapse secs => if l.sys.up then some { l with uptime := l.uptime + secs } else none
  | .get n e =>
    if l.sys.up && (l.requests n).isNone then
      some (l.putRequest n (some ⟨e, e.handler crates cfg, false⟩))
    else none
  | .hangUp n => some (l.putRequest n none)
  | .answer n r =>
    match l.requests n with
    | none => none
    | some q =>
      match q.code with
      | .ret _ => none
      | .call p k => some (l.putRequest n (some (q.answered p (l.reply r p) k)))

/-! ## The shapes of a step -/

variable {crates : Crates} {cfg : OracleConfig} {l l' : Live} {a : LiveAct}

theorem follow_sys (l : Live) (b : Act) (now : String) (sys : System) :
    (l.follow b now sys).sys = sys := by
  unfold follow
  split
  · rfl
  · rfl
  · split <;> rfl

theorem next_system {b : Act} {now : String} (h : l.next crates cfg (.system b now) = some l') :
    l.permits b = true ∧ l.sys.next crates cfg b = some l'.sys ∧ l' = l.follow b now l'.sys := by
  obtain ⟨hpermits, hnext⟩ := Option.ite_none_right_eq_some.mp h
  obtain ⟨sys, hsys, rfl⟩ := Option.map_eq_some_iff.mp hnext
  rw [follow_sys]
  exact ⟨hpermits, hsys, rfl⟩

inductive Turned (l : Live) : Live → Prop
  | same {uptime : Nat} (huptime : l.uptime ≤ uptime) (requests : Nat → Option Request) :
      Turned l { l with uptime := uptime, requests := requests }
  | goes {phase : MonitorPhase} (hidle : l.sys.isIdle .monitor = true)
      (hstreaming : phase ≠ .streaming) (hsleeping : phase ≠ .sleeping)
      (hended : l.phase = .streaming → phase = .ended)
      (hconnected : l.phase ≠ .streaming → ∀ e, l.phase ≠ .closing e) :
      Turned l { l with phase := phase }
  | opened (now : String) (hidle : l.sys.isIdle .monitor = true) : Turned l { l with
      phase := .streaming
      monitor := { l.monitor with
        websocketConnected := true
        lastWebsocketConnectedAt := some now
        lastMonitorError := none } }
  | closed (e : String) (hidle : l.sys.isIdle .monitor = true) : Turned l { l with
      phase := .sleeping
      monitor := { l.monitor with
        websocketConnected := false
        lastMonitorError := some e } }

theorem waits_iff {phase : MonitorPhase} (h : l.waits phase = true) :
    l.sys.isIdle .monitor = true ∧ l.phase = phase := by
  obtain ⟨hup, hphase⟩ := Bool.and_eq_true_iff.mp h
  exact ⟨(Bool.and_eq_true_iff.mp hup).2, of_decide_eq_true hphase⟩

theorem next_turned (h : l.next crates cfg a = some l') (ha : ∀ b now, a ≠ .system b now) :
    Turned l l' := by
  have hgoes : ∀ {phase phase' : MonitorPhase}, l.waits phase = true → phase' ≠ .streaming →
      phase' ≠ .sleeping → (phase = .streaming → phase' = .ended) →
      (∀ e, phase ≠ .closing e) → Turned l { l with phase := phase' } := by
    intro phase phase' hwaits hstreaming hsleeping hended hopen
    obtain ⟨hidle, rfl⟩ := waits_iff hwaits
    exact .goes hidle hstreaming hsleeping hended fun _ => hopen
  have hattempt : ∀ {phase phase' : MonitorPhase} (r : Except String Unit), l.waits phase = true →
      phase ≠ .streaming → (∀ e, phase ≠ .closing e) → phase' ≠ .streaming → phase' ≠ .sleeping →
      Turned l { l with phase := phase'.attempted r } := by
    intro phase phase' r hwaits hstreaming hopen hstreaming' hsleeping'
    cases r with
    | ok u => exact hgoes hwaits hstreaming' hsleeping' (fun h => absurd h hstreaming) hopen
    | error e =>
      exact hgoes hwaits (fun h => by cases h) (fun h => by cases h)
        (fun h => absurd h hstreaming) hopen
  cases a with
  | system b now => exact absurd rfl (ha b now)
  | connected r =>
    obtain ⟨hwaits, hnext⟩ := Option.ite_none_right_eq_some.mp h
    obtain rfl := Option.some.inj hnext
    exact hattempt r hwaits (fun h => by cases h) (fun _ h => by cases h) (fun h => by cases h)
      (fun h => by cases h)
  | subscribed r =>
    obtain ⟨hwaits, hnext⟩ := Option.ite_none_right_eq_some.mp h
    obtain rfl := Option.some.inj hnext
    exact hattempt r hwaits (fun h => by cases h) (fun _ h => by cases h) (fun h => by cases h)
      (fun h => by cases h)
  | opened now =>
    obtain ⟨hwaits, hnext⟩ := Option.ite_none_right_eq_some.mp h
    obtain rfl := Option.some.inj hnext
    exact .opened now (waits_iff hwaits).1
  | ended =>
    obtain ⟨hwaits, hnext⟩ := Option.ite_none_right_eq_some.mp h
    obtain rfl := Option.some.inj hnext
    exact hgoes hwaits (fun h => by cases h) (fun h => by cases h) (fun _ => rfl)
      fun _ h => by cases h
  | closed =>
    simp only [next] at h
    split at h
    · next e _ =>
      obtain ⟨hup, hnext⟩ := Option.ite_none_right_eq_some.mp h
      obtain rfl := Option.some.inj hnext
      exact .closed e (Bool.and_eq_true_iff.mp hup).2
    · cases h
  | slept =>
    obtain ⟨hwaits, hnext⟩ := Option.ite_none_right_eq_some.mp h
    obtain rfl := Option.some.inj hnext
    exact hgoes hwaits (fun h => by cases h) (fun h => by cases h) (fun h => by cases h)
      fun _ h => by cases h
  | elapse secs =>
    obtain ⟨-, hnext⟩ := Option.ite_none_right_eq_some.mp h
    obtain rfl := Option.some.inj hnext
    exact .same (Nat.le_add_right ..) _
  | get n e =>
    obtain ⟨-, hnext⟩ := Option.ite_none_right_eq_some.mp h
    obtain rfl := Option.some.inj hnext
    exact .same le_rfl _
  | hangUp n =>
    obtain rfl := Option.some.inj h
    exact .same le_rfl _
  | answer n r =>
    simp only [next] at h
    split at h
    · cases h
    · split at h
      · cases h
      · obtain rfl := Option.some.inj h
        exact .same le_rfl _

@[simp] theorem putRequest_self (l : Live) (n : Nat) (q : Option Request) :
    (l.putRequest n q).requests n = q := Function.update_self ..

theorem putRequest_of_ne {n m : Nat} (h : n ≠ m) {q : Option Request} :
    (l.putRequest m q).requests n = l.requests n := Function.update_of_ne h ..

theorem answer_next {n : Nat} {r : Except String Nat}
    (h : l.next crates cfg (.answer n r) = some l') : ∃ q p k, l.requests n = some q ∧
      q.code = .call p k ∧ l' = l.putRequest n (some (q.answered p (l.reply r p) k)) := by
  simp only [next] at h
  split at h
  · cases h
  · next q hq =>
    split at h
    · cases h
    · next p k hcode => exact ⟨q, p, k, hq, hcode, (Option.some.inj h).symm⟩

theorem requests_next (h : l.next crates cfg a = some l') {n : Nat} {q' : Request}
    (hq' : l'.requests n = some q') :
    l.requests n = some q' ∨ (∃ e : Endpoint, q' = ⟨e, e.handler crates cfg, false⟩) ∨
      ∃ q p k r, l.requests n = some q ∧ q.code = .call p k ∧ a = .answer n r ∧
        q' = q.answered p (l.reply r p) k := by
  have hput : ∀ (m : Nat) (q : Option Request), (l.putRequest m q).requests n = some q' →
      l.requests n = some q' ∨ (n = m ∧ q = some q') := by
    intro m q hm
    by_cases hnm : n = m
    · subst hnm
      rw [putRequest_self] at hm
      exact Or.inr ⟨rfl, hm⟩
    · rw [putRequest_of_ne hnm] at hm
      exact Or.inl hm
  cases a with
  | system b now =>
    obtain ⟨-, hnext, heq⟩ := next_system h
    rw [heq] at hq'
    unfold follow at hq'
    split at hq'
    · cases hq'
    · cases hq'
    · split at hq' <;> exact Or.inl hq'
  | get m e =>
    obtain ⟨-, hnext⟩ := Option.ite_none_right_eq_some.mp h
    obtain rfl := Option.some.inj hnext
    rcases hput m _ hq' with hold | ⟨-, hq⟩
    · exact Or.inl hold
    · exact Or.inr (Or.inl ⟨e, (Option.some.inj hq).symm⟩)
  | hangUp m =>
    obtain rfl := Option.some.inj h
    rcases hput m _ hq' with hold | ⟨-, hq⟩
    · exact Or.inl hold
    · cases hq
  | answer m r =>
    obtain ⟨q, p, k, hq, hcode, rfl⟩ := answer_next h
    rcases hput m _ hq' with hold | ⟨rfl, heq⟩
    · exact Or.inl hold
    · exact Or.inr (Or.inr ⟨q, p, k, r, hq, hcode, rfl, (Option.some.inj heq).symm⟩)
  | closed =>
    simp only [next] at h
    split at h
    · obtain ⟨-, hnext⟩ := Option.ite_none_right_eq_some.mp h
      obtain rfl := Option.some.inj hnext
      exact Or.inl hq'
    · cases h
  | _ =>
    obtain ⟨-, hnext⟩ := Option.ite_none_right_eq_some.mp h
    obtain rfl := Option.some.inj hnext
    exact Or.inl hq'

end Live
end OracleQa
