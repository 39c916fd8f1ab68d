import OracleQa.Interaction.Machine
import OracleQa.Interaction.SlidingWindow
import OracleQa.Model.Server
import OracleQa.Spec.Sequential

/-! The rate limit of the operator endpoint while requests pass through the queue one at a time:
which of them are accepted, and that refused tokens leave no trace. -/

namespace OracleQa.RateLimit
open Interaction Server Text

structure Request where
  headers : Headers
  now : Nat

def clocked : Outside Nat where
  reply
    | .instantNow, now => (now, now)
    | c, now => (c.toyReply, now)
  deadline _ now := (.finished (), now)
  now _ := 0

def tooMany : Nat × String := (429, "Rate limit exceeded")

section
variable (crates : Crates) (cfg : OracleConfig)

def authorize (r : Request) (w : World) : Except (Nat × String) Unit × World :=
  let o := (authorizeManualEvaluate crates cfg r.headers).run clocked.serveCall (w, r.now)
  (o.1, o.2.1)

variable {crates cfg} {r : Request} {w : World}

theorem authorize_refused {e : Nat × String} (h : checkToken crates cfg r.headers = .error e) :
    authorize crates cfg r w = (.error e, w) := by
  rw [authorize, authorizeManualEvaluate, h]
  rfl

theorem authorize_checked (h : checkToken crates cfg r.headers = .ok ()) :
    authorize crates cfg r w =
      let admitted := w.admitRequest r.now (rateWindowNs cfg) cfg.manualEvaluateRateLimit
      (if admitted.1 then .ok () else .error tooMany, admitted.2) := by
  rw [authorize, authorizeManualEvaluate, h]
  show (let o := Prog.run clocked.serveCall (if (w.admitRequest r.now (rateWindowNs cfg)
      cfg.manualEvaluateRateLimit).1 then _ else _) _; (o.1, o.2.1)) = _
  dsimp only
  split <;> rfl

end

/-! ## Which requests are accepted -/

/-- The process between two requests, with the readings of those it accepted, newest first. -/
structure Limiter where
  world : World
  accepted : List Nat

section
variable (crates : Crates) (cfg : OracleConfig)

def Limiter.handle (s : Limiter) (r : Request) : Limiter :=
  let o := authorize crates cfg r s.world
  ⟨o.2, if o.1 = .ok () then r.now :: s.accepted else s.accepted⟩

def Limiter.after (w : World) (rs : List Request) : Limiter :=
  rs.foldl (Limiter.handle crates cfg) ⟨w.restart, []⟩

structure Limiter.Inv (clock : Nat) (s : Limiter) : Prop where
  tracks : Tracks cfg.manualEvaluateRateLimit (rateWindowNs cfg) clock s.accepted
    s.world.manualRequests
  spaced : Spaced cfg.manualEvaluateRateLimit (rateWindowNs cfg) s.accepted
  descending : s.accepted.Pairwise (· ≥ ·)

end

section
variable {crates : Crates} {cfg : OracleConfig} {clock : Nat} {s : Limiter} {r : Request}
  {w : World}

theorem admitRequest_sorted {now window limit : Nat}
    (hsorted : w.manualRequests.Pairwise (· ≤ ·)) :
    let queue := recent window now w.manualRequests
    w.admitRequest now window limit =
      (decide (queue.length < limit),
        { w with manualRequests := if queue.length < limit then queue ++ [now] else queue }) := by
  intro queue
  have hqueue : (w.manualRequests.dropWhile fun t => now - t > window) = queue :=
    dropWhile_eq_recent hsorted
  rw [World.admitRequest, hqueue]
  by_cases hroom : queue.length < limit
  · rw [if_neg (by omega), if_pos hroom, decide_eq_true hroom]
  · rw [if_pos (by omega), if_neg hroom, decide_eq_false hroom]

theorem Limiter.Inv.authorize (h : s.Inv cfg clock) (hclock : clock ≤ r.now)
    (hchecked : checkToken crates cfg r.headers = .ok ()) :
    let queue := recent (rateWindowNs cfg) r.now s.world.manualRequests
    let room := (recent (rateWindowNs cfg) r.now s.accepted).length < cfg.manualEvaluateRateLimit
    RateLimit.authorize crates cfg r s.world = (if room then .ok () else .error tooMany,
      { s.world with manualRequests := if room then queue ++ [r.now] else queue }) := by
  intro queue room
  have hroom : queue.length < cfg.manualEvaluateRateLimit ↔ room := by
    show (recent _ _ _).length < _ ↔ (recent _ _ _).length < _
    rw [h.tracks.recent_length hclock]
  rw [authorize_checked hchecked, admitRequest_sorted h.tracks.sorted]
  simp only [decide_eq_true_eq]
  rw [if_congr hroom rfl rfl, if_congr hroom rfl rfl]

theorem Limiter.Inv.handle (h : s.Inv cfg clock) (hclock : clock ≤ r.now)
    (hchecked : checkToken crates cfg r.headers = .ok ()) :
    (s.handle crates cfg r).Inv cfg r.now := by
  have hanswer := h.authorize hclock hchecked
  have hexpired := h.tracks.expire hclock
  unfold Limiter.handle
  rw [hanswer]
  by_cases hroom : (recent (rateWindowNs cfg) r.now s.accepted).length <
      cfg.manualEvaluateRateLimit
  · simp only [if_pos hroom]
    have hqueue : (recent (rateWindowNs cfg) r.now s.world.manualRequests).length <
        cfg.manualEvaluateRateLimit := by
      rw [h.tracks.recent_length hclock]
      exact hroom
    have hlast : ∀ t ∈ s.accepted, r.now ≥ t := fun t ht => hexpired.past_le t ht
    exact ⟨hexpired.push hqueue, ⟨hroom, h.spaced⟩, List.pairwise_cons.mpr ⟨hlast, h.descending⟩⟩
  · simp only [if_neg hroom, reduceCtorEq, if_false]
    exact ⟨hexpired, h.spaced, h.descending⟩

theorem Limiter.Inv.foldl {rs : List Request} {now : Nat} (h : s.Inv cfg clock)
    (hchecked : ∀ r ∈ rs, checkToken crates cfg r.headers = .ok ())
    (hordered : rs.Pairwise fun r r' => r.now ≤ r'.now) (hfirst : ∀ r ∈ rs, clock ≤ r.now)
    (hlast : ∀ r ∈ rs, r.now ≤ now) (hclock : clock ≤ now) :
    (rs.foldl (Limiter.handle crates cfg) s).Inv cfg now := by
  induction rs generalizing s clock with
  | nil => exact ⟨h.tracks.mono hclock, h.spaced, h.descending⟩
  | cons r rs ih =>
    obtain ⟨hnext, hordered⟩ := List.pairwise_cons.mp hordered
    have hstep := h.handle (hfirst r List.mem_cons_self) (hchecked r List.mem_cons_self)
    exact ih hstep (fun r' hr' => hchecked r' (List.mem_cons_of_mem r hr')) hordered hnext
      (fun r' hr' => hlast r' (List.mem_cons_of_mem r hr')) (hlast r List.mem_cons_self)

theorem Limiter.Inv.after (w : World) {rs : List Request} {now : Nat}
    (hchecked : ∀ r ∈ rs, checkToken crates cfg r.headers = .ok ())
    (hordered : rs.Pairwise fun r r' => r.now ≤ r'.now) (hlast : ∀ r ∈ rs, r.now ≤ now) :
    (Limiter.after crates cfg w rs).Inv cfg now := by
  have hinit : (Limiter.mk w.restart []).Inv cfg 0 := ⟨.empty, trivial, .nil⟩
  exact hinit.foldl hchecked hordered (fun _ _ => Nat.zero_le _) hlast (Nat.zero_le _)

/-- However many authorized requests passed before, a request is accepted exactly while fewer
than the limit of the accepted ones lie within a window before it. -/
theorem authorize_exact (w : World) {before : List Request}
    (hchecked : ∀ r' ∈ before ++ [r], checkToken crates cfg r'.headers = .ok ())
    (hclock : (before ++ [r]).Pairwise fun r r' => r.now ≤ r'.now) :
    let s := Limiter.after crates cfg w before
    let s' := Limiter.after crates cfg w (before ++ [r])
    (RateLimit.authorize crates cfg r s.world).1 =
        (if (s.accepted.filter fun t => r.now - t ≤ rateWindowNs cfg).length <
          cfg.manualEvaluateRateLimit then .ok () else .error tooMany) ∧
      s'.world.manualRequests.Pairwise (· ≤ ·) ∧
      s'.world.manualRequests.length ≤ cfg.manualEvaluateRateLimit ∧
      ∀ x, (s'.accepted.filter fun t => x ≤ t ∧ t ≤ x + rateWindowNs cfg).length ≤
        cfg.manualEvaluateRateLimit := by
  intro s s'
  obtain ⟨hbefore, -, hle⟩ := List.pairwise_append.mp hclock
  have hinv : s.Inv cfg r.now := .after w
    (fun r' hr' => hchecked r' (List.mem_append_left _ hr')) hbefore
    fun r' hr' => hle r' hr' r List.mem_cons_self
  have hr : checkToken crates cfg r.headers = .ok () :=
    hchecked r (List.mem_append_right _ List.mem_cons_self)
  have hlast : s' = s.handle crates cfg r := List.foldl_concat _ _ _ _
  have hnext : s'.Inv cfg r.now := by
    rw [hlast]
    exact hinv.handle le_rfl hr
  refine ⟨?_, hnext.tracks.sorted, hnext.tracks.bounded,
    fun x => hnext.spaced.interval_le hnext.descending x⟩
  rw [hinv.authorize le_rfl hr]
  rfl

end

def twoPerMs : OracleConfig :=
  { OracleConfig.toy with manualEvaluateRateLimit := 2, manualEvaluateRateWindowMs := 1 }

theorem authorize_exact_edge :
    let s := Limiter.after .toy twoPerMs .init [⟨⟨none, none⟩, 0⟩, ⟨⟨none, none⟩, 5⟩]
    let r : Request := ⟨⟨none, none⟩, 1000000⟩
    s.accepted = [5, 0] ∧ (authorize .toy twoPerMs r s.world).1 = .error tooMany := by
  intro s r
  have haccepted : s.accepted = [5, 0] := by decide +kernel
  refine ⟨haccepted, ?_⟩
  rw [(authorize_exact .init (fun _ _ => rfl) (by decide)).1, haccepted]
  rfl

/-! ## Refused tokens leave no trace -/

def Presents (headers : Headers) (token : List Char) : Prop :=
  bearerToken headers = some token ∨ headers.xOracleToken.bind headerToStr = some token

section
variable (crates : Crates) (cfg : OracleConfig)

/-- A request is answered, and the queue is left. An inserted request is marked with `true`. -/
def respond (p : Bool × Request) (w : World) :
    (Bool × Except (Nat × String) Unit × List Nat) × World :=
  let o := authorize crates cfg p.2 w
  ((p.1, o.1, o.2.manualRequests), o.2)

variable {crates cfg} {digest : Bytes32}

theorem presents_suppliedToken {headers : Headers} {token : List Char}
    (h : suppliedToken headers = some token) : Presents headers token := by
  rcases Option.or_eq_some_iff.mp h with hbearer | ⟨-, hheader⟩
  · exact Or.inl hbearer
  · exact Or.inr hheader

theorem checkToken_refused (hdigest : cfg.operatorTokenSha256 = some digest) {headers : Headers}
    (hwrong : ∀ token, Presents headers token →
      crates.sha256 (String.ofList token).toUTF8.data.toList ≠ digest) :
    ∃ msg, checkToken crates cfg headers = .error (401, msg) := by
  simp only [checkToken, hdigest]
  cases htoken : suppliedToken headers with
  | none => exact ⟨_, rfl⟩
  | some token =>
    have hne := hwrong token (presents_suppliedToken htoken)
    exact ⟨"Invalid operator token", if_pos hne⟩

/-- Requests without the configured token, inserted anywhere, are refused, and the others are
answered and leave the queue as they would without them. -/
theorem inserted_leave_no_trace (hdigest : cfg.operatorTokenSha256 = some digest)
    {rs : List (Bool × Request)} (hwrong : ∀ p ∈ rs, p.1 = true → ∀ token,
      Presents p.2.headers token →
        crates.sha256 (String.ofList token).toUTF8.data.toList ≠ digest) (w : World) :
    let both := answers (respond crates cfg) rs w
    let alone := answers (respond crates cfg) (rs.filter fun p => !p.1) w
    (∀ a ∈ both.1, a.1 = true → ∃ msg, a.2.1 = .error (401, msg)) ∧
      (both.1.filter fun a => !a.1) = alone.1 ∧ both.2 = alone.2 := by
  induction rs generalizing w with
  | nil => exact ⟨nofun, rfl, rfl⟩
  | cons p rs ih =>
    have hrest := ih (fun q hq => hwrong q (List.mem_cons_of_mem p hq))
    obtain ⟨inserted, r⟩ := p
    cases inserted with
    | true =>
      obtain ⟨msg, herror⟩ := checkToken_refused hdigest (hwrong _ List.mem_cons_self rfl)
      have hrespond : respond crates cfg (true, r) w =
          ((true, .error (401, msg), w.manualRequests), w) := by
        rw [respond, authorize_refused herror]
      obtain ⟨hrefused, hanswers, hlast⟩ := hrest w
      simp only [answers, hrespond]
      refine ⟨fun a ha hmark => ?_, hanswers, hlast⟩
      rcases List.mem_cons.mp ha with rfl | ha
      · exact ⟨msg, rfl⟩
      · exact hrefused a ha hmark
    | false =>
      obtain ⟨hrefused, hanswers, hlast⟩ := hrest (respond crates cfg (false, r) w).2
      simp only [answers]
      refine ⟨fun a ha hmark => ?_, ?_, hlast⟩
      · rcases List.mem_cons.mp ha with rfl | ha
        · cases hmark
        · exact hrefused a ha hmark
      · exact congrArg (List.cons _) hanswers

end

def secretDigest : Bytes32 :=
  ⟨[0x2b, 0xb8, 0x0d, 0x53, 0x7b, 0x1d, 0xa3, 0xe3, 0x8b, 0xd3, 0x03, 0x61, 0xaa, 0x85, 0x56, 0x86,
    0xbd, 0xe0, 0xea, 0xcd, 0x71, 0x62, 0xfe, 0xf6, 0xa2, 0x5f, 0xe9, 0x7b, 0xf5, 0x27, 0xa2, 0x5b],
    rfl⟩

def guessDigest : Bytes32 :=
  ⟨[0xf1, 0xab, 0xe1, 0xb0, 0x83, 0xd1, 0x2d, 0x18, 0x1a, 0xe1, 0x36, 0xcf, 0xc7, 0x5b, 0x8d, 0x18,
    0xa8, 0xec, 0xb4, 0x3a, 0xc4, 0xe9, 0xd1, 0xa3, 0x6d, 0x6a, 0x9c, 0x75, 0xb6, 0x01, 0x6b, 0x61],
    rfl⟩

def tokenCrates : Crates := { Crates.toy with
  sha256 := fun bytes => if bytes = "secret".toUTF8.data.toList then secretDigest else guessDigest }

def tokenCfg : OracleConfig :=
  { twoPerMs with operatorTokenSha256 := some secretDigest }

def headerBytes (s : String) : Option Bytes := some s.toUTF8.data.toList

def guessesAroundSecret : List (Bool × Request) :=
  [(true, ⟨⟨headerBytes "Bearer guess", none⟩, 0⟩), (false, ⟨⟨none, headerBytes "secret"⟩, 5⟩),
    (true, ⟨⟨none, none⟩, 2000000⟩)]

theorem guess_not_presented {p : Bool × Request} (hp : p ∈ guessesAroundSecret)
    (hmark : p.1 = true) {token : List Char} (htoken : Presents p.2.headers token) :
    token = "guess".toList := by
  have hbearer : bearerToken ⟨headerBytes "Bearer guess", none⟩ = some "guess".toList := by
    decide +kernel
  simp only [guessesAroundSecret, List.mem_cons, List.not_mem_nil, or_false] at hp
  rcases hp with rfl | rfl | rfl
  · rcases htoken with h | h
    · exact Option.some.inj (h.symm.trans hbearer)
    · cases h
  · cases hmark
  · rcases htoken with h | h <;> cases h

theorem inserted_leave_no_trace_guesses :
    let both := answers (respond tokenCrates tokenCfg) guessesAroundSecret .init
    let alone := answers (respond tokenCrates tokenCfg)
      [(false, ⟨⟨none, headerBytes "secret"⟩, 5⟩)] .init
    (both.1.filter fun a => !a.1) = alone.1 ∧ alone.1 = [(false, .ok (), [5])] := by
  intro both alone
  have hwrong : ∀ p ∈ guessesAroundSecret, p.1 = true → ∀ token, Presents p.2.headers token →
      tokenCrates.sha256 (String.ofList token).toUTF8.data.toList ≠ secretDigest := by
    intro p hp hmark token htoken
    rw [guess_not_presented hp hmark htoken]
    decide +kernel
  exact ⟨(inserted_leave_no_trace rfl hwrong .init).2.1, by decide +kernel⟩

end OracleQa.RateLimit
