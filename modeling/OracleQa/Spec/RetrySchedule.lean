import OracleQa.Model.Config
import OracleQa.Model.Pipeline

/-! The delays between the attempts at a registry mirror: which settings keep the schedule that
doubles from attempt to attempt within a machine word, as far as the attempts go. -/

namespace OracleQa.RetrySchedule
open Interaction Pipeline Config

abbrev History := List (Event Call Call.Reply)

def isSend : Call → Bool
  | .httpSend _ _ => true
  | _ => false

def slept : Call → Option UInt64
  | .sleepMs ms => some ms
  | _ => none

def sends (h : History) : Nat := h.countP fun ev => isSend ev.call

def sleeps (h : History) : List UInt64 := h.filterMap fun ev => slept ev.call

/-- Neither the shift nor the product for the delay after attempt `k` overflows. -/
def Fits (cfg : OracleConfig) (k : Nat) : Prop :=
  k < 64 ∧ cfg.evidenceFetchRetryBaseMs.toNat * 2 ^ k < 2 ^ 64

/-- The attempts at one address: no more than the setting allows, with one delay between each two
that is twice the one before. -/
structure Paced (cfg : OracleConfig) (url : String) (tr : History) : Prop where
  own : ∀ ev ∈ tr, isSend ev.call = true → ∃ auth, ev.call = .httpSend url auth
  budget : sends tr ≤ cfg.evidenceFetchMaxRetries.toNat
  delayed : ∀ before ev between ev' after, tr = before ++ ev :: (between ++ ev' :: after) →
    isSend ev.call = true → isSend ev'.call = true → sends between = 0 →
      ∃ ms, sleeps between = [ms] ∧
        ms.toNat = cfg.evidenceFetchRetryBaseMs.toNat * 2 ^ sends before
  fits : ∀ before ev after ms, tr = before ++ ev :: after → ev.call = .sleepMs ms →
    ∃ k, sends before = k + 1 ∧ Fits cfg k

section
variable (crates : Crates) (cfg : OracleConfig) {T : Type} (hash : Bytes32)
  (parse : Bytes → Except String T) (parseError : String → OracleError)

def attemptsAt (auth : Option String) (base lastErr : String) : Async (MirrorResult T) :=
  fetchAttempts crates cfg hash parse parseError auth (mirrorUrl hash base)
    cfg.evidenceFetchMaxRetries.toNat lastErr

/-- The entries have their turns in the order of the list: each is left for good when its attempts
are used up or it refuses. -/
inductive Turns (auth : Option String) : List String → String → History → Prop
  | idle {bases : List String} {lastErr : String} {tr : History} (h : sends tr = 0) :
      Turns auth bases lastErr tr
  | last {base lastErr : String} {bases : List String} {tr : History}
      (htrace : (attemptsAt crates cfg hash parse parseError auth base lastErr).Trace tr)
      (hpaced : Paced cfg (mirrorUrl hash base) tr) : Turns auth (base :: bases) lastErr tr
  | next {base lastErr lastErr' : String} {bases : List String} {tr tr' : History}
      (hrun : Prog.Runs (fun _ _ => True)
        (attemptsAt crates cfg hash parse parseError auth base lastErr) tr (.next lastErr'))
      (hpaced : Paced cfg (mirrorUrl hash base) tr) (h : Turns auth bases lastErr' tr') :
      Turns auth (base :: bases) lastErr (tr ++ tr')

/-- Whatever the registries answer, the requests follow the schedule. -/
def Scheduled : Prop :=
  ∀ tr, (fetchEvidence crates cfg hash parse parseError).Trace tr → sends tr = 0 ∨
    ∃ auth, authHeader crates cfg = .ok auth ∧
      Turns crates cfg hash parse parseError auth cfg.evidenceRegistryUrls "" tr

end

variable {crates : Crates} {cfg : OracleConfig} {T : Type} {hash : Bytes32}
  {parse : Bytes → Except String T} {parseError : String → OracleError} {auth : Option String}
  {url lastErr : String} {h h' before between : History} {k left : Nat}

theorem backoffMs_toNat (hfits : Fits cfg k) :
    (backoffMs cfg k).toNat = cfg.evidenceFetchRetryBaseMs.toNat * 2 ^ k := by
  obtain ⟨hk, hproduct⟩ := hfits
  have hpow : 2 ^ k < 2 ^ 64 := Nat.pow_lt_pow_right (by decide) hk
  have hamount : k.toUInt64.toNat = k := UInt64.toNat_ofNat_of_lt' (by
    show k < 2 ^ 64
    omega)
  have hshift : ((1 : UInt64) <<< k.toUInt64).toNat = 2 ^ k := by
    rw [UInt64.toNat_shiftLeft, hamount, Nat.mod_eq_of_lt hk, Nat.shiftLeft_eq]
    show 1 * 2 ^ k % 2 ^ 64 = 2 ^ k
    rw [Nat.one_mul, Nat.mod_eq_of_lt hpow]
  rw [backoffMs, UInt64.toNat_mul, hshift, Nat.mod_eq_of_lt hproduct]

theorem fits_all_iff (cfg : OracleConfig) :
    (∀ k, k + 1 < cfg.evidenceFetchMaxRetries.toNat → Fits cfg k) ↔
      cfg.evidenceFetchMaxRetries.toNat ≤ 1 ∨ cfg.evidenceFetchMaxRetries.toNat ≤ 65 ∧
        cfg.evidenceFetchRetryBaseMs.toNat * 2 ^ (cfg.evidenceFetchMaxRetries.toNat - 2) <
          2 ^ 64 := by
  constructor
  · intro h
    rcases Nat.lt_or_ge 1 cfg.evidenceFetchMaxRetries.toNat with hmore | hone
    · obtain ⟨hlt, hproduct⟩ := h (cfg.evidenceFetchMaxRetries.toNat - 2) (by omega)
      exact Or.inr ⟨by omega, hproduct⟩
    · exact Or.inl hone
  · rintro (hone | ⟨hmax, hproduct⟩) k hk
    · omega
    · refine ⟨by omega, lt_of_le_of_lt ?_ hproduct⟩
      exact Nat.mul_le_mul_left _ (Nat.pow_le_pow_right (by decide) (by omega))

def gap (h : History) : List UInt64 :=
  h.foldl (fun ms ev => if isSend ev.call then [] else ms ++ (slept ev.call).toList) []

theorem sends_append (h h' : History) : sends (h ++ h') = sends h + sends h' := List.countP_append

theorem sends_cons (ev : Event Call Call.Reply) (h : History) :
    sends (ev :: h) = sends h + if isSend ev.call then 1 else 0 := List.countP_cons

theorem sleeps_cons (ev : Event Call Call.Reply) (h : History) :
    sleeps (ev :: h) = (slept ev.call).toList ++ sleeps h := by
  rw [sleeps, List.filterMap_cons]
  cases slept ev.call with
  | none => rfl
  | some ms => rfl

theorem foldl_gap (hnone : sends between = 0) (ms : List UInt64) :
    between.foldl (fun ms ev => if isSend ev.call then [] else ms ++ (slept ev.call).toList) ms =
      ms ++ sleeps between := by
  induction between generalizing ms with
  | nil => rw [sleeps, List.filterMap_nil, List.append_nil, List.foldl_nil]
  | cons ev between ih =>
    rw [sends_cons] at hnone
    have hev : isSend ev.call = false := by
      cases hsend : isSend ev.call with
      | false => rfl
      | true =>
        rw [hsend] at hnone
        cases hnone
    rw [List.foldl_cons, hev, ih (by omega), sleeps_cons, ← List.append_assoc]
    rfl

theorem gap_after_send {ev : Event Call Call.Reply} (hev : isSend ev.call = true)
    (hnone : sends between = 0) : gap (before ++ ev :: between) = sleeps between := by
  rw [gap, List.foldl_append, List.foldl_cons, hev, if_pos rfl, foldl_gap hnone, List.nil_append]

section
variable {c : Call} {r : c.Reply}

theorem record_sends (hrecord : Prog.record h c r h') :
    sends h' = sends h + if isSend c then 1 else 0 :=
  Prog.countP_record hrecord

theorem record_gap (hrecord : Prog.record h c r h') :
    gap h' = if isSend c then [] else gap h ++ (slept c).toList := by
  rw [hrecord, gap, List.foldl_append]
  rfl

end

/-! ## The attempts keep the schedule -/

def Waited (cfg : OracleConfig) (h : History) : Prop :=
  ∀ k, sends h = k + 1 →
    ∃ ms, gap h = [ms] ∧ ms.toNat = cfg.evidenceFetchRetryBaseMs.toNat * 2 ^ k

def InTime (cfg : OracleConfig) (url : String) (h : History) : Call → Prop
  | .httpSend url' _ => url' = url ∧ sends h < cfg.evidenceFetchMaxRetries.toNat ∧ Waited cfg h
  | .sleepMs _ => ∃ k, sends h = k + 1 ∧ Fits cfg k
  | _ => True

theorem isSend_iff {c : Call} : isSend c = true ↔ ∃ url auth, c = .httpSend url auth := by
  cases c <;> simp [isSend]

theorem paced_of_wp {α : Type} {p : Async α} {Q : α → History → Prop} {tr : History}
    (htrace : p.Trace tr) (hwp : p.Wp Prog.record (InTime cfg url) Q []) : Paced cfg url tr where
  own ev hev hsend := by
    obtain ⟨before, after, hsplit⟩ := List.append_of_mem hev
    have hok := htrace.ok_of_wp hwp hsplit
    obtain ⟨url', auth, hcall⟩ := isSend_iff.mp hsend
    rw [hcall] at hok
    exact ⟨auth, by rw [hcall, hok.1]⟩
  budget := by
    refine htrace.countP_le_of_wp hwp fun h c hok hc => ?_
    obtain ⟨url', auth, rfl⟩ := isSend_iff.mp hc
    exact hok.2.1
  delayed before ev between ev' after hsplit hsend hsend' hnone := by
    have hsplit' : tr = (before ++ ev :: between) ++ ev' :: after := by
      rw [hsplit, List.append_assoc, List.cons_append]
    have hok := htrace.ok_of_wp hwp hsplit'
    obtain ⟨url', auth, hcall⟩ := isSend_iff.mp hsend'
    rw [hcall] at hok
    have hcount : sends (before ++ ev :: between) = sends before + 1 := by
      rw [sends_append, sends_cons, hsend, hnone]
      rfl
    rw [← gap_after_send hsend hnone]
    exact hok.2.2 _ hcount
  fits before ev after ms hsplit hcall := by
    have hok := htrace.ok_of_wp hwp hsplit
    rw [hcall] at hok
    exact hok

theorem waited_of_sleep (hfit : Fits cfg k) (hsends : sends h = k + 1) (hgap : gap h = [])
    {r : (Call.sleepMs (backoffMs cfg k)).Reply}
    (hrecord : Prog.record h (.sleepMs (backoffMs cfg k)) r h') :
    sends h' = k + 1 ∧ Waited cfg h' := by
  have hsends' : sends h' = k + 1 := (record_sends hrecord).trans hsends
  refine ⟨hsends', fun k' hk' => ?_⟩
  obtain rfl : k = k' := by omega
  refine ⟨backoffMs cfg k, ?_, backoffMs_toNat hfit⟩
  rw [record_gap hrecord, hgap]
  rfl

theorem fetchAttempts_wp (hfits : ∀ k, k + 1 < cfg.evidenceFetchMaxRetries.toNat → Fits cfg k) :
    (fetchAttempts crates cfg hash parse parseError auth url cfg.evidenceFetchMaxRetries.toNat
      lastErr).Wp Prog.record (InTime cfg url) (fun _ _ => True) [] := by
  -- the requests made and those still to come add up to the setting
  refine fetchAttempts_rule
    (fun left h => sends h + left = cfg.evidenceFetchMaxRetries.toNat ∧ Waited cfg h)
    (fun left h => sends h + left = cfg.evidenceFetchMaxRetries.toNat ∧ gap h = [])
    ?_ ?_ ?_ (fun _ _ _ _ => trivial) (fun _ _ _ => trivial) le_rfl ⟨Nat.zero_add _, ?_⟩
  · rintro left h ⟨hsends, hwaited⟩
    refine ⟨⟨rfl, by omega, hwaited⟩, fun r h' hrecord => ⟨?_, record_gap hrecord⟩⟩
    have hsent : sends h' = sends h + 1 := record_sends hrecord
    omega
  · rintro left h ⟨hsends, hgap⟩
    refine ⟨trivial, fun r h' hrecord => ⟨⟨?_, ?_⟩, fun _ _ => trivial⟩⟩
    · have hsame : sends h' = sends h := record_sends hrecord
      rw [hsame, hsends]
    · rw [record_gap hrecord, hgap]
      rfl
  · rintro left h ⟨hsends, hgap⟩ attempt hattempt hmore
    have hfit := hfits attempt (by omega)
    have hcount : sends h = attempt + 1 := by omega
    refine ⟨⟨attempt, hcount, hfit⟩, fun r h' hrecord => ?_⟩
    obtain ⟨hsends', hwaited⟩ := waited_of_sleep hfit hcount hgap hrecord
    exact ⟨by omega, hwaited⟩
  · intro k hk
    cases hk

theorem attemptsAt_paced
    (hfits : ∀ k, k + 1 < cfg.evidenceFetchMaxRetries.toNat → Fits cfg k) {base : String}
    {tr : History}
    (htrace : (attemptsAt crates cfg hash parse parseError auth base lastErr).Trace tr) :
    Paced cfg (mirrorUrl hash base) tr :=
  paced_of_wp htrace (fetchAttempts_wp hfits)

theorem fetchMirrors_turns
    (hfits : ∀ k, k + 1 < cfg.evidenceFetchMaxRetries.toNat → Fits cfg k) {bases : List String}
    {tr : History}
    (htrace : (fetchMirrors crates cfg hash parse parseError auth bases lastErr).Trace tr) :
    Turns crates cfg hash parse parseError auth bases lastErr tr := by
  induction bases generalizing lastErr tr with
  | nil =>
    -- only the failure is counted
    apply Turns.idle
    cases htrace with
    | stop => rfl
    | cut => rfl
    | step h => cases h; rfl
  | cons base bases ih =>
    rcases Prog.Trace.of_bind htrace with htrace | ⟨tr₁, result, tr₂, hrun, htrace₂, rfl⟩
    · exact .last htrace (attemptsAt_paced hfits htrace)
    · have hpaced := attemptsAt_paced hfits hrun.trace
      cases result with
      | done r =>
        cases htrace₂
        rw [List.append_nil]
        exact .last hrun.trace hpaced
      | next lastErr' => exact .next hrun hpaced (ih htrace₂)

/-! ## All attempts fail -/

def offline : (c : Call) → c.Reply
  | .httpSend _ _ => .error "connection refused"
  | c => c.toyReply

theorem transcript_offline (hmore : 0 < left)
    (hleft : left + 1 ≤ cfg.evidenceFetchMaxRetries.toNat) :
    (fetchAttempts crates cfg hash parse parseError auth url (left + 1) lastErr).transcript
        offline =
      ⟨.httpSend url auth, some (.error "connection refused")⟩ ::
        ⟨.sleepMs (backoffMs cfg (cfg.evidenceFetchMaxRetries.toNat - (left + 1))),
          some (offline (.sleepMs _))⟩ ::
        (fetchAttempts crates cfg hash parse parseError auth url left
          "connection refused").transcript offline := by
  have hnext : cfg.evidenceFetchMaxRetries.toNat - (left + 1) + 1 <
      cfg.evidenceFetchMaxRetries.toNat := by omega
  rw [fetchAttempts]
  show _ :: Prog.transcript offline (if _ then _ else _) = _
  rw [if_pos hnext]
  rfl

theorem last_delay (n : Nat) (hleft : n + 2 ≤ cfg.evidenceFetchMaxRetries.toNat) :
    ∃ before ev after ms,
      (fetchAttempts crates cfg hash parse parseError auth url (n + 2) lastErr).transcript offline =
        before ++ ev :: after ∧ ev.call = .sleepMs ms ∧ sends before = n + 1 := by
  induction n generalizing lastErr with
  | zero =>
    rw [transcript_offline (by decide) hleft]
    exact ⟨[_], _, _, _, rfl, rfl, rfl⟩
  | succ n ih =>
    obtain ⟨before, ev, after, ms, hsplit, hcall, hsends⟩ := ih (by omega)
    rw [transcript_offline (Nat.succ_pos _) hleft, hsplit]
    refine ⟨_ :: _ :: before, ev, after, ms, rfl, hcall, ?_⟩
    rw [sends_cons, sends_cons, hsends]
    rfl

section
variable {base : String} {bases : List String}

abbrev offlineAt (crates : Crates) (cfg : OracleConfig) (hash : Bytes32)
    (parse : Bytes → Except String T) (parseError : String → OracleError) (auth : Option String)
    (base lastErr : String) : History :=
  (attemptsAt crates cfg hash parse parseError auth base lastErr).transcript offline

theorem offlineAt_delay (hretries : 2 ≤ cfg.evidenceFetchMaxRetries.toNat) :
    ∃ before ev after ms, offlineAt crates cfg hash parse parseError auth base lastErr =
      before ++ ev :: after ∧ ev.call = .sleepMs ms ∧
        sends before = cfg.evidenceFetchMaxRetries.toNat - 2 + 1 := by
  obtain ⟨n, hn⟩ := Nat.exists_eq_add_of_le' hretries
  rw [offlineAt, attemptsAt, hn]
  exact last_delay n hn.ge

theorem fits_of_paced (hretries : 2 ≤ cfg.evidenceFetchMaxRetries.toNat)
    (hpaced : Paced cfg url (offlineAt crates cfg hash parse parseError auth base lastErr)) :
    Fits cfg (cfg.evidenceFetchMaxRetries.toNat - 2) := by
  obtain ⟨before, ev, after, ms, hsplit, hcall, hsends⟩ := offlineAt_delay hretries
  obtain ⟨k, hk, hfit⟩ := hpaced.fits before ev after ms hsplit hcall
  rw [hsends, Nat.add_right_cancel_iff] at hk
  exact hk ▸ hfit

theorem fits_of_turns (hretries : 2 ≤ cfg.evidenceFetchMaxRetries.toNat) {tr : History}
    (htr : tr = offlineAt crates cfg hash parse parseError auth base lastErr)
    (h : Turns crates cfg hash parse parseError auth (base :: bases) lastErr tr) :
    Fits cfg (cfg.evidenceFetchMaxRetries.toNat - 2) := by
  cases h with
  | idle hidle =>
    have hdelay : ∃ before ev after ms, tr = before ++ ev :: after ∧ ev.call = .sleepMs ms ∧
        sends before = cfg.evidenceFetchMaxRetries.toNat - 2 + 1 := by
      rw [htr]
      exact offlineAt_delay hretries
    obtain ⟨before, ev, after, ms, hsplit, -, hsends⟩ := hdelay
    rw [hsplit, sends_append] at hidle
    omega
  | last htrace hpaced =>
    rw [htr] at hpaced
    exact fits_of_paced hretries hpaced
  | @next _ _ _ _ tr₁ tr₂ hrun hpaced h =>
    -- a complete run of the first entry is all that happened at it
    have hfirst : Prog.Runs (fun _ _ => True)
        (attemptsAt crates cfg hash parse parseError auth base lastErr)
        (offlineAt crates cfg hash parse parseError auth base lastErr) _ :=
      Prog.runs_transcript (fun _ => trivial) _
    obtain ⟨hsame, -⟩ := hrun.append_inj hfirst (htr.trans (List.append_nil _).symm)
    rw [hsame] at hpaced
    exact fits_of_paced hretries hpaced

theorem fits_of_scheduled (hauth : authHeader crates cfg = .ok auth)
    (hurls : cfg.evidenceRegistryUrls ≠ []) (hretries : 2 ≤ cfg.evidenceFetchMaxRetries.toNat)
    (hscheduled : Scheduled crates cfg hash parse parseError) :
    Fits cfg (cfg.evidenceFetchMaxRetries.toNat - 2) := by
  obtain ⟨base, bases, hbases⟩ := List.exists_cons_of_ne_nil hurls
  have htrace : (fetchEvidence crates cfg hash parse parseError).Trace
      (offlineAt crates cfg hash parse parseError auth base "") := by
    rw [fetchEvidence, hauth, hbases]
    exact (Prog.trace_transcript offline _).bind_left
  have hturns : Turns crates cfg hash parse parseError auth (base :: bases) ""
      (offlineAt crates cfg hash parse parseError auth base "") := by
    rcases hscheduled _ htrace with hidle | ⟨auth', hauth', hturns⟩
    · exact .idle hidle
    · rw [hauth] at hauth'
      cases hauth'
      rwa [hbases] at hturns
  exact fits_of_turns hretries rfl hturns

end

/-- For every script of the registries the requests follow the schedule, exactly if none can be
sent or the last delay that the settings lead to is computed without overflow. -/
theorem scheduled_iff (crates : Crates) (host : Host) (cfg : OracleConfig)
    (hcfg : fromEnv crates host = .ok cfg) {T : Type} (hash : Bytes32)
    (parse : Bytes → Except String T) (parseError : String → OracleError) :
    Scheduled crates cfg hash parse parseError ↔ (∃ e, authHeader crates cfg = .error e) ∨
      cfg.evidenceFetchMaxRetries.toNat ≤ 1 ∨ cfg.evidenceFetchMaxRetries.toNat ≤ 65 ∧
        cfg.evidenceFetchRetryBaseMs.toNat * 2 ^ (cfg.evidenceFetchMaxRetries.toNat - 2) <
          2 ^ 64 := by
  have hurls : cfg.evidenceRegistryUrls ≠ [] := by
    rw [(fromEnv_ok hcfg).2.2.2]
    exact evidenceRegistryUrls_ne_nil host.env
  constructor
  · intro hscheduled
    cases hauth : authHeader crates cfg with
    | error e => exact Or.inl ⟨e, rfl⟩
    | ok auth =>
      right
      rcases Nat.lt_or_ge cfg.evidenceFetchMaxRetries.toNat 2 with hone | hretries
      · exact Or.inl (Nat.le_of_lt_succ hone)
      · obtain ⟨hshift, hproduct⟩ := fits_of_scheduled hauth hurls hretries hscheduled
        exact Or.inr ⟨by omega, hproduct⟩
  · intro hcondition tr htrace
    cases hauth : authHeader crates cfg with
    | error e =>
      rw [fetchEvidence, hauth] at htrace
      cases htrace
      exact Or.inl rfl
    | ok auth =>
      have hfits : ∀ k, k + 1 < cfg.evidenceFetchMaxRetries.toNat → Fits cfg k := by
        rcases hcondition with ⟨e, he⟩ | hcondition
        · rw [hauth] at he
          cases he
        · exact (fits_all_iff cfg).mpr hcondition
      rw [fetchEvidence, hauth] at htrace
      exact Or.inr ⟨auth, rfl, fetchMirrors_turns hfits htrace⟩

def retryHost (retries baseMs : Option String) : Host where
  env name :=
    if name = "ORACLE_KEYPAIR_PATH" then some "oracle.json"
    else if name = "EVIDENCE_FETCH_MAX_RETRIES" then retries
    else if name = "EVIDENCE_FETCH_RETRY_BASE_MS" then baseMs
    else none
  readKeypairFile _ := .ok (byte32 7)
  escrowApiId := byte32 6
  connect _ := false

theorem scheduled_iff_default :
    ∃ cfg, fromEnv .toy (retryHost none none) = .ok cfg ∧
      Scheduled .toy cfg (byte32 0) Crates.toy.parseSla .slaParse := by
  refine ⟨_, rfl, ?_⟩
  rw [scheduled_iff .toy (retryHost none none) _ rfl]
  exact Or.inr (Or.inr ⟨by decide +kernel, by decide +kernel⟩)

/-- Without a delay the 66 attempts are soon made, and the shift for the last of them is by 64. -/
theorem not_scheduled_retries :
    ∃ cfg, fromEnv .toy (retryHost (some "66") (some "0")) = .ok cfg ∧
      cfg.evidenceFetchMaxRetries = 66 ∧ cfg.evidenceFetchRetryBaseMs = 0 ∧
      ¬ Scheduled .toy cfg (byte32 0) Crates.toy.parseSla .slaParse := by
  refine ⟨_, rfl, by decide +kernel, by decide +kernel, fun hscheduled => ?_⟩
  have hfit := (fits_of_scheduled rfl (by decide +kernel) (by decide +kernel) hscheduled).1
  revert hfit
  decide +kernel

end OracleQa.RetrySchedule
