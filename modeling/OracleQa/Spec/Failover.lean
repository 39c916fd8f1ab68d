import OracleQa.Model.Pipeline

/-! The registry mirrors under a script of attempts: which mirror's document the fetch returns, and
which failure of an earlier mirror hides a later one. -/

namespace OracleQa.Failover
open Interaction Pipeline Text

/-- What the network does to one attempt: the reply to the request, and then to the read of the
body. -/
structure Attempt where
  send : Except String Nat
  body : Except String Bytes

namespace Attempt

def Transient (a : Attempt) : Prop :=
  (∃ e, a.send = .error e) ∨ (∃ status, a.send = .ok status ∧ isServerError status = true) ∨
    ∃ status e, a.send = .ok status ∧ isSuccess status = true ∧ a.body = .error e

def Refused (a : Attempt) : Prop :=
  ∃ status, a.send = .ok status ∧ isSuccess status = false ∧ isServerError status = false

def Served (a : Attempt) (raw : Bytes) : Prop :=
  ∃ status, a.send = .ok status ∧ isSuccess status = true ∧ a.body = .ok raw

end Attempt

structure Turn where
  base : String
  attempts : List Attempt

namespace Turn

def script (hash : Bytes32) (t : Turn) : List (String × Attempt) :=
  t.attempts.map fun a => (mirrorUrl hash t.base, a)

variable (max : Nat) (t : Turn)

def Exhausted : Prop := t.attempts.length = max ∧ ∀ a ∈ t.attempts, a.Transient

def Ends (last : Attempt) : Prop :=
  ∃ retried, t.attempts = retried ++ [last] ∧ retried.length < max ∧ ∀ a ∈ retried, a.Transient

def Refuses : Prop := ∃ last, t.Ends max last ∧ last.Refused

def Serves (raw : Bytes) : Prop := ∃ last, t.Ends max last ∧ last.Served raw

/-- The mirror serves another document than the one that was committed to. -/
def Corrupt (crates : Crates) (hash : Bytes32) : Prop :=
  ∃ raw, t.Serves max raw ∧ crates.sha256 raw ≠ hash

def Fails (crates : Crates) (hash : Bytes32) : Prop :=
  t.Exhausted max ∨ t.Refuses max ∨ t.Corrupt max crates hash

end Turn

/-- The registry answers from the script, in order, and only at the scripted addresses. -/
structure Registry where
  script : List (String × Attempt)
  body : Except String Bytes

def Registry.serve : (c : Call) → Registry → c.Reply × Registry
  | .httpSend url _, s =>
    match s.script with
    | [] => (.error "off the script", s)
    | (url', a) :: rest =>
      if url = url' then (a.send, ⟨rest, a.body⟩) else (.error "off the script", s)
  | .httpBytes _, s => (s.body, s)
  | c, s => (c.toyReply, s)

variable {crates : Crates} {cfg : OracleConfig} {T : Type} {hash : Bytes32}
  {parse : Bytes → Except String T} {parseError : String → OracleError} {auth : Option String}
  {url lastErr : String} {a : Attempt} {left : Nat} {rest : List (String × Attempt)}
  {body : Except String Bytes}

theorem serve_send : Registry.serve (.httpSend url auth) ⟨(url, a) :: rest, body⟩ =
    (a.send, ⟨rest, a.body⟩) := by
  show (if url = url then _ else _) = _
  rw [if_pos rfl]

theorem serve_bytes (s : Registry) : Registry.serve (.httpBytes url) s = (s.body, s) := rfl

theorem isServerError_not_success {status : Nat} (h : isServerError status = true) :
    isSuccess status = false := by
  simp only [isServerError, isSuccess, Bool.and_eq_true, decide_eq_true_eq] at h ⊢
  simp only [Bool.and_eq_false_iff, decide_eq_false_iff_not]
  omega

theorem fetchAttempts_transient (ha : a.Transient)
    (hleft : left + 1 ≤ cfg.evidenceFetchMaxRetries.toNat) : ∃ lastErr',
    (fetchAttempts crates cfg hash parse parseError auth url (left + 1) lastErr).run
        Registry.serve ⟨(url, a) :: rest, body⟩ =
      (fetchAttempts crates cfg hash parse parseError auth url left lastErr').run
        Registry.serve ⟨rest, a.body⟩ := by
  have hmore : cfg.evidenceFetchMaxRetries.toNat - (left + 1) + 1 <
      cfg.evidenceFetchMaxRetries.toNat ↔ 0 < left := by omega
  simp only [fetchAttempts, ask, Prog.ask_bind, Prog.run_call, serve_send, hmore]
  rcases ha with ⟨e, hsend⟩ | ⟨status, hsend, herror⟩ | ⟨status, e, hsend, hsuccess, hbody⟩
  · simp only [hsend]
    refine ⟨e, ?_⟩
    split <;> rfl
  · have hno := isServerError_not_success herror
    simp only [hsend, hno, herror, Bool.not_false, if_true, Bool.true_and, decide_eq_true_eq]
    refine ⟨"Registry returned " ++ crates.statusText status ++ " for " ++ url, ?_⟩
    split
    · rfl
    · next hlast =>
      obtain rfl : left = 0 := by omega
      rfl
  · simp only [hsend, hsuccess, Bool.not_true, Bool.false_eq_true, if_false, Prog.run_call,
      serve_bytes, hbody]
    refine ⟨"read body: " ++ e, ?_⟩
    split <;> rfl

theorem fetchAttempts_refused (ha : a.Refused) : ∃ lastErr',
    (fetchAttempts crates cfg hash parse parseError auth url (left + 1) lastErr).run
        Registry.serve ⟨(url, a) :: rest, body⟩ = (.next lastErr', ⟨rest, a.body⟩) := by
  obtain ⟨status, hsend, hno, herror⟩ := ha
  simp only [fetchAttempts, ask, Prog.ask_bind, Prog.run_call, serve_send, hsend, hno, herror,
    Bool.not_false, if_true, Bool.false_and, Bool.false_eq_true, if_false]
  exact ⟨_, rfl⟩

theorem fetchAttempts_served {raw : Bytes} (ha : a.Served raw) :
    (fetchAttempts crates cfg hash parse parseError auth url (left + 1) lastErr).run
        Registry.serve ⟨(url, a) :: rest, body⟩ =
      (.done (acceptBody crates hash parse parseError raw), ⟨rest, a.body⟩) := by
  obtain ⟨status, hsend, hsuccess, hbody⟩ := ha
  simp only [fetchAttempts, ask, Prog.ask_bind, Prog.run_call, serve_send, hsend, hsuccess,
    Bool.not_true, Bool.false_eq_true, if_false, serve_bytes, hbody]
  rfl

/-! ## One mirror -/

theorem fetchAttempts_retried {retried : List Attempt} {total : Nat}
    (hretried : ∀ a ∈ retried, a.Transient) (htotal : retried.length + left = total)
    (hmax : total ≤ cfg.evidenceFetchMaxRetries.toNat) : ∃ lastErr' body',
    (fetchAttempts crates cfg hash parse parseError auth url total lastErr).run
        Registry.serve ⟨(retried.map fun a => (url, a)) ++ rest, body⟩ =
      (fetchAttempts crates cfg hash parse parseError auth url left lastErr').run
        Registry.serve ⟨rest, body'⟩ := by
  induction retried generalizing total lastErr body with
  | nil =>
    rw [List.length_nil, Nat.zero_add] at htotal
    subst htotal
    exact ⟨lastErr, body, rfl⟩
  | cons a retried ih =>
    have hlength : retried.length + left + 1 = total := by
      rw [List.length_cons] at htotal
      omega
    subst hlength
    obtain ⟨lastErr₁, hfirst⟩ := fetchAttempts_transient (hretried a List.mem_cons_self) hmax
    obtain ⟨lastErr', body', hrest⟩ :=
      ih (fun b hb => hretried b (List.mem_cons_of_mem a hb)) rfl (Nat.le_of_succ_le hmax)
    exact ⟨lastErr', body', hfirst.trans hrest⟩

variable {t : Turn} {raw : Bytes}

theorem fetchAttempts_last {last : Attempt} (h : t.Ends cfg.evidenceFetchMaxRetries.toNat last) :
    ∃ left lastErr' body',
      (fetchAttempts crates cfg hash parse parseError auth (mirrorUrl hash t.base)
          cfg.evidenceFetchMaxRetries.toNat lastErr).run Registry.serve
          ⟨t.script hash ++ rest, body⟩ =
        (fetchAttempts crates cfg hash parse parseError auth (mirrorUrl hash t.base)
          (left + 1) lastErr').run Registry.serve
          ⟨(mirrorUrl hash t.base, last) :: rest, body'⟩ := by
  obtain ⟨retried, hattempts, hlength, hretried⟩ := h
  obtain ⟨left, hleft⟩ : ∃ left, retried.length + (left + 1) =
      cfg.evidenceFetchMaxRetries.toNat :=
    ⟨cfg.evidenceFetchMaxRetries.toNat - retried.length - 1, by omega⟩
  have hscript : t.script hash ++ rest = (retried.map fun a => (mirrorUrl hash t.base, a)) ++
      (mirrorUrl hash t.base, last) :: rest := by
    rw [Turn.script, hattempts, List.map_append, List.append_assoc]
    rfl
  rw [hscript]
  exact ⟨left, fetchAttempts_retried hretried hleft le_rfl⟩

theorem turn_next (h : t.Exhausted cfg.evidenceFetchMaxRetries.toNat ∨
    t.Refuses cfg.evidenceFetchMaxRetries.toNat) : ∃ lastErr' body',
    (fetchAttempts crates cfg hash parse parseError auth (mirrorUrl hash t.base)
        cfg.evidenceFetchMaxRetries.toNat lastErr).run Registry.serve
        ⟨t.script hash ++ rest, body⟩ = (.next lastErr', ⟨rest, body'⟩) := by
  rcases h with ⟨hlength, htransient⟩ | ⟨last, hends, hrefused⟩
  · have htotal : t.attempts.length + 0 = cfg.evidenceFetchMaxRetries.toNat := hlength
    exact fetchAttempts_retried htransient htotal le_rfl
  -- the refusal is not retried, whatever attempts are left
  · obtain ⟨left, lastErr₁, body₁, hlast⟩ := fetchAttempts_last hends
    obtain ⟨lastErr', hrun⟩ := fetchAttempts_refused hrefused
    exact ⟨lastErr', _, hlast.trans hrun⟩

theorem turn_done (h : t.Serves cfg.evidenceFetchMaxRetries.toNat raw) : ∃ body',
    (fetchAttempts crates cfg hash parse parseError auth (mirrorUrl hash t.base)
        cfg.evidenceFetchMaxRetries.toNat lastErr).run Registry.serve
        ⟨t.script hash ++ rest, body⟩ =
      (.done (acceptBody crates hash parse parseError raw), ⟨rest, body'⟩) := by
  obtain ⟨last, hends, hserved⟩ := h
  obtain ⟨left, lastErr₁, body₁, hlast⟩ := fetchAttempts_last hends
  exact ⟨_, hlast.trans (fetchAttempts_served hserved)⟩

/-! ## The list of mirrors -/

theorem fetchMirrors_next {bases : List String} (h : t.Exhausted cfg.evidenceFetchMaxRetries.toNat ∨
    t.Refuses cfg.evidenceFetchMaxRetries.toNat) : ∃ lastErr' body',
    (fetchMirrors crates cfg hash parse parseError auth (t.base :: bases) lastErr).run
        Registry.serve ⟨t.script hash ++ rest, body⟩ =
      (fetchMirrors crates cfg hash parse parseError auth bases lastErr').run
        Registry.serve ⟨rest, body'⟩ := by
  obtain ⟨lastErr', body', hturn⟩ := turn_next h
  exact ⟨lastErr', body', Prog.run_bind_of hturn⟩

theorem fetchMirrors_done {bases : List String}
    (h : t.Serves cfg.evidenceFetchMaxRetries.toNat raw) :
    ((fetchMirrors crates cfg hash parse parseError auth (t.base :: bases) lastErr).run
        Registry.serve ⟨t.script hash ++ rest, body⟩).1 =
      acceptBody crates hash parse parseError raw := by
  obtain ⟨body', hturn⟩ := turn_done h
  exact congrArg Prod.fst (Prog.run_bind_of hturn)

theorem fetchMirrors_after {before : List Turn} {bases : List String}
    (hserves : t.Serves cfg.evidenceFetchMaxRetries.toNat raw)
    (hfails : ∀ u ∈ before, u.Fails cfg.evidenceFetchMaxRetries.toNat crates hash) :
    let result := ((fetchMirrors crates cfg hash parse parseError auth
      (before.map Turn.base ++ t.base :: bases) lastErr).run Registry.serve
      ⟨before.flatMap (Turn.script hash) ++ (t.script hash ++ rest), body⟩).1
    ((∀ u ∈ before, ¬ u.Corrupt cfg.evidenceFetchMaxRetries.toNat crates hash) →
        result = acceptBody crates hash parse parseError raw) ∧
      ((∃ u ∈ before, u.Corrupt cfg.evidenceFetchMaxRetries.toNat crates hash) →
        ∃ msg, result = .error (.evidenceNotFound msg)) := by
  induction before generalizing lastErr body with
  | nil => exact ⟨fun _ => fetchMirrors_done hserves, nofun⟩
  | cons u before ih =>
    obtain ⟨hu, hfails⟩ := List.forall_mem_cons.mp hfails
    intro result
    rw [List.forall_mem_cons, List.exists_mem_cons_iff]
    -- a corrupt mirror ends the loop; any other failing one passes it on
    by_cases hcorrupt : u.Corrupt cfg.evidenceFetchMaxRetries.toNat crates hash
    · obtain ⟨raw', hserves', hwrong⟩ := hcorrupt
      have hresult : result = acceptBody crates hash parse parseError raw' := by
        show ((fetchMirrors crates cfg hash parse parseError auth (u.base :: _) lastErr).run
          Registry.serve ⟨(u.script hash ++ _) ++ _, body⟩).1 = _
        rw [List.append_assoc]
        exact fetchMirrors_done hserves'
      rw [acceptBody, if_pos hwrong] at hresult
      exact ⟨fun h => absurd ⟨raw', hserves', hwrong⟩ h.1, fun _ => ⟨_, hresult⟩⟩
    · have hpass : u.Exhausted cfg.evidenceFetchMaxRetries.toNat ∨
          u.Refuses cfg.evidenceFetchMaxRetries.toNat := by
        rcases hu with hexhausted | hrefuses | h
        · exact Or.inl hexhausted
        · exact Or.inr hrefuses
        · exact absurd h hcorrupt
      obtain ⟨lastErr', body', hnext⟩ := fetchMirrors_next hpass
      have hresult : result = ((fetchMirrors crates cfg hash parse parseError auth
          (before.map Turn.base ++ t.base :: bases) lastErr').run Registry.serve
          ⟨before.flatMap (Turn.script hash) ++ (t.script hash ++ rest), body'⟩).1 := by
        show ((fetchMirrors crates cfg hash parse parseError auth (u.base :: _) lastErr).run
          Registry.serve ⟨(u.script hash ++ _) ++ _, body⟩).1 = _
        rw [List.append_assoc]
        exact congrArg Prod.fst hnext
      rw [hresult]
      exact ⟨fun h => (ih hfails).1 h.2, fun h => (ih hfails).2 (h.resolve_left hcorrupt)⟩

/-- The first mirror with the committed document decides the fetch, unless a mirror before it
serves another document. -/
theorem fetchEvidence_failover (crates : Crates) (cfg : OracleConfig) {T : Type} (hash : Bytes32)
    (parse : Bytes → Except String T) {parseError : String → OracleError}
    (hparse : ∀ msg msg', parseError msg ≠ .evidenceNotFound msg') {auth : Option String}
    (hauth : authHeader crates cfg = .ok auth) {before : List Turn} {t : Turn}
    {bases : List String} (hurls : cfg.evidenceRegistryUrls =
      before.map Turn.base ++ t.base :: bases) {raw : Bytes}
    (hserves : t.Serves cfg.evidenceFetchMaxRetries.toNat raw) (hvalid : crates.sha256 raw = hash)
    (hfails : ∀ u ∈ before, u.Fails cfg.evidenceFetchMaxRetries.toNat crates hash)
    (rest : List (String × Attempt)) :
    ((fetchEvidence crates cfg hash parse parseError).run Registry.serve
        ⟨before.flatMap (Turn.script hash) ++ (t.script hash ++ rest), .ok []⟩).1 =
        (parse raw).mapError (fun e => parseError ("Failed to parse JSON: " ++ e)) ↔
      ∀ u ∈ before, ¬ u.Corrupt cfg.evidenceFetchMaxRetries.toNat crates hash := by
  have haccept : acceptBody crates hash parse parseError raw =
      (parse raw).mapError fun e => parseError ("Failed to parse JSON: " ++ e) := by
    rw [acceptBody, if_neg (not_not.mpr hvalid)]
    cases parse raw <;> rfl
  have hfound : ∀ msg, (parse raw).mapError (fun e => parseError ("Failed to parse JSON: " ++ e)) ≠
      .error (.evidenceNotFound msg) := by
    intro msg h
    cases hraw : parse raw with
    | ok doc => rw [hraw] at h; cases h
    | error e =>
      rw [hraw] at h
      exact hparse _ _ (Except.error.inj h)
  have hrun : (fetchEvidence crates cfg hash parse parseError).run Registry.serve
        ⟨before.flatMap (Turn.script hash) ++ (t.script hash ++ rest), .ok []⟩ =
      (fetchMirrors crates cfg hash parse parseError auth
        (before.map Turn.base ++ t.base :: bases) "").run Registry.serve
        ⟨before.flatMap (Turn.script hash) ++ (t.script hash ++ rest), .ok []⟩ := by
    rw [fetchEvidence, hauth, hurls]
  rw [hrun, ← haccept]
  constructor
  · intro h u hu hcorrupt
    obtain ⟨msg, herror⟩ : ∃ msg, acceptBody crates hash parse parseError raw =
        .error (.evidenceNotFound msg) := by
      rw [← h]
      exact (fetchMirrors_after hserves hfails).2 ⟨u, hu, hcorrupt⟩
    rw [haccept] at herror
    exact hfound msg herror
  · exact (fetchMirrors_after hserves hfails).1

/-! ### A mirror that is down, and one that serves another document -/

def objectDigest : Bytes32 :=
  ⟨[0x44, 0x13, 0x6f, 0xa3, 0x55, 0xb3, 0x67, 0x8a, 0x11, 0x46, 0xad, 0x16, 0xf7, 0xe8, 0x64, 0x9e,
    0x94, 0xfb, 0x4f, 0xc2, 0x1f, 0xe7, 0x7e, 0x83, 0x10, 0xc0, 0x60, 0xf6, 0x1c, 0xaa, 0xff, 0x8a],
    rfl⟩

def arrayDigest : Bytes32 :=
  ⟨[0x4f, 0x53, 0xcd, 0xa1, 0x8c, 0x2b, 0xaa, 0x0c, 0x03, 0x54, 0xbb, 0x5f, 0x9a, 0x3e, 0xcb, 0xe5,
    0xed, 0x12, 0xab, 0x4d, 0x8e, 0x11, 0xba, 0x87, 0x3c, 0x2f, 0x11, 0x16, 0x12, 0x02, 0xb9, 0x45],
    rfl⟩

def emptyObject : Bytes := [0x7b, 0x7d]

def emptyArray : Bytes := [0x5b, 0x5d]

def bodyCrates : Crates := { Crates.toy with
  sha256 := fun raw => if raw = emptyObject then objectDigest else arrayDigest }

def parseObject (raw : Bytes) : Except String Json :=
  if raw = emptyObject then .ok (.object []) else .error "expected value at line 1 column 1"

def twoMirrors : OracleConfig :=
  { OracleConfig.toy with evidenceRegistryUrls := ["https://primary", "https://mirror"] }

def goodMirror : Turn := ⟨"https://mirror", [⟨.ok 200, .ok emptyObject⟩]⟩

def downMirror : Turn := ⟨"https://primary", [⟨.ok 503, .ok []⟩, ⟨.error "timeout", .ok []⟩,
  ⟨.ok 200, .error "connection closed"⟩]⟩

def staleMirror : Turn := ⟨"https://primary", [⟨.ok 200, .ok emptyArray⟩]⟩

def fetchFrom (t : Turn) : Except OracleError Json :=
  ((fetchEvidence bodyCrates twoMirrors objectDigest parseObject .slaParse).run Registry.serve
    ⟨t.script objectDigest ++ goodMirror.script objectDigest, .ok []⟩).1

theorem goodMirror_serves : goodMirror.Serves 3 emptyObject :=
  ⟨⟨.ok 200, .ok emptyObject⟩, ⟨[], rfl, by decide, nofun⟩, 200, rfl, rfl, rfl⟩

theorem downMirror_exhausted : downMirror.Exhausted 3 := by
  refine ⟨rfl, fun a ha => ?_⟩
  simp only [downMirror, List.mem_cons, List.not_mem_nil, or_false] at ha
  rcases ha with rfl | rfl | rfl
  · exact Or.inr (Or.inl ⟨503, rfl, rfl⟩)
  · exact Or.inl ⟨"timeout", rfl⟩
  · exact Or.inr (Or.inr ⟨200, "connection closed", rfl, rfl, rfl⟩)

theorem downMirror_not_corrupt : ¬ downMirror.Corrupt 3 bodyCrates objectDigest := by
  rintro ⟨raw, ⟨last, ⟨retried, hattempts, -, -⟩, hserved⟩, -⟩
  have hlast : some (⟨.ok 200, .error "connection closed"⟩ : Attempt) = some last := by
    have hgetLast := congrArg List.getLast? hattempts
    rwa [List.getLast?_concat] at hgetLast
  obtain rfl := Option.some.inj hlast
  obtain ⟨status, -, -, hbody⟩ := hserved
  cases hbody

theorem sla_ne_notFound (msg msg' : String) :
    OracleError.slaParse msg ≠ .evidenceNotFound msg' := nofun

theorem fetchEvidence_failover_down : fetchFrom downMirror = .ok (.object []) := by
  have hclean : ∀ u ∈ [downMirror], ¬ u.Corrupt 3 bodyCrates objectDigest := by
    intro u hu
    rw [List.mem_singleton.mp hu]
    exact downMirror_not_corrupt
  have hfails : ∀ u ∈ [downMirror], u.Fails 3 bodyCrates objectDigest := by
    intro u hu
    rw [List.mem_singleton.mp hu]
    exact Or.inl downMirror_exhausted
  exact (fetchEvidence_failover bodyCrates twoMirrors objectDigest parseObject sla_ne_notFound
    rfl rfl goodMirror_serves rfl hfails []).mpr hclean

theorem staleMirror_fails : staleMirror.Fails 3 bodyCrates objectDigest := by
  have hserves : staleMirror.Serves 3 emptyArray :=
    ⟨⟨.ok 200, .ok emptyArray⟩, ⟨[], rfl, by decide, nofun⟩, 200, rfl, rfl, rfl⟩
  exact Or.inr (Or.inr ⟨emptyArray, hserves, by decide⟩)

theorem fetchEvidence_blocked : staleMirror.Fails 3 bodyCrates objectDigest ∧
    goodMirror.Serves 3 emptyObject ∧ bodyCrates.sha256 emptyObject = objectDigest ∧
    fetchFrom staleMirror ≠ (parseObject emptyObject).mapError
      (fun e => .slaParse ("Failed to parse JSON: " ++ e)) := by
  refine ⟨staleMirror_fails, goodMirror_serves, rfl, ?_⟩
  intro h
  have hmismatch : ∃ msg, fetchFrom staleMirror = .error (.evidenceNotFound msg) := ⟨_, rfl⟩
  obtain ⟨msg, herror⟩ := hmismatch
  rw [herror] at h
  cases h

end OracleQa.Failover
