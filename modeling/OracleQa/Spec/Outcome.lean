import OracleQa.Spec.Footprint
import OracleQa.Spec.Settlement

/-! Every complete run of the pipeline is explained by the replies that it got: it settles, and
returns what it has settled, or its error names the reply for which it could not. -/

namespace OracleQa.Outcome
open Interaction Pipeline Settler
open Settlement (Ev History Served HashBound ClockRead EligibleRead)

def failed (url : String) (ev : Ev) : Bool :=
  match ev with
  | ⟨.httpSend url' _, some (.error _)⟩ => url' == url
  | ⟨.httpSend url' _, some (.ok status)⟩ => url' == url && isServerError status
  | ⟨.httpBytes url', some (.error _)⟩ => url' == url
  | _ => false

def Refused (h : History) (url : String) : Prop :=
  ∃ auth status, (⟨.httpSend url auth, some (.ok status)⟩ : Ev) ∈ h ∧ isSuccess status = false ∧
    isServerError status = false

/-- All attempts at `url` failed, or one was refused. -/
def Down (cfg : OracleConfig) (h : History) (url : String) : Prop :=
  cfg.evidenceFetchMaxRetries.toNat ≤ h.countP (failed url) ∨ Refused h url

def unavailableText (cfg : OracleConfig) (hash : Bytes32) (lastErr : String) : String :=
  hashHex hash ++ " (tried " ++ toString cfg.evidenceRegistryUrls.length ++
    " base URL(s), up to " ++ toString cfg.evidenceFetchMaxRetries ++ " retries each): " ++ lastErr

section
variable (crates : Crates) (cfg : OracleConfig) (job : EvaluationJob)

def Ineligible (h : History) : Prop :=
  (⟨.getAccount job.paymentPubkey, some (.ok none)⟩ : Ev) ∈ h ∨ ∃ account,
    (⟨.getAccount job.paymentPubkey, some (.ok (some account))⟩ : Ev) ∈ h ∧
    ∀ payment, paymentImage crates account = some payment →
      payment.oracleAuthority ≠ cfg.oraclePubkey ∨ payment.deliveryTimestamp = 0 ∨
        payment.resolutionState ≠ 0 ∨ ∃ now, ClockRead crates h now ∧ payment.expiresAt < now

/-- What an error of the run tells of its history. -/
inductive Cause (h : History) : OracleError → Prop
  | chain {msg : String}
      (hread : (⟨.getAccount job.paymentPubkey, some (.error msg)⟩ : Ev) ∈ h) : Cause h (.chain msg)
  | ineligible (hread : Ineligible crates cfg job h) : Cause h (.evaluation
      ("Payment " ++ uidHex job.paymentUid ++ " is no longer eligible for oracle confirmation"))
  | header {e : OracleError} (hheader : authHeader crates cfg = .error e) : Cause h e
  | unavailable {hash : Bytes32} {lastErr : String}
      (hhash : hash = job.slaHash ∨ hash = job.deliveryHash)
      (hdown : ∀ base ∈ cfg.evidenceRegistryUrls, Down cfg h (mirrorUrl hash base)) :
      Cause h (.evidenceNotFound (unavailableText cfg hash lastErr))
  | mismatch {hash : Bytes32} {raw : Bytes}
      (hhash : hash = job.slaHash ∨ hash = job.deliveryHash) (hserved : Served cfg h hash raw)
      (hraw : crates.sha256 raw ≠ hash) : Cause h (.evidenceNotFound ("Hash mismatch for " ++
        hashHex hash ++ ": document bytes do not match on-chain hash (got " ++
        hashHex (crates.sha256 raw) ++ ")"))
  | slaParse {raw : Bytes} {msg : String} (hserved : Served cfg h job.slaHash raw)
      (hraw : crates.sha256 raw = job.slaHash) (hparse : crates.parseSla raw = .error msg) :
      Cause h (.slaParse ("Failed to parse JSON: " ++ msg))
  | deliveryParse {raw : Bytes} {msg : String} (hserved : Served cfg h job.deliveryHash raw)
      (hraw : crates.sha256 raw = job.deliveryHash)
      (hparse : crates.parseDelivery raw = .error msg) :
      Cause h (.deliveryParse ("Failed to parse JSON: " ++ msg))
  | blockhash {msg : String} (hreply : (⟨.getLatestBlockhash, some (.error msg)⟩ : Ev) ∈ h) :
      Cause h (.settlement ("Failed to get blockhash: " ++ msg))
  | send {tx : Transaction} {msg : String}
      (hreply : (⟨.sendAndConfirm tx, some (.error msg)⟩ : Ev) ∈ h) :
      Cause h (.settlement ("Transaction failed: " ++ msg))

/-- The verdict on the committed documents was confirmed, and is what the run returns. -/
def Settled (h : History) (o : PipelineOutcome) : Prop :=
  EligibleRead crates cfg job h ∧ ∃ sla evidence blockhash sig,
    HashBound crates cfg crates.parseSla h job.slaHash sla ∧
    HashBound crates cfg crates.parseDelivery h job.deliveryHash evidence ∧
    Evaluator.evaluate crates cfg.strictProfile sla evidence = .ok o.result ∧
    computeResolutionHash crates job sla o.result = .ok o.resolutionHash ∧
    o.signature = some (crates.signatureToString sig) ∧
    (⟨.sendAndConfirm ⟨⟨cfg.oraclePubkey, job.mint, uidHex job.paymentUid, job.deliveryHash,
      o.resolutionHash, if o.result.approved then 1 else 2, o.result.resolutionReason⟩, blockhash⟩,
      some (.ok sig)⟩ : Ev) ∈ h

end

variable {crates : Crates} {cfg : OracleConfig} {job : EvaluationJob} {h h' : History}

theorem Down.mono {url : String} (hdown : Down cfg h url) (hle : h <+: h') : Down cfg h' url := by
  rcases hdown with hcount | ⟨auth, status, hmem, hstatus⟩
  · exact Or.inl (hcount.trans (hle.sublist.countP_le))
  · exact Or.inr ⟨auth, status, hle.subset hmem, hstatus⟩

theorem prefix_snoc (h : History) (ev : Ev) : h <+: h ++ [ev] := List.prefix_append h _

theorem countP_failed {url : String} {ev : Ev} (hev : failed url ev = true) :
    (h ++ [ev]).countP (failed url) = h.countP (failed url) + 1 := by
  rw [List.countP_append, List.countP_singleton, if_pos hev]

def Any (_ : History) (_ : Call) : Prop := True

theorem wp_ask {α : Type} {c : Call} {f : c.Reply → Async α} {Q : α → History → Prop}
    (hf : ∀ r, (f r).Wp Prog.record Any Q (h ++ [⟨c, some r⟩])) :
    (ask c >>= f).Wp Prog.record Any Q h := by
  refine ⟨trivial, ?_⟩
  rintro r h' rfl
  exact hf r

/-! ## Evidence -/

section Evidence
variable {T : Type} {hash : Bytes32} {parse : Bytes → Except String T}
  {parseError : String → OracleError} {auth : Option String} {url : String}

def MirrorPost (crates : Crates) (cfg : OracleConfig) (hash : Bytes32)
    (parse : Bytes → Except String T) (parseError : String → OracleError) (url : String)
    (h : History) : MirrorResult T → History → Prop
  | .next _, h' => h <+: h' ∧ Down cfg h' url
  | .done r, h' => h <+: h' ∧ ∃ raw, (⟨.httpBytes url, some (.ok raw)⟩ : Ev) ∈ h' ∧
      r = acceptBody crates hash parse parseError raw

theorem MirrorPost.mono {r : MirrorResult T} {h₀ : History} (hle : h₀ <+: h)
    (hr : MirrorPost crates cfg hash parse parseError url h r h') :
    MirrorPost crates cfg hash parse parseError url h₀ r h' := by
  cases r with
  | next e => exact ⟨hle.trans hr.1, hr.2⟩
  | done r => exact ⟨hle.trans hr.1, hr.2⟩

theorem fetchAttempts_post {left : Nat} (hleft : left ≤ cfg.evidenceFetchMaxRetries.toNat)
    (hcount : cfg.evidenceFetchMaxRetries.toNat ≤ h.countP (failed url) + left) (lastErr : String) :
    (fetchAttempts crates cfg hash parse parseError auth url left lastErr).Wp Prog.record Any
      (MirrorPost crates cfg hash parse parseError url h) h := by
  induction left generalizing h lastErr with
  | zero => exact ⟨List.prefix_refl h, Or.inl hcount⟩
  | succ left ih =>
    -- after a failure: the delay, if another attempt is left, and that attempt
    have hretry : ∀ (h₁ : History) (e : String), h <+: h₁ →
        cfg.evidenceFetchMaxRetries.toNat ≤ h₁.countP (failed url) + left →
        (fetchAttempts crates cfg hash parse parseError auth url left e).Wp Prog.record Any
          (MirrorPost crates cfg hash parse parseError url h) h₁ := fun h₁ e hle hfailed =>
      (ih (by omega) hfailed e).mono fun _ _ hr => hr.mono hle
    have hdelay : ∀ (h₁ : History) (e : String) (ms : UInt64), h <+: h₁ →
        cfg.evidenceFetchMaxRetries.toNat ≤ h₁.countP (failed url) + left →
        (ask (.sleepMs ms) >>= fun _ =>
          fetchAttempts crates cfg hash parse parseError auth url left e).Wp Prog.record Any
          (MirrorPost crates cfg hash parse parseError url h) h₁ := by
      intro h₁ e ms hle hfailed
      refine wp_ask fun r => hretry _ e (hle.trans (prefix_snoc _ _)) (hfailed.trans ?_)
      exact Nat.add_le_add_right ((prefix_snoc h₁ _).sublist.countP_le) left
    have hagain : ∀ {ev : Ev}, failed url ev = true → ∀ {h₁ : History}, h <+: h₁ →
        cfg.evidenceFetchMaxRetries.toNat ≤ (h₁ ++ [ev]).countP (failed url) + left := by
      intro ev hev h₁ hle
      rw [countP_failed hev]
      have := hle.sublist.countP_le (p := failed url)
      omega
    rw [fetchAttempts]
    refine wp_ask fun r => ?_
    cases r with
    | error e =>
      have hev : failed url ⟨.httpSend url auth, some (.error e)⟩ = true := beq_self_eq_true url
      dsimp only
      split
      · exact hdelay _ _ _ (prefix_snoc _ _) (hagain hev (List.prefix_refl h))
      · exact hretry _ _ (prefix_snoc _ _) (hagain hev (List.prefix_refl h))
    | ok status =>
      dsimp only
      split
      · next hstatus =>
        have hno : isSuccess status = false := by simpa using hstatus
        cases herror : isServerError status with
        | true =>
          have hev : failed url ⟨.httpSend url auth, some (.ok status)⟩ = true := by
            simp [failed, herror]
          have hfailed := hagain hev (List.prefix_refl h)
          simp only [Bool.true_and]
          split
          · exact hdelay _ _ _ (prefix_snoc _ _) hfailed
          · next hlast =>
            -- it was the last one
            have hzero : left = 0 := by
              rw [decide_eq_true_eq] at hlast
              omega
            rw [hzero] at hfailed
            exact ⟨prefix_snoc _ _, Or.inl hfailed⟩
        | false =>
          simp only [Bool.false_and, Bool.false_eq_true, if_false]
          exact ⟨prefix_snoc _ _, Or.inr
            ⟨auth, status, List.mem_append_right h (List.mem_singleton_self _), hno, herror⟩⟩
      · refine wp_ask fun r => ?_
        have hle := (prefix_snoc h ⟨.httpSend url auth, some (.ok status)⟩).trans
          (prefix_snoc _ ⟨.httpBytes url, some r⟩)
        cases r with
        | ok raw => exact ⟨hle, raw, List.mem_append_right _ (List.mem_singleton_self _), rfl⟩
        | error e =>
          have hev : failed url ⟨.httpBytes url, some (.error e)⟩ = true := beq_self_eq_true url
          dsimp only
          split
          · exact hdelay _ _ _ hle (hagain hev (prefix_snoc _ _))
          · exact hretry _ _ hle (hagain hev (prefix_snoc _ _))

def FetchPost (crates : Crates) (cfg : OracleConfig) (hash : Bytes32)
    (parse : Bytes → Except String T) (parseError : String → OracleError) (h : History)
    (r : Except OracleError T) (h' : History) : Prop :=
  h <+: h' ∧ ((∃ raw, Served cfg h' hash raw ∧ r = acceptBody crates hash parse parseError raw) ∨
    (∃ lastErr, r = .error (.evidenceNotFound (unavailableText cfg hash lastErr)) ∧
      ∀ base ∈ cfg.evidenceRegistryUrls, Down cfg h' (mirrorUrl hash base)) ∨
    ∃ e, r = .error e ∧ authHeader crates cfg = .error e)

theorem fetchMirrors_post {bases tried : List String}
    (hbases : tried ++ bases = cfg.evidenceRegistryUrls)
    (htried : ∀ base ∈ tried, Down cfg h (mirrorUrl hash base)) (lastErr : String) :
    (fetchMirrors crates cfg hash parse parseError auth bases lastErr).Wp Prog.record Any
      (FetchPost crates cfg hash parse parseError h) h := by
  induction bases generalizing h tried lastErr with
  | nil =>
    rw [List.append_nil] at hbases
    refine wp_ask fun r => ⟨prefix_snoc _ _, Or.inr (Or.inl ⟨_, rfl, fun base hbase => ?_⟩)⟩
    exact (htried base (hbases ▸ hbase)).mono (prefix_snoc _ _)
  | cons base bases ih =>
    unfold fetchMirrors
    refine (fetchAttempts_post le_rfl (Nat.le_add_left ..) lastErr).bind fun r h₁ hr => ?_
    cases r with
    | done r =>
      obtain ⟨hle, raw, hmem, hraw⟩ := hr
      have hbase : base ∈ cfg.evidenceRegistryUrls := by
        rw [← hbases]
        exact List.mem_append_right tried List.mem_cons_self
      exact ⟨hle, Or.inl ⟨raw, ⟨base, hbase, hmem⟩, hraw⟩⟩
    | next e =>
      obtain ⟨hle, hdown⟩ := hr
      have htried₁ : ∀ b ∈ tried ++ [base], Down cfg h₁ (mirrorUrl hash b) := by
        intro b hb
        rcases List.mem_append.mp hb with hb | hb
        · exact (htried b hb).mono hle
        · rw [List.mem_singleton.mp hb]
          exact hdown
      exact (ih ((List.append_assoc ..).trans hbases) htried₁ e).mono fun r h₂ hr₂ =>
        ⟨hle.trans hr₂.1, hr₂.2⟩

theorem fetchEvidence_post : (fetchEvidence crates cfg hash parse parseError).Wp Prog.record Any
    (FetchPost crates cfg hash parse parseError h) h := by
  unfold fetchEvidence
  split
  · next e he => exact ⟨List.prefix_refl h, Or.inr (Or.inr ⟨e, rfl, he⟩)⟩
  · have hnone : ∀ base ∈ ([] : List String), Down cfg h (mirrorUrl hash base) :=
      List.forall_mem_nil _
    exact fetchMirrors_post rfl hnone ""

theorem Served.mono {raw : Bytes} (hs : Served cfg h hash raw) (hle : h <+: h') :
    Served cfg h' hash raw := by
  obtain ⟨base, hbase, hmem⟩ := hs
  exact ⟨base, hbase, hle.subset hmem⟩

end Evidence

/-! ## Eligibility and settlement -/

theorem clockRead_mono {now : Int} (hclock : ClockRead crates h now) (hle : h <+: h') :
    ClockRead crates h' now :=
  hclock.imp (fun ⟨account, hmem, hnow⟩ => ⟨account, hle.subset hmem, hnow⟩)
    fun hmem => hle.subset hmem

theorem chainUnixTimestamp_post : (chainUnixTimestamp crates).Wp Prog.record Any
    (fun now h' => h <+: h' ∧ ClockRead crates h' now) h := by
  have hwall : ∀ {h₁ : History}, h <+: h₁ → (ask .utcNow).Wp Prog.record Any
      (fun now h' => h <+: h' ∧ ClockRead crates h' now) h₁ := by
    intro h₁ hle
    refine ⟨trivial, ?_⟩
    rintro now h₂ rfl
    exact ⟨hle.trans (prefix_snoc _ _),
      Or.inr (List.mem_append_right _ (List.mem_singleton_self _))⟩
  unfold chainUnixTimestamp
  refine wp_ask fun r => ?_
  rcases r with e | _ | account
  · exact hwall (prefix_snoc _ _)
  · exact hwall (prefix_snoc _ _)
  · dsimp only
    split
    · next now hnow =>
      exact ⟨prefix_snoc _ _,
        Or.inl ⟨account, List.mem_append_right _ (List.mem_singleton_self _), hnow⟩⟩
    · exact hwall (prefix_snoc _ _)

def GatePost (crates : Crates) (cfg : OracleConfig) (job : EvaluationJob) :
    Except OracleError Bool → History → Prop
  | .error e, h => Cause crates cfg job h e
  | .ok false, h => Ineligible crates cfg job h
  | .ok true, h => EligibleRead crates cfg job h

theorem isEligible_post : (isEligible crates cfg job).Wp Prog.record Any
    (GatePost crates cfg job) [] := by
  unfold isEligible
  refine wp_ask fun r => ?_
  rcases r with e | _ | account
  · exact .chain (List.mem_singleton_self _)
  · exact Or.inl (List.mem_singleton_self _)
  · dsimp only
    -- the read tells that the payment is not one to resolve
    have hno : ∀ payment, paymentImage crates account = some payment →
        (payment.oracleAuthority ≠ cfg.oraclePubkey ∨ payment.deliveryTimestamp = 0 ∨
          payment.resolutionState ≠ 0) → GatePost crates cfg job (.ok false)
            ([] ++ [⟨.getAccount job.paymentPubkey, some (.ok (some account))⟩]) := by
      intro payment hpayment hwrong
      refine Or.inr ⟨account, List.mem_singleton_self _, fun payment' hpayment' => ?_⟩
      obtain rfl := Option.some.inj (hpayment.symm.trans hpayment')
      exact hwrong.imp_right (Or.imp_right Or.inl)
    split
    · next himage =>
      refine Or.inr ⟨account, List.mem_singleton_self _, fun payment hpayment => ?_⟩
      rw [himage] at hpayment
      cases hpayment
    next payment hpayment =>
    split
    · next hauthority => exact hno payment hpayment (Or.inl hauthority)
    next hauthority =>
    split
    · next hdelivered => exact hno payment hpayment (Or.inr (Or.inl hdelivered))
    next hdelivered =>
    split
    · next hopen => exact hno payment hpayment (Or.inr (Or.inr hopen))
    next hopen =>
    refine chainUnixTimestamp_post.bind fun now h' hnow => ?_
    obtain ⟨⟨rest, rfl⟩, hclock⟩ := hnow
    split
    · next hexpired =>
      refine Or.inr ⟨account, List.mem_cons_self, fun payment' hpayment' => ?_⟩
      obtain rfl := Option.some.inj (hpayment.symm.trans hpayment')
      exact Or.inr (Or.inr (Or.inr ⟨now, hclock, hexpired⟩))
    · next hexpired =>
      exact ⟨account, payment, now, rfl, hpayment, not_not.mp hauthority, hdelivered,
        not_not.mp hopen, hclock, not_lt.mp hexpired⟩

theorem eligibleRead_mono (hread : EligibleRead crates cfg job h) (hle : h <+: h') :
    EligibleRead crates cfg job h' := by
  obtain ⟨account, payment, now, hhead, himage, hauth, hdel, hres, hclock, hexp⟩ := hread
  obtain ⟨rest, rfl⟩ := hle
  refine ⟨account, payment, now, ?_, himage, hauth, hdel, hres,
    clockRead_mono hclock (List.prefix_append h rest), hexp⟩
  rw [List.head?_append, hhead, Option.some_or]

theorem cause_of_fetch {T : Type} {hash : Bytes32} {parse : Bytes → Except String T}
    {parseError : String → OracleError} (hhash : hash = job.slaHash ∨ hash = job.deliveryHash)
    (hparse : ∀ raw msg, Served cfg h hash raw → crates.sha256 raw = hash → parse raw = .error msg →
      Cause crates cfg job h (parseError ("Failed to parse JSON: " ++ msg)))
    {h₀ : History} {e : OracleError}
    (hpost : FetchPost crates cfg hash parse parseError h₀ (.error e) h) :
    Cause crates cfg job h e := by
  obtain ⟨-, ⟨raw, hserved, hraw⟩ | ⟨lastErr, herror, hdown⟩ | ⟨e', herror, hheader⟩⟩ := hpost
  · unfold acceptBody at hraw
    dsimp only at hraw
    split at hraw
    · next hmismatch =>
      obtain rfl := Except.error.inj hraw
      exact .mismatch hhash hserved hmismatch
    · next hmatch =>
      split at hraw
      · cases hraw
      · next msg hmsg =>
        obtain rfl := Except.error.inj hraw
        exact hparse raw msg hserved (not_not.mp hmatch) hmsg
  · obtain rfl := Except.error.inj herror
    exact .unavailable hhash hdown
  · obtain rfl := Except.error.inj herror
    exact .header hheader

theorem hashBound_of_fetch {T : Type} {hash : Bytes32} {parse : Bytes → Except String T}
    {parseError : String → OracleError} {h₀ : History} {doc : T}
    (hpost : FetchPost crates cfg hash parse parseError h₀ (.ok doc) h) :
    HashBound crates cfg parse h hash doc := by
  obtain ⟨-, ⟨raw, hserved, hraw⟩ | ⟨lastErr, herror, -⟩ | ⟨e', herror, -⟩⟩ := hpost
  · exact ⟨raw, hserved, Settlement.acceptBody_ok hraw.symm⟩
  · cases herror
  · cases herror

theorem hashBound_mono {T : Type} {hash : Bytes32} {parse : Bytes → Except String T} {doc : T}
    (hdoc : HashBound crates cfg parse h hash doc) (hle : h <+: h') :
    HashBound crates cfg parse h' hash doc := by
  obtain ⟨raw, hserved, hraw⟩ := hdoc
  exact ⟨raw, Served.mono hserved hle, hraw⟩

def SettlePost (crates : Crates) (cfg : OracleConfig) (job : EvaluationJob) (approved : Bool)
    (reason : UInt16) (hash : Bytes32) (h : History) (r : Except OracleError String)
    (h' : History) : Prop :=
  h <+: h' ∧ (∀ e, r = .error e → Cause crates cfg job h' e) ∧ ∀ s, r = .ok s →
    ∃ blockhash sig, s = crates.signatureToString sig ∧ (⟨.sendAndConfirm
      ⟨⟨cfg.oraclePubkey, job.mint, uidHex job.paymentUid, job.deliveryHash, hash,
        if approved then 1 else 2, reason⟩, blockhash⟩, some (.ok sig)⟩ : Ev) ∈ h'

theorem settle_post (approved : Bool) (reason : UInt16) (hash : Bytes32) :
    (settle crates cfg job approved reason hash).Wp Prog.record Any
      (SettlePost crates cfg job approved reason hash h) h := by
  unfold settle
  refine wp_ask fun r => ?_
  cases r with
  | error e =>
    refine ⟨prefix_snoc _ _, ?_, fun s hs => by cases hs⟩
    rintro e' ⟨⟩
    exact .blockhash (List.mem_append_right _ (List.mem_singleton_self _))
  | ok blockhash =>
    refine wp_ask fun r => ?_
    have hle := (prefix_snoc h ⟨.getLatestBlockhash, some (.ok blockhash)⟩).trans
      (prefix_snoc _ ⟨.sendAndConfirm ⟨⟨cfg.oraclePubkey, job.mint, uidHex job.paymentUid,
        job.deliveryHash, hash, if approved then 1 else 2, reason⟩, blockhash⟩, some r⟩)
    cases r with
    | error e =>
      refine ⟨hle, ?_, fun s hs => by cases hs⟩
      rintro e' ⟨⟩
      exact .send (List.mem_append_right _ (List.mem_singleton_self _))
    | ok sig =>
      refine ⟨hle, fun e he => (by cases he), ?_⟩
      rintro s ⟨⟩
      exact ⟨blockhash, sig, rfl, List.mem_append_right _ (List.mem_singleton_self _)⟩

/-! ## The pipeline -/

def RunPost (crates : Crates) (cfg : OracleConfig) (job : EvaluationJob) :
    Except OracleError PipelineOutcome → History → Prop
  | .ok o, h => Settled crates cfg job h o
  | .error e, h => Cause crates cfg job h e

theorem runPipeline_post : (runPipeline crates cfg job).Wp Prog.record Any
    (RunPost crates cfg job) [] := by
  unfold runPipeline
  refine isEligible_post.bind fun eligible h₁ heligible => ?_
  rcases eligible with e | _ | _
  · exact heligible
  · exact .ineligible heligible
  refine fetchEvidence_post.bind fun fetched h₂ hsla => ?_
  cases fetched with
  | error e =>
    refine cause_of_fetch (Or.inl rfl) (fun raw msg hserved hraw hparse => ?_) hsla
    exact .slaParse hserved hraw hparse
  | ok sla =>
  refine fetchEvidence_post.bind fun fetched h₃ hdelivery => ?_
  cases fetched with
  | error e =>
    refine cause_of_fetch (Or.inr rfl) (fun raw msg hserved hraw hparse => ?_) hdelivery
    exact .deliveryParse hserved hraw hparse
  | ok evidence =>
  -- the verdict and its hash are computed; they cannot fail
  have hdocs : HashBound crates cfg crates.parseSla h₃ job.slaHash sla ∧
      HashBound crates cfg crates.parseDelivery h₃ job.deliveryHash evidence :=
    ⟨hashBound_mono (hashBound_of_fetch hsla) hdelivery.1, hashBound_of_fetch hdelivery⟩
  refine (settle_post _ _ _).bind fun settled h₄ hsettle => ?_
  obtain ⟨hle, hfailed, hconfirmed⟩ := hsettle
  cases settled with
  | error e => exact hfailed e rfl
  | ok s =>
    obtain ⟨blockhash, sig, rfl, hsent⟩ := hconfirmed s rfl
    exact ⟨eligibleRead_mono heligible ((hsla.1.trans hdelivery.1).trans hle), sla, evidence,
      blockhash, sig, hashBound_mono hdocs.1 hle, hashBound_mono hdocs.2 hle, rfl, rfl, rfl, hsent⟩

def Unconfirmed (h : History) : Prop :=
  ∀ tx sig, (⟨.sendAndConfirm tx, some (.ok sig)⟩ : Ev) ∉ h

theorem Unconfirmed.snoc (hh : Unconfirmed h) {ev : Ev}
    (hev : ∀ tx sig, ev ≠ ⟨.sendAndConfirm tx, some (.ok sig)⟩) : Unconfirmed (h ++ [ev]) := by
  intro tx sig hmem
  rcases List.mem_append.mp hmem with hmem | hmem
  · exact hh tx sig hmem
  · exact hev tx sig (List.mem_singleton.mp hmem).symm

def FailPost {α : Type} (r : Except OracleError α) (h : History) : Prop :=
  ∀ e, r = .error e → Unconfirmed h

def Awaiting (h : History) (_ : Call) : Prop := Unconfirmed h

theorem settle_unconfirmed (approved : Bool) (reason : UInt16) (hash : Bytes32)
    (hh : Unconfirmed h) :
    (settle crates cfg job approved reason hash).Wp Prog.record Awaiting FailPost h := by
  unfold settle
  refine ⟨hh, ?_⟩
  rintro r h₁ rfl
  have hh₁ : Unconfirmed (h ++ [⟨.getLatestBlockhash, some r⟩]) :=
    hh.snoc fun tx sig hev => by cases hev
  cases r with
  | error e => exact fun _ _ => hh₁
  | ok blockhash =>
    refine ⟨hh₁, ?_⟩
    rintro r h₂ rfl
    cases r with
    | error e => exact fun _ _ => hh₁.snoc fun tx sig hev => by cases hev
    | ok sig => exact fun e he => by cases he

theorem runPipeline_unconfirmed :
    (runPipeline crates cfg job).Wp Prog.record Awaiting FailPost [] := by
  have hlookup : ∀ (h : History) (c : Call) (r : c.Reply) (h' : History), Unconfirmed h →
      c.isLookup = true → Prog.record h c r h' → Unconfirmed h' := by
    rintro h c r h' hh hc rfl
    refine hh.snoc fun tx sig hev => ?_
    obtain rfl := congrArg Event.call hev
    cases hc
  refine Pipeline.runPipeline_wp (fun _ _ hh _ => hh) hlookup (fun _ hh _ _ _ => hh) ?_ ?_
  · intro h hh result hash
    refine (settle_unconfirmed result.approved result.resolutionReason hash hh).mono ?_
    intro r h' hpost e he
    cases r with
    | error e' => exact hpost e' rfl
    | ok sig => cases he
  · have hnone : Unconfirmed [] := fun _ _ => List.not_mem_nil
    refine (isEligible_calls.wp (fun _ _ hh _ => hh) hlookup hnone).mono fun r h' hh => ?_
    exact ⟨fun _ => hh, fun _ _ _ => hh⟩

theorem unconfirmed_of_cut {before : History} {c : Call}
    (htr : (runPipeline crates cfg job).Trace (before ++ [⟨c, none⟩])) :
    Unconfirmed (before ++ [⟨c, none⟩]) := by
  have hbefore : Unconfirmed ([] ++ before) := htr.ok_of_wp runPipeline_unconfirmed rfl
  exact Unconfirmed.snoc hbefore fun tx sig hev => by cases hev

section
variable {tr : History} {o : PipelineOutcome} {e : OracleError}

theorem settled_of_runs
    (h : Prog.Runs (fun _ _ => True) (runPipeline crates cfg job) tr (.ok o)) :
    Settled crates cfg job tr o := h.of_wp runPipeline_post

theorem failed_of_runs
    (h : Prog.Runs (fun _ _ => True) (runPipeline crates cfg job) tr (.error e)) :
    Cause crates cfg job tr e ∧ Unconfirmed tr := by
  have hcause : RunPost crates cfg job (.error e) tr := h.of_wp runPipeline_post
  have hfail : FailPost (Except.error e : Except OracleError PipelineOutcome) tr :=
    h.of_wp runPipeline_unconfirmed
  exact ⟨hcause, hfail e rfl⟩

end

theorem outcome_explained (crates : Crates) (cfg : OracleConfig) (job : EvaluationJob)
    (tr : History) (r : Except OracleError PipelineOutcome)
    (h : Prog.Runs (fun _ _ => True) (runPipeline crates cfg job) tr r) :
    (∀ o, r = .ok o → Settled crates cfg job tr o) ∧
      ∀ e, r = .error e → Cause crates cfg job tr e ∧ Unconfirmed tr := by
  constructor
  · rintro o rfl
    exact settled_of_runs h
  · rintro e rfl
    exact failed_of_runs h

theorem outcome_explained_toy :
    let p := runPipeline .toy .toy .toy
    let tr := p.transcript Call.toyReply
    (∀ o, p.eval Call.toyReply = .ok o → Settled .toy .toy .toy tr o) ∧
      ∀ e, p.eval Call.toyReply = .error e → Cause .toy .toy .toy tr e ∧ Unconfirmed tr :=
  outcome_explained .toy .toy .toy _ _ (Prog.runs_transcript (fun _ => trivial) _)

end OracleQa.Outcome
