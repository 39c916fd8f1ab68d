import OracleQa.Model.Evaluator
import OracleQa.Model.Settler

/-! `pipeline.rs`: hash-bound evidence from the registry mirrors, evaluation, settlement. -/

namespace OracleQa.Pipeline
open Text

structure PipelineOutcome where
  result : EvaluationResult
  signature : Option String
  resolutionHash : Bytes32
  deriving DecidableEq

def isSuccess (status : Nat) : Bool := 200 ≤ status && status < 300

def isServerError (status : Nat) : Bool := 500 ≤ status && status < 600

/-- `base_ms * (1 << attempt)` with the wrapping arithmetic of a release build. -/
def backoffMs (cfg : OracleConfig) (attempt : Nat) : UInt64 :=
  cfg.evidenceFetchRetryBaseMs * (1 <<< attempt.toUInt64)

/-- How the attempts at one mirror end: by a `return`, or by going on to the next mirror. -/
inductive MirrorResult (T : Type)
  | done (r : Except OracleError T)
  | next (lastErr : String)

section Fetch
variable (crates : Crates) (cfg : OracleConfig) {T : Type} (hash : Bytes32)
  (parse : Bytes → Except String T) (parseError : String → OracleError)

def hashHex : String := hexEncode hash.toList

def mirrorUrl (base : String) : String :=
  String.ofList (base.toList.rdropWhile (· == '/')) ++ "/" ++ hashHex hash

def acceptBody (raw : Bytes) : Except OracleError T :=
  let computed := crates.sha256 raw
  if computed ≠ hash then
    .error (.evidenceNotFound ("Hash mismatch for " ++ hashHex hash ++
      ": document bytes do not match on-chain hash (got " ++ hexEncode computed.toList ++ ")"))
  else match parse raw with
    | .ok doc => .ok doc
    | .error e => .error (parseError ("Failed to parse JSON: " ++ e))

/-- The loop over `attempt`, with `left` attempts still to make. -/
def fetchAttempts (auth : Option String) (url : String) :
    (left : Nat) → (lastErr : String) → Async (MirrorResult T)
  | 0, lastErr => return .next lastErr
  | left + 1, _ => do
    let maxRetries := cfg.evidenceFetchMaxRetries.toNat
    let attempt := maxRetries - (left + 1)
    match ← ask (.httpSend url auth) with
    | .ok status =>
      if !isSuccess status then
        let lastErr := "Registry returned " ++ crates.statusText status ++ " for " ++ url
        if isServerError status && attempt + 1 < maxRetries then do
          let _ ← ask (.sleepMs (backoffMs cfg attempt))
          fetchAttempts auth url left lastErr
        else return .next lastErr
      else
        match ← ask (.httpBytes url) with
        -- also when the document is not the committed one: no other mirror is asked
        | .ok raw => return .done (acceptBody crates hash parse parseError raw)
        | .error e =>
          if attempt + 1 < maxRetries then do
            let _ ← ask (.sleepMs (backoffMs cfg attempt))
            fetchAttempts auth url left ("read body: " ++ e)
          else fetchAttempts auth url left ("read body: " ++ e)
    | .error e =>
      if attempt + 1 < maxRetries then do
        let _ ← ask (.sleepMs (backoffMs cfg attempt))
        fetchAttempts auth url left e
      else fetchAttempts auth url left e

def fetchMirrors (auth : Option String) :
    (bases : List String) → (lastErr : String) → Async (Except OracleError T)
  | [], lastErr => do
    let _ ← ask .countEvidenceFailure
    return .error (.evidenceNotFound (hashHex hash ++ " (tried " ++
      toString cfg.evidenceRegistryUrls.length ++ " base URL(s), up to " ++
      toString cfg.evidenceFetchMaxRetries ++ " retries each): " ++ lastErr))
  | base :: bases, lastErr => do
    match ← fetchAttempts crates cfg hash parse parseError auth (mirrorUrl hash base)
        cfg.evidenceFetchMaxRetries.toNat lastErr with
    | .done r => return r
    | .next lastErr => fetchMirrors auth bases lastErr

def authHeader : Except OracleError (Option String) :=
  match cfg.evidenceRegistryAuthHeader with
  | none => .ok none
  | some auth =>
    match crates.headerValue auth with
    | .ok value => .ok (some value)
    | .error e => .error (.evidenceNotFound ("invalid AUTH header: " ++ e))

def fetchEvidence : Async (Except OracleError T) :=
  match authHeader crates cfg with
  | .error e => return .error e
  | .ok auth => fetchMirrors crates cfg hash parse parseError auth cfg.evidenceRegistryUrls ""

end Fetch

theorem fetchAttempts_rule {crates : Crates} {cfg : OracleConfig} {T : Type} {hash : Bytes32}
    {parse : Bytes → Except String T} {parseError : String → OracleError} {auth : Option String}
    {url : String} {S : Type} {next : S → (c : Call) → c.Reply → S → Prop} {ok : S → Call → Prop}
    {Q : MirrorResult T → S → Prop} (I J : Nat → S → Prop)
    (hsend : ∀ left s, I (left + 1) s → ok s (.httpSend url auth) ∧
      ∀ r s', next s (.httpSend url auth) r s' → J left s')
    (hbytes : ∀ left s, J left s → ok s (.httpBytes url) ∧
      ∀ r s', next s (.httpBytes url) r s' → J left s' ∧
        ∀ raw, r = .ok raw → Q (.done (acceptBody crates hash parse parseError raw)) s')
    (hsleep : ∀ left s, J left s → ∀ attempt,
      attempt + (left + 1) = cfg.evidenceFetchMaxRetries.toNat → 0 < left →
        ok s (.sleepMs (backoffMs cfg attempt)) ∧
          ∀ r s', next s (.sleepMs (backoffMs cfg attempt)) r s' → I left s')
    (hnext : ∀ left s, J left s → ∀ lastErr, Q (.next lastErr) s)
    (hnone : ∀ s, I 0 s → ∀ lastErr, Q (.next lastErr) s)
    {left : Nat} (hleft : left ≤ cfg.evidenceFetchMaxRetries.toNat) {lastErr : String} {s : S}
    (hs : I left s) :
    (fetchAttempts crates cfg hash parse parseError auth url left lastErr).Wp next ok Q s := by
  induction left generalizing s lastErr with
  | zero => exact hnone s hs lastErr
  | succ left ih =>
    -- the delay, and the attempts after it
    have hdelay : ∀ (s₁ : S) (lastErr : String), J left s₁ →
        cfg.evidenceFetchMaxRetries.toNat - (left + 1) + 1 < cfg.evidenceFetchMaxRetries.toNat →
        (ask (.sleepMs (backoffMs cfg (cfg.evidenceFetchMaxRetries.toNat - (left + 1)))) >>=
          fun _ => fetchAttempts crates cfg hash parse parseError auth url left lastErr).Wp
            next ok Q s₁ := by
      intro s₁ lastErr hs₁ hmore
      obtain ⟨hok, hslept⟩ := hsleep left s₁ hs₁
        (cfg.evidenceFetchMaxRetries.toNat - (left + 1)) (by omega) (by omega)
      exact ⟨hok, fun r s₂ hr => ih (by omega) (hslept r s₂ hr)⟩
    have hretry : ∀ (s₁ : S) (lastErr : String), J left s₁ →
        (if cfg.evidenceFetchMaxRetries.toNat - (left + 1) + 1 <
            cfg.evidenceFetchMaxRetries.toNat then do
          let _ ← ask (.sleepMs (backoffMs cfg (cfg.evidenceFetchMaxRetries.toNat - (left + 1))))
          fetchAttempts crates cfg hash parse parseError auth url left lastErr
        else fetchAttempts crates cfg hash parse parseError auth url left lastErr).Wp
          next ok Q s₁ := by
      intro s₁ lastErr hs₁
      split
      · next hmore => exact hdelay s₁ lastErr hs₁ hmore
      · -- none is left after the last one
        obtain rfl : left = 0 := by omega
        exact hnext 0 s₁ hs₁ lastErr
    obtain ⟨hok, hsent⟩ := hsend left s hs
    rw [fetchAttempts]
    refine ⟨hok, fun reply s₁ hreply => ?_⟩
    have hs₁ := hsent reply s₁ hreply
    cases reply with
    | error e => exact hretry s₁ _ hs₁
    | ok status =>
      dsimp only [Interaction.Prog.bind]
      split
      · split
        · next hmore =>
          exact hdelay s₁ _ hs₁ (of_decide_eq_true (Bool.and_eq_true_iff.mp hmore).2)
        · exact hnext left s₁ hs₁ _
      · obtain ⟨hokBytes, hread⟩ := hbytes left s₁ hs₁
        refine ⟨hokBytes, fun reply s₂ hreply => ?_⟩
        obtain ⟨hs₂, hdone⟩ := hread reply s₂ hreply
        cases reply with
        | ok raw => exact hdone raw rfl
        | error e => exact hretry s₂ _ hs₂

def runPipeline (crates : Crates) (cfg : OracleConfig) (job : EvaluationJob) :
    Async (Except OracleError PipelineOutcome) := do
  match ← Settler.isEligible crates cfg job with
  | .error e => return .error e
  | .ok false => return .error (.evaluation
      ("Payment " ++ uidHex job.paymentUid ++ " is no longer eligible for oracle confirmation"))
  | .ok true =>
  match ← fetchEvidence crates cfg job.slaHash crates.parseSla .slaParse with
  | .error e => return .error e
  | .ok sla =>
  match ← fetchEvidence crates cfg job.deliveryHash crates.parseDelivery .deliveryParse with
  | .error e => return .error e
  | .ok evidence =>
  match Evaluator.evaluate crates cfg.strictProfile sla evidence with
  | .error e => return .error e
  | .ok result =>
  match Settler.computeResolutionHash crates job sla result with
  | .error e => return .error e
  | .ok resolutionHash =>
  match ← Settler.settle crates cfg job result.approved result.resolutionReason resolutionHash with
  | .error e => return .error e
  | .ok sig => return .ok ⟨result, some sig, resolutionHash⟩

end OracleQa.Pipeline
