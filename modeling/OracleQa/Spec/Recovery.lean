import OracleQa.Interaction.Total
import OracleQa.Model.Binding
import OracleQa.Spec.Escrow

/-! Whatever has happened before, a payment that is still open can be settled: where the chain and
the mirrors serve what belongs to it, an operator's request settles it on chain, whichever crashes,
timeouts, lost replies and dead letters the processes have gone through. The ledger takes no part
in it: it does not get to see the job. -/

namespace OracleQa.Recovery
open Interaction Pipeline Server Text

structure Services where
  accounts : Pubkey → Option Account
  bodies : String → Bytes

section
variable (crates : Crates) (cfg : OracleConfig) (services : Services)

def Serves (w : World) : (c : Call) → c.Choice → Prop
  | .getAccount key, r => r = .ok (services.accounts key)
  | .getLatestBlockhash, r => ∃ blockhash, r = .ok blockhash
  | .httpSend _ _, r => ∃ status, isSuccess status = true ∧ r = .ok status
  | .httpBytes url, r => r = .ok (services.bodies url)
  | .sendAndConfirm _, choice => ∃ sig, choice = .confirmed sig
  | .sql q, choice => q.Serves choice
  -- late enough for the rate limit
  | .instantNow, now =>
    (w.admitRequest now (rateWindowNs cfg) cfg.manualEvaluateRateLimit).1 = true
  | _, _ => True

def ServesInTime (w : World) : (c : TCall) → Timed.Choice c → Prop
  | .await c, choice => Serves cfg services w c choice
  | .race c, choice => ∃ choice', choice = .finished choice' ∧ Serves cfg services w c choice'

def Answered (w : World) (c : Call) (r : c.Reply) (w' : World) : Prop :=
  ∃ choice, Serves cfg services w c choice ∧ w.perform cfg c choice = some (r, w')

def AnsweredInTime (w : World) (c : TCall) (r : TReply c) (w' : World) : Prop :=
  ∃ choice, ServesInTime cfg services w c choice ∧ w.performTimed cfg c choice = some (r, w')

def Held {T : Type} (hash : Bytes32) (parse : Bytes → Except String T) (doc : T) : Prop :=
  ∀ base ∈ cfg.evidenceRegistryUrls, crates.sha256 (services.bodies (mirrorUrl hash base)) = hash ∧
    parse (services.bodies (mirrorUrl hash base)) = .ok doc

variable (job : EvaluationJob) (result : EvaluationResult) (hash : Bytes32)

/-- What the pipeline needs to give this verdict. -/
structure Evaluable : Prop where
  payment : ∃ account, services.accounts job.paymentPubkey = some account ∧
    Chain.jobOfAccount crates cfg.oraclePubkey job.paymentPubkey account = .ok (some job)
  clock : ∃ account now, services.accounts crates.clockId = some account ∧
    crates.clockFromBytes account.data = .ok now ∧ now ≤ job.expiresAt
  header : ∃ auth, authHeader crates cfg = .ok auth
  mirrors : cfg.evidenceRegistryUrls ≠ []
  retries : 0 < cfg.evidenceFetchMaxRetries.toNat
  documents : ∃ sla evidence, Held crates cfg services job.slaHash crates.parseSla sla ∧
    Held crates cfg services job.deliveryHash crates.parseDelivery evidence ∧
    Evaluator.evaluate crates cfg.strictProfile sla evidence = .ok result ∧
    Settler.computeResolutionHash crates job sla result = .ok hash

structure Requested (headers : Headers) (paymentPubkey : String) : Prop where
  token : checkToken crates cfg headers = .ok ()
  limit : 0 < cfg.manualEvaluateRateLimit
  key : crates.pubkeyFromStr paymentPubkey = some job.paymentPubkey

def Resolved (c : ChainState) : Prop :=
  c.resolution (uidHex job.paymentUid) =
    some ⟨if result.approved then 1 else 2, result.resolutionReason, hash⟩

structure Unwritten (l l' : Ledger) : Prop where
  jobs : l'.jobs = l.jobs
  verdicts : l'.verdicts = l.verdicts
  events : l'.events = l.events

/-- The chain has the verdict, of which the ledger `l'` knows no more than `l`. -/
structure Recovered (l l' : Ledger) (c : ChainState) : Prop where
  resolved : Resolved job result hash c
  unwritten : Unwritten l l'

structure Open (w : World) (uid : String) : Prop where
  free : w.chain.resolution uid = none
  landed : ∀ tx ∈ w.chain.landed, tx.ix.paymentUid ≠ uid

/-- Calls that these services answer, and the statement that the client refuses. -/
structure Serving (next : World → (c : Call) → c.Reply → World → Prop) (ok : World → Call → Prop) :
    Prop where
  account : ∀ w key, ok w (.getAccount key) ∧ ∀ r w', next w (.getAccount key) r w' →
    r = .ok (services.accounts key) ∧ w' = w
  blockhash : ∀ w, ok w .getLatestBlockhash ∧ ∀ r w', next w .getLatestBlockhash r w' →
    (∃ blockhash, r = .ok blockhash) ∧ w' = w
  status : ∀ w url auth, ok w (.httpSend url auth) ∧ ∀ r w', next w (.httpSend url auth) r w' →
    (∃ status, isSuccess status = true ∧ r = .ok status) ∧ w' = w
  body : ∀ w url, ok w (.httpBytes url) ∧ ∀ r w', next w (.httpBytes url) r w' →
    r = .ok (services.bodies url) ∧ w' = w
  send : ∀ w tx, Open w tx.ix.paymentUid → ok w (.sendAndConfirm tx) ∧
    ∀ r w', next w (.sendAndConfirm tx) r w' →
      (∃ sig, r = .ok sig) ∧ w' = { w with chain := w.chain.land tx }
  upsert : ∀ w u, ok w (.sql (.upsertJob u)) ∧ ∀ r w', next w (.sql (.upsertJob u)) r w' →
    (∃ e, r = .error e) ∧ w' = w

end

variable {crates : Crates} {cfg : OracleConfig} {services : Services} {job : EvaluationJob}
  {result : EvaluationResult} {hash : Bytes32} {w : World}

theorem Unwritten.refl (l : Ledger) : Unwritten l l := ⟨rfl, rfl, rfl⟩

theorem Unwritten.trans {l l' l'' : Ledger} (h : Unwritten l l') (h' : Unwritten l' l'') :
    Unwritten l l'' :=
  ⟨h'.jobs.trans h.jobs, h'.verdicts.trans h.verdicts, h'.events.trans h.events⟩

section Serving
variable {next : World → (c : Call) → c.Reply → World → Prop} {ok : World → Call → Prop}

section Calls
variable {α : Type} {Q : α → World → Prop}

theorem Serving.wp_account (hserving : Serving services next ok) {key : Pubkey}
    {k : Except String (Option Account) → Async α}
    (hk : (k (.ok (services.accounts key))).Wp next ok Q w) :
    (ask (.getAccount key) >>= k).Wp next ok Q w := by
  refine ⟨(hserving.account w key).1, fun r w' hr => ?_⟩
  obtain ⟨rfl, rfl⟩ := (hserving.account w key).2 r w' hr
  exact hk

theorem Serving.wp_status (hserving : Serving services next ok) {url : String}
    {auth : Option String} {k : Except String Nat → Async α}
    (hk : ∀ status, isSuccess status = true → (k (.ok status)).Wp next ok Q w) :
    (ask (.httpSend url auth) >>= k).Wp next ok Q w := by
  refine ⟨(hserving.status w url auth).1, fun r w' hr => ?_⟩
  obtain ⟨⟨status, hstatus, rfl⟩, rfl⟩ := (hserving.status w url auth).2 r w' hr
  exact hk status hstatus

theorem Serving.wp_body (hserving : Serving services next ok) {url : String}
    {k : Except String Bytes → Async α} (hk : (k (.ok (services.bodies url))).Wp next ok Q w) :
    (ask (.httpBytes url) >>= k).Wp next ok Q w := by
  refine ⟨(hserving.body w url).1, fun r w' hr => ?_⟩
  obtain ⟨rfl, rfl⟩ := (hserving.body w url).2 r w' hr
  exact hk

theorem Serving.wp_upsert (hserving : Serving services next ok) {u : JobUpsert}
    {k : Except DbError Unit → Async α} (hk : ∀ e, (k (.error e)).Wp next ok Q w) :
    (ask (.sql (.upsertJob u)) >>= k).Wp next ok Q w := by
  refine ⟨(hserving.upsert w u).1, fun r w' hr => ?_⟩
  obtain ⟨⟨e, rfl⟩, rfl⟩ := (hserving.upsert w u).2 r w' hr
  exact hk e

end Calls

/-! ## The pipeline -/

def Just {α : Type} (w : World) (a a' : α) (w' : World) : Prop := a' = a ∧ w' = w

theorem jobOfAccount_open {oraclePubkey key : Pubkey} {account : Account}
    (h : Chain.jobOfAccount crates oraclePubkey key account = .ok (some job)) :
    ∃ payment, Settler.paymentImage crates account = some payment ∧
      payment.oracleAuthority = oraclePubkey ∧ payment.deliveryTimestamp ≠ 0 ∧
      payment.resolutionState = 0 ∧ job = Chain.jobOfPayment key payment := by
  unfold Chain.jobOfAccount at h
  split at h
  · cases h
  next payment hpayment =>
  split at h
  · cases h
  next hauthority =>
  split at h
  · cases h
  next hopen =>
  rw [not_or, not_not] at hopen
  exact ⟨payment, hpayment, not_not.mp hauthority, hopen.1, hopen.2,
    (Option.some.inj (Except.ok.inj h)).symm⟩

theorem isEligible_wp (hserving : Serving services next ok)
    (h : Evaluable crates cfg services job result hash) :
    (Settler.isEligible crates cfg job).Wp next ok (Just w (.ok true)) w := by
  obtain ⟨account, haccount, hjob⟩ := h.payment
  obtain ⟨payment, himage, hauthority, hdelivered, hopen, hpayment⟩ := jobOfAccount_open hjob
  obtain ⟨clock, now, hclock, hnow, hexpires⟩ := h.clock
  have hexpires' : ¬ now > payment.expiresAt := by
    rw [hpayment] at hexpires
    exact not_lt.mpr hexpires
  have hread : (Settler.chainUnixTimestamp crates).Wp next ok (Just w now) w := by
    refine hserving.wp_account ?_
    simp only [hclock, hnow]
    exact ⟨rfl, rfl⟩
  refine hserving.wp_account ?_
  simp only [haccount, himage, hauthority, ne_eq, not_true_eq_false, if_false, hdelivered, hopen]
  refine hread.bind ?_
  rintro _ _ ⟨rfl, rfl⟩
  rw [if_neg hexpires']
  exact ⟨rfl, rfl⟩

section Fetch
variable {T : Type} {parse : Bytes → Except String T} {parseError : String → OracleError} {doc : T}

theorem acceptBody_held (hdoc : Held crates cfg services hash parse doc) {base : String}
    (hbase : base ∈ cfg.evidenceRegistryUrls) :
    acceptBody crates hash parse parseError (services.bodies (mirrorUrl hash base)) = .ok doc := by
  obtain ⟨hsha, hparse⟩ := hdoc base hbase
  simp only [acceptBody, hsha, ne_eq, not_true_eq_false, if_false, hparse]

theorem fetchAttempts_wp (hserving : Serving services next ok)
    (hdoc : Held crates cfg services hash parse doc) {base : String}
    (hbase : base ∈ cfg.evidenceRegistryUrls) {auth : Option String} (left : Nat)
    (lastErr : String) :
    (fetchAttempts crates cfg hash parse parseError auth (mirrorUrl hash base) (left + 1)
      lastErr).Wp next ok (Just w (.done (.ok doc))) w := by
  rw [fetchAttempts]
  refine hserving.wp_status fun status hstatus => ?_
  simp only [hstatus, Bool.not_true, Bool.false_eq_true, if_false]
  refine hserving.wp_body ?_
  exact ⟨congrArg MirrorResult.done (acceptBody_held hdoc hbase), rfl⟩

theorem fetchEvidence_wp (hserving : Serving services next ok)
    (h : Evaluable crates cfg services job result hash) {docHash : Bytes32}
    (hdoc : Held crates cfg services docHash parse doc) :
    (fetchEvidence crates cfg docHash parse parseError).Wp next ok (Just w (.ok doc)) w := by
  obtain ⟨auth, hauth⟩ := h.header
  obtain ⟨base, bases, hurls⟩ := List.exists_cons_of_ne_nil h.mirrors
  obtain ⟨left, hleft⟩ := Nat.exists_eq_succ_of_ne_zero h.retries.ne'
  have hbase : base ∈ cfg.evidenceRegistryUrls := hurls ▸ List.mem_cons_self
  simp only [fetchEvidence, hauth]
  rw [hurls, fetchMirrors, hleft]
  refine (fetchAttempts_wp hserving hdoc hbase left "").bind ?_
  rintro _ _ ⟨rfl, rfl⟩
  exact ⟨rfl, rfl⟩

end Fetch

def Settles (job : EvaluationJob) (result : EvaluationResult) (hash : Bytes32) (w w' : World) :
    Prop :=
  ∃ chain, w' = { w with chain := chain } ∧ Resolved job result hash chain

theorem settle_wp (hserving : Serving services next ok)
    (hopen : Open w (uidHex job.paymentUid)) :
    (Settler.settle crates cfg job result.approved result.resolutionReason hash).Wp next ok
      (fun r w' => (∃ sig, r = .ok sig) ∧ Settles job result hash w w') w := by
  unfold Settler.settle
  dsimp only
  refine ⟨(hserving.blockhash w).1, fun r w₁ hr => ?_⟩
  obtain ⟨⟨blockhash, rfl⟩, rfl⟩ := (hserving.blockhash w).2 r w₁ hr
  let tx : Transaction := ⟨⟨cfg.oraclePubkey, job.mint, uidHex job.paymentUid, job.deliveryHash,
    hash, if result.approved then 1 else 2, result.resolutionReason⟩, blockhash⟩
  have hsend := hserving.send w₁ tx hopen
  refine ⟨hsend.1, fun r w₂ hr => ?_⟩
  obtain ⟨⟨sig, rfl⟩, rfl⟩ := hsend.2 r w₂ hr
  exact ⟨⟨_, rfl⟩, _, rfl, Function.update_self ..⟩

theorem runPipeline_wp (hserving : Serving services next ok)
    (h : Evaluable crates cfg services job result hash)
    (hopen : Open w (uidHex job.paymentUid)) :
    (runPipeline crates cfg job).Wp next ok
      (fun r w' => (∃ sig, r = .ok ⟨result, some sig, hash⟩) ∧ Settles job result hash w w') w := by
  obtain ⟨sla, evidence, hsla, hdelivery, hresult, hhash⟩ := h.documents
  unfold runPipeline
  refine (isEligible_wp hserving h).bind ?_
  rintro _ _ ⟨rfl, rfl⟩
  refine (fetchEvidence_wp hserving h hsla).bind ?_
  rintro _ _ ⟨rfl, rfl⟩
  refine (fetchEvidence_wp hserving h hdelivery).bind ?_
  rintro _ _ ⟨rfl, rfl⟩
  simp only [hresult, hhash]
  refine (settle_wp hserving hopen).bind ?_
  rintro _ w' ⟨⟨sig, rfl⟩, hsettles⟩
  exact ⟨⟨sig, rfl⟩, hsettles⟩

def Fails {ε α : Type} (w : World) (r : Except ε α) (w' : World) : Prop :=
  (∃ e, r = .error e) ∧ w' = w

theorem recordStatus_wp (hserving : Serving services next ok) (status : JobStatus)
    (lastError : Option String) (event : LifecycleEvent) (payload : EventPayload) :
    (Db.recordStatus crates job status lastError event payload).Wp next ok (Fails w) w := by
  unfold Db.recordStatus
  exact hserving.wp_upsert fun e => ⟨⟨e, rfl⟩, rfl⟩

theorem recordSettled_wp (hserving : Serving services next ok) (sig : String) :
    (Db.recordSettled crates job result (some sig) hash).Wp next ok (Fails w) w := by
  unfold Db.recordSettled
  exact hserving.wp_upsert fun e => ⟨⟨e, rfl⟩, rfl⟩

end Serving

/-! ## The answers -/

theorem answered_of_unique {c : Call} {choice : c.Choice} {r : c.Reply} {w' : World}
    (hserves : ∀ choice', Serves cfg services w c choice' ↔ choice' = choice)
    (hperform : w.perform cfg c choice = some (r, w')) (r' : c.Reply) (t : World) :
    Answered cfg services w c r' t ↔ r' = r ∧ t = w' := by
  constructor
  · rintro ⟨choice', hchoice, h⟩
    rw [(hserves choice').mp hchoice, hperform] at h
    obtain ⟨rfl, rfl⟩ := Prod.mk.inj (Option.some.inj h)
    exact ⟨rfl, rfl⟩
  · rintro ⟨rfl, rfl⟩
    exact ⟨choice, (hserves choice).mpr rfl, hperform⟩

theorem answered_race (w : World) (c : Call) (r : Option c.Reply) (w' : World) :
    AnsweredInTime cfg services w (.race c) r w' ↔
      ∃ r', r = some r' ∧ Answered cfg services w c r' w' := by
  constructor
  · rintro ⟨_, ⟨choice, rfl, hserves⟩, h⟩
    obtain ⟨⟨r', w''⟩, hperform, heq⟩ := Option.map_eq_some_iff.mp h
    obtain ⟨rfl, rfl⟩ := Prod.mk.inj heq
    exact ⟨r', rfl, choice, hserves, hperform⟩
  · rintro ⟨r', rfl, choice, hserves, hperform⟩
    exact ⟨.finished choice, ⟨choice, rfl, hserves⟩, Option.map_eq_some_iff.mpr
      ⟨_, hperform, rfl⟩⟩

theorem send_confirmed {tx : Transaction} (hopen : Open w tx.ix.paymentUid) (sig : Signature) :
    w.performSend tx (.confirmed sig) = some (.ok sig, { w with chain := w.chain.land tx }) := by
  have hnew : tx ∉ w.chain.landed := fun htx => hopen.landed tx htx rfl
  simp only [World.performSend, hnew, if_false, hopen.free, if_true]

theorem serving_answered (cfg : OracleConfig) (services : Services) :
    Serving services (Answered cfg services) fun w c => ∃ r w', Answered cfg services w c r w' where
  account w key := by
    refine ⟨⟨_, w, .ok (services.accounts key), rfl, rfl⟩, ?_⟩
    rintro r w' ⟨_, rfl, h⟩
    obtain ⟨rfl, rfl⟩ := Prod.mk.inj (Option.some.inj h)
    exact ⟨rfl, rfl⟩
  blockhash w := by
    refine ⟨⟨_, w, .ok (byte32 0), ⟨_, rfl⟩, rfl⟩, ?_⟩
    rintro r w' ⟨_, ⟨blockhash, rfl⟩, h⟩
    obtain ⟨rfl, rfl⟩ := Prod.mk.inj (Option.some.inj h)
    exact ⟨⟨blockhash, rfl⟩, rfl⟩
  status w url auth := by
    refine ⟨⟨_, w, .ok 200, ⟨200, rfl, rfl⟩, rfl⟩, ?_⟩
    rintro r w' ⟨_, ⟨status, hstatus, rfl⟩, h⟩
    obtain ⟨rfl, rfl⟩ := Prod.mk.inj (Option.some.inj h)
    exact ⟨⟨status, hstatus, rfl⟩, rfl⟩
  body w url := by
    refine ⟨⟨_, w, .ok (services.bodies url), rfl, rfl⟩, ?_⟩
    rintro r w' ⟨_, rfl, h⟩
    obtain ⟨rfl, rfl⟩ := Prod.mk.inj (Option.some.inj h)
    exact ⟨rfl, rfl⟩
  send w tx hopen := by
    refine ⟨⟨_, _, .confirmed (List.Vector.replicate 64 0), ⟨_, rfl⟩, send_confirmed hopen _⟩, ?_⟩
    rintro r w' ⟨_, ⟨sig, rfl⟩, h⟩
    obtain ⟨rfl, rfl⟩ := Prod.mk.inj (Option.some.inj ((send_confirmed hopen sig).symm.trans h))
    exact ⟨⟨sig, rfl⟩, rfl⟩
  upsert w u := by
    refine ⟨⟨_, w, .refused .timeout, Stmt.serves_upsertJob.mpr ⟨_, rfl⟩, rfl⟩, ?_⟩
    rintro r w' ⟨choice, hserves, h⟩
    obtain ⟨e, rfl⟩ := Stmt.serves_upsertJob.mp hserves
    obtain ⟨rfl, rfl⟩ := Prod.mk.inj (Option.some.inj h)
    exact ⟨⟨e, rfl⟩, rfl⟩

theorem ensures_of_wp (cfg : OracleConfig) {α : Type} {p : Async α} {Q : α → World → Prop}
    (h : ∀ {next : World → (c : Call) → c.Reply → World → Prop} {ok : World → Call → Prop},
      Serving services next ok → p.Wp next ok Q w) :
    p.Ensures (Answered cfg services) Q w :=
  Prog.ensures_iff_wp.mpr (h (serving_answered cfg services))

section
variable {α : Type} {Q : α → World → Prop}

theorem ensures_getAccount {key : Pubkey} {k : Except String (Option Account) → Async α}
    (hk : (k (.ok (services.accounts key))).Ensures (Answered cfg services) Q w) :
    (ask (.getAccount key) >>= k).Ensures (Answered cfg services) Q w :=
  Prog.ensures_call_eq (answered_of_unique (fun _ => Iff.rfl) rfl) hk

theorem ensures_admitRequest {now window limit : Nat} {k : Bool → Async α}
    (hk : (k (w.admitRequest now window limit).1).Ensures (Answered cfg services) Q
      (w.admitRequest now window limit).2) :
    (ask (.admitRequest now window limit) >>= k).Ensures (Answered cfg services) Q w := by
  have hserves : ∀ choice : Unit,
      Serves cfg services w (.admitRequest now window limit) choice ↔ choice = () :=
    fun _ => ⟨fun _ => rfl, fun _ => trivial⟩
  exact Prog.ensures_call_eq (answered_of_unique hserves rfl) hk

theorem ensures_countSettled {approved : Bool} {k : Unit → Async α}
    (hk : (k ()).Ensures (Answered cfg services) Q (w.countSettled approved)) :
    (ask (.countSettled approved) >>= k).Ensures (Answered cfg services) Q w := by
  have hserves : ∀ choice : Unit,
      Serves cfg services w (.countSettled approved) choice ↔ choice = () :=
    fun _ => ⟨fun _ => rfl, fun _ => trivial⟩
  exact Prog.ensures_call_eq (answered_of_unique hserves rfl) hk

end

/-! ## The request -/

theorem exists_admitted (hlimit : 0 < cfg.manualEvaluateRateLimit) (w : World) : ∃ now,
    (w.admitRequest now (rateWindowNs cfg) cfg.manualEvaluateRateLimit).1 = true := by
  refine ⟨w.manualRequests.sum + rateWindowNs cfg + 1, ?_⟩
  have hexpired : w.manualRequests.dropWhile (fun t =>
      w.manualRequests.sum + rateWindowNs cfg + 1 - t > rateWindowNs cfg) = [] := by
    refine List.dropWhile_eq_nil_iff.mpr fun t ht => decide_eq_true ?_
    have hle : t ≤ w.manualRequests.sum := List.le_sum_of_mem ht
    omega
  have hroom : ¬ ([] : List Nat).length ≥ cfg.manualEvaluateRateLimit := Nat.not_le.mpr hlimit
  simp only [World.admitRequest, hexpired, hroom, if_false]

theorem ensures_instantNow {α : Type} {Q : α → World → Prop} {k : Nat → Async α}
    (hlimit : 0 < cfg.manualEvaluateRateLimit)
    (hk : ∀ now, (w.admitRequest now (rateWindowNs cfg) cfg.manualEvaluateRateLimit).1 = true →
      (k now).Ensures (Answered cfg services) Q w) :
    (ask .instantNow >>= k).Ensures (Answered cfg services) Q w := by
  obtain ⟨now, hnow⟩ := exists_admitted hlimit w
  refine ⟨⟨now, w, now, hnow, rfl⟩, ?_⟩
  rintro now' w' ⟨_, hadmitted, h⟩
  obtain ⟨rfl, rfl⟩ := Prod.mk.inj (Option.some.inj h)
  exact hk _ hadmitted

def Kept (w w' : World) : Prop := w'.ledger = w.ledger ∧ w'.chain = w.chain

theorem Open.kept {uid : String} (hopen : Open w uid) {w' : World} (h : Kept w w') :
    Open w' uid := by
  obtain ⟨hledger, hchain⟩ := h
  exact ⟨hchain ▸ hopen.free, hchain ▸ hopen.landed⟩

theorem admitRequest_kept (w : World) (now window limit : Nat) :
    Kept w (w.admitRequest now window limit).2 := by
  unfold World.admitRequest
  dsimp only
  split <;> exact ⟨rfl, rfl⟩

theorem authorize_ensures {headers : Headers} {paymentPubkey : String}
    (h : Requested crates cfg job headers paymentPubkey) :
    (authorizeManualEvaluate crates cfg headers).Ensures (Answered cfg services)
      (fun r w' => r = .ok () ∧ Kept w w') w := by
  simp only [authorizeManualEvaluate, h.token]
  refine ensures_instantNow h.limit fun now hnow => ensures_admitRequest ?_
  rw [hnow]
  exact ⟨rfl, admitRequest_kept ..⟩

theorem ensures_lift {α : Type} {Q : α → World → Prop} {p : Async α}
    (h : p.Ensures (Answered cfg services) Q w) :
    p.lift.Ensures (AnsweredInTime cfg services) Q w := h.lift fun _ _ _ _ => Iff.rfl

theorem countSettled_ensures (approved : Bool) :
    (Worker.await (.countSettled approved)).Ensures (AnsweredInTime cfg services)
      (fun _ w' => Kept w w') w :=
  ensures_lift (p := ask (.countSettled approved) >>= .ret) (ensures_countSettled ⟨rfl, rfl⟩)

theorem finishManual_ensures (sig : String) :
    (finishManual crates cfg job (some (.ok ⟨result, some sig, hash⟩))).Ensures
      (AnsweredInTime cfg services) (fun _ w' => Kept w w') w := by
  have hrecord : (recordManualSettled crates cfg job ⟨result, some sig, hash⟩).Ensures
      (AnsweredInTime cfg services) (fun _ w' => Kept w w') w := by
    unfold recordManualSettled
    split
    · have hrefused : (Db.recordSettled crates job result (some sig) hash).Ensures
          (Answered cfg services) (Fails w) w :=
        ensures_of_wp cfg fun hserving => recordSettled_wp hserving sig
      refine (ensures_lift hrefused).bind ?_
      rintro _ _ ⟨-, rfl⟩
      exact countSettled_ensures _
    · exact countSettled_ensures _
  exact hrecord.bind fun _ _ h => h

theorem evaluateManually_ensures (h : Evaluable crates cfg services job result hash)
    (hopen : Open w (uidHex job.paymentUid)) :
    (evaluateManually crates cfg job (Worker.timedPipeline crates cfg job)).Ensures
      (AnsweredInTime cfg services)
      (fun _ w' => w'.ledger = w.ledger ∧ Resolved job result hash w'.chain) w := by
  have hrun : (Worker.timedPipeline crates cfg job >>= finishManual crates cfg job).Ensures
      (AnsweredInTime cfg services)
      (fun _ w' => w'.ledger = w.ledger ∧ Resolved job result hash w'.chain) w := by
    have hpipeline := ensures_of_wp cfg fun hserving => runPipeline_wp hserving h hopen
    refine (hpipeline.timeout answered_race).bind ?_
    rintro _ _ ⟨_, rfl, ⟨sig, rfl⟩, chain, rfl, hsettled⟩
    refine (finishManual_ensures sig).mono ?_
    rintro - w₂ ⟨hledger, hchain⟩
    exact ⟨hledger, hchain ▸ hsettled⟩
  unfold evaluateManually
  split
  · have hqueued : (Db.recordQueued crates job).Ensures (Answered cfg services) (Fails w) w :=
      ensures_of_wp cfg fun hserving => recordStatus_wp hserving _ _ _ _
    refine (ensures_lift hqueued).bind ?_
    rintro _ _ ⟨-, rfl⟩
    exact hrun
  · exact hrun

theorem manualEvaluate_ensures {headers : Headers} {paymentPubkey : String}
    (h : Evaluable crates cfg services job result hash)
    (hrequested : Requested crates cfg job headers paymentPubkey)
    (hopen : Open w (uidHex job.paymentUid)) :
    (manualEvaluate crates cfg headers paymentPubkey).Ensures (AnsweredInTime cfg services)
      (fun _ w' => w'.ledger = w.ledger ∧ Resolved job result hash w'.chain) w := by
  obtain ⟨account, haccount, hjob⟩ := h.payment
  refine (ensures_lift (authorize_ensures hrequested)).bind ?_
  rintro _ w₁ ⟨rfl, hkept⟩
  have hopen₁ := hopen.kept hkept
  have hread : (Chain.readPayment crates cfg job.paymentPubkey).Ensures (Answered cfg services)
      (Just w₁ (.ok (some job))) w₁ := by
    refine ensures_getAccount ⟨?_, rfl⟩
    rw [haccount]
    exact hjob
  simp only [hrequested.key]
  refine (ensures_lift hread).bind ?_
  rintro _ _ ⟨rfl, rfl⟩
  refine (evaluateManually_ensures h hopen₁).mono ?_
  rintro - w₂ ⟨hledger, hresolved⟩
  exact ⟨hledger.trans hkept.1, hresolved⟩

/-! ## The processes -/

section Processes
variable {I : Type} [DecidableEq I] {crates : Crates} {cfg : I → OracleConfig}
  {services : Services} {s s' : Oracles I} {i : I} {n : Nat} {a : Act}

def view (i : I) (s : Oracles I) : System := (s.own i).within s.shared

/-- Handler `n` of process `i` performs a call, and is served. -/
def Handles (crates : Crates) (cfg : I → OracleConfig) (services : Services) (i : I) (n : Nat)
    (s s' : Oracles I) : Prop :=
  ∃ choose, (∀ c k, (view i s).tasks (.handler n) = .call c k →
      ServesInTime (cfg i) services (view i s).world c (choose c)) ∧
    Oracles.next crates cfg s (i, .step (.handler n) choose) = some s'

theorem view_next (h : Oracles.next crates cfg s (i, a) = some s') :
    (view i s).next crates (cfg i) a = some (view i s') := by
  obtain ⟨l, hstep, hown⟩ := Fleet.next_eq_some h
  rw [view, view, hown, Function.update_self]
  exact Oracles.step_eq_some hstep

theorem next_of_view {t : System} (h : (view i s).next crates (cfg i) a = some t) :
    ∃ s', Oracles.next crates cfg s (i, a) = some s' := by
  have hstep : Process.step crates (cfg i) (s.shared, s.own i) a = some (t.shared, t.process) :=
    Oracles.step_of_next h
  exact ⟨_, Option.map_eq_some_iff.mpr ⟨_, hstep, rfl⟩⟩

theorem handles_call (h : Handles crates cfg services i n s s') : ∃ c k r,
    (view i s).tasks (.handler n) = .call c k ∧ (view i s').tasks (.handler n) = k r ∧
      AnsweredInTime (cfg i) services (view i s).world c r (view i s').world := by
  obtain ⟨choose, hserves, hnext⟩ := h
  obtain ⟨c, k, r, hcode, hperform, htasks⟩ := System.next_step (view_next hnext)
  refine ⟨c, k, r, hcode, ?_, choose c, hserves c k hcode, hperform⟩
  rw [htasks, Function.update_self]

theorem handles_of_answer {c : TCall} {k : TReply c → TaskCode Unit} {r : TReply c} {w : World}
    (hcode : (view i s).tasks (.handler n) = .call c k)
    (hanswer : AnsweredInTime (cfg i) services (view i s).world c r w) :
    ∃ s', Handles crates cfg services i n s s' := by
  classical
  obtain ⟨choice, hserves, hperform⟩ := hanswer
  -- only the choice at this call matters
  have hsome : (view i s).next crates (cfg i)
      (.step (.handler n) (Function.update Timed.toyChoice c choice)) =
        some ({ view i s with world := w }.spawn (.handler n) (k r)) := by
    simp only [System.next, System.stepTask, hcode, Function.update_self, hperform,
      Option.map_some]
  obtain ⟨s', hs'⟩ := next_of_view hsome
  refine ⟨s', _, fun c' k' hcode' => ?_, hs'⟩
  obtain ⟨rfl, -⟩ := Prog.call.inj (hcode.symm.trans hcode')
  rw [Function.update_self]
  exact hserves

theorem open_of_reached {uid : String} (hs : Oracles.Reached crates cfg s)
    (hfree : s.shared.chain.resolution uid = none) : Open (view i s).world uid where
  free := hfree
  landed tx htx huid := by
    have hlawful : Escrow.Lawful crates cfg (Escrow.table s.shared.chain) :=
      (Escrow.fleet_refines crates cfg).keeps .first hs (fun _ _ hw h => h.lawful hw)
        (WriteOnce.lawful_nil _)
    have hstands := hlawful.stands tx htx
    rw [show Escrow.payment tx = uid from huid] at hstands
    exact absurd (hfree.symm.trans hstands) (by simp)

theorem request_code {headers : Headers} {paymentPubkey : String}
    (h : Oracles.next crates cfg s (i, .request n headers paymentPubkey) = some s') :
    (view i s').tasks (.handler n) = System.handlerBody crates (cfg i) headers paymentPubkey ∧
      (view i s').world = (view i s).world := by
  obtain ⟨-, hspawn⟩ := Option.ite_none_right_eq_some.mp (view_next h)
  rw [← Option.some.inj hspawn]
  exact ⟨Function.update_self .., rfl⟩

/-- However the processes came to where they are: as long as the payment is open, the handler of an
operator's request that is served, and beside which nothing else acts, comes to its end, and then
the payment is settled on chain, and the jobs in the ledger are as they were. -/
theorem operator_recovers (crates : Crates) (cfg : I → OracleConfig) (services : Services)
    (s s₁ : Oracles I) (i : I) (n : Nat) (headers : Headers) (paymentPubkey : String)
    (job : EvaluationJob) (result : EvaluationResult) (hash : Bytes32)
    (hs : Oracles.Reached crates cfg s)
    (hfree : s.shared.chain.resolution (uidHex job.paymentUid) = none)
    (hevaluable : Evaluable crates (cfg i) services job result hash)
    (hrequested : Requested crates (cfg i) job headers paymentPubkey)
    (hrequest : Oracles.next crates cfg s (i, .request n headers paymentPubkey) = some s₁) :
    Acc (fun s' s => Handles crates cfg services i n s s') s₁ ∧
      ∀ s', Relation.ReflTransGen (Handles crates cfg services i n) s₁ s' →
        (∀ s'', ¬ Handles crates cfg services i n s' s'') →
          Recovered job result hash s.shared.ledger s'.shared.ledger s'.shared.chain := by
  obtain ⟨hcode, hworld⟩ := request_code hrequest
  have hensures : ((view i s₁).tasks (.handler n)).Ensures (AnsweredInTime (cfg i) services)
      (fun _ w => w.ledger = s.shared.ledger ∧ Resolved job result hash w.chain)
      (view i s₁).world := by
    rw [hcode, hworld]
    exact (manualEvaluate_ensures hevaluable hrequested (open_of_reached hs hfree)).bind
      fun _ _ h => h
  obtain ⟨hends, hstops⟩ := Prog.Ensures.run (fun s => (view i s).tasks (.handler n))
    (fun s => (view i s).world) (fun _ _ => handles_call) (fun _ _ _ _ _ => handles_of_answer)
    hensures
  refine ⟨hends, fun s' hrun hstop => ?_⟩
  obtain ⟨-, -, hledger, hresolved⟩ := hstops s' hrun hstop
  have hsame : s'.shared.ledger = s.shared.ledger := hledger
  exact ⟨hresolved, hsame ▸ Unwritten.refl _⟩

def unconfirmed : (c : TCall) → Timed.Choice c
  | .await (.sql (.upsertJob _)) => .refused (.query "error serializing parameter 7")
  | .race (.sendAndConfirm _) => .finished (.inFlight "unable to confirm transaction")
  | c => Timed.toyChoice c

def killed : List Act :=
  [.start, .request 0 ⟨none, none⟩ ""] ++ List.replicate 12 (.step (.handler 0) unconfirmed) ++
    [.crash, .start]

def toyServices : Services := ⟨fun _ => some ⟨byte32 6, List.replicate 8 0⟩, fun _ => []⟩

theorem toy_evaluable : ∃ result hash,
    Evaluable .toy .toy toyServices .toy result hash := by
  obtain ⟨sla, hsla⟩ : ∃ sla, Crates.toy.parseSla [] = .ok sla := ⟨_, rfl⟩
  obtain ⟨evidence, hevidence⟩ : ∃ evidence, Crates.toy.parseDelivery [] = .ok evidence := ⟨_, rfl⟩
  exact ⟨_, _, ⟨_, rfl, rfl⟩, ⟨_, 0, rfl, rfl, by decide⟩, ⟨none, rfl⟩, List.cons_ne_nil _ _,
    by decide, sla, evidence, fun _ _ => ⟨rfl, hsla⟩, fun _ _ => ⟨rfl, hevidence⟩, rfl, rfl⟩

theorem operator_recovers_killed :
    ∃ s s₁ result hash,
      Oracles.run .toy (fun _ : Bool => .toy) (killed.map fun a => (true, a)) = some s ∧
      s.shared.chain.inFlight.length = 1 ∧
      Oracles.next .toy (fun _ : Bool => .toy) s (true, .request 0 ⟨none, none⟩ "") = some s₁ ∧
      Acc (fun s' s => Handles .toy (fun _ : Bool => .toy) toyServices true 0 s s') s₁ ∧
      ∀ s', Relation.ReflTransGen
        (Handles .toy (fun _ : Bool => .toy) toyServices true 0) s₁ s' →
          (∀ s'', ¬ Handles .toy (fun _ : Bool => .toy) toyServices true 0 s' s'') →
            Recovered .toy result hash s.shared.ledger s'.shared.ledger s'.shared.chain := by
  have hrun : ((Oracles.run .toy (fun _ : Bool => .toy) (killed.map fun a => (true, a))).bind
      fun s => (Oracles.next .toy (fun _ : Bool => .toy) s
        (true, .request 0 ⟨none, none⟩ "")).map fun _ =>
          (s.shared.chain.inFlight.length,
            s.shared.chain.resolution (uidHex (byte32 1)))) = some (1, none) := by
    decide +kernel
  obtain ⟨s, hs, hrest⟩ := Option.bind_eq_some_iff.mp hrun
  obtain ⟨s₁, hs₁, heq⟩ := Option.map_eq_some_iff.mp hrest
  obtain ⟨hsent, hfree⟩ := Prod.mk.inj heq
  obtain ⟨result, hash, hevaluable⟩ := toy_evaluable
  exact ⟨s, s₁, result, hash, hs, hsent, hs₁, operator_recovers .toy (fun _ : Bool => .toy)
    toyServices s s₁ true 0 ⟨none, none⟩ "" .toy result hash (Oracles.reached_of_run hs) hfree
    hevaluable ⟨rfl, by decide, rfl⟩ hs₁⟩

end Processes
end OracleQa.Recovery
