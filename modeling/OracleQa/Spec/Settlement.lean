import OracleQa.Model.Pipeline

/-! What one run of the pipeline may settle: whatever the chain and the mirrors reply, and
wherever the run is dropped, a `ConfirmOracle` rests on an eligible payment and on documents
whose bytes hash to its commitments. -/

namespace OracleQa.Settlement
open Interaction Pipeline Settler

abbrev Ev := Event Call Call.Reply
abbrev History := List Ev

def Quiet (c : Call) : Prop := ∀ tx, c ≠ .sendAndConfirm tx

/-- `h'` continues `h` without a settlement. -/
def Extends (h h' : History) : Prop := ∃ t, h' = h ++ t ∧ ∀ ev ∈ t, Quiet ev.call

theorem Extends.refl (h : History) : Extends h h := ⟨[], by simp, by simp⟩

theorem Extends.trans {h h' h'' : History} (a : Extends h h') (b : Extends h' h'') :
    Extends h h'' := by
  obtain ⟨t, rfl, ht⟩ := a
  obtain ⟨u, rfl, hu⟩ := b
  refine ⟨t ++ u, List.append_assoc _ _ _, fun ev hev => ?_⟩
  rcases List.mem_append.mp hev with hev | hev
  · exact ht ev hev
  · exact hu ev hev

theorem Extends.snoc (h : History) {c : Call} (hc : Quiet c) (r : c.Reply) :
    Extends h (h ++ [⟨c, some r⟩]) :=
  ⟨[⟨c, some r⟩], rfl, by simpa using hc⟩

theorem Extends.mem {h h' : History} (he : Extends h h') {ev : Ev} (hev : ev ∈ h) : ev ∈ h' := by
  obtain ⟨t, rfl, -⟩ := he
  exact List.mem_append_left t hev

theorem Extends.head? {h h' : History} (he : Extends h h') {ev : Ev} (hev : h.head? = some ev) :
    h'.head? = some ev := by
  obtain ⟨t, rfl, -⟩ := he
  rw [List.head?_append, hev, Option.some_or]

theorem Extends.quiet {h h' : History} (he : Extends h h') (hh : ∀ ev ∈ h, Quiet ev.call) :
    ∀ ev ∈ h', Quiet ev.call := by
  obtain ⟨t, rfl, ht⟩ := he
  intro ev hev
  rcases List.mem_append.mp hev with hev | hev
  · exact hh ev hev
  · exact ht ev hev

section
variable (crates : Crates) (cfg : OracleConfig) (job : EvaluationJob)

def Served (h : History) (hash : Bytes32) (raw : Bytes) : Prop :=
  ∃ base ∈ cfg.evidenceRegistryUrls,
    (⟨.httpBytes (mirrorUrl hash base), some (.ok raw)⟩ : Ev) ∈ h

def ClockRead (h : History) (now : Int) : Prop :=
  (∃ account, (⟨.getAccount crates.clockId, some (.ok (some account))⟩ : Ev) ∈ h ∧
    crates.clockFromBytes account.data = .ok now) ∨ (⟨.utcNow, some now⟩ : Ev) ∈ h

/-- The first read of the run showed a payment that this oracle may still resolve. -/
def EligibleRead (h : History) : Prop :=
  ∃ account payment now,
    h.head? = some ⟨.getAccount job.paymentPubkey, some (.ok (some account))⟩ ∧
    paymentImage crates account = some payment ∧ payment.oracleAuthority = cfg.oraclePubkey ∧
    payment.deliveryTimestamp ≠ 0 ∧ payment.resolutionState = 0 ∧ ClockRead crates h now ∧
    now ≤ payment.expiresAt

/-- Some served bytes hash to the commitment and parse to the document. -/
def HashBound {T : Type} (parse : Bytes → Except String T) (h : History) (hash : Bytes32)
    (doc : T) : Prop :=
  ∃ raw, Served cfg h hash raw ∧ crates.sha256 raw = hash ∧ parse raw = .ok doc

def Verdict (ix : ConfirmOracle) (sla : SlaDocument) (evidence : DeliveryEvidence) : Prop :=
  ∃ result, Evaluator.evaluate crates cfg.strictProfile sla evidence = .ok result ∧
    ix.oracle = cfg.oraclePubkey ∧ ix.paymentUid = uidHex job.paymentUid ∧ ix.mint = job.mint ∧
    ix.deliveryHash = job.deliveryHash ∧
    ix.resolutionState = (if result.approved then 1 else 2) ∧
    ix.resolutionReason = result.resolutionReason ∧
    computeResolutionHash crates job sla result = .ok ix.resolutionHash

/-- What has happened by the time `tx` is sent. -/
structure Settles (h : History) (tx : Transaction) : Prop where
  first : ∀ ev ∈ h, Quiet ev.call
  eligible : EligibleRead crates cfg job h
  evidence : ∃ sla evidence, HashBound crates cfg crates.parseSla h job.slaHash sla ∧
    HashBound crates cfg crates.parseDelivery h job.deliveryHash evidence ∧
    Verdict crates cfg job tx.ix sla evidence

def Ok (h : History) (c : Call) : Prop := ∀ tx, c = .sendAndConfirm tx → Settles crates cfg job h tx

end

variable {crates : Crates} {cfg : OracleConfig} {job : EvaluationJob} {α : Type} {h : History}

theorem ok_of_quiet {c : Call} (hc : Quiet c) : Ok crates cfg job h c :=
  fun tx htx => absurd htx (hc tx)

theorem wp_quiet {c : Call} (hc : Quiet c) {f : c.Reply → Async α} {Q : α → History → Prop}
    (hf : ∀ r, (f r).Wp Prog.record (Ok crates cfg job) Q (h ++ [⟨c, some r⟩])) :
    (ask c >>= f).Wp Prog.record (Ok crates cfg job) Q h := by
  refine ⟨ok_of_quiet hc, ?_⟩
  rintro r h' rfl
  exact hf r

/-! ## Evidence -/

section Evidence
variable {T : Type} {hash : Bytes32} {parse : Bytes → Except String T}
  {parseError : String → OracleError}

theorem acceptBody_ok {raw : Bytes} {doc : T}
    (ha : acceptBody crates hash parse parseError raw = .ok doc) :
    crates.sha256 raw = hash ∧ parse raw = .ok doc := by
  by_cases hhash : crates.sha256 raw = hash
  · refine ⟨hhash, ?_⟩
    cases hdoc : parse raw with
    | ok doc' =>
      simp only [acceptBody, hhash, ne_eq, not_true_eq_false, if_false, hdoc] at ha
      rw [Except.ok.inj ha]
    | error e => simp [acceptBody, hhash, hdoc] at ha
  · simp [acceptBody, hhash] at ha

def MirrorPost (crates : Crates) (parse : Bytes → Except String T) (hash : Bytes32) (url : String)
    (h : History) (r : MirrorResult T) (h' : History) : Prop :=
  Extends h h' ∧ ∀ doc, r = .done (.ok doc) →
    ∃ raw, (⟨.httpBytes url, some (.ok raw)⟩ : Ev) ∈ h' ∧ crates.sha256 raw = hash ∧
      parse raw = .ok doc

theorem quiet_step {c : Call} (hc : Quiet c) {h₁ : History} (he : Extends h h₁) :
    Ok crates cfg job h₁ c ∧ ∀ r h₂, Prog.record h₁ c r h₂ → Extends h h₂ := by
  refine ⟨ok_of_quiet hc, ?_⟩
  rintro r h₂ rfl
  exact he.trans (Extends.snoc _ hc r)

theorem fetchAttempts_wp (auth : Option String) (url lastErr : String) :
    (fetchAttempts crates cfg hash parse parseError auth url cfg.evidenceFetchMaxRetries.toNat
      lastErr).Wp Prog.record (Ok crates cfg job) (MirrorPost crates parse hash url h) h := by
  have hsend : Quiet (.httpSend url auth) := by simp [Quiet]
  have hbytes : Quiet (.httpBytes url) := by simp [Quiet]
  have hsleep : ∀ ms, Quiet (.sleepMs ms) := by simp [Quiet]
  have hfail : ∀ (h₁ : History), Extends h h₁ → ∀ e : String,
      MirrorPost crates parse hash url h (.next e : MirrorResult T) h₁ :=
    fun h₁ he e => ⟨he, by simp⟩
  -- the history only grows
  refine fetchAttempts_rule (fun _ => Extends h) (fun _ => Extends h)
    (fun left h₁ he => quiet_step hsend he) ?_ (fun left h₁ he _ _ _ => quiet_step (hsleep _) he)
    (fun left => hfail) hfail le_rfl (Extends.refl h)
  intro left h₁ he
  obtain ⟨hok, hstep⟩ := quiet_step hbytes he
  refine ⟨hok, fun r h₂ hrecord => ⟨hstep r h₂ hrecord, ?_⟩⟩
  rintro raw rfl
  refine ⟨hstep _ h₂ hrecord, fun doc hdoc => ⟨raw, ?_, acceptBody_ok (MirrorResult.done.inj hdoc)⟩⟩
  rw [hrecord]
  exact List.mem_append_right h₁ List.mem_cons_self

def FetchPost (crates : Crates) (cfg : OracleConfig) (parse : Bytes → Except String T)
    (hash : Bytes32) (h : History) (r : Except OracleError T) (h' : History) : Prop :=
  Extends h h' ∧ ∀ doc, r = .ok doc → HashBound crates cfg parse h' hash doc

theorem fetchMirrors_wp (auth : Option String) (bases : List String) (lastErr : String)
    (hbases : bases ⊆ cfg.evidenceRegistryUrls) :
    (fetchMirrors crates cfg hash parse parseError auth bases lastErr).Wp Prog.record
      (Ok crates cfg job) (FetchPost crates cfg parse hash h) h := by
  induction bases generalizing h lastErr with
  | nil =>
    have hcount : Quiet .countEvidenceFailure := by simp [Quiet]
    exact wp_quiet hcount fun r => ⟨Extends.snoc h hcount r, by simp⟩
  | cons base bases ih =>
    rw [List.cons_subset] at hbases
    unfold fetchMirrors
    refine (fetchAttempts_wp auth _ lastErr).bind fun r h₁ hr => ?_
    cases r with
    | done r =>
      refine ⟨hr.1, fun doc hdoc => ?_⟩
      obtain ⟨raw, hraw, hhash, hparse⟩ := hr.2 doc (congrArg _ hdoc)
      exact ⟨raw, ⟨base, hbases.1, hraw⟩, hhash, hparse⟩
    | next e =>
      exact (ih e hbases.2).mono fun r h₂ hr₂ => ⟨hr.1.trans hr₂.1, hr₂.2⟩

theorem fetchEvidence_wp :
    (fetchEvidence crates cfg hash parse parseError).Wp Prog.record (Ok crates cfg job)
      (FetchPost crates cfg parse hash h) h := by
  unfold fetchEvidence
  split
  · exact ⟨Extends.refl h, by simp⟩
  · exact fetchMirrors_wp _ _ _ (List.Subset.refl _)

theorem HashBound.extends {h' : History} {doc : T} (hb : HashBound crates cfg parse h hash doc)
    (he : Extends h h') : HashBound crates cfg parse h' hash doc := by
  obtain ⟨raw, ⟨base, hbase, hmem⟩, hrest⟩ := hb
  exact ⟨raw, ⟨base, hbase, he.mem hmem⟩, hrest⟩

end Evidence

/-! ## Eligibility -/

theorem chainUnixTimestamp_wp :
    (chainUnixTimestamp crates).Wp Prog.record (Ok crates cfg job)
      (fun now h' => Extends h h' ∧ ClockRead crates h' now) h := by
  have hclock : Quiet (.getAccount crates.clockId) := by simp [Quiet]
  have hutc : Quiet .utcNow := by simp [Quiet]
  have hwall : ∀ {h₁ : History}, Extends h h₁ → (ask .utcNow).Wp Prog.record (Ok crates cfg job)
      (fun now h' => Extends h h' ∧ ClockRead crates h' now) h₁ := by
    intro h₁ he
    refine ⟨ok_of_quiet hutc, ?_⟩
    rintro now h₂ rfl
    exact ⟨he.trans (Extends.snoc h₁ hutc now), Or.inr (by simp)⟩
  unfold chainUnixTimestamp
  refine wp_quiet hclock fun r => ?_
  have he := Extends.snoc h hclock r
  rcases r with e | _ | account
  · exact hwall he
  · exact hwall he
  · dsimp only
    split
    · next now hnow => exact ⟨he, Or.inl ⟨account, by simp, hnow⟩⟩
    · exact hwall he

theorem isEligible_wp :
    (isEligible crates cfg job).Wp Prog.record (Ok crates cfg job)
      (fun r h => (∀ ev ∈ h, Quiet ev.call) ∧ (r = .ok true → EligibleRead crates cfg job h))
      [] := by
  have hread : Quiet (.getAccount job.paymentPubkey) := by simp [Quiet]
  unfold isEligible
  refine wp_quiet hread fun r => ?_
  have hquiet : ∀ ev ∈ ([] ++ [⟨.getAccount job.paymentPubkey, some r⟩] : History),
      Quiet ev.call := by
    simpa using hread
  rcases r with e | _ | account
  · exact ⟨hquiet, by simp⟩
  · exact ⟨hquiet, by simp⟩
  · dsimp only
    split
    · exact ⟨hquiet, by simp⟩
    · next payment hpayment =>
      split
      · exact ⟨hquiet, by simp⟩
      next hauthority =>
      split
      · exact ⟨hquiet, by simp⟩
      next hdelivered =>
      split
      · exact ⟨hquiet, by simp⟩
      next hopen =>
      refine chainUnixTimestamp_wp.bind fun now h' hnow => ?_
      obtain ⟨he, hclock⟩ := hnow
      split
      · exact ⟨he.quiet hquiet, by simp⟩
      · next hexpiry =>
        refine ⟨he.quiet hquiet, fun _ => ⟨account, payment, now, he.head? rfl, hpayment,
          not_not.mp hauthority, hdelivered, not_not.mp hopen, hclock, by omega⟩⟩

theorem EligibleRead.extends {h' : History} (hr : EligibleRead crates cfg job h)
    (he : Extends h h') : EligibleRead crates cfg job h' := by
  obtain ⟨account, payment, now, hhead, himage, hauth, hdel, hres, hclock, hexp⟩ := hr
  refine ⟨account, payment, now, he.head? hhead, himage, hauth, hdel, hres, ?_, hexp⟩
  rcases hclock with ⟨acc, hmem, hnow⟩ | hmem
  · exact Or.inl ⟨acc, he.mem hmem, hnow⟩
  · exact Or.inr (he.mem hmem)

theorem settle_wp {sla : SlaDocument} {evidence : DeliveryEvidence} {result : EvaluationResult}
    {resolutionHash : Bytes32} (hquiet : ∀ ev ∈ h, Quiet ev.call)
    (heligible : EligibleRead crates cfg job h)
    (hsla : HashBound crates cfg crates.parseSla h job.slaHash sla)
    (hevidence : HashBound crates cfg crates.parseDelivery h job.deliveryHash evidence)
    (hresult : Evaluator.evaluate crates cfg.strictProfile sla evidence = .ok result)
    (hhash : computeResolutionHash crates job sla result = .ok resolutionHash) :
    (settle crates cfg job result.approved result.resolutionReason resolutionHash).Wp Prog.record
      (Ok crates cfg job) (fun _ _ => True) h := by
  have hblock : Quiet .getLatestBlockhash := by simp [Quiet]
  unfold settle
  refine wp_quiet hblock fun r => ?_
  have he := Extends.snoc h hblock r
  cases r with
  | error e => trivial
  | ok blockhash =>
    refine ⟨?_, ?_⟩
    · intro tx htx
      obtain rfl := Call.sendAndConfirm.inj htx
      exact ⟨he.quiet hquiet, heligible.extends he, sla, evidence, hsla.extends he,
        hevidence.extends he, result, hresult, rfl, rfl, rfl, rfl, rfl, rfl, hhash⟩
    · rintro r h' rfl
      cases r <;> trivial

theorem runPipeline_wp :
    (runPipeline crates cfg job).Wp Prog.record (Ok crates cfg job) (fun _ _ => True) [] := by
  unfold runPipeline
  refine isEligible_wp.bind fun r h₁ hr => ?_
  obtain ⟨hquiet, heligible⟩ := hr
  rcases r with e | _ | _
  · trivial
  · trivial
  have heligible := heligible rfl
  refine fetchEvidence_wp.bind fun r h₂ hsla => ?_
  rcases r with e | sla
  · trivial
  obtain ⟨he₂, hsla⟩ := hsla
  refine fetchEvidence_wp.bind fun r h₃ hevidence => ?_
  rcases r with e | evidence
  · trivial
  obtain ⟨he₃, hevidence⟩ := hevidence
  dsimp only
  split
  · trivial
  next result hresult =>
  split
  · trivial
  next resolutionHash hhash =>
  -- what was read before the fetches has been read still
  have hq := he₃.quiet (he₂.quiet hquiet)
  have hsettle := settle_wp hq ((heligible.extends he₂).extends he₃) ((hsla sla rfl).extends he₃)
    (hevidence evidence rfl) hresult hhash
  refine hsettle.bind fun r h₄ _ => ?_
  cases r <;> trivial

/-! ## At most one settlement -/

def isSettlement : Call → Bool
  | .sendAndConfirm _ => true
  | _ => false

theorem isSettlement_iff {c : Call} : isSettlement c = true ↔ ∃ tx, c = .sendAndConfirm tx := by
  cases c <;> simp [isSettlement]

theorem filter_length_le_one {β : Type} (p : β → Bool) : ∀ {xs : List β},
    (∀ before b after, xs = before ++ b :: after → p b = true → ∀ a ∈ before, p a = false) →
    (xs.filter p).length ≤ 1 := by
  intro xs
  induction xs with
  | nil => simp
  | cons x xs ih =>
    intro hfirst
    cases hx : p x with
    | false =>
      rw [List.filter_cons_of_neg (by simp [hx])]
      apply ih
      intro before b after hxs hb a ha
      exact hfirst (x :: before) b after (by rw [hxs]; rfl) hb a (List.mem_cons_of_mem x ha)
    | true =>
      have hnone : xs.filter p = [] := by
        rw [List.filter_eq_nil_iff]
        intro b hb hpb
        obtain ⟨before, after, hxs⟩ := List.append_of_mem hb
        have := hfirst (x :: before) b after (by rw [hxs]; rfl) hpb x List.mem_cons_self
        rw [hx] at this
        exact Bool.false_ne_true this.symm
      rw [List.filter_cons_of_pos hx, hnone]
      rfl

/-- Every run sends at most one `ConfirmOracle`, and what has happened by then supports it. -/
theorem runPipeline_settles (crates : Crates) (cfg : OracleConfig) (job : EvaluationJob)
    (tr : History) (htr : (runPipeline crates cfg job).Trace tr) :
    (tr.filter fun ev => isSettlement ev.call).length ≤ 1 ∧
      ∀ before ev after tx, tr = before ++ ev :: after → ev.call = .sendAndConfirm tx →
        Settles crates cfg job before tx := by
  have hsettles : ∀ before ev after tx, tr = before ++ ev :: after → ev.call = .sendAndConfirm tx →
      Settles crates cfg job before tx := by
    intro before ev after tx hsplit hcall
    have hok := htr.ok_of_wp runPipeline_wp hsplit
    rw [List.nil_append] at hok
    exact hok tx hcall
  refine ⟨filter_length_le_one _ ?_, hsettles⟩
  intro before ev after hsplit hev a ha
  obtain ⟨tx, htx⟩ := isSettlement_iff.mp hev
  have hquiet := (hsettles before ev after tx hsplit htx).first a ha
  rw [← Bool.not_eq_true, isSettlement_iff]
  rintro ⟨tx', htx'⟩
  exact hquiet tx' htx'

theorem runPipeline_settles_toy :
    let tr := (runPipeline .toy .toy .toy).transcript Call.toyReply
    (tr.any fun ev => isSettlement ev.call) = true ∧
      (tr.filter fun ev => isSettlement ev.call).length ≤ 1 ∧
      ∀ before ev after tx, tr = before ++ ev :: after → ev.call = .sendAndConfirm tx →
        Settles .toy .toy .toy before tx :=
  ⟨by decide, runPipeline_settles .toy .toy .toy _ (Prog.trace_transcript _ _)⟩

end OracleQa.Settlement
