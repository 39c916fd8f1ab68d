import OracleQa.Model.Server

/-! Which accounts and which events a job rests on, for every transaction and every state of the
chain. -/

namespace OracleQa.DeliveryJob
open Interaction Chain

abbrev Accounts := Pubkey → Except String (Option Account)

def answer (enc : EncodedTransaction) (accounts : Accounts) : (c : Call) → c.Reply
  | .getTransaction _ => .ok enc
  | .getAccount key => accounts key
  | c => c.toyReply

section
variable (crates : Crates) (cfg : OracleConfig) (accounts : Accounts)

def Pending (key : Pubkey) (job : EvaluationJob) : Prop :=
  jobOfReply crates cfg.oraclePubkey key (accounts key) = .ok (some job)

def Named (key : Pubkey) : Prop := ∃ text, crates.pubkeyFromStr text = some key

def structuredCandidates (enc : EncodedTransaction) : List Pubkey :=
  match enc.message with
  | some (.parsed accountKeys instructions) =>
    paymentCandidates crates cfg enc accountKeys instructions
  | _ => []

end

variable {crates : Crates} {cfg : OracleConfig} {accounts : Accounts} {enc : EncodedTransaction}
  {events : List DeliverySubmittedEvent} {key : Pubkey} {job : EvaluationJob}

theorem readPayment_eval :
    (readPayment crates cfg key).eval (answer enc accounts) =
      jobOfReply crates cfg.oraclePubkey key (accounts key) := rfl

/-! ## The candidate loop and the scan of all keys -/

theorem tryCandidates_cons {keys : List Pubkey} :
    (tryCandidates crates cfg events (key :: keys)).eval (answer enc accounts) =
      match jobOfReply crates cfg.oraclePubkey key (accounts key) with
      | .ok (some job) =>
        if eventMatchesJob events job || !cfg.requireEventMatch && events.isEmpty then some job
        else (tryCandidates crates cfg events keys).eval (answer enc accounts)
      | _ => (tryCandidates crates cfg events keys).eval (answer enc accounts) := by
  rw [tryCandidates, Prog.eval_bind, readPayment_eval]
  rcases jobOfReply crates cfg.oraclePubkey key (accounts key) with e | _ | job
  · rfl
  · rfl
  · cases hmatch : eventMatchesJob events job <;>
      cases !cfg.requireEventMatch && events.isEmpty <;> simp [hmatch]

theorem tryCandidates_some {keys : List Pubkey}
    (h : (tryCandidates crates cfg events keys).eval (answer enc accounts) = some job) :
    ∃ key ∈ keys, Pending crates cfg accounts key job ∧
      (eventMatchesJob events job || !cfg.requireEventMatch && events.isEmpty) = true := by
  induction keys with
  | nil => cases h
  | cons key keys ih =>
    rw [tryCandidates_cons] at h
    have hrest : (tryCandidates crates cfg events keys).eval (answer enc accounts) = some job →
        ∃ key' ∈ key :: keys, Pending crates cfg accounts key' job ∧
          (eventMatchesJob events job || !cfg.requireEventMatch && events.isEmpty) = true := by
      intro h
      obtain ⟨key', hmem, hkey'⟩ := ih h
      exact ⟨key', List.mem_cons_of_mem key hmem, hkey'⟩
    split at h
    · next job' hjob' =>
      split at h
      · next hmatch =>
        obtain rfl := Option.some.inj h
        exact ⟨key, List.mem_cons_self, hjob', hmatch⟩
      · exact hrest h
    · exact hrest h

theorem tryCandidates_nil_events {keys : List Pubkey} (hmem : key ∈ keys)
    (hpending : Pending crates cfg accounts key job) :
    ∃ job', (tryCandidates crates cfg [] keys).eval (answer enc accounts) = some job' := by
  induction keys with
  | nil => cases hmem
  | cons key' keys ih =>
    rw [tryCandidates_cons]
    rcases List.mem_cons.mp hmem with rfl | hmem
    · rw [show jobOfReply crates cfg.oraclePubkey key (accounts key) = _ from hpending]
      exact ⟨job, rfl⟩
    · split
      · exact ⟨_, rfl⟩
      · exact ih hmem

theorem tryAccountKeys_some {keys : List Pubkey}
    (h : (tryAccountKeys crates cfg events keys).eval (answer enc accounts) = some job) :
    ∃ key ∈ keys, Pending crates cfg accounts key job := by
  induction keys with
  | nil => cases h
  | cons key keys ih =>
    rw [tryAccountKeys, Prog.eval_bind, readPayment_eval] at h
    have hrest : (tryAccountKeys crates cfg events keys).eval (answer enc accounts) = some job →
        ∃ key' ∈ key :: keys, Pending crates cfg accounts key' job := by
      intro h
      obtain ⟨key', hmem, hkey'⟩ := ih h
      exact ⟨key', List.mem_cons_of_mem key hmem, hkey'⟩
    split at h
    · next job' hjob' =>
      split at h
      · obtain rfl := Option.some.inj h
        exact ⟨key, List.mem_cons_self, hjob'⟩
      · exact hrest h
    · exact hrest h

/-! ## Every job is read from a key that the transaction names -/

theorem mem_paymentCandidates {accountKeys : List String} {instructions : List UiInstruction}
    (h : key ∈ paymentCandidates crates cfg enc accountKeys instructions) : Named crates key := by
  have hcollect : ∀ instructions,
      key ∈ collectPaymentCandidates crates instructions accountKeys cfg.escrowProgramId →
      Named crates key := by
    intro instructions h
    obtain ⟨ix, -, hix⟩ := List.mem_filterMap.mp h
    cases ix with
    | partiallyDecoded programId accounts data =>
      simp only [paymentFromInstruction, paymentFromPartialIx] at hix
      split at hix
      · cases hix
      split at hix
      · cases hix
      obtain ⟨text, -, htext⟩ := Option.bind_eq_some_iff.mp hix
      exact ⟨text, htext⟩
    | parsed => cases hix
    | compiled programIdIndex accounts data =>
      simp only [paymentFromInstruction, paymentFromCompiledIx] at hix
      split at hix
      · cases hix
      split at hix
      · cases hix
      split at hix
      · cases hix
      split at hix
      · cases hix
      obtain ⟨text, -, htext⟩ := Option.bind_eq_some_iff.mp hix
      exact ⟨text, htext⟩
  have hsorted := (List.destutter_sublist _ _).subset h
  rw [List.mem_insertionSort] at hsorted
  rcases List.mem_append.mp hsorted with h | h
  · exact hcollect _ h
  · split at h
    · obtain ⟨g, -, hg⟩ := List.mem_flatMap.mp h
      exact hcollect g hg
    · cases h

theorem deliveryJob_some
    (h : (deliveryJob crates cfg enc).eval (answer enc accounts) = some job) :
    ∃ key, Named crates key ∧ Pending crates cfg accounts key job := by
  unfold deliveryJob at h
  split at h
  · next accountKeys instructions _ =>
    rw [Prog.eval_bind] at h
    split at h
    · next job' hjob' =>
      obtain rfl := Option.some.inj h
      obtain ⟨key, hmem, hpending, -⟩ := tryCandidates_some hjob'
      exact ⟨key, mem_paymentCandidates hmem, hpending⟩
    · split at h
      · cases h
      · obtain ⟨key, hmem, hpending⟩ := tryAccountKeys_some h
        obtain ⟨text, -, htext⟩ := List.mem_filterMap.mp hmem
        exact ⟨key, ⟨text, htext⟩, hpending⟩
  · cases h

theorem fetchDeliveryJob_eval (sig : Signature) :
    (fetchDeliveryJob crates cfg sig).eval (answer enc accounts) =
      .ok ((deliveryJob crates cfg enc).eval (answer enc accounts)) := by
  have hask : (fetchDeliveryJob crates cfg sig).eval (answer enc accounts) =
      ((deliveryJob crates cfg enc) >>= fun job => pure (Except.ok job)).eval
        (answer enc accounts) := rfl
  rw [hask, Prog.eval_bind]
  rfl

/-! ## Jobs of the escrow's own accounts -/

section
variable (crates : Crates) (cfg : OracleConfig) (discriminator : Bytes) (accounts : Accounts)

/-- A job that a transaction, or the payment key of a request, leads to. -/
inductive Obtained : EvaluationJob → Prop
  | delivery (sig : Signature) (enc : EncodedTransaction) {job : EvaluationJob}
      (h : (fetchDeliveryJob crates cfg sig).eval (answer enc accounts) = .ok (some job)) :
      Obtained job
  | manual (paymentPubkey : String) {key : Pubkey} {job : EvaluationJob}
      (hkey : crates.pubkeyFromStr paymentPubkey = some key)
      (h : (readPayment crates cfg key).eval (answer ⟨none, none⟩ accounts) = .ok (some job)) :
      Obtained job

def Genuine (account : Account) : Prop :=
  account.owner = cfg.escrowProgramId ∧ account.data.take 8 = discriminator

/-- The data of the job is what the escrow program stored in its payment account. -/
def FromEscrow (job : EvaluationJob) : Prop :=
  ∃ account payment, accounts job.paymentPubkey = .ok (some account) ∧
    Genuine cfg discriminator account ∧ Settler.paymentImage crates account = some payment ∧
    job = jobOfPayment job.paymentPubkey payment

/-- Every account that can be named and reads as pending is a `Payment` account of the escrow. -/
def NoForgery : Prop :=
  ∀ key account job, Named crates key → accounts key = .ok (some account) →
    jobOfAccount crates cfg.oraclePubkey key account = .ok (some job) →
    Genuine cfg discriminator account

end

variable {discriminator : Bytes}

theorem jobOfAccount_some {oraclePubkey : Pubkey} {account : Account}
    (h : jobOfAccount crates oraclePubkey key account = .ok (some job)) :
    ∃ payment, Settler.paymentImage crates account = some payment ∧
      job = jobOfPayment key payment := by
  unfold jobOfAccount at h
  split at h
  · cases h
  · next payment hpayment =>
    split at h
    · cases h
    split at h
    · cases h
    · exact ⟨payment, hpayment, (Option.some.inj (Except.ok.inj h)).symm⟩

theorem pending_account (h : Pending crates cfg accounts key job) :
    ∃ account, accounts key = .ok (some account) ∧
      jobOfAccount crates cfg.oraclePubkey key account = .ok (some job) := by
  unfold Pending at h
  rcases hread : accounts key with e | _ | account
  · rw [hread] at h
    cases h
  · rw [hread] at h
    cases h
  · rw [hread] at h
    exact ⟨account, rfl, h⟩

theorem obtained_pending (h : Obtained crates cfg accounts job) :
    ∃ key, Named crates key ∧ Pending crates cfg accounts key job := by
  cases h with
  | delivery sig enc h =>
    rw [fetchDeliveryJob_eval] at h
    exact deliveryJob_some (Except.ok.inj h)
  | @manual paymentPubkey key _ hkey h => exact ⟨key, ⟨paymentPubkey, hkey⟩, h⟩

/-- Every job is the escrow's own exactly when no other account reads as a pending payment. -/
theorem obtained_fromEscrow_iff (crates : Crates) (cfg : OracleConfig) (discriminator : Bytes)
    (accounts : Accounts) :
    (∀ job, Obtained crates cfg accounts job → FromEscrow crates cfg discriminator accounts job) ↔
      NoForgery crates cfg discriminator accounts := by
  constructor
  · rintro h key account job ⟨text, htext⟩ haccount hjob
    have hread : (readPayment crates cfg key).eval (answer ⟨none, none⟩ accounts) =
        .ok (some job) := by
      rw [readPayment_eval, haccount]
      exact hjob
    obtain ⟨account', payment, haccount', hgenuine, -⟩ := h job (.manual text htext hread)
    obtain ⟨payment', -, rfl⟩ := jobOfAccount_some hjob
    rw [show (jobOfPayment key payment').paymentPubkey = key from rfl, haccount] at haccount'
    obtain rfl := Option.some.inj (Except.ok.inj haccount')
    exact hgenuine
  · intro h job hobtained
    obtain ⟨key, hnamed, hpending⟩ := obtained_pending hobtained
    obtain ⟨account, haccount, hjob⟩ := pending_account hpending
    obtain ⟨payment, hpayment, rfl⟩ := jobOfAccount_some hjob
    exact ⟨account, payment, haccount, h key account _ hnamed haccount hjob, hpayment, rfl⟩

def forgedAccounts : Accounts := fun _ => .ok (some ⟨byte32 99, List.replicate 8 0⟩)

def mentioningTx : EncodedTransaction := ⟨some (.parsed ["forged"] []), none⟩

theorem obtained_forged : ¬ ∀ job, Obtained .toy .toy forgedAccounts job →
    FromEscrow .toy .toy [1, 2, 3, 4, 5, 6, 7, 8] forgedAccounts job := by
  intro h
  have hjob : (fetchDeliveryJob .toy .toy (List.Vector.replicate 64 0)).eval
      (answer mentioningTx forgedAccounts) = .ok (some .toy) := by
    rfl
  obtain ⟨account, payment, haccount, ⟨howner, -⟩, -⟩ := h .toy (.delivery _ mentioningTx hjob)
  obtain rfl := Option.some.inj (Except.ok.inj haccount)
  exact absurd howner (by decide)

/-! ## Strict event matching -/

def Matched (crates : Crates) (enc : EncodedTransaction) (job : EvaluationJob) : Prop :=
  ∃ e ∈ logEvents crates enc, e.paymentUid = job.paymentUid ∧ e.deliveryHash = job.deliveryHash

theorem eventMatchesJob_iff (h : events ≠ []) :
    eventMatchesJob events job = true ↔
      ∃ e ∈ events, e.paymentUid = job.paymentUid ∧ e.deliveryHash = job.deliveryHash := by
  rw [eventMatchesJob, if_neg (by simpa using h)]
  simp

theorem deliveryJob_strict (hstrict : cfg.requireEventMatch = true) :
    (deliveryJob crates cfg enc).eval (answer enc accounts) =
      (tryCandidates crates cfg (logEvents crates enc) (structuredCandidates crates cfg enc)).eval
        (answer enc accounts) := by
  unfold deliveryJob structuredCandidates
  rcases enc.message with _ | ⟨accountKeys, instructions⟩ | _
  · rfl
  · dsimp only
    rw [Prog.eval_bind]
    cases (tryCandidates crates cfg (logEvents crates enc)
        (paymentCandidates crates cfg enc accountKeys instructions)).eval (answer enc accounts) with
    | none =>
      dsimp only
      rw [if_pos hstrict]
      rfl
    | some job => rfl
  · rfl

/-- In strict mode every job has its event exactly when the logs hold some event, or no structured
candidate is pending. -/
theorem strict_match_iff (crates : Crates) (cfg : OracleConfig) (sig : Signature)
    (enc : EncodedTransaction) (accounts : Accounts) (hstrict : cfg.requireEventMatch = true) :
    (∀ job, (fetchDeliveryJob crates cfg sig).eval (answer enc accounts) = .ok (some job) →
        Matched crates enc job) ↔
      (logEvents crates enc ≠ [] ∨ ∀ key ∈ structuredCandidates crates cfg enc, ∀ job,
        ¬ Pending crates cfg accounts key job) := by
  rw [fetchDeliveryJob_eval, deliveryJob_strict hstrict]
  constructor
  · intro h
    by_contra hcontra
    push Not at hcontra
    obtain ⟨hempty, key, hmem, job, hpending⟩ := hcontra
    obtain ⟨job', hjob'⟩ : ∃ job', (tryCandidates crates cfg []
        (structuredCandidates crates cfg enc)).eval (answer enc accounts) = some job' :=
      tryCandidates_nil_events hmem hpending
    rw [hempty] at h
    obtain ⟨e, he, -⟩ := h job' (congrArg Except.ok hjob')
    rw [hempty] at he
    cases he
  · rintro h job hjob
    obtain ⟨key, hmem, hpending, hmatch⟩ := tryCandidates_some (Except.ok.inj hjob)
    rcases h with hevents | hnone
    · rw [hstrict, Bool.not_true, Bool.false_and, Bool.or_false] at hmatch
      exact (eventMatchesJob_iff hevents).mp hmatch
    · exact absurd hpending (hnone key hmem job)

def silentTx : EncodedTransaction :=
  ⟨some (.parsed [] [.partiallyDecoded (Crates.toy.pubkeyToString (byte32 6))
    ["a", "b", "c", "d", "payment"] "delivery"]), none⟩

def submitCrates : Crates := { Crates.toy with bs58Decode := fun _ => some [3] }

def strictCfg : OracleConfig := { OracleConfig.toy with requireEventMatch := true }

def pendingAccounts : Accounts := fun _ => .ok (some ⟨byte32 6, List.replicate 8 0⟩)

def loggedCrates : Crates :=
  { submitCrates with
    base64Decode := fun _ => some []
    eventFromBytes := fun _ => some ⟨byte32 1, byte32 0, 1, byte32 8⟩ }

def loggedTx : EncodedTransaction :=
  { silentTx with txMeta := some ⟨some ["Program data: AA=="], none⟩ }

theorem strict_match_logged :
    (fetchDeliveryJob loggedCrates strictCfg (List.Vector.replicate 64 0)).eval
      (answer loggedTx pendingAccounts) = .ok (some .toy) ∧ ∀ job,
    (fetchDeliveryJob loggedCrates strictCfg (List.Vector.replicate 64 0)).eval
      (answer loggedTx pendingAccounts) = .ok (some job) → Matched loggedCrates loggedTx job := by
  have hevents : logEvents loggedCrates loggedTx ≠ [] := by
    decide +kernel
  exact ⟨by rfl, (strict_match_iff loggedCrates strictCfg _ loggedTx pendingAccounts rfl).mpr
    (Or.inl hevents)⟩

theorem strict_unmatched : ¬ ∀ job,
    (fetchDeliveryJob submitCrates strictCfg (List.Vector.replicate 64 0)).eval
      (answer silentTx pendingAccounts) = .ok (some job) → Matched submitCrates silentTx job := by
  intro h
  have hjob : (fetchDeliveryJob submitCrates strictCfg (List.Vector.replicate 64 0)).eval
      (answer silentTx pendingAccounts) = .ok (some .toy) := by
    rfl
  obtain ⟨e, he, -⟩ := h .toy hjob
  cases he

end OracleQa.DeliveryJob
