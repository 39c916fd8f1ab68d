import OracleQa.Interaction.Trace
import OracleQa.Spec.DeliveryJob
import OracleQa.Spec.Footprint

/-! The two ways from a confirmed transaction to the worker: the log monitor and the backfill. Both
look for the first account of the transaction that reads as a pending payment and fits its events;
they differ in what they require of the transaction before they look. -/

namespace OracleQa.Detection
open Interaction Chain DeliveryJob Text

structure ConfirmedTransaction where
  signature : String
  slot : Nat
  err : Bool
  enc : EncodedTransaction

namespace ConfirmedTransaction

def logs (tx : ConfirmedTransaction) : List String := (tx.enc.txMeta.bind (·.logMessages)).getD []

def notification (tx : ConfirmedTransaction) : LogNotification := ⟨tx.slot, tx.signature, tx.logs⟩

def entry (tx : ConfirmedTransaction) : SignatureEntry := ⟨tx.signature, tx.slot, tx.err⟩

end ConfirmedTransaction

def sentJob : Call → Option EvaluationJob
  | .sendJob job => some job
  | _ => none

section
variable {α β : Type} {answer : (c : Call) → c.Reply}

def emitted (answer : (c : Call) → c.Reply) (p : Async α) : List EvaluationJob :=
  (p.transcript answer).filterMap fun ev => sentJob ev.call

theorem emitted_bind (p : Async α) (f : α → Async β) :
    emitted answer (p >>= f) = emitted answer p ++ emitted answer (f (p.eval answer)) := by
  rw [emitted, Prog.transcript_bind, List.filterMap_append]
  rfl

theorem emitted_call {c : Call} {k : c.Reply → Async α} :
    emitted answer (.call c k) = (sentJob c).toList ++ emitted answer (k (answer c)) := by
  rw [emitted, Prog.transcript, List.filterMap_cons]
  dsimp only
  cases sentJob c <;> rfl

theorem emitted_nil {p : Async α} (hp : p.Calls fun c => sentJob c = none) :
    emitted answer p = [] := by
  induction p with
  | ret a => rfl
  | call c k ih =>
    have hrest : emitted answer (k (answer c)) = [] := ih _ (hp.2 _ trivial)
    have hfirst : sentJob c = none := hp.1
    rw [emitted_call, hfirst, hrest]
    rfl

end

/-! ## The job of a transaction -/

section
variable (crates : Crates) (cfg : OracleConfig) (accounts : Accounts)

def pendingJob (key : Pubkey) : Option EvaluationJob :=
  match jobOfReply crates cfg.oraclePubkey key (accounts key) with
  | .ok job => job
  | .error _ => none

/-- The accounts that are read for a transaction, in this order. -/
def watchedKeys (enc : EncodedTransaction) : List Pubkey :=
  match enc.message with
  | some (.parsed accountKeys instructions) =>
    paymentCandidates crates cfg enc accountKeys instructions ++
      if cfg.requireEventMatch then [] else accountKeys.filterMap crates.pubkeyFromStr
  | _ => []

end

variable {crates : Crates} {cfg : OracleConfig} {accounts : Accounts} {enc : EncodedTransaction}
  {events : List DeliverySubmittedEvent} {key key' : Pubkey} {job job' : EvaluationJob}
  {tx : ConfirmedTransaction}

theorem pendingJob_eq_some : pendingJob crates cfg accounts key = some job ↔
    Pending crates cfg accounts key job := by
  unfold pendingJob Pending
  rcases jobOfReply crates cfg.oraclePubkey key (accounts key) with e | _ | job' <;> simp

theorem accepts_eq (strict : Bool) :
    (eventMatchesJob events job || !strict && events.isEmpty) = eventMatchesJob events job := by
  cases hempty : events.isEmpty with
  | false => rw [Bool.and_false, Bool.or_false]
  | true =>
    have hmatch : eventMatchesJob events job = true := by
      rw [eventMatchesJob, if_pos hempty]
    rw [hmatch, Bool.true_or]

theorem tryCandidates_eval (keys : List Pubkey) :
    (tryCandidates crates cfg events keys).eval (answer enc accounts) =
      (keys.filterMap (pendingJob crates cfg accounts)).find? (eventMatchesJob events) := by
  induction keys with
  | nil => rfl
  | cons key keys ih =>
    rw [tryCandidates_cons, List.filterMap_cons, pendingJob]
    rcases jobOfReply crates cfg.oraclePubkey key (accounts key) with e | _ | job
    · exact ih
    · exact ih
    · dsimp only
      rw [accepts_eq, List.find?_cons, ih]
      cases eventMatchesJob events job <;> rfl

theorem tryAccountKeys_eval (keys : List Pubkey) :
    (tryAccountKeys crates cfg events keys).eval (answer enc accounts) =
      (keys.filterMap (pendingJob crates cfg accounts)).find? (eventMatchesJob events) := by
  induction keys with
  | nil => rfl
  | cons key keys ih =>
    rw [tryAccountKeys, Prog.eval_bind, readPayment_eval, List.filterMap_cons, pendingJob]
    rcases jobOfReply crates cfg.oraclePubkey key (accounts key) with e | _ | job
    · exact ih
    · exact ih
    · have haccepts : (eventMatchesJob events job || events.isEmpty) =
          eventMatchesJob events job := accepts_eq false
      dsimp only
      rw [haccepts, List.find?_cons, ← ih]
      cases eventMatchesJob events job <;> rfl

theorem deliveryJob_eval : (deliveryJob crates cfg enc).eval (answer enc accounts) =
    ((watchedKeys crates cfg enc).filterMap (pendingJob crates cfg accounts)).find?
      (eventMatchesJob (logEvents crates enc)) := by
  unfold deliveryJob watchedKeys
  rcases enc.message with _ | ⟨accountKeys, instructions⟩ | _
  · rfl
  · dsimp only
    rw [Prog.eval_bind, tryCandidates_eval, List.filterMap_append, List.find?_append]
    cases ((paymentCandidates crates cfg enc accountKeys instructions).filterMap
        (pendingJob crates cfg accounts)).find? (eventMatchesJob (logEvents crates enc)) with
    | some job => rfl
    | none =>
      dsimp only
      rw [Option.none_or]
      cases cfg.requireEventMatch with
      | true => rfl
      | false => exact tryAccountKeys_eval _
  · rfl

/-! ## The two paths -/

section
variable (crates : Crates) (cfg : OracleConfig) (accounts : Accounts) (lastSeenSlot : Nat)
  (before : Option Signature) (highestSlot : Nat) (tx : ConfirmedTransaction)

def liveJobs : List EvaluationJob :=
  emitted (answer tx.enc accounts) (monitorNotification crates cfg tx.notification)

def backfillJobs : List EvaluationJob :=
  emitted (answer tx.enc accounts)
    (scanEntries crates cfg lastSeenSlot [tx.entry] before highestSlot)

/-- The watermark says that the transaction was processed in a prior run. -/
def Covered : Prop := 0 < lastSeenSlot ∧ tx.slot ≤ lastSeenSlot

def fetched : Option EvaluationJob :=
  (crates.signatureFromStr tx.signature).bind fun _ =>
    ((watchedKeys crates cfg tx.enc).filterMap (pendingJob crates cfg accounts)).find?
      (eventMatchesJob (logEvents crates tx.enc))

def Detectable : Prop :=
  (crates.signatureFromStr tx.signature).isSome ∧
    ∃ key ∈ watchedKeys crates cfg tx.enc, ∃ job, Pending crates cfg accounts key job ∧
      eventMatchesJob (logEvents crates tx.enc) job = true

end

section
variable {lastSeenSlot highestSlot : Nat} {before : Option Signature}

theorem fetchDeliveryJob_quiet (sig : Signature) :
    (fetchDeliveryJob crates cfg sig).Calls fun c => sentJob c = none := by
  refine ⟨rfl, fun r _ => ?_⟩
  cases r with
  | error e => trivial
  | ok enc =>
    have hreads : (deliveryJob crates cfg enc).Calls fun c => sentJob c = none := by
      apply (deliveryJob_calls enc).mono
      rintro c ⟨key, rfl⟩
      rfl
    exact hreads.bind fun _ => trivial

theorem emitted_fetch {α : Type} (sig : Signature)
    (f : Except OracleError (Option EvaluationJob) → Async α) :
    emitted (answer enc accounts) (fetchDeliveryJob crates cfg sig >>= f) =
      emitted (answer enc accounts)
        (f (.ok ((deliveryJob crates cfg enc).eval (answer enc accounts)))) := by
  rw [emitted_bind, emitted_nil (fetchDeliveryJob_quiet sig), fetchDeliveryJob_eval]
  rfl

theorem liveJobs_eq : liveJobs crates cfg accounts tx =
    if hasDelivery tx.logs then (fetched crates cfg accounts tx).toList else [] := by
  unfold liveJobs monitorNotification
  refine emitted_call.trans ?_
  cases hlogs : hasDelivery tx.logs with
  | false =>
    have hfilter : (!hasDelivery tx.notification.logs) = true := by
      rw [show tx.notification.logs = tx.logs from rfl, hlogs]
      rfl
    rw [if_pos hfilter]
    rfl
  | true =>
    have hfilter : ¬ (!hasDelivery tx.notification.logs) = true := by
      rw [show tx.notification.logs = tx.logs from rfl, hlogs]
      decide
    rw [if_neg hfilter, if_pos rfl, fetched, show tx.notification.signature = tx.signature from rfl]
    cases crates.signatureFromStr tx.signature with
    | none => rfl
    | some sig =>
      refine (emitted_fetch sig _).trans ?_
      rw [deliveryJob_eval, Option.bind_some]
      cases ((watchedKeys crates cfg tx.enc).filterMap (pendingJob crates cfg accounts)).find?
        (eventMatchesJob (logEvents crates tx.enc)) <;> rfl

theorem backfillJobs_eq : backfillJobs crates cfg accounts lastSeenSlot before highestSlot tx =
    if 0 < lastSeenSlot ∧ tx.slot ≤ lastSeenSlot ∨ tx.err = true then []
    else (fetched crates cfg accounts tx).toList := by
  have hend : ∀ before highestSlot, emitted (answer tx.enc accounts)
      (scanEntries crates cfg lastSeenSlot [] before highestSlot) = [] := fun _ _ => rfl
  unfold backfillJobs scanEntries
  dsimp only
  by_cases hcovered : lastSeenSlot > 0 ∧ tx.entry.slot ≤ lastSeenSlot
  · have hfilter : 0 < lastSeenSlot ∧ tx.slot ≤ lastSeenSlot ∨ tx.err = true := Or.inl hcovered
    rw [if_pos hcovered, if_pos hfilter]
    rfl
  by_cases herr : tx.entry.err = true
  · have hfilter : 0 < lastSeenSlot ∧ tx.slot ≤ lastSeenSlot ∨ tx.err = true := Or.inr herr
    rw [if_neg hcovered, if_pos herr, if_pos hfilter]
    exact hend _ _
  have hscanned : ¬ (0 < lastSeenSlot ∧ tx.slot ≤ lastSeenSlot ∨ tx.err = true) :=
    not_or.mpr ⟨hcovered, herr⟩
  rw [if_neg hcovered, if_neg herr, if_neg hscanned, fetched,
    show tx.entry.signature = tx.signature from rfl]
  cases crates.signatureFromStr tx.signature with
  | none => exact hend _ _
  | some sig =>
    dsimp only
    rw [emitted_fetch, deliveryJob_eval, Option.bind_some]
    cases ((watchedKeys crates cfg tx.enc).filterMap (pendingJob crates cfg accounts)).find?
        (eventMatchesJob (logEvents crates tx.enc)) with
    | none => exact hend _ _
    | some job =>
      have hsent := hend (some sig) (if tx.slot > highestSlot then tx.slot else highestSlot)
      exact emitted_call.trans (congrArg (job :: ·) hsent)

theorem fetched_isSome :
    (fetched crates cfg accounts tx).isSome = true ↔ Detectable crates cfg accounts tx := by
  unfold fetched Detectable
  cases crates.signatureFromStr tx.signature with
  | none => simp
  | some sig =>
    rw [Option.bind_some, List.find?_isSome]
    simp only [List.mem_filterMap, pendingJob_eq_some, Option.isSome_some, true_and]
    constructor
    · rintro ⟨job, ⟨key, hmem, hpending⟩, hmatch⟩
      exact ⟨key, hmem, job, hpending, hmatch⟩
    · rintro ⟨key, hmem, job, hpending, hmatch⟩
      exact ⟨job, ⟨key, hmem, hpending⟩, hmatch⟩

end

/-- The two paths agree on a transaction exactly when it leads to no job, or the log filter of the
one lets it through just when the error and watermark filters of the other do. -/
theorem detection_agrees_iff (crates : Crates) (cfg : OracleConfig) (accounts : Accounts)
    (lastSeenSlot : Nat) (before : Option Signature) (highestSlot : Nat)
    (tx : ConfirmedTransaction) :
    liveJobs crates cfg accounts tx =
        backfillJobs crates cfg accounts lastSeenSlot before highestSlot tx ↔
      (Detectable crates cfg accounts tx →
        (hasDelivery tx.logs = true ↔ tx.err = false ∧ ¬ Covered lastSeenSlot tx)) := by
  rw [liveJobs_eq, backfillJobs_eq, ← fetched_isSome]
  cases fetched crates cfg accounts tx with
  | none => simp
  | some job =>
    unfold Covered
    by_cases hlive : hasDelivery tx.logs = true <;>
      by_cases hcovered : 0 < lastSeenSlot ∧ tx.slot ≤ lastSeenSlot <;>
      cases herr : tx.err <;> simp [hlive, hcovered]

def failedTx : ConfirmedTransaction :=
  ⟨"sig", 5, true, ⟨some (.parsed ["payment"] []), some ⟨some ["Program data: "], none⟩⟩⟩

def truncatedTx : ConfirmedTransaction :=
  ⟨"sig", 5, false, ⟨some (.parsed ["payment"] []), some ⟨some ["Log truncated"], none⟩⟩⟩

theorem detection_differs :
    (liveJobs .toy .toy pendingAccounts failedTx = [.toy] ∧
      backfillJobs .toy .toy pendingAccounts 0 none 0 failedTx = []) ∧
    (liveJobs .toy .toy pendingAccounts truncatedTx = [] ∧
      backfillJobs .toy .toy pendingAccounts 0 none 0 truncatedTx = [.toy]) := by
  decide +kernel

/-! ## Transactions with several deliveries -/

section
variable (crates : Crates) (cfg : OracleConfig) (enc : EncodedTransaction)

def allInstructions (instructions : List UiInstruction) : List UiInstruction :=
  instructions ++ ((enc.txMeta.bind (·.innerInstructions)).getD []).flatten

/-- A `SubmitDelivery` instruction to the escrow program names this payment account. -/
def Submits (key : Pubkey) : Prop :=
  ∃ accountKeys instructions, enc.message = some (.parsed accountKeys instructions) ∧
    ∃ ix ∈ allInstructions enc instructions,
      paymentFromInstruction crates accountKeys cfg.escrowProgramId ix = some key

end

theorem mem_destutter'_ne {α : Type} [DecidableEq α] {a b : α} {as : List α} (h : a ∈ b :: as) :
    a ∈ as.destutter' (· ≠ ·) b := by
  induction as generalizing b with
  | nil => exact h
  | cons c as ih =>
    rw [List.destutter'_cons]
    split
    · rcases List.mem_cons.mp h with rfl | h
      · exact List.mem_cons_self
      · exact List.mem_cons_of_mem b (ih h)
    · next hsame =>
      obtain rfl : b = c := not_ne_iff.mp hsame
      rcases List.mem_cons.mp h with rfl | h
      · exact ih List.mem_cons_self
      · exact ih h

theorem mem_destutter_ne {α : Type} [DecidableEq α] {a : α} {as : List α} :
    a ∈ as.destutter (· ≠ ·) ↔ a ∈ as := by
  refine ⟨fun h => (List.destutter_sublist _ as).subset h, fun h => ?_⟩
  cases as with
  | nil => exact h
  | cons b as => exact mem_destutter'_ne h

theorem mem_paymentCandidates_iff {accountKeys : List String} {instructions : List UiInstruction} :
    key ∈ paymentCandidates crates cfg enc accountKeys instructions ↔
      ∃ ix ∈ allInstructions enc instructions,
        paymentFromInstruction crates accountKeys cfg.escrowProgramId ix = some key := by
  unfold paymentCandidates sortDedup
  rw [mem_destutter_ne, List.mem_insertionSort, ← List.mem_filterMap, allInstructions,
    List.filterMap_append, List.mem_append, List.mem_append]
  apply or_congr Iff.rfl
  cases enc.txMeta.bind (·.innerInstructions) with
  | none => rfl
  | some groups =>
    rw [Option.getD_some]
    simp only [collectPaymentCandidates, List.mem_flatMap, List.mem_filterMap, List.mem_flatten]
    constructor
    · rintro ⟨g, hg, ix, hix, hkey⟩
      exact ⟨ix, ⟨g, hg, hix⟩, hkey⟩
    · rintro ⟨ix, ⟨g, hg, hix⟩, hkey⟩
      exact ⟨g, hg, ix, hix, hkey⟩

theorem submits_iff : Submits crates cfg enc key ↔ key ∈ structuredCandidates crates cfg enc := by
  unfold Submits structuredCandidates
  rcases enc.message with _ | ⟨accountKeys, instructions⟩ | _
  · simp
  · rw [mem_paymentCandidates_iff]
    constructor
    · rintro ⟨accountKeys', instructions', heq, h⟩
      obtain ⟨rfl, rfl⟩ := UiMessage.parsed.inj (Option.some.inj heq)
      exact h
    · exact fun h => ⟨accountKeys, instructions, rfl, h⟩
  · simp

theorem watchedKeys_eq : ∃ rest, watchedKeys crates cfg enc =
    structuredCandidates crates cfg enc ++ rest := by
  unfold watchedKeys structuredCandidates
  rcases enc.message with _ | ⟨accountKeys, instructions⟩ | _
  · exact ⟨[], rfl⟩
  · exact ⟨_, rfl⟩
  · exact ⟨[], rfl⟩

theorem pending_pubkey (h : Pending crates cfg accounts key job) : job.paymentPubkey = key := by
  obtain ⟨account, -, haccount⟩ := pending_account h
  obtain ⟨payment, -, rfl⟩ := jobOfAccount_some haccount
  rfl

theorem pending_unique (h : Pending crates cfg accounts key job)
    (h' : Pending crates cfg accounts key job') : job = job' := by
  rw [← pendingJob_eq_some] at h h'
  exact Option.some.inj (h.symm.trans h')

theorem trim_within (cs : List Char) : trim cs <:+: cs :=
  ((List.rdropWhile_prefix _ _).isInfix).trans (List.dropWhile_suffix _).isInfix

theorem hasDelivery_of_event {logs : List String} {e : DeliverySubmittedEvent}
    (h : e ∈ parseDeliveryEventsFromLogs crates logs) : hasDelivery logs = true := by
  obtain ⟨line, hline, hevent⟩ := List.mem_filterMap.mp h
  have hprefix : "Program data: ".toList <+: trim line.toList := by
    unfold parseDeliveryEvent stripPrefix at hevent
    split at hevent
    · cases hevent
    · next b64 hb64 =>
      split at hb64
      · assumption
      · cases hb64
  have hdata : "Program data:".toList <:+: line.toList := by
    have hshort : "Program data:".toList <+: "Program data: ".toList := by decide
    exact (hshort.trans hprefix).isInfix.trans (trim_within _)
  rw [hasDelivery, List.any_eq_true]
  exact ⟨line, hline, Bool.or_eq_true_iff.mpr (Or.inr (decide_eq_true hdata))⟩

/-! ### What is sent -/

inductive Path
  | live
  | backfill (lastSeenSlot : Nat) (before : Option Signature) (highestSlot : Nat)

section
variable (crates : Crates) (cfg : OracleConfig) (accounts : Accounts) (tx : ConfirmedTransaction)

def Path.jobs : Path → List EvaluationJob
  | live => liveJobs crates cfg accounts tx
  | backfill lastSeenSlot before highestSlot =>
    backfillJobs crates cfg accounts lastSeenSlot before highestSlot tx

def Path.Handles : Path → Prop
  | live => True
  | backfill lastSeenSlot _ _ => ¬ Covered lastSeenSlot tx

/-- There is at most one payment to send, and what is delivered for it is what a log event says. -/
structure Unambiguous : Prop where
  single : ∀ key key' job job', Submits crates cfg tx.enc key → Submits crates cfg tx.enc key' →
    Pending crates cfg accounts key job → Pending crates cfg accounts key' job' → key = key'
  matched : ∀ key job, Submits crates cfg tx.enc key → Pending crates cfg accounts key job →
    Matched crates tx.enc job

end

theorem path_jobs_eq {path : Path} (hok : tx.err = false) (hpath : path.Handles tx)
    {e : DeliverySubmittedEvent} (he : e ∈ logEvents crates tx.enc) :
    path.jobs crates cfg accounts tx = (fetched crates cfg accounts tx).toList := by
  cases path with
  | live =>
    have hlogs : hasDelivery tx.logs = true := by
      unfold logEvents at he
      unfold ConfirmedTransaction.logs
      cases hlines : tx.enc.txMeta.bind (·.logMessages) with
      | none =>
        rw [hlines] at he
        cases he
      | some lines =>
        rw [hlines] at he
        exact hasDelivery_of_event he
    exact liveJobs_eq.trans (if_pos hlogs)
  | backfill lastSeenSlot before highestSlot =>
    have hfilter : ¬ (0 < lastSeenSlot ∧ tx.slot ≤ lastSeenSlot ∨ tx.err = true) := by
      rw [hok]
      exact not_or.mpr ⟨hpath, Bool.false_ne_true⟩
    exact backfillJobs_eq.trans (if_neg hfilter)

theorem fetched_of_unambiguous (hsig : (crates.signatureFromStr tx.signature).isSome = true)
    (h : Unambiguous crates cfg accounts tx) (hkey : Submits crates cfg tx.enc key)
    (hpending : Pending crates cfg accounts key job) :
    fetched crates cfg accounts tx = some job := by
  obtain ⟨sig, hsig⟩ := Option.isSome_iff_exists.mp hsig
  obtain ⟨e, he, hmatch⟩ := h.matched key job hkey hpending
  have hfits : eventMatchesJob (logEvents crates tx.enc) job = true :=
    (eventMatchesJob_iff (List.ne_nil_of_mem he)).mpr ⟨e, he, hmatch⟩
  have hjob : job ∈ (structuredCandidates crates cfg tx.enc).filterMap
      (pendingJob crates cfg accounts) :=
    List.mem_filterMap.mpr ⟨key, submits_iff.mp hkey, pendingJob_eq_some.mpr hpending⟩
  obtain ⟨job', hfind⟩ := Option.isSome_iff_exists.mp (List.find?_isSome.mpr ⟨job, hjob, hfits⟩)
  have hsame : job' = job := by
    obtain ⟨key', hkey', hpending'⟩ := List.mem_filterMap.mp (List.mem_of_find?_eq_some hfind)
    rw [pendingJob_eq_some] at hpending'
    obtain rfl := h.single key' key job' job (submits_iff.mpr hkey') hkey hpending' hpending
    exact pending_unique hpending' hpending
  obtain ⟨rest, hrest⟩ : ∃ rest, watchedKeys crates cfg tx.enc =
      structuredCandidates crates cfg tx.enc ++ rest := watchedKeys_eq
  rw [fetched, hsig, Option.bind_some, hrest, List.filterMap_append, List.find?_append, hfind,
    Option.some_or, hsame]

/-- Every submitted payment that is pending is sent exactly when there is at most one of them, and
its delivery is one that the logs tell of. -/
theorem submissions_sent_iff (crates : Crates) (cfg : OracleConfig) (accounts : Accounts)
    (tx : ConfirmedTransaction) (path : Path)
    (hsig : (crates.signatureFromStr tx.signature).isSome = true) (hok : tx.err = false)
    (hpath : path.Handles tx)
    (hevents : ∀ key job, Submits crates cfg tx.enc key → Pending crates cfg accounts key job →
      ∃ e ∈ logEvents crates tx.enc, e.paymentUid = job.paymentUid) :
    (∀ key job, Submits crates cfg tx.enc key → Pending crates cfg accounts key job →
        job ∈ path.jobs crates cfg accounts tx) ↔ Unambiguous crates cfg accounts tx := by
  have hjobs : ∀ key job, Submits crates cfg tx.enc key → Pending crates cfg accounts key job →
      (job ∈ path.jobs crates cfg accounts tx ↔ fetched crates cfg accounts tx = some job) := by
    intro key job hkey hpending
    obtain ⟨e, he, -⟩ := hevents key job hkey hpending
    rw [path_jobs_eq hok hpath he, Option.mem_toList]
  constructor
  · intro h
    have hfetched : ∀ key job, Submits crates cfg tx.enc key →
        Pending crates cfg accounts key job → fetched crates cfg accounts tx = some job :=
      fun key job hkey hpending => (hjobs key job hkey hpending).mp (h key job hkey hpending)
    refine ⟨?_, ?_⟩
    · intro key key' job job' hkey hkey' hpending hpending'
      have hsame : some job = some job' :=
        (hfetched key job hkey hpending).symm.trans (hfetched key' job' hkey' hpending')
      rw [← pending_pubkey hpending, ← pending_pubkey hpending', Option.some.inj hsame]
    · intro key job hkey hpending
      obtain ⟨e, he, -⟩ := hevents key job hkey hpending
      obtain ⟨sig, -, hfind⟩ := Option.bind_eq_some_iff.mp (hfetched key job hkey hpending)
      exact (eventMatchesJob_iff (List.ne_nil_of_mem he)).mp (List.find?_some hfind)
  · intro h key job hkey hpending
    exact (hjobs key job hkey hpending).mpr (fetched_of_unambiguous hsig h hkey hpending)

/-! ### Transactions with one and with two deliveries -/

def pairCrates : Crates := { submitCrates with
  paymentSize := 1
  paymentFromBytes := fun bytes =>
    ⟨byte32 (bytes.headD 0), byte32 0, byte32 0, 100, byte32 5, byte32 7, 1000, 1, 0⟩
  eventSize := 1
  eventFromBytes := fun bytes => some ⟨byte32 (bytes.headD 0), byte32 0, 0, byte32 5⟩
  base64Decode := fun text => some [UInt8.ofNat text.length]
  pubkeyFromStr := fun text => some (byte32 (UInt8.ofNat text.length)) }

def pairAccounts : Accounts := fun key => .ok (some ⟨byte32 6, List.replicate 8 0 ++ [key.head]⟩)

def submit (payment : String) : UiInstruction :=
  .partiallyDecoded (pairCrates.pubkeyToString (byte32 6)) ["a", "b", "c", "d", payment] "delivery"

def oneTx : ConfirmedTransaction :=
  ⟨"sig", 5, false, ⟨some (.parsed [] [submit "x"]), some ⟨some ["Program data: x"], none⟩⟩⟩

def twoTx : ConfirmedTransaction :=
  ⟨"sig", 5, false, ⟨some (.parsed [] [submit "x"]),
    some ⟨some ["Program data: x", "Program data: xx"], some [[submit "xx"]]⟩⟩⟩

def pairJob (b : UInt8) : EvaluationJob :=
  ⟨byte32 b, byte32 b, byte32 0, byte32 0, 100, byte32 5, byte32 7, 1000⟩

theorem submits_pair {tx : ConfirmedTransaction} {bs : List UInt8}
    (htx : structuredCandidates pairCrates .toy tx.enc = bs.map byte32) {key : Pubkey}
    (hkey : Submits pairCrates .toy tx.enc key) : ∃ b ∈ bs, key = byte32 b := by
  rw [submits_iff, htx] at hkey
  obtain ⟨b, hb, rfl⟩ := List.mem_map.mp hkey
  exact ⟨b, hb, rfl⟩

theorem submissions_sent_one :
    pairJob 1 ∈ Path.live.jobs pairCrates .toy pairAccounts oneTx ∧
      pairJob 1 ∈ (Path.backfill 0 none 0).jobs pairCrates .toy pairAccounts oneTx := by
  have hkeys : structuredCandidates pairCrates .toy oneTx.enc = [1].map byte32 := by decide +kernel
  have hpending : Pending pairCrates .toy pairAccounts (byte32 1) (pairJob 1) := by rfl
  have hmatched : Matched pairCrates oneTx.enc (pairJob 1) := by
    refine ⟨⟨byte32 1, byte32 0, 0, byte32 5⟩, ?_, rfl, rfl⟩
    decide +kernel
  have hone : ∀ key job, Submits pairCrates .toy oneTx.enc key →
      Pending pairCrates .toy pairAccounts key job → key = byte32 1 ∧ job = pairJob 1 := by
    intro key job hkey hjob
    obtain ⟨b, hb, rfl⟩ := submits_pair hkeys hkey
    obtain rfl := List.mem_singleton.mp hb
    exact ⟨rfl, pending_unique hjob hpending⟩
  have hclear : Unambiguous pairCrates .toy pairAccounts oneTx := by
    refine ⟨fun key key' job job' hkey hkey' hjob hjob' => ?_, fun key job hkey hjob => ?_⟩
    · rw [(hone key job hkey hjob).1, (hone key' job' hkey' hjob').1]
    · rw [(hone key job hkey hjob).2]
      exact hmatched
  have hevents : ∀ key job, Submits pairCrates .toy oneTx.enc key →
      Pending pairCrates .toy pairAccounts key job →
      ∃ e ∈ Chain.logEvents pairCrates oneTx.enc, e.paymentUid = job.paymentUid := by
    intro key job hkey hjob
    obtain ⟨e, he, huid, -⟩ := hclear.matched key job hkey hjob
    exact ⟨e, he, huid⟩
  have hsubmits : Submits pairCrates .toy oneTx.enc (byte32 1) := by
    rw [submits_iff, hkeys]
    exact List.mem_cons_self
  have habove : (Path.backfill 0 none 0).Handles oneTx := fun h => absurd h.1 (by decide)
  constructor
  · exact (submissions_sent_iff pairCrates .toy pairAccounts oneTx .live rfl rfl trivial
      hevents).mpr hclear (byte32 1) (pairJob 1) hsubmits hpending
  · exact (submissions_sent_iff pairCrates .toy pairAccounts oneTx (.backfill 0 none 0) rfl rfl
      habove hevents).mpr hclear (byte32 1) (pairJob 1) hsubmits hpending

theorem submission_dropped :
    (∀ b ∈ [1, 2], Submits pairCrates .toy twoTx.enc (byte32 b) ∧
      Pending pairCrates .toy pairAccounts (byte32 b) (pairJob b) ∧
      Matched pairCrates twoTx.enc (pairJob b)) ∧
    ¬ ∀ key job, Submits pairCrates .toy twoTx.enc key →
      Pending pairCrates .toy pairAccounts key job →
      job ∈ Path.live.jobs pairCrates .toy pairAccounts twoTx := by
  have hkeys : structuredCandidates pairCrates .toy twoTx.enc = [1, 2].map byte32 := by
    decide +kernel
  have hevents : Chain.logEvents pairCrates twoTx.enc =
      [1, 2].map fun b => ⟨byte32 b, byte32 0, 0, byte32 5⟩ := by
    decide +kernel
  have hboth : ∀ b ∈ [1, 2], Submits pairCrates .toy twoTx.enc (byte32 b) ∧
      Pending pairCrates .toy pairAccounts (byte32 b) (pairJob b) ∧
      Matched pairCrates twoTx.enc (pairJob b) := by
    intro b hb
    refine ⟨?_, ?_, ⟨⟨byte32 b, byte32 0, 0, byte32 5⟩, ?_, rfl, rfl⟩⟩
    · rw [submits_iff, hkeys]
      exact List.mem_map_of_mem hb
    · rcases List.mem_pair.mp hb with rfl | rfl <;> rfl
    · rw [hevents]
      exact List.mem_map.mpr ⟨b, hb, rfl⟩
  refine ⟨hboth, fun h => ?_⟩
  obtain ⟨hsubmits, hpending, -⟩ := hboth 2 (by decide)
  have hsent := h (byte32 2) (pairJob 2) hsubmits hpending
  have hjobs : Path.live.jobs pairCrates .toy pairAccounts twoTx = [pairJob 1] := by decide +kernel
  rw [hjobs] at hsent
  exact absurd hsent (by decide)

end OracleQa.Detection
