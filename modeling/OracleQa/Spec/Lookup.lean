import OracleQa.Spec.Detection

/-! The lookup of a delivery in lenient mode as a selection among keys: which key it settles on,
for every transaction and whatever each read of an account returns. -/

namespace OracleQa.Lookup
open Interaction Chain DeliveryJob Detection

/-! ## The first element that a partial function takes to an accepted value -/

section
variable {α β : Type}

/-- `b` is what `f` makes of the first element on which it is accepted. -/
def First (accepts : α → β → Prop) (xs : List α) (b : β) : Prop :=
  ∃ before x after, xs = before ++ x :: after ∧ accepts x b ∧ ∀ y ∈ before, ∀ c, ¬ accepts y c

theorem find?_filterMap_eq_some {f : α → Option β} {p : β → Bool} {xs : List α} {b : β} :
    (xs.filterMap f).find? p = some b ↔ First (fun x c => f x = some c ∧ p c = true) xs b := by
  rw [List.find?_filterMap, Option.bind_eq_some_iff]
  constructor
  · rintro ⟨x, hfind, hx⟩
    obtain ⟨haccepts, before, after, hxs, hbefore⟩ := List.find?_eq_some_iff_append.mp hfind
    rw [hx] at haccepts
    refine ⟨before, x, after, hxs, ⟨hx, haccepts⟩, fun y hy c hc => ?_⟩
    have hy := hbefore y hy
    rw [hc.1] at hy
    simp [hc.2] at hy
  · rintro ⟨before, x, after, hxs, ⟨hx, hb⟩, hbefore⟩
    refine ⟨x, List.find?_eq_some_iff_append.mpr ⟨?_, before, after, hxs, fun y hy => ?_⟩, hx⟩
    · rw [hx]
      exact hb
    · cases hfy : f y with
      | none => rfl
      | some c =>
        have hrefused := hbefore y hy c
        simpa [hfy] using hrefused

theorem First.exists_iff {accepts : α → β → Prop} {xs : List α} :
    (∃ b, First accepts xs b) ↔ ∃ x ∈ xs, ∃ b, accepts x b := by
  constructor
  · rintro ⟨b, before, x, after, rfl, hx, -⟩
    exact ⟨x, by simp, b, hx⟩
  · rintro ⟨x, hmem, b, hx⟩
    induction xs with
    | nil => cases hmem
    | cons y ys ih =>
      by_cases hy : ∃ c, accepts y c
      · obtain ⟨c, hc⟩ := hy
        exact ⟨c, [], y, ys, rfl, hc, nofun⟩
      · rcases List.mem_cons.mp hmem with rfl | hmem
        · exact absurd ⟨b, hx⟩ hy
        · obtain ⟨c, before, z, after, rfl, hz, hbefore⟩ := ih hmem
          refine ⟨c, y :: before, z, after, rfl, hz, fun w hw d hd => ?_⟩
          rcases List.mem_cons.mp hw with rfl | hw
          · exact hy ⟨d, hd⟩
          · exact hbefore w hw d hd

theorem First.of_append {accepts : α → β → Prop} {xs ys : List α} {b : β}
    (h : First accepts (xs ++ ys) b) :
    First accepts xs b ∨ (∀ x ∈ xs, ∀ c, ¬ accepts x c) ∧ First accepts ys b := by
  obtain ⟨before, x, after, heq, hx, hbefore⟩ := h
  rcases List.append_eq_append_iff.mp heq with ⟨mid, rfl, hys⟩ | ⟨mid, rfl, htail⟩
  · right
    refine ⟨fun y hy => hbefore y (List.mem_append_left _ hy), mid, x, after, hys, hx,
      fun y hy => hbefore y (List.mem_append_right _ hy)⟩
  · cases mid with
    | nil =>
      right
      rw [List.nil_append] at htail
      refine ⟨fun y hy => hbefore y (by simpa using hy), [], x, after, htail.symm, hx, nofun⟩
    | cons z mid =>
      left
      obtain ⟨rfl, -⟩ := List.cons.inj htail
      exact ⟨before, x, mid, rfl, hx, hbefore⟩

theorem First.least {accepts : α → β → Prop} {r : α → α → Prop} {xs : List α} {b : β}
    (hrefl : ∀ x, r x x) (hsorted : xs.Pairwise r) (h : First accepts xs b) :
    ∃ x ∈ xs, accepts x b ∧ ∀ y ∈ xs, ∀ c, accepts y c → r x y := by
  obtain ⟨before, x, after, rfl, hx, hbefore⟩ := h
  obtain ⟨-, htail, -⟩ := List.pairwise_append.mp hsorted
  obtain ⟨hleast, -⟩ := List.pairwise_cons.mp htail
  refine ⟨x, by simp, hx, fun y hy c hc => ?_⟩
  rcases List.mem_append.mp hy with hy | hy
  · exact absurd hc (hbefore y hy c)
  · rcases List.mem_cons.mp hy with rfl | hy
    · exact hrefl _
    · exact hleast y hy

end

/-! ## Keys -/

section
variable (crates : Crates) (cfg : OracleConfig) (accounts : Accounts) (enc : EncodedTransaction)

def Qualifies (key : Pubkey) (job : EvaluationJob) : Prop :=
  (readPayment crates cfg key).eval (answer enc accounts) = .ok (some job) ∧
    (logEvents crates enc = [] ∨
      ∃ e ∈ logEvents crates enc, e.paymentUid = job.paymentUid ∧ e.deliveryHash = job.deliveryHash)

end

variable {crates : Crates} {cfg : OracleConfig} {accounts : Accounts} {enc : EncodedTransaction}
  {key : Pubkey} {job : EvaluationJob}

theorem qualifies_iff : Qualifies crates cfg accounts enc key job ↔
    pendingJob crates cfg accounts key = some job ∧
      eventMatchesJob (logEvents crates enc) job = true := by
  rw [pendingJob_eq_some, Qualifies, readPayment_eval, Pending]
  apply and_congr Iff.rfl
  by_cases hempty : logEvents crates enc = []
  · simp [hempty, eventMatchesJob]
  · rw [eventMatchesJob_iff hempty, or_iff_right hempty]

theorem paymentCandidates_sorted (accountKeys : List String) (instructions : List UiInstruction) :
    (paymentCandidates crates cfg enc accountKeys instructions).Pairwise fun a b =>
      crates.pubkeyToString a ≤ crates.pubkeyToString b := by
  let r := fun a b : Pubkey => crates.pubkeyToString a ≤ crates.pubkeyToString b
  have htotal : Std.Total r := ⟨fun a b => le_total _ _⟩
  have htrans : IsTrans Pubkey r := ⟨fun a b c => le_trans⟩
  exact (List.pairwise_insertionSort r _).sublist (List.destutter_sublist _ _)

theorem deliveryJob_eq_some {accountKeys : List String} {instructions : List UiInstruction}
    (hparsed : enc.message = some (.parsed accountKeys instructions))
    (hlenient : cfg.requireEventMatch = false) :
    (deliveryJob crates cfg enc).eval (answer enc accounts) = some job ↔
      First (Qualifies crates cfg accounts enc)
        (paymentCandidates crates cfg enc accountKeys instructions ++
          accountKeys.filterMap crates.pubkeyFromStr) job := by
  have hwatched : watchedKeys crates cfg enc =
      paymentCandidates crates cfg enc accountKeys instructions ++
        accountKeys.filterMap crates.pubkeyFromStr := by
    rw [watchedKeys, hparsed]
    simp [hlenient]
  rw [deliveryJob_eval, hwatched, find?_filterMap_eq_some]
  have haccepts : Qualifies crates cfg accounts enc = fun key job =>
      pendingJob crates cfg accounts key = some job ∧
        eventMatchesJob (logEvents crates enc) job = true := by
    funext key job
    exact propext qualifies_iff
  rw [haccepts]

/-- The lookup succeeds exactly when some key qualifies, and selects the least qualifying candidate
or, for want of one, the first qualifying account key. -/
theorem fetchDeliveryJob_selects (crates : Crates) (cfg : OracleConfig) (accounts : Accounts)
    (sig : Signature) {enc : EncodedTransaction} {accountKeys : List String}
    {instructions : List UiInstruction}
    (hparsed : enc.message = some (.parsed accountKeys instructions))
    (hlenient : cfg.requireEventMatch = false) :
    let keys := accountKeys.filterMap crates.pubkeyFromStr
    ∃ found, (fetchDeliveryJob crates cfg sig).eval (answer enc accounts) = .ok found ∧
      (found.isSome = true ↔ ∃ key job, (Submits crates cfg enc key ∨ key ∈ keys) ∧
        Qualifies crates cfg accounts enc key job) ∧
      ∀ job, found = some job →
        (∃ key, Submits crates cfg enc key ∧ Qualifies crates cfg accounts enc key job ∧
          ∀ key' job', Submits crates cfg enc key' → Qualifies crates cfg accounts enc key' job' →
            crates.pubkeyToString key ≤ crates.pubkeyToString key') ∨
        (∀ key job', Submits crates cfg enc key → ¬ Qualifies crates cfg accounts enc key job') ∧
          First (Qualifies crates cfg accounts enc) keys job := by
  intro keys
  have hsubmits : ∀ key, Submits crates cfg enc key ↔
      key ∈ paymentCandidates crates cfg enc accountKeys instructions := by
    intro key
    rw [submits_iff, structuredCandidates, hparsed]
  refine ⟨_, fetchDeliveryJob_eval sig, ?_, fun job hjob => ?_⟩
  · rw [Option.isSome_iff_exists]
    simp only [deliveryJob_eq_some hparsed hlenient]
    rw [First.exists_iff]
    constructor
    · rintro ⟨key, hkey, job, hjob⟩
      exact ⟨key, job, (List.mem_append.mp hkey).imp (hsubmits key).mpr id, hjob⟩
    · rintro ⟨key, job, hkey, hjob⟩
      exact ⟨key, List.mem_append.mpr (hkey.imp (hsubmits key).mp id), job, hjob⟩
  · have hfirst := (deliveryJob_eq_some hparsed hlenient).mp hjob
    -- a candidate, or an account key when no candidate qualifies
    rcases hfirst.of_append with hcandidate | ⟨hnone, hkey⟩
    · left
      have hsorted : (paymentCandidates crates cfg enc accountKeys instructions).Pairwise
          fun a b => crates.pubkeyToString a ≤ crates.pubkeyToString b :=
        paymentCandidates_sorted accountKeys instructions
      have hrefl : ∀ key, crates.pubkeyToString key ≤ crates.pubkeyToString key :=
        fun _ => le_rfl
      obtain ⟨key, hmem, hqualifies, hleast⟩ := hcandidate.least hrefl hsorted
      exact ⟨key, (hsubmits key).mpr hmem, hqualifies,
        fun key' job' hkey' hjob' => hleast key' ((hsubmits key').mp hkey') job' hjob'⟩
    · right
      exact ⟨fun key job' hkey' => hnone key ((hsubmits key).mp hkey') job', hkey⟩

def twoSubmits : EncodedTransaction := ⟨some (.parsed [] [submit "x", submit "xx"]), none⟩

def secondReadable : Accounts := fun key =>
  if key = byte32 1 then .error "node is behind"
  else .ok (some ⟨byte32 6, List.replicate 8 0 ++ [key.head]⟩)

theorem fetchDeliveryJob_selects_readable :
    ∃ job, (fetchDeliveryJob pairCrates .toy (List.Vector.replicate 64 0)).eval
      (answer twoSubmits secondReadable) = .ok (some job) := by
  have hqualifies : Qualifies pairCrates .toy secondReadable twoSubmits (byte32 2) (pairJob 2) :=
    ⟨rfl, Or.inl rfl⟩
  have hsubmits : Submits pairCrates .toy twoSubmits (byte32 2) := by
    rw [submits_iff]
    decide +kernel
  have hparsed : twoSubmits.message = some (.parsed [] [submit "x", submit "xx"]) := rfl
  obtain ⟨found, hfetch, hsome, -⟩ :=
    fetchDeliveryJob_selects pairCrates .toy secondReadable (List.Vector.replicate 64 0)
      hparsed rfl
  obtain ⟨job, rfl⟩ := Option.isSome_iff_exists.mp (hsome.mpr ⟨_, _, Or.inl hsubmits, hqualifies⟩)
  exact ⟨job, hfetch⟩

end OracleQa.Lookup
