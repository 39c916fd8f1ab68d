import OracleQa.Model.Settler
import OracleQa.Text.Base58
import OracleQa.Text.JsonInjective

/-! What the resolution hash binds: the identity of the payment, the two document hashes, the
profile, and the whole outcome of the evaluation. -/

namespace OracleQa.ResolutionHash
open Text Json Settler

structure Bound where
  paymentUid : Bytes32
  paymentPubkey : Pubkey
  slaHash : Bytes32
  deliveryHash : Bytes32
  slaVersion : UInt32
  slaProfileId : Option String
  approved : Bool
  resolutionReason : UInt16
  checks : List CheckResult
  deriving DecidableEq

def bound (job : EvaluationJob) (sla : SlaDocument) (result : EvaluationResult) : Bound where
  paymentUid := job.paymentUid
  paymentPubkey := job.paymentPubkey
  slaHash := job.slaHash
  deliveryHash := job.deliveryHash
  slaVersion := sla.version
  slaProfileId := sla.profileId
  approved := result.approved
  resolutionReason := result.resolutionReason
  checks := result.checks

section
variable (crates : Crates) (job job' : EvaluationJob) (sla sla' : SlaDocument)
  (result result' : EvaluationResult)

def payloadBytes : Bytes :=
  ((resolutionPayload crates job sla result).toString crates.floatText).toUTF8.data.toList

theorem computeResolutionHash_eq :
    computeResolutionHash crates job sla result =
      .ok (crates.sha256 (payloadBytes crates job sla result)) := rfl

theorem checkJson_plain (check : CheckResult) : Plain (checkJson check) := by
  refine .object fun m hm => ?_
  simp only [List.mem_cons, List.not_mem_nil, or_false] at hm
  rcases hm with rfl | rfl | rfl
  · exact .string _
  · exact .string _
  · exact .bool _

theorem payload_plain : Plain (resolutionPayload crates job sla result) := by
  have hchecks : Plain (.array (result.checks.map checkJson)) := by
    refine .array fun j hj => ?_
    obtain ⟨check, -, rfl⟩ := List.mem_map.mp hj
    exact checkJson_plain check
  refine .object fun m hm => ?_
  simp only [List.mem_cons, List.not_mem_nil, or_false] at hm
  rcases hm with rfl | rfl | rfl | rfl | rfl | rfl | rfl | rfl | rfl | rfl
  · exact .bool _
  · exact hchecks
  · exact .string _
  · exact .string _
  · exact .string _
  · exact .string _
  · exact .posInt _
  · exact .string _
  · dsimp only
    split
    · exact .string _
    · exact .null
  · exact .posInt _

variable {crates job job' sla sla' result result'}

theorem checkJson_injective : Function.Injective checkJson := by
  intro check check' h
  have hmembers := Json.object.inj h
  simp only [List.cons.injEq, Prod.mk.injEq, Json.string.injEq, Json.bool.injEq, true_and,
    and_true] at hmembers
  obtain ⟨hdetail, hname, hpassed⟩ := hmembers
  cases check
  cases check'
  simp_all

theorem payload_eq_iff (hpubkey : Function.Injective crates.pubkeyToString) :
    resolutionPayload crates job sla result = resolutionPayload crates job' sla' result' ↔
      bound job sla result = bound job' sla' result' := by
  constructor
  · intro h
    have hmembers := Json.object.inj h
    simp only [List.cons.injEq, Prod.mk.injEq, Json.string.injEq, Json.bool.injEq,
      Json.array.injEq, Json.number.injEq, Number.posInt.injEq, true_and, and_true] at hmembers
    obtain ⟨happroved, hchecks, hdelivery, hkey, huid, hreason, hsla, hprofile, hversion⟩ :=
      hmembers
    have hid : sla.profileId = sla'.profileId := by
      cases hp : sla.profileId <;> cases hp' : sla'.profileId <;> simp_all
    have hbytes : ∀ v v' : Bytes32, hexEncode v.toList = hexEncode v'.toList → v = v' :=
      fun v v' hv => List.Vector.toList_injective (hexEncode_injective hv)
    rw [bound, bound, Bound.mk.injEq]
    exact ⟨uidHex_injective huid, hpubkey hkey, hbytes _ _ hsla, hbytes _ _ hdelivery,
      UInt32.toUInt64_inj.mp hversion, hid, happroved, UInt16.toUInt64_inj.mp hreason,
      List.map_injective_iff.mpr checkJson_injective hchecks⟩
  · intro h
    rw [bound, bound, Bound.mk.injEq] at h
    obtain ⟨huid, hkey, hsla, hdelivery, hversion, hprofile, happroved, hreason, hchecks⟩ := h
    unfold resolutionPayload
    rw [huid, hkey, hsla, hdelivery, hversion, hprofile, happroved, hreason, hchecks]

variable (job job' sla sla' result result') in
theorem payloadBytes_eq_iff (hpubkey : Function.Injective crates.pubkeyToString) :
    payloadBytes crates job sla result = payloadBytes crates job' sla' result' ↔
      bound job sla result = bound job' sla' result' := by
  rw [← payload_eq_iff hpubkey]
  constructor
  · intro h
    have htext := String.ofList_injective (utf8_injective h)
    exact text_injective (payload_plain ..) (payload_plain ..) htext
  · intro h
    rw [payloadBytes, h, payloadBytes]

end

/-- Two payloads are the same bytes exactly if all that is bound is equal; and so are two hashes,
if SHA-256 does not collide on the payloads. -/
theorem resolutionHash_binds (crates : Crates)
    (hpubkey : Function.Injective crates.pubkeyToString) (job job' : EvaluationJob)
    (sla sla' : SlaDocument) (result result' : EvaluationResult) :
    (payloadBytes crates job sla result = payloadBytes crates job' sla' result' ↔
      bound job sla result = bound job' sla' result') ∧
    ((crates.sha256 (payloadBytes crates job sla result) =
        crates.sha256 (payloadBytes crates job' sla' result') →
      payloadBytes crates job sla result = payloadBytes crates job' sla' result') →
      ∃ hash hash', computeResolutionHash crates job sla result = .ok hash ∧
        computeResolutionHash crates job' sla' result' = .ok hash' ∧
        (hash = hash' ↔ bound job sla result = bound job' sla' result')) := by
  have hpayload := payloadBytes_eq_iff job job' sla sla' result result' hpubkey
  refine ⟨hpayload, fun hcollision => ?_⟩
  refine ⟨_, _, computeResolutionHash_eq .., computeResolutionHash_eq .., ?_⟩
  rw [← hpayload]
  exact ⟨hcollision, congrArg crates.sha256⟩

/-! ## The outcome is bound -/

def auditJob : EvaluationJob :=
  ⟨byte32 1, byte32 4, byte32 2, byte32 3, 100, byte32 5, byte32 7, 1900000000⟩

def auditSla : SlaDocument where
  version := 1
  profileId := some API_QUALITY_V1_PROFILE_ID
  endpoint := "https://api.example.test"
  method := "GET"
  responseSchema := none
  requiredFields := []
  maxLatencyMs := 5000
  minStatusCode := 200
  maxStatusCode := 299
  minBodyLength := none

def auditResult (approved : Bool) : EvaluationResult where
  approved := approved
  resolutionReason := if approved then 0 else 1
  checks := [⟨"status_code", approved, "test"⟩]

def Crates.base58 : Crates :=
  { Crates.toy with pubkeyToString := fun key => base58Encode key.toList }

def approvedDigest : Bytes32 :=
  ⟨[72, 74, 93, 178, 135, 132, 53, 105, 71, 40, 224, 90, 61, 36, 164, 122,
    84, 251, 20, 197, 186, 66, 19, 190, 24, 92, 217, 113, 121, 9, 110, 151], rfl⟩

def rejectedDigest : Bytes32 :=
  ⟨[22, 208, 122, 42, 81, 239, 203, 234, 75, 241, 160, 89, 117, 230, 25, 210,
    240, 231, 159, 124, 71, 152, 166, 77, 181, 201, 113, 95, 0, 173, 50, 158], rfl⟩

def auditPayload (approved : Bool) : Bytes :=
  payloadBytes Crates.base58 auditJob auditSla (auditResult approved)

def auditSha256 (raw : Bytes) : Bytes32 :=
  if raw = auditPayload true then approvedDigest
  else if raw = auditPayload false then rejectedDigest
  else byte32 0

def Crates.digests : Crates := { Crates.base58 with sha256 := auditSha256 }

theorem auditPayload_eq (approved : Bool) :
    payloadBytes Crates.digests auditJob auditSla (auditResult approved) =
      auditPayload approved := by
  unfold auditPayload payloadBytes resolutionPayload
  rfl

theorem digests_differ :
    Crates.digests.sha256 (payloadBytes Crates.digests auditJob auditSla (auditResult true)) ≠
      Crates.digests.sha256
        (payloadBytes Crates.digests auditJob auditSla (auditResult false)) := by
  have hne : auditPayload false ≠ auditPayload true := by
    unfold auditPayload
    rw [Ne, payloadBytes_eq_iff _ _ _ _ _ _ base58Encode_injective]
    decide
  have hfirst : auditSha256 (auditPayload true) = approvedDigest := by
    rw [auditSha256, if_pos rfl]
  have hsecond : auditSha256 (auditPayload false) = rejectedDigest := by
    rw [auditSha256, if_neg hne, if_pos rfl]
  have hsha : Crates.digests.sha256 = auditSha256 := rfl
  rw [hsha, auditPayload_eq, auditPayload_eq, hfirst, hsecond]
  decide

theorem resolutionHash_binds_outcome : ∃ hash hash',
    computeResolutionHash Crates.digests auditJob auditSla (auditResult true) = .ok hash ∧
      computeResolutionHash Crates.digests auditJob auditSla (auditResult false) = .ok hash' ∧
      hash ≠ hash' := by
  obtain ⟨-, hbinds⟩ := resolutionHash_binds Crates.digests base58Encode_injective auditJob
    auditJob auditSla auditSla (auditResult true) (auditResult false)
  obtain ⟨hash, hash', hok, hok', hiff⟩ := hbinds fun h => absurd h digests_differ
  exact ⟨hash, hash', hok, hok', fun h => absurd (hiff.mp h) (by decide)⟩

end OracleQa.ResolutionHash
