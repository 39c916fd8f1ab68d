import OracleQa.Interaction.Screening
import OracleQa.Spec.Profile

/-! Agreements compared. One that asks for less accepts whatever the other accepts, and where it
rejects a delivery, the other one rejects it for a reason that comes no later. -/

namespace OracleQa.Relaxation
open Interaction Profile Evaluator

/-- `S'` asks for no more than `S`, nor does its profile mode. -/
structure Relaxes (strict : Bool) (S : SlaDocument) (strict' : Bool) (S' : SlaDocument) :
    Prop where
  version : S'.version = S.version
  profile : S'.profileId = S.profileId ∧ (strict' = true → strict = true) ∨
    S'.profileId = none ∧ strict' = false
  status : S'.minStatusCode ≤ S.minStatusCode ∧ S.maxStatusCode ≤ S'.maxStatusCode
  latency : S.maxLatencyMs ≤ S'.maxLatencyMs
  fields : S'.requiredFields ⊆ S.requiredFields
  schema : S'.responseSchema = S.responseSchema ∨ S'.responseSchema = none
  length : ∀ n', S'.minBodyLength = some n' → ∃ n, S.minBodyLength = some n ∧ n' ≤ n

structure NoSlower (E E' : DeliveryEvidence) : Prop where
  status : E'.statusCode = E.statusCode
  body : E'.responseBody = E.responseBody
  latency : E'.latencyMs ≤ E.latencyMs

variable {crates : Crates} {strict strict' : Bool} {S S' : SlaDocument} {E E' : DeliveryEvidence}

theorem holds_of_relaxes (hS : Relaxes strict S strict' S') (hE : NoSlower E E') (r : Rule)
    (hr : r.Holds crates strict S E) : r.Holds crates strict' S' E' := by
  cases r with
  | version => exact hS.version.trans hr
  | profileId =>
    unfold Rule.Holds at hr ⊢
    rcases hS.profile with ⟨hsame, hmode⟩ | ⟨hnone, hlax⟩
    · rw [hsame]
      cases hprofile : S.profileId with
      | none =>
        rw [hprofile] at hr
        exact Bool.eq_false_of_not_eq_true fun h => Bool.eq_false_iff.mp hr (hmode h)
      | some pid =>
        rw [hprofile] at hr
        exact hr
    · rw [hnone]
      exact hlax
  | statusCode =>
    obtain ⟨hmin, hmax⟩ := hr
    show S'.minStatusCode ≤ E'.statusCode ∧ E'.statusCode ≤ S'.maxStatusCode
    rw [hE.status]
    exact ⟨UInt16.le_trans hS.status.1 hmin, UInt16.le_trans hmax hS.status.2⟩
  | latency => exact UInt64.le_trans (UInt64.le_trans hE.latency hr) hS.latency
  | requiredFields =>
    intro hne
    obtain ⟨field, hfield⟩ := List.exists_mem_of_ne_nil _ hne
    obtain ⟨members, hbody, hall⟩ := hr (List.ne_nil_of_mem (hS.fields hfield))
    exact ⟨members, hE.body.trans hbody, fun f hf => hall f (hS.fields hf)⟩
  | jsonSchema =>
    intro schema hschema
    rw [hE.body]
    rcases hS.schema with hsame | hnone
    · exact hr schema (hsame ▸ hschema)
    · rw [hnone] at hschema
      cases hschema
  | bodyLength =>
    intro n' hn'
    obtain ⟨n, hn, hle⟩ := hS.length n' hn'
    rw [hE.body]
    exact hle.trans (hr n hn)

/-- From the harder to the easier agreement, and to a faster response, a verdict only improves. -/
theorem relaxed_verdict (crates : Crates) (strict strict' : Bool) (S S' : SlaDocument)
    (E E' : DeliveryEvidence) (hS : Relaxes strict S strict' S') (hE : NoSlower E E') :
    ∃ v v', evaluate crates strict S E = .ok v ∧ evaluate crates strict' S' E' = .ok v' ∧
      (v.approved = true → v'.approved = true) ∧
      (v'.approved = false → ∃ r r', FirstFailing crates strict S E r ∧
        FirstFailing crates strict' S' E' r' ∧ order.idxOf r ≤ order.idxOf r' ∧
        v.resolutionReason = crates.reasonCode r.reason ∧
        v'.resolutionReason = crates.reasonCode r'.reason) := by
  have hweaker : ∀ r : Rule, r.Holds crates strict S E → r.Holds crates strict' S' E' :=
    holds_of_relaxes hS hE
  refine ⟨_, _, rfl, rfl, fun happroved => ?_, fun hrejected => ?_⟩
  · exact all_passed.mpr fun r => hweaker r (all_passed.mp happroved r)
  · obtain ⟨r', hfirst', hreason'⟩ := rejected_reason hrejected
    have hfails : FirstToFail order (Rule.Holds crates strict' S' E') r' := hfirst'
    obtain ⟨r, hfirst, hle⟩ := hfails.of_weaker hweaker
    -- the harder agreement rejects as well, for its own first reason
    have hrejected' : (checks crates strict S E).all (·.passed) = false := by
      refine Bool.eq_false_of_not_eq_true fun happroved => ?_
      obtain ⟨-, -, -, hfail, -⟩ := hfirst
      exact hfail (all_passed.mp happroved r)
    obtain ⟨r₀, hfirst₀, hreason⟩ := rejected_reason hrejected'
    have hfails₀ : FirstToFail order (Rule.Holds crates strict S E) r₀ := hfirst₀
    obtain rfl := hfails₀.unique hfirst
    exact ⟨r₀, r', hfirst, hfirst', hle, congrArg crates.reasonCode hreason,
      congrArg crates.reasonCode hreason'⟩

theorem relaxed_verdict_slow :
    let S' := { toySla with maxLatencyMs := 50, minStatusCode := 100 }
    ∃ v v', evaluate .toy true toySla toyDelivery = .ok v ∧
      evaluate .toy false S' toyDelivery = .ok v' ∧ (v.approved = true → v'.approved = true) ∧
      (v'.approved = false → ∃ r r', FirstFailing .toy true toySla toyDelivery r ∧
        FirstFailing .toy false S' toyDelivery r' ∧ order.idxOf r ≤ order.idxOf r' ∧
        v.resolutionReason = Crates.toy.reasonCode r.reason ∧
        v'.resolutionReason = Crates.toy.reasonCode r'.reason) :=
  relaxed_verdict .toy true false toySla { toySla with maxLatencyMs := 50, minStatusCode := 100 }
    toyDelivery toyDelivery
    ⟨rfl, Or.inl ⟨rfl, fun h => by cases h⟩, by decide, by decide, List.Subset.refl _,
      Or.inl rfl, fun n h => by cases h⟩ ⟨rfl, rfl, UInt64.le_refl _⟩

end OracleQa.Relaxation
