import OracleQa.Model.Evaluator

/-! The normative profile as an ordered list of rules, and the evaluator against it. -/

namespace OracleQa.Profile
open Text Evaluator

inductive Rule
  | version
  | profileId
  | statusCode
  | latency
  | requiredFields
  | jsonSchema
  | bodyLength
  deriving DecidableEq

/-- The order in which the rules decide the reason of a rejection. -/
def order : List Rule :=
  [.version, .profileId, .statusCode, .latency, .requiredFields, .jsonSchema, .bodyLength]

def Rule.reason : Rule → ResolutionReason
  | version => .generalRejection
  | profileId => .generalRejection
  | statusCode => .statusCodeOutOfRange
  | latency => .latencyExceeded
  | requiredFields => .requiredFieldsMissing
  | jsonSchema => .schemaValidationFailed
  | bodyLength => .bodyTooShort

section
variable (crates : Crates) (strict : Bool) (S : SlaDocument) (E : DeliveryEvidence)

def Rule.Holds : Rule → Prop
  | version => S.version = 1
  | profileId => match S.profileId with
    | none => strict = false
    | some pid => pid = API_QUALITY_V1_PROFILE_ID
  | statusCode => S.minStatusCode ≤ E.statusCode ∧ E.statusCode ≤ S.maxStatusCode
  | latency => E.latencyMs ≤ S.maxLatencyMs
  | requiredFields => S.requiredFields ≠ [] → ∃ members, E.responseBody = .object members ∧
      ∀ field ∈ S.requiredFields, ∃ value, (field, value) ∈ members
  | jsonSchema => ∀ schema, S.responseSchema = some schema →
      ∃ v, crates.validatorFor schema = .ok v ∧ v.isValid E.responseBody = true
  | bodyLength => ∀ n, S.minBodyLength = some n →
      n ≤ (E.responseBody.toString crates.floatText).utf8ByteSize

def FirstFailing (r : Rule) : Prop :=
  ∃ before after, order = before ++ r :: after ∧ ¬ r.Holds crates strict S E ∧
    ∀ r' ∈ before, r'.Holds crates strict S E

def Rule.checks : Rule → List CheckResult
  | version => versionChecks strict S
  | profileId => profileChecks strict S
  | statusCode => [statusCheck S E]
  | latency => [latencyCheck S E]
  | requiredFields => S.requiredFields.map (fieldCheck E)
  | jsonSchema => schemaChecks crates S E
  | bodyLength => lengthChecks crates S E

/-! ## The checks of one rule decide that rule -/

variable {crates strict S E}

theorem versionChecks_pass : (∀ c ∈ versionChecks strict S, c.passed) ↔ S.version = 1 := by
  unfold versionChecks
  by_cases hv : S.version = 1
  · cases strict <;> simp [hv]
  · simp [hv]

theorem profileChecks_pass :
    (∀ c ∈ profileChecks strict S, c.passed) ↔ Rule.profileId.Holds crates strict S E := by
  unfold profileChecks Rule.Holds
  cases S.profileId with
  | none => cases strict <;> simp
  | some pid => simp

theorem fieldCheck_pass (field : String) : (fieldCheck E field).passed = true ↔
    ∃ members, E.responseBody = .object members ∧ ∃ value, (field, value) ∈ members := by
  unfold fieldCheck Json.asObject
  cases E.responseBody <;> simp

theorem fieldChecks_pass : (∀ c ∈ S.requiredFields.map (fieldCheck E), c.passed) ↔
    Rule.requiredFields.Holds crates strict S E := by
  simp only [List.forall_mem_map, fieldCheck_pass, Rule.Holds]
  constructor
  · intro h hne
    obtain ⟨field, hfield⟩ := List.exists_mem_of_ne_nil _ hne
    obtain ⟨members, hbody, -⟩ := h field hfield
    refine ⟨members, hbody, fun f hf => ?_⟩
    obtain ⟨members', hbody', hvalue⟩ := h f hf
    rw [hbody] at hbody'
    obtain rfl := Json.object.inj hbody'
    exact hvalue
  · intro h field hfield
    obtain ⟨members, hbody, hall⟩ := h (List.ne_nil_of_mem hfield)
    exact ⟨members, hbody, hall field hfield⟩

theorem schemaChecks_pass : (∀ c ∈ schemaChecks crates S E, c.passed) ↔
    Rule.jsonSchema.Holds crates strict S E := by
  unfold schemaChecks Rule.Holds
  cases S.responseSchema with
  | none => simp
  | some schema => cases h : crates.validatorFor schema <;> simp [h]

theorem lengthChecks_pass : (∀ c ∈ lengthChecks crates S E, c.passed) ↔
    Rule.bodyLength.Holds crates strict S E := by
  unfold lengthChecks Rule.Holds
  cases S.minBodyLength <;> simp

theorem Rule.checks_pass (r : Rule) :
    (∀ c ∈ r.checks crates strict S E, c.passed) ↔ r.Holds crates strict S E := by
  cases r with
  | version => exact versionChecks_pass
  | profileId => exact profileChecks_pass
  | statusCode => simp [Rule.checks, Rule.Holds, statusCheck]
  | latency => simp [Rule.checks, Rule.Holds, latencyCheck]
  | requiredFields => exact fieldChecks_pass
  | jsonSchema => exact schemaChecks_pass
  | bodyLength => exact lengthChecks_pass

/-- No field name, however chosen, makes a field check pass for another kind of check. -/
theorem reasonOf_requiredField (field : String) :
    reasonOf ("required_field:" ++ field) = .requiredFieldsMissing := by
  have hne : ∀ name : String, name.toList.head? ≠ some 'r' →
      "required_field:" ++ field ≠ name := by
    rintro name hname rfl
    simp at hname
  unfold reasonOf
  split
  · next h => exact absurd h (hne _ (by decide))
  · next h => exact absurd h (hne _ (by decide))
  · next h => exact absurd h (hne _ (by decide))
  · next h => exact absurd h (hne _ (by decide))
  · next h => exact absurd h (hne _ (by decide))
  · next h => exact absurd h (hne _ (by decide))
  · rw [if_pos]
    rw [String.toList_append]
    exact List.prefix_append _ _

theorem Rule.reasonOf_checks (r : Rule) {c : CheckResult} (hc : c ∈ r.checks crates strict S E) :
    reasonOf c.name = r.reason := by
  cases r with
  | version =>
    simp only [Rule.checks, versionChecks, List.mem_ite_nil_right, List.mem_singleton] at hc
    rw [hc.2]
    rfl
  | profileId =>
    simp only [Rule.checks, profileChecks] at hc
    split at hc
    · rw [List.mem_singleton.mp hc]
      rfl
    · rw [List.mem_ite_nil_right, List.mem_singleton] at hc
      rw [hc.2]
      rfl
  | statusCode =>
    rw [List.mem_singleton.mp hc]
    rfl
  | latency =>
    rw [List.mem_singleton.mp hc]
    rfl
  | requiredFields =>
    obtain ⟨field, -, rfl⟩ := List.mem_map.mp hc
    exact reasonOf_requiredField field
  | jsonSchema =>
    simp only [Rule.checks, schemaChecks] at hc
    split at hc
    · simp at hc
    · split at hc <;> rw [List.mem_singleton.mp hc] <;> rfl
  | bodyLength =>
    simp only [Rule.checks, lengthChecks] at hc
    split at hc
    · simp at hc
    · rw [List.mem_singleton.mp hc]
      rfl

/-! ## The whole list of checks -/

theorem checks_eq : checks crates strict S E = order.flatMap (Rule.checks crates strict S E) := by
  simp only [checks, order, List.flatMap_cons, List.flatMap_nil, Rule.checks, List.append_assoc,
    List.append_nil]

theorem all_passed :
    (checks crates strict S E).all (·.passed) = true ↔ ∀ r : Rule, r.Holds crates strict S E := by
  rw [List.all_eq_true, checks_eq]
  simp only [List.mem_flatMap]
  constructor
  · intro h r
    have hr : r ∈ order := by cases r <;> decide
    exact r.checks_pass.mp fun c hc => h c ⟨r, hr, hc⟩
  · rintro h c ⟨r, -, hc⟩
    exact r.checks_pass.mpr (h r) c hc

theorem find?_flatMap {ρ : Type} {block : ρ → List CheckResult} {c : CheckResult} :
    ∀ {rs : List ρ}, (rs.flatMap block).find? (fun c => !c.passed) = some c →
      ∃ before r after, rs = before ++ r :: after ∧ c ∈ block r ∧ c.passed = false ∧
        ∀ r' ∈ before, ∀ c ∈ block r', c.passed := by
  intro rs
  induction rs with
  | nil => simp
  | cons r rs ih =>
    rw [List.flatMap_cons, List.find?_append]
    intro h
    cases hr : (block r).find? fun c => !c.passed with
    | some d =>
      rw [hr, Option.some_or] at h
      obtain rfl := Option.some.inj h
      refine ⟨[], r, rs, rfl, List.mem_of_find?_eq_some hr, ?_, by simp⟩
      simpa using List.find?_some hr
    | none =>
      rw [hr, Option.none_or] at h
      obtain ⟨before, r', after, rfl, hc, hfail, hbefore⟩ := ih h
      refine ⟨r :: before, r', after, rfl, hc, hfail, ?_⟩
      rw [List.forall_mem_cons]
      exact ⟨fun d hd => by simpa using List.find?_eq_none.mp hr d hd, hbefore⟩

theorem rejected_reason (h : (checks crates strict S E).all (·.passed) = false) :
    ∃ r, FirstFailing crates strict S E r ∧
      resolutionReason (checks crates strict S E) = r.reason := by
  have hfail : ¬ ∀ c ∈ checks crates strict S E, c.passed := by
    rw [← List.all_eq_true, h]
    exact Bool.false_ne_true
  cases hfind : (checks crates strict S E).find? fun c => !c.passed with
  | none =>
    refine absurd (fun c hc => ?_) hfail
    simpa using List.find?_eq_none.mp hfind c hc
  | some c =>
    have hreason : resolutionReason (checks crates strict S E) = reasonOf c.name := by
      simp only [resolutionReason, h, hfind, Bool.false_eq_true, if_false]
    rw [checks_eq] at hfind
    obtain ⟨before, r, after, horder, hc, hcfail, hbefore⟩ := find?_flatMap hfind
    refine ⟨r, ⟨before, after, horder, ?_, fun r' hr' => r'.checks_pass.mp (hbefore r' hr')⟩, ?_⟩
    · intro hr
      have := r.checks_pass.mpr hr c hc
      rw [hcfail] at this
      exact Bool.false_ne_true this
    · rw [hreason, r.reasonOf_checks hc]

theorem Rule.reason_ne_none (r : Rule) : r.reason ≠ .none := by cases r <;> decide

end

/-- Approval is the conjunction of the rules, and a rejection carries the reason of the first
rule that fails. -/
theorem evaluate_normative (crates : Crates) (hcodes : Function.Injective crates.reasonCode)
    (strict : Bool) (S : SlaDocument) (E : DeliveryEvidence) :
    ∃ result, evaluate crates strict S E = .ok result ∧
      (result.approved = true ↔ ∀ r : Rule, r.Holds crates strict S E) ∧
      (result.resolutionReason = crates.reasonCode .none ↔ result.approved = true) ∧
      (result.approved = false → ∃ r, FirstFailing crates strict S E r ∧
        result.resolutionReason = crates.reasonCode r.reason) := by
  refine ⟨_, rfl, all_passed, ?_, ?_⟩
  · cases happ : (checks crates strict S E).all (·.passed) with
    | true => simp [resolutionReason, happ]
    | false =>
      obtain ⟨r, -, hr⟩ := rejected_reason happ
      simp only [hr, hcodes.eq_iff, Bool.false_eq_true, iff_false]
      exact r.reason_ne_none
  · intro happ
    obtain ⟨r, hfirst, hr⟩ := rejected_reason happ
    exact ⟨r, hfirst, by simp only [hr]⟩

theorem toy_reasonCode_injective : Function.Injective Crates.toy.reasonCode := by
  intro r r' h
  cases r <;> cases r' <;> first | rfl | exact absurd h (by decide)

def toySla : SlaDocument :=
  ⟨1, none, "", "GET", none, ["data"], 40, 200, 299, none⟩

def toyDelivery : DeliveryEvidence := ⟨200, 42, .object [], none, 0⟩

theorem evaluate_normative_slow :
    (evaluate .toy false toySla toyDelivery).toOption.map (·.resolutionReason) = some 3 ∧
      ∃ result, evaluate .toy false toySla toyDelivery = .ok result ∧
        (result.approved = true ↔ ∀ r : Rule, r.Holds .toy false toySla toyDelivery) ∧
        (result.resolutionReason = Crates.toy.reasonCode .none ↔ result.approved = true) ∧
        (result.approved = false → ∃ r, FirstFailing .toy false toySla toyDelivery r ∧
          result.resolutionReason = Crates.toy.reasonCode r.reason) :=
  ⟨by decide, evaluate_normative .toy toy_reasonCode_injective false toySla toyDelivery⟩

end OracleQa.Profile
