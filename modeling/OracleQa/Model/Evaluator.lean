import OracleQa.Model.Types

/-! The reference evaluator: a list of named checks, and the reason looked up by the name of the
first one that failed. -/

namespace OracleQa.Evaluator
open Text

section
variable (crates : Crates) (strictProfile : Bool) (sla : SlaDocument) (evidence : DeliveryEvidence)

def versionChecks : List CheckResult :=
  let versionOk := sla.version == 1
  if strictProfile || !versionOk then
    [⟨"version", versionOk,
      if versionOk then "1" else "expected 1, got " ++ toString sla.version⟩]
  else []

def profileChecks : List CheckResult :=
  match sla.profileId with
  | some pid =>
    let ok := pid == API_QUALITY_V1_PROFILE_ID
    [⟨"profile_id", ok,
      if ok then API_QUALITY_V1_PROFILE_ID
      else "expected '" ++ API_QUALITY_V1_PROFILE_ID ++ "', got '" ++ pid ++ "'"⟩]
  | none =>
    if strictProfile then
      [⟨"profile_id", false, "missing; expected '" ++ API_QUALITY_V1_PROFILE_ID ++ "'"⟩]
    else []

def statusCheck : CheckResult :=
  ⟨"status_code",
    decide (evidence.statusCode ≥ sla.minStatusCode ∧ evidence.statusCode ≤ sla.maxStatusCode),
    "Got " ++ toString evidence.statusCode ++ " (expected " ++ toString sla.minStatusCode ++ "-" ++
      toString sla.maxStatusCode ++ ")"⟩

def latencyCheck : CheckResult :=
  ⟨"latency", decide (evidence.latencyMs ≤ sla.maxLatencyMs),
    toString evidence.latencyMs ++ "ms (max " ++ toString sla.maxLatencyMs ++ "ms)"⟩

def fieldCheck (field : String) : CheckResult :=
  let present := match evidence.responseBody.asObject with
    | some members => members.any fun m => m.1 == field
    | none => false
  ⟨"required_field:" ++ field, present, if present then "present" else "missing"⟩

def schemaChecks : List CheckResult :=
  match sla.responseSchema with
  | none => []
  | some schema =>
    match crates.validatorFor schema with
    | .ok validator =>
      let valid := validator.isValid evidence.responseBody
      [⟨"json_schema", valid,
        if valid then "valid"
        else "invalid: " ++
          String.intercalate "; " ((validator.iterErrors evidence.responseBody).take 3)⟩]
    | .error e => [⟨"json_schema", false, "schema compile error: " ++ e⟩]

def lengthChecks : List CheckResult :=
  match sla.minBodyLength with
  | none => []
  | some minLen =>
    let bodyLen := (evidence.responseBody.toString crates.floatText).utf8ByteSize
    [⟨"body_length", decide (bodyLen ≥ minLen),
      toString bodyLen ++ " bytes (min " ++ toString minLen ++ ")"⟩]

def checks : List CheckResult :=
  versionChecks strictProfile sla ++ profileChecks strictProfile sla ++
    [statusCheck sla evidence] ++ [latencyCheck sla evidence] ++
    sla.requiredFields.map (fieldCheck evidence) ++ schemaChecks crates sla evidence ++
    lengthChecks crates sla evidence

end

def reasonOf (name : String) : ResolutionReason :=
  match name with
  | "profile_id" => .generalRejection
  | "version" => .generalRejection
  | "status_code" => .statusCodeOutOfRange
  | "latency" => .latencyExceeded
  | "json_schema" => .schemaValidationFailed
  | "body_length" => .bodyTooShort
  | name =>
    if "required_field:".toList <+: name.toList then .requiredFieldsMissing else .generalRejection

def resolutionReason (checks : List CheckResult) : ResolutionReason :=
  if checks.all (·.passed) then .none
  else match checks.find? fun c => !c.passed with
    | some c => reasonOf c.name
    | none => .generalRejection

/-- `Evaluator::evaluate_impl`: it never errs. -/
def evaluate (crates : Crates) (strictProfile : Bool) (sla : SlaDocument)
    (evidence : DeliveryEvidence) : Except OracleError EvaluationResult :=
  let checks := checks crates strictProfile sla evidence
  .ok ⟨checks.all (·.passed), crates.reasonCode (resolutionReason checks), checks⟩

end OracleQa.Evaluator
