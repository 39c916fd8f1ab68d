import OracleQa.Model.Types
import OracleQa.Text.SerdeJson

/-! The SLA document and the delivery evidence: their derived deserialization, and the schemas of
the profile. -/

namespace OracleQa.Documents
open Text

def defaultMaxLatency : UInt64 := 5000

def defaultMinStatus : UInt16 := 200

def defaultMaxStatus : UInt16 := 299

/-- What is left of the recursion limit of 128 inside the struct. -/
def fieldDepth : Nat := 127

section
variable (floats : Floats)

def readSlaFields (given : String → Option Document) : Option SlaDocument := do
  let version ← required readU32 (given "version")
  let profileId ← withDefault none (readOption Document.string?) (given "profile_id")
  let endpoint ← required Document.string? (given "endpoint")
  let method ← required Document.string? (given "method")
  let responseSchema ←
    withDefault none (readOption (readValue floats fieldDepth)) (given "response_schema")
  let requiredFields ← withDefault [] readStrings (given "required_fields")
  let maxLatencyMs ← withDefault defaultMaxLatency readU64 (given "max_latency_ms")
  let minStatusCode ← withDefault defaultMinStatus readU16 (given "min_status_code")
  let maxStatusCode ← withDefault defaultMaxStatus readU16 (given "max_status_code")
  let minBodyLength ← withDefault none (readOption readUsize) (given "min_body_length")
  return ⟨version, profileId, endpoint, method, responseSchema, requiredFields, maxLatencyMs,
    minStatusCode, maxStatusCode, minBodyLength⟩

def readSla : Document → Option SlaDocument :=
  readStruct ["version", "profile_id", "endpoint", "method", "response_schema", "required_fields",
    "max_latency_ms", "min_status_code", "max_status_code", "min_body_length"]
    (readSlaFields floats)

def readDeliveryFields (given : String → Option Document) : Option DeliveryEvidence := do
  let statusCode ← required readU16 (given "status_code")
  let latencyMs ← required readU64 (given "latency_ms")
  let responseBody ← required (readValue floats fieldDepth) (given "response_body")
  let responseHeaders ←
    withDefault none (readOption (readMap floats fieldDepth)) (given "response_headers")
  let timestamp ← required readI64 (given "timestamp")
  return ⟨statusCode, latencyMs, responseBody, responseHeaders, timestamp⟩

def readDelivery : Document → Option DeliveryEvidence :=
  readStruct ["status_code", "latency_ms", "response_body", "response_headers", "timestamp"]
    (readDeliveryFields floats)

end

def slaProperties : List (String × Schema) :=
  [("version", [.type [.integer], .constInteger 1]),
    ("endpoint", [.type [.string], .minLength 1]),
    ("method", [.type [.string], .minLength 1]),
    ("profile_id", [.type [.string], .constString "x402/oracle-qa/api-quality/v1"]),
    ("response_schema", [.type [.object, .boolean]]),
    ("required_fields",
      [.type [.array], .items [.type [.string], .minLength 1], .default (.array [])]),
    ("max_latency_ms", [.type [.integer], .minimum 0, .default (.number (.ofInt 5000))]),
    ("min_status_code",
      [.type [.integer], .minimum 100, .maximum 599, .default (.number (.ofInt 200))]),
    ("max_status_code",
      [.type [.integer], .minimum 100, .maximum 599, .default (.number (.ofInt 299))]),
    ("min_body_length", [.type [.integer], .minimum 0])]

/-- `schema/sla-document.schema.json` -/
def slaSchema : Schema :=
  [.type [.object], .required ["version", "endpoint", "method"], .properties slaProperties]

def deliveryProperties : List (String × Schema) :=
  [("status_code", [.type [.integer], .minimum 100, .maximum 599]),
    ("latency_ms", [.type [.integer], .minimum 0]),
    ("response_body", []),
    ("response_headers", [.type [.object]]),
    ("timestamp", [.type [.integer]])]

/-- `schema/delivery-evidence.schema.json` -/
def deliverySchema : Schema :=
  [.type [.object], .required ["status_code", "latency_ms", "response_body", "timestamp"],
    .properties deliveryProperties]

section
variable {floats : Floats} {given : String → Option Document}

theorem readSlaFields_eq_some {sla : SlaDocument} : readSlaFields floats given = some sla ↔
    required readU32 (given "version") = some sla.version ∧
    withDefault none (readOption Document.string?) (given "profile_id") = some sla.profileId ∧
    required Document.string? (given "endpoint") = some sla.endpoint ∧
    required Document.string? (given "method") = some sla.method ∧
    withDefault none (readOption (readValue floats fieldDepth)) (given "response_schema") =
      some sla.responseSchema ∧
    withDefault [] readStrings (given "required_fields") = some sla.requiredFields ∧
    withDefault defaultMaxLatency readU64 (given "max_latency_ms") = some sla.maxLatencyMs ∧
    withDefault defaultMinStatus readU16 (given "min_status_code") = some sla.minStatusCode ∧
    withDefault defaultMaxStatus readU16 (given "max_status_code") = some sla.maxStatusCode ∧
    withDefault none (readOption readUsize) (given "min_body_length") = some sla.minBodyLength := by
  simp only [readSlaFields, Option.bind_eq_bind, Option.bind_eq_some_iff, Option.pure_def,
    Option.some.injEq]
  constructor
  · rintro ⟨_, h₁, _, h₂, _, h₃, _, h₄, _, h₅, _, h₆, _, h₇, _, h₈, _, h₉, _, h₁₀, rfl⟩
    exact ⟨h₁, h₂, h₃, h₄, h₅, h₆, h₇, h₈, h₉, h₁₀⟩
  · rintro ⟨h₁, h₂, h₃, h₄, h₅, h₆, h₇, h₈, h₉, h₁₀⟩
    exact ⟨_, h₁, _, h₂, _, h₃, _, h₄, _, h₅, _, h₆, _, h₇, _, h₈, _, h₉, _, h₁₀, rfl⟩

theorem readDeliveryFields_eq_some {evidence : DeliveryEvidence} :
    readDeliveryFields floats given = some evidence ↔
      required readU16 (given "status_code") = some evidence.statusCode ∧
      required readU64 (given "latency_ms") = some evidence.latencyMs ∧
      required (readValue floats fieldDepth) (given "response_body") =
        some evidence.responseBody ∧
      withDefault none (readOption (readMap floats fieldDepth)) (given "response_headers") =
        some evidence.responseHeaders ∧
      required readI64 (given "timestamp") = some evidence.timestamp := by
  simp only [readDeliveryFields, Option.bind_eq_bind, Option.bind_eq_some_iff, Option.pure_def,
    Option.some.injEq]
  constructor
  · rintro ⟨_, h₁, _, h₂, _, h₃, _, h₄, _, h₅, rfl⟩
    exact ⟨h₁, h₂, h₃, h₄, h₅⟩
  · rintro ⟨h₁, h₂, h₃, h₄, h₅⟩
    exact ⟨_, h₁, _, h₂, _, h₃, _, h₄, _, h₅, rfl⟩

end

def slaMin : JsonValue where
  doc := .object [
    ("version", .number (.ofInt 1)),
    ("profile_id", .string "x402/oracle-qa/api-quality/v1"),
    ("endpoint", .string "https://api.example.com/v1/resource"),
    ("method", .string "GET"),
    ("required_fields", .array [.string "status"]),
    ("max_latency_ms", .number (.ofInt 5000)),
    ("min_status_code", .number (.ofInt 200)),
    ("max_status_code", .number (.ofInt 299))]
  distinct := by
    apply Document.Distinct.object (by decide)
    simp [Document.Distinct.number, Document.Distinct.string, Document.Distinct.array]

def deliveryMin : JsonValue where
  doc := .object [
    ("status_code", .number (.ofInt 200)),
    ("latency_ms", .number (.ofInt 120)),
    ("response_body", .object [("status", .string "ok"), ("data", .object [])]),
    ("response_headers", .object [("content-type", .string "application/json")]),
    ("timestamp", .number (.ofInt 1712345678))]
  distinct := by
    apply Document.Distinct.object (by decide)
    simp [Document.Distinct.number, Document.Distinct.string, Document.Distinct.object]

def slaMinRead : SlaDocument :=
  ⟨1, some API_QUALITY_V1_PROFILE_ID, "https://api.example.com/v1/resource", "GET", none,
    ["status"], 5000, 200, 299, none⟩

def deliveryMinRead : DeliveryEvidence :=
  ⟨200, 120, .object [("data", .object []), ("status", .string "ok")],
    some [("content-type", .string "application/json")], 1712345678⟩

def noFloats : Floats := ⟨fun _ => none, fun _ => 0⟩

example : readSla noFloats slaMin.doc = some slaMinRead := rfl

example : readDelivery noFloats deliveryMin.doc = some deliveryMinRead := rfl

end OracleQa.Documents
