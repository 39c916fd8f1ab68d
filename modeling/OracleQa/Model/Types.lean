import Mathlib.Data.Vector.Basic
import OracleQa.Text.Encoding
import OracleQa.Text.Json

/-! The data of the oracle: jobs, documents, verdicts, errors and configuration. -/

namespace OracleQa
open Text

abbrev Bytes := List UInt8
abbrev Bytes32 := List.Vector UInt8 32
abbrev Pubkey := Bytes32
abbrev Signature := List.Vector UInt8 64

def API_QUALITY_V1_PROFILE_ID : String := "x402/oracle-qa/api-quality/v1"

def PARAM_LAST_SEEN_SLOT : String := "chain.last_seen_slot"

structure SlaDocument where
  version : UInt32
  profileId : Option String
  endpoint : String
  method : String
  responseSchema : Option Json
  requiredFields : List String
  maxLatencyMs : UInt64
  minStatusCode : UInt16
  maxStatusCode : UInt16
  minBodyLength : Option Nat

structure DeliveryEvidence where
  statusCode : UInt16
  latencyMs : UInt64
  responseBody : Json
  responseHeaders : Option (List (String × Json))
  timestamp : Int

structure CheckResult where
  name : String
  passed : Bool
  detail : String
  deriving DecidableEq

structure EvaluationResult where
  approved : Bool
  resolutionReason : UInt16
  checks : List CheckResult
  deriving DecidableEq

structure EvaluationJob where
  paymentUid : Bytes32
  paymentPubkey : Pubkey
  slaHash : Bytes32
  deliveryHash : Bytes32
  amount : UInt64
  mint : Pubkey
  oracleAuthority : Pubkey
  expiresAt : Int
  deriving DecidableEq

def uidHex (uid : Bytes32) : String := hexEncode uid.toList

theorem uidHex_injective : Function.Injective uidHex :=
  hexEncode_injective.comp List.Vector.toList_injective

/-- The part of `RuntimeHealth` that is more than a time stamp of the last message. The count of
deliveries is bounded by the steps of the run, and a slot is a `u64`. -/
structure RuntimeHealth where
  queueDepth : Nat
  deliveriesObserved : Nat
  lastSeenSlot : Nat

/-- `u64` counters. In a run none gets above the number of its steps (`Scrape.counters_bounded`). -/
structure OracleStats where
  totalEvaluated : Nat
  totalApproved : Nat
  totalRejected : Nat
  totalErrors : Nat
  totalDeadLetter : Nat
  totalEvidenceFetchFailures : Nat
  deriving DecidableEq

def OracleStats.zero : OracleStats := ⟨0, 0, 0, 0, 0, 0⟩

inductive OracleError
  | chain (msg : String)
  | evidenceNotFound (msg : String)
  | slaParse (msg : String)
  | deliveryParse (msg : String)
  | evaluation (msg : String)
  | settlement (msg : String)
  | database (msg : String)
  deriving DecidableEq

def OracleError.toString : OracleError → String
  | .chain m => "Chain error: " ++ m
  | .evidenceNotFound m => "Evidence not found for hash: " ++ m
  | .slaParse m => "SLA document parse error: " ++ m
  | .deliveryParse m => "Delivery evidence parse error: " ++ m
  | .evaluation m => "Evaluation failed: " ++ m
  | .settlement m => "Settlement failed: " ++ m
  | .database m => "Database failed: " ++ m

structure OracleConfig where
  oraclePubkey : Pubkey
  escrowProgramId : Pubkey
  evaluationTimeoutMs : UInt64
  evidenceRegistryUrls : List String
  evidenceRegistryAuthHeader : Option String
  evidenceFetchMaxRetries : UInt32
  evidenceFetchRetryBaseMs : UInt64
  databaseEnabled : Bool
  operatorTokenSha256 : Option Bytes32
  allowUnauthenticatedManualEvaluate : Bool
  manualEvaluateRateLimit : Nat
  manualEvaluateRateWindowMs : Nat
  strictProfile : Bool
  deadLetterMaxAttempts : UInt32
  jobChannelCapacity : Nat
  requireEventMatch : Bool
  backfillLookbackSignatures : Nat

/-! ## Data of the escrow program and of the RPC node -/

/-- The fields of the escrow program's `Payment` account that the oracle reads. -/
structure Payment where
  paymentUid : Bytes32
  slaHash : Bytes32
  deliveryHash : Bytes32
  amount : UInt64
  mint : Pubkey
  oracleAuthority : Pubkey
  expiresAt : Int
  deliveryTimestamp : Int
  resolutionState : UInt8
  deriving DecidableEq

structure DeliverySubmittedEvent where
  paymentUid : Bytes32
  deliveryHash : Bytes32
  timestamp : Int
  seller : Pubkey
  deriving DecidableEq

structure Account where
  owner : Pubkey
  data : Bytes
  deriving DecidableEq

structure ConfirmOracle where
  oracle : Pubkey
  mint : Pubkey
  paymentUid : String
  deliveryHash : Bytes32
  resolutionHash : Bytes32
  resolutionState : UInt8
  resolutionReason : UInt16
  deriving DecidableEq

structure Transaction where
  ix : ConfirmOracle
  blockhash : Bytes32
  deriving DecidableEq

inductive ResolutionReason
  | none
  | generalRejection
  | statusCodeOutOfRange
  | latencyExceeded
  | requiredFieldsMissing
  | schemaValidationFailed
  | bodyTooShort
  deriving DecidableEq

structure Validator where
  isValid : Json → Bool
  iterErrors : Json → List String

/-- What the code takes from other crates, as functions of their documented inputs. -/
structure Crates where
  /-- `sha2::Sha256::digest` -/
  sha256 : Bytes → Bytes32
  /-- `serde_json::from_slice` at the two document types -/
  parseSla : Bytes → Except String SlaDocument
  parseDelivery : Bytes → Except String DeliveryEvidence
  floatText : UInt64 → String
  /-- `jsonschema::validator_for` -/
  validatorFor : Json → Except String Validator
  reasonCode : ResolutionReason → UInt16
  /-- `str::parse::<HeaderValue>` and the text of a `StatusCode` -/
  headerValue : String → Except String String
  statusText : Nat → String
  paymentSize : Nat
  paymentFromBytes : Bytes → Payment
  eventSize : Nat
  eventFromBytes : Bytes → Option DeliverySubmittedEvent
  submitDeliveryDiscriminant : UInt8
  /-- `bincode::deserialize::<Clock>`, down to `unix_timestamp` -/
  clockFromBytes : Bytes → Except String Int
  clockId : Pubkey
  base64Decode : String → Option Bytes
  bs58Decode : String → Option Bytes
  pubkeyToString : Pubkey → String
  pubkeyFromStr : String → Option Pubkey
  pubkeyParseError : String → String
  signatureToString : Signature → String
  signatureFromStr : String → Option Signature

def byte32 (b : UInt8) : Bytes32 := List.Vector.replicate 32 b

/-- A concrete choice of the other crates, to evaluate the model on. Accounts and documents have
one image each: a delivered, unresolved payment for the oracle of key 7, a permissive SLA and a
conforming delivery. -/
def Crates.toy : Crates where
  sha256 _ := byte32 0
  parseSla _ := .ok ⟨1, some API_QUALITY_V1_PROFILE_ID, "", "GET", none, [], 5000, 200, 299, none⟩
  parseDelivery _ := .ok ⟨200, 42, .object [], none, 0⟩
  floatText _ := "0.0"
  validatorFor _ := .ok ⟨fun _ => true, fun _ => []⟩
  reasonCode
    | .none => 0
    | .generalRejection => 1
    | .statusCodeOutOfRange => 2
    | .latencyExceeded => 3
    | .requiredFieldsMissing => 4
    | .schemaValidationFailed => 5
    | .bodyTooShort => 6
  headerValue := .ok
  statusText n := n.repr
  paymentSize := 0
  paymentFromBytes _ := ⟨byte32 1, byte32 0, byte32 0, 100, byte32 5, byte32 7, 1000, 1, 0⟩
  eventSize := 0
  eventFromBytes _ := none
  submitDeliveryDiscriminant := 3
  clockFromBytes _ := .ok 0
  clockId := byte32 9
  base64Decode _ := none
  bs58Decode _ := none
  pubkeyToString key := hexEncode key.toList
  pubkeyFromStr _ := some (byte32 2)
  pubkeyParseError _ := "WrongSize"
  signatureToString sig := hexEncode sig.toList
  signatureFromStr _ := some (List.Vector.replicate 64 0)

def OracleConfig.toy : OracleConfig where
  oraclePubkey := byte32 7
  escrowProgramId := byte32 6
  evaluationTimeoutMs := 30000
  evidenceRegistryUrls := ["http://localhost:4021"]
  evidenceRegistryAuthHeader := none
  evidenceFetchMaxRetries := 3
  evidenceFetchRetryBaseMs := 200
  databaseEnabled := true
  operatorTokenSha256 := none
  allowUnauthenticatedManualEvaluate := true
  manualEvaluateRateLimit := 30
  manualEvaluateRateWindowMs := 60000
  strictProfile := true
  deadLetterMaxAttempts := 5
  jobChannelCapacity := 256
  requireEventMatch := false
  backfillLookbackSignatures := 2000

def EvaluationJob.toy : EvaluationJob :=
  ⟨byte32 1, byte32 2, byte32 0, byte32 0, 100, byte32 5, byte32 7, 1000⟩

end OracleQa
