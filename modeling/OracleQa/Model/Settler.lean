import OracleQa.Model.Calls

/-! `settler.rs`: eligibility of a payment, the audit hash, and the settlement transaction. -/

namespace OracleQa.Settler
open Text

variable (crates : Crates) (cfg : OracleConfig)

/-- The cast of `account.data[8 .. 8 + size_of::<Payment>()]`. -/
def paymentImage (account : Account) : Option Payment :=
  if account.data.length < 8 + crates.paymentSize then none
  else some (crates.paymentFromBytes ((account.data.drop 8).take crates.paymentSize))

def settle (job : EvaluationJob) (approved : Bool) (resolutionReason : UInt16)
    (resolutionHash : Bytes32) : Async (Except OracleError String) := do
  let resolutionState : UInt8 := if approved then 1 else 2
  let ix : ConfirmOracle := ⟨cfg.oraclePubkey, job.mint, uidHex job.paymentUid, job.deliveryHash,
    resolutionHash, resolutionState, resolutionReason⟩
  match ← ask .getLatestBlockhash with
  | .error e => return .error (.settlement ("Failed to get blockhash: " ++ e))
  | .ok recentBlockhash =>
    match ← ask (.sendAndConfirm ⟨ix, recentBlockhash⟩) with
    | .error e => return .error (.settlement ("Transaction failed: " ++ e))
    | .ok sig => return .ok (crates.signatureToString sig)

def checkJson (check : CheckResult) : Json :=
  .object [("detail", .string check.detail), ("name", .string check.name),
    ("passed", .bool check.passed)]

/-- The members are in the order of the sorted map that `json!` builds. -/
def resolutionPayload (job : EvaluationJob) (sla : SlaDocument) (result : EvaluationResult) :
    Json :=
  .object [
    ("approved", .bool result.approved),
    ("checks", .array (result.checks.map checkJson)),
    ("deliveryHash", .string (hexEncode job.deliveryHash.toList)),
    ("paymentPubkey", .string (crates.pubkeyToString job.paymentPubkey)),
    ("paymentUid", .string (uidHex job.paymentUid)),
    ("profile", .string "x402/oracle-qa/resolution/v1"),
    ("resolutionReason", .number (.posInt result.resolutionReason.toUInt64)),
    ("slaHash", .string (hexEncode job.slaHash.toList)),
    ("slaProfileId", match sla.profileId with
      | some pid => .string pid
      | none => .null),
    ("slaVersion", .number (.posInt sla.version.toUInt64))]

def computeResolutionHash (job : EvaluationJob) (sla : SlaDocument) (result : EvaluationResult) :
    Except OracleError Bytes32 :=
  let payload := (resolutionPayload crates job sla result).toString crates.floatText
  .ok (crates.sha256 payload.toUTF8.data.toList)

def chainUnixTimestamp : Async Int := do
  match ← ask (.getAccount crates.clockId) with
  | .ok (some account) =>
    match crates.clockFromBytes account.data with
    | .ok unixTimestamp => return unixTimestamp
    -- the clock of the host stands in for an unreadable sysvar
    | .error _ => ask .utcNow
  | .ok none => ask .utcNow
  | .error _ => ask .utcNow

def isEligible (job : EvaluationJob) : Async (Except OracleError Bool) := do
  match ← ask (.getAccount job.paymentPubkey) with
  | .error e => return .error (.chain e)
  | .ok none => return .ok false
  | .ok (some account) =>
    match paymentImage crates account with
    | none => return .ok false
    | some payment =>
      if payment.oracleAuthority ≠ cfg.oraclePubkey then return .ok false
      else if payment.deliveryTimestamp = 0 then return .ok false
      else if payment.resolutionState ≠ 0 then return .ok false
      else do
        let now ← chainUnixTimestamp crates
        if now > payment.expiresAt then return .ok false
        else return .ok true

end OracleQa.Settler
