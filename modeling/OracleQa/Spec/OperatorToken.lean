import OracleQa.Model.Config
import OracleQa.Model.Server

/-! The operator's token on its two ways to the digest: from the environment at startup, and from
a header of each request. -/

namespace OracleQa.OperatorToken
open Config Server Text

def utf8 (s : String) : Bytes := s.toUTF8.data.toList

/-- `HeaderValue::from_bytes` accepts any bytes but control characters other than tabs. -/
def Admissible (s : String) : Prop := ∀ b ∈ utf8 s, (32 ≤ b ∧ b ≠ 127) ∨ b = 9

def Ascii (s : String) : Prop := ∀ b ∈ utf8 s, b < 128

instance (s : String) : Decidable (Admissible s) := inferInstanceAs (Decidable (∀ b ∈ _, _))

instance (s : String) : Decidable (Ascii s) := inferInstanceAs (Decidable (∀ b ∈ _, _))

inductive Carries (raw : Bytes) : Headers → Prop
  | bearer : Carries raw ⟨some (utf8 "Bearer " ++ raw), none⟩
  | xOracleToken : Carries raw ⟨none, some raw⟩

/-- The token opens the door from either header, and no other token does, unless the digest of the
text that is hashed collides with its own. -/
structure Usable (crates : Crates) (cfg : OracleConfig) (token : String) : Prop where
  passes : Admissible token → ∀ headers, Carries (utf8 token) headers →
    checkToken crates cfg headers = .ok ()
  others : ∀ raw headers, Carries raw headers → (∀ s, raw = utf8 s → trimText s ≠ token) →
    (∀ cs, suppliedToken headers = some cs →
      crates.sha256 (utf8 (String.ofList cs)) = crates.sha256 (utf8 token) →
        String.ofList cs = token) → checkToken crates cfg headers ≠ .ok ()

section
variable {crates : Crates} {cfg : OracleConfig} {token : String} {raw : Bytes} {cs : List Char}
  {headers : Headers}

/-! ## Texts and header values -/

theorem visible_iff (b : UInt8) : ((32 ≤ b && b < 127) || b == 9) = true ↔
    ((32 ≤ b ∧ b ≠ 127) ∨ b = 9) ∧ b < 128 := by
  simp only [Bool.or_eq_true, Bool.and_eq_true, decide_eq_true_eq, beq_iff_eq,
    UInt8.le_iff_toNat_le, UInt8.lt_iff_toNat_lt, ne_eq, ← UInt8.toNat_inj]
  show (32 ≤ b.toNat ∧ b.toNat < 127) ∨ b.toNat = 9 ↔
    ((32 ≤ b.toNat ∧ ¬b.toNat = 127) ∨ b.toNat = 9) ∧ b.toNat < 128
  omega

theorem headerToStr_eq_some : headerToStr raw = some cs ↔
    (∀ b ∈ raw, ((32 ≤ b ∧ b ≠ 127) ∨ b = 9) ∧ b < 128) ∧ utf8 (String.ofList cs) = raw := by
  have hall : (raw.all fun b => (32 ≤ b && b < 127) || b == 9) = true ↔
      ∀ b ∈ raw, ((32 ≤ b ∧ b ≠ 127) ∨ b = 9) ∧ b < 128 := by
    rw [List.all_eq_true]
    exact forall₂_congr fun b _ => visible_iff b
  unfold headerToStr
  constructor
  · intro h
    split at h
    · next hvisible =>
      cases h
      exact ⟨hall.mp hvisible, utf8_ascii fun b hb => (hall.mp hvisible b hb).2⟩
    · cases h
  · rintro ⟨hvisible, hutf8⟩
    rw [if_pos (hall.mpr hvisible)]
    have hsame : utf8 (String.ofList (raw.map fun b => Char.ofNat b.toNat)) =
        utf8 (String.ofList cs) := by
      rw [hutf8]
      exact utf8_ascii fun b hb => (hvisible b hb).2
    exact congrArg some (String.ofList_injective (utf8_injective hsame))

theorem headerToStr_utf8 {s : String} :
    headerToStr (utf8 s) = some s.toList ↔ Admissible s ∧ Ascii s := by
  rw [headerToStr_eq_some, String.ofList_toList, and_iff_left rfl]
  exact ⟨fun h => ⟨fun b hb => (h b hb).1, fun b hb => (h b hb).2⟩,
    fun h b hb => ⟨h.1 b hb, h.2 b hb⟩⟩

theorem stripPrefix_append (pre cs : List Char) : stripPrefix pre (pre ++ cs) = some cs := by
  rw [stripPrefix, if_pos (List.prefix_append pre cs), List.drop_left]

theorem headerToStr_bearer (raw : Bytes) : headerToStr (utf8 "Bearer " ++ raw) =
    (headerToStr raw).map ("Bearer ".toList ++ ·) := by
  have hbearer : headerToStr (utf8 "Bearer ") = some "Bearer ".toList := by decide +kernel
  unfold headerToStr at hbearer ⊢
  split at hbearer
  · next hvisible =>
    rw [List.all_append, hvisible, Bool.true_and, List.map_append, Option.some.inj hbearer]
    split <;> rfl
  · cases hbearer

theorem Carries.supplied (h : Carries raw headers) :
    suppliedToken headers = (headerToStr raw).map trim ∨
      suppliedToken headers = headerToStr raw := by
  cases h with
  | bearer =>
    left
    unfold suppliedToken bearerToken
    rw [Option.bind_some, headerToStr_bearer]
    cases headerToStr raw with
    | none => rfl
    | some cs =>
      show ((stripPrefix _ ("Bearer ".toList ++ cs)).map trim).or _ = _
      rw [stripPrefix_append]
      rfl
  | xOracleToken => exact Or.inr rfl

/-! ## The check -/

theorem checkToken_iff {digest : Bytes32} (hdigest : cfg.operatorTokenSha256 = some digest) :
    checkToken crates cfg headers = .ok () ↔ ∃ cs, suppliedToken headers = some cs ∧
      crates.sha256 (utf8 (String.ofList cs)) = digest := by
  simp only [checkToken, hdigest]
  cases suppliedToken headers with
  | none => simp
  | some cs => simp [utf8]

end

theorem enrolled {crates : Crates} {host : Host} {cfg : OracleConfig} {token : String}
    (hcfg : fromEnv crates host = .ok cfg)
    (htoken : nonBlank host.env "ORACLE_OPERATOR_TOKEN" = some token)
    (hderived : nonBlank host.env "ORACLE_OPERATOR_TOKEN_SHA256" = none) :
    trim token.toList = token.toList ∧
      cfg.operatorTokenSha256 = some (crates.sha256 (utf8 token)) := by
  constructor
  · obtain ⟨htrimmed, -⟩ := Option.filter_eq_some_iff.mp htoken
    obtain ⟨value, -, rfl⟩ := Option.map_eq_some_iff.mp htrimmed
    rw [trimText, String.toList_ofList, trim_trim]
  · obtain ⟨-, -, hdigest, -⟩ := fromEnv_ok hcfg
    rw [operatorTokenSha256, hderived, htoken] at hdigest
    exact (Except.ok.inj hdigest).symm

/-- A configured token is usable exactly if it is ASCII, or else no header value at all. -/
theorem usable_iff (crates : Crates) (host : Host) (cfg : OracleConfig) (token : String)
    (hcfg : fromEnv crates host = .ok cfg)
    (htoken : nonBlank host.env "ORACLE_OPERATOR_TOKEN" = some token)
    (hderived : nonBlank host.env "ORACLE_OPERATOR_TOKEN_SHA256" = none) :
    Usable crates cfg token ↔ (Admissible token → Ascii token) := by
  obtain ⟨htrim, hdigest⟩ := enrolled hcfg htoken hderived
  constructor
  · intro husable hadmissible
    have hpass := husable.passes hadmissible _ .xOracleToken
    obtain ⟨cs, hcs, -⟩ := (checkToken_iff hdigest).mp hpass
    exact fun b hb => ((headerToStr_eq_some.mp hcs).1 b hb).2
  intro hascii
  constructor
  · intro hadmissible headers hcarries
    have hread := headerToStr_utf8.mpr ⟨hadmissible, hascii hadmissible⟩
    have hsupplied : suppliedToken headers = some token.toList := by
      rcases hcarries.supplied with h | h
      · rw [h, hread, Option.map_some, htrim]
      · rw [h, hread]
    exact (checkToken_iff hdigest).mpr ⟨_, hsupplied, by rw [String.ofList_toList]⟩
  · intro raw headers hcarries hother hcollision hpass
    obtain ⟨cs, hcs, hhash⟩ := (checkToken_iff hdigest).mp hpass
    have htext : String.ofList cs = token := hcollision cs hcs hhash
    have hcs' : cs = token.toList := by rw [← htext, String.toList_ofList]
    -- either way the trimmed text of the header is the token
    have hread : ∃ read, headerToStr raw = some read ∧ trim read = token.toList := by
      rcases hcarries.supplied with h | h
      · obtain ⟨read, hread, htrimmed⟩ := Option.map_eq_some_iff.mp (h.symm.trans hcs)
        exact ⟨read, hread, htrimmed.trans hcs'⟩
      · exact ⟨cs, h.symm.trans hcs, by rw [hcs', htrim]⟩
    obtain ⟨read, hread, htrimmed⟩ := hread
    refine hother (String.ofList read) (headerToStr_eq_some.mp hread).2.symm ?_
    rw [trimText, String.toList_ofList, htrimmed, String.ofList_toList]

def tokenHost (token : String) : Host where
  env name :=
    if name = "ORACLE_KEYPAIR_PATH" then some "oracle.json"
    else if name = "ORACLE_OPERATOR_TOKEN" then some token
    else none
  readKeypairFile _ := .ok (byte32 7)
  escrowApiId := byte32 6
  connect _ := false

def tableCrates : Crates :=
  { Crates.toy with sha256 := fun bytes => if bytes = utf8 "dev-token" then byte32 1 else byte32 0 }

theorem usable_iff_dev :
    ∃ cfg, fromEnv tableCrates (tokenHost " dev-token\n") = .ok cfg ∧
      Usable tableCrates cfg "dev-token" ∧
      checkToken tableCrates cfg ⟨some (utf8 "Bearer " ++ utf8 "dev-token"), none⟩ = .ok () ∧
      checkToken tableCrates cfg ⟨none, some (utf8 "guess")⟩ ≠ .ok () := by
  obtain ⟨cfg, hcfg⟩ : ∃ cfg, fromEnv tableCrates (tokenHost " dev-token\n") = .ok cfg := ⟨_, rfl⟩
  have husable : Usable tableCrates cfg "dev-token" := by
    rw [usable_iff tableCrates (tokenHost " dev-token\n") cfg _ hcfg (by decide +kernel)
      (by decide +kernel)]
    intro _
    decide +kernel
  refine ⟨cfg, hcfg, husable, husable.passes (by decide +kernel) _ .bearer,
    husable.others (utf8 "guess") _ .xOracleToken (fun s hs => ?_) fun cs hcs hhash => ?_⟩
  · rw [← utf8_injective hs]
    decide +kernel
  · have hread : suppliedToken ⟨none, some (utf8 "guess")⟩ = some "guess".toList := by
      decide +kernel
    obtain rfl := Option.some.inj (hcs.symm.trans hread)
    exact absurd hhash (by decide +kernel)

theorem not_usable_accent :
    ∃ cfg, fromEnv .toy (tokenHost "é") = .ok cfg ∧
      nonBlank (tokenHost "é").env "ORACLE_OPERATOR_TOKEN" = some "é" ∧
      nonBlank (tokenHost "é").env "ORACLE_OPERATOR_TOKEN_SHA256" = none ∧ Admissible "é" ∧
      checkToken .toy cfg ⟨some (utf8 "Bearer " ++ utf8 "é"), none⟩ =
        .error (401, "Missing operator token") ∧
      checkToken .toy cfg ⟨none, some (utf8 "é")⟩ = .error (401, "Missing operator token") ∧
      ¬ Usable .toy cfg "é" := by
  refine ⟨_, rfl, by decide +kernel, by decide +kernel, by decide +kernel, by decide +kernel,
    by decide +kernel, fun husable => ?_⟩
  have hpass := husable.passes (by decide +kernel) _ .xOracleToken
  revert hpass
  decide +kernel

end OracleQa.OperatorToken
