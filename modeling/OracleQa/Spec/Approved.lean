import OracleQa.Model.Documents
import OracleQa.Spec.Profile

/-! Which approved documents conform to the schemas of the profile. -/

namespace OracleQa.Approved
open Text Documents

/-- What the schema asks of an SLA document that is neither read nor evaluated. -/
structure CleanSla (a : Document) : Prop where
  object : ∃ members, a = .object members
  endpoint : a.member "endpoint" ≠ some (.string "")
  method : a.member "method" ≠ some (.string "")
  profileId : a.member "profile_id" ≠ some .null
  responseSchema : ∀ v, a.member "response_schema" = some v →
    (∃ members, v = .object members) ∨ ∃ b, v = .bool b
  requiredFields : ∀ items, a.member "required_fields" = some (.array items) →
    .string "" ∉ items
  minStatusCode : ∀ n, a.member "min_status_code" = some (.number n) →
    100 ≤ n.value ∧ n.value ≤ 599
  maxStatusCode : ∀ n, a.member "max_status_code" = some (.number n) →
    100 ≤ n.value ∧ n.value ≤ 599
  minBodyLength : a.member "min_body_length" ≠ some .null

structure CleanDelivery (d : Document) : Prop where
  object : ∃ members, d = .object members
  responseHeaders : d.member "response_headers" ≠ some .null

section
variable {d : Document} {key : String} {schema : Schema}

/-! ## One property at a time -/

theorem hasProperty_some {v : Document} (hv : d.member key = some v) :
    d.HasProperty key schema ↔ allHold schema v = true := by
  rw [Document.HasProperty, hv]
  exact ⟨fun h => h v rfl, fun h w hw => Option.some.inj hw ▸ h⟩

theorem hasProperty_none (hv : d.member key = none) : d.HasProperty key schema := by
  intro v h
  rw [hv] at h
  cases h

theorem nonempty_iff {s : String} (h : required Document.string? (d.member key) = some s) :
    d.HasProperty key [.type [.string], .minLength 1] ↔ d.member key ≠ some (.string "") := by
  obtain ⟨v, hv, hs⟩ := Option.bind_eq_some_iff.mp h
  obtain rfl := string?_eq_some.mp hs
  rw [hasProperty_some hv, hv]
  simp [InstanceType.includes, Nat.one_le_iff_ne_zero]

theorem optional_iff {α : Type} {read : Document → Option α} {x : Option α}
    (h : withDefault none (readOption read) (d.member key) = some x)
    (hnull : ¬ allHold schema .null = true)
    (hread : ∀ v y, x = some y → read v = some y → allHold schema v = true) :
    d.HasProperty key schema ↔ d.member key ≠ some .null := by
  cases hv : d.member key with
  | none => simp [hasProperty_none hv]
  | some v =>
    rw [hasProperty_some hv]
    have hoption := withDefault_some h hv
    by_cases hne : v = .null
    · simp [hne, hnull]
    · rw [readOption_of_ne_null hne] at hoption
      obtain ⟨y, hy, rfl⟩ := Option.map_eq_some_iff.mp hoption
      simp [hne, hread v y rfl hy]

theorem statusCode_iff {default x : UInt16} {value : Document}
    (h : withDefault default readU16 (d.member key) = some x) :
    d.HasProperty key [.type [.integer], .minimum 100, .maximum 599, .default value] ↔
      ∀ n, d.member key = some (.number n) → 100 ≤ n.value ∧ n.value ≤ 599 := by
  cases hv : d.member key with
  | none => simp [hasProperty_none hv]
  | some v =>
    obtain rfl := readU16_eq_some.mp (withDefault_some h hv)
    rw [hasProperty_some hv]
    simp

theorem requiredFields_iff {names : List String} {value : Document}
    (h : withDefault [] readStrings (d.member key) = some names) :
    d.HasProperty key [.type [.array], .items [.type [.string], .minLength 1], .default value] ↔
      ∀ items, d.member key = some (.array items) → .string "" ∉ items := by
  cases hv : d.member key with
  | none => simp [hasProperty_none hv]
  | some v =>
    obtain rfl := readStrings_eq_some.mp (withDefault_some h hv)
    have hempty : (∀ s ∈ names, ¬ s = "") ↔ "" ∉ names :=
      ⟨fun h hmem => h "" hmem rfl, fun h s hs heq => h (heq ▸ hs)⟩
    rw [hasProperty_some hv]
    simp [InstanceType.includes, Nat.one_le_iff_ne_zero, hempty]

theorem responseSchema_iff : d.HasProperty key [.type [.object, .boolean]] ↔
    ∀ v, d.member key = some v → (∃ members, v = .object members) ∨ ∃ b, v = .bool b := by
  simp [Document.HasProperty, includes_object, includes_boolean]

theorem latency_valid {default x : UInt64} {value : Document}
    (h : withDefault default readU64 (d.member key) = some x) :
    d.HasProperty key [.type [.integer], .minimum 0, .default value] := by
  intro v hv
  obtain rfl := readU64_eq_some.mp (withDefault_some h hv)
  simp

theorem version_valid (h : required readU32 (d.member key) = some 1) :
    d.HasProperty key [.type [.integer], .constInteger 1] := by
  obtain ⟨v, hv, hread⟩ := Option.bind_eq_some_iff.mp h
  obtain rfl := readU32_eq_some.mp hread
  rw [hasProperty_some hv]
  simp

theorem profileId_iff {x : Option String} {id : String}
    (h : withDefault none (readOption Document.string?) (d.member key) = some x)
    (hid : ∀ s, x = some s → s = id) :
    d.HasProperty key [.type [.string], .constString id] ↔ d.member key ≠ some .null := by
  apply optional_iff h
  · simp [InstanceType.includes]
  · intro v s hs hread
    obtain rfl := string?_eq_some.mp hread
    obtain rfl := hid s hs
    simp [InstanceType.includes]

theorem bodyLength_iff {x : Option Nat}
    (h : withDefault none (readOption readUsize) (d.member key) = some x) :
    d.HasProperty key [.type [.integer], .minimum 0] ↔ d.member key ≠ some .null := by
  apply optional_iff h
  · simp [InstanceType.includes]
  · intro v k _ hread
    obtain ⟨_, rfl⟩ := readUsize_eq_some.mp hread
    simp

theorem isSome_of_required {α : Type} {read : Document → Option α} {given : Option Document} {x : α}
    (h : required read given = some x) : given.isSome := by
  obtain ⟨v, hv, -⟩ := Option.bind_eq_some_iff.mp h
  rw [hv]
  rfl

/-! ## The documents of an approved pair -/

variable {floats : Floats} {sla : SlaDocument} {evidence : DeliveryEvidence}

theorem sla_valid_iff (hdistinct : d.Distinct) (hread : readSla floats d = some sla)
    (hversion : sla.version = 1)
    (hprofile : ∀ pid, sla.profileId = some pid → pid = API_QUALITY_V1_PROFILE_ID) :
    allHold slaSchema d = true ↔ CleanSla d := by
  by_cases hobject : InstanceType.object.includes d = true
  swap
  · have hvalid : ¬ allHold slaSchema d = true := fun h => hobject (record_holds.mp h).1
    exact ⟨fun h => absurd h hvalid, fun h => absurd (includes_object.mpr h.object) hobject⟩
  rw [readSla, readStruct_object hdistinct hobject, readSlaFields_eq_some, hversion] at hread
  obtain ⟨hv, hpid, hendpoint, hmethod, -, hfields, hlatency, hmin, hmax, hlength⟩ := hread
  have hid : ∀ pid, sla.profileId = some pid → pid = "x402/oracle-qa/api-quality/v1" := hprofile
  rw [slaSchema, record_holds]
  simp only [hobject, slaProperties, List.forall_mem_cons, isSome_of_required hv,
    isSome_of_required hendpoint, isSome_of_required hmethod, version_valid hv, true_and,
    nonempty_iff hendpoint, nonempty_iff hmethod, profileId_iff hpid hid, responseSchema_iff,
    requiredFields_iff hfields, latency_valid hlatency, statusCode_iff hmin, statusCode_iff hmax,
    bodyLength_iff hlength]
  constructor
  · rintro ⟨-, h₁, h₂, h₃, h₄, h₅, h₆, h₇, h₈, -⟩
    exact ⟨includes_object.mp hobject, h₁, h₂, h₃, h₄, h₅, h₆, h₇, h₈⟩
  · intro h
    exact ⟨List.forall_mem_nil _, h.endpoint, h.method, h.profileId, h.responseSchema,
      h.requiredFields, h.minStatusCode, h.maxStatusCode, h.minBodyLength, List.forall_mem_nil _⟩

theorem statusCode_valid {x : UInt16} (h : required readU16 (d.member key) = some x)
    (hlow : 100 ≤ x) (hhigh : x ≤ 599) :
    d.HasProperty key [.type [.integer], .minimum 100, .maximum 599] := by
  obtain ⟨v, hv, hread⟩ := Option.bind_eq_some_iff.mp h
  obtain rfl := readU16_eq_some.mp hread
  rw [UInt16.le_iff_toNat_le] at hlow hhigh
  have hlow : 100 ≤ (x.toNat : Int) := by exact_mod_cast hlow
  have hhigh : (x.toNat : Int) ≤ 599 := by exact_mod_cast hhigh
  rw [hasProperty_some hv]
  simp [hlow, hhigh]

theorem measured_valid {x : UInt64} (h : required readU64 (d.member key) = some x) :
    d.HasProperty key [.type [.integer], .minimum 0] := by
  obtain ⟨v, hv, hread⟩ := Option.bind_eq_some_iff.mp h
  obtain rfl := readU64_eq_some.mp hread
  rw [hasProperty_some hv]
  simp

theorem timestamp_valid {x : Int} (h : required readI64 (d.member key) = some x) :
    d.HasProperty key [.type [.integer]] := by
  obtain ⟨v, hv, hread⟩ := Option.bind_eq_some_iff.mp h
  obtain ⟨-, rfl⟩ := readI64_eq_some.mp hread
  rw [hasProperty_some hv]
  simp

theorem headers_iff {x : Option (List (String × Json))}
    (h : withDefault none (readOption (readMap floats fieldDepth)) (d.member key) = some x) :
    d.HasProperty key [.type [.object]] ↔ d.member key ≠ some .null := by
  apply optional_iff h
  · simp [InstanceType.includes]
  · intro v map _ hread
    have hobject := (readMap_isSome.mp (Option.isSome_iff_exists.mpr ⟨map, hread⟩)).1
    simp [hobject]

theorem delivery_valid_iff (hdistinct : d.Distinct) (hread : readDelivery floats d = some evidence)
    (hlow : 100 ≤ evidence.statusCode) (hhigh : evidence.statusCode ≤ 599) :
    allHold deliverySchema d = true ↔ CleanDelivery d := by
  by_cases hobject : InstanceType.object.includes d = true
  swap
  · have hvalid : ¬ allHold deliverySchema d = true := fun h => hobject (record_holds.mp h).1
    exact ⟨fun h => absurd h hvalid, fun h => absurd (includes_object.mpr h.object) hobject⟩
  rw [readDelivery, readStruct_object hdistinct hobject, readDeliveryFields_eq_some] at hread
  obtain ⟨hstatus, hlatency, hbody, hheaders, htimestamp⟩ := hread
  have hbodyValid : d.HasProperty "response_body" [] := fun v _ => allHold_nil
  rw [deliverySchema, record_holds]
  simp only [hobject, deliveryProperties, List.forall_mem_cons, isSome_of_required hstatus,
    isSome_of_required hlatency, isSome_of_required hbody, isSome_of_required htimestamp,
    statusCode_valid hstatus hlow hhigh, measured_valid hlatency, hbodyValid,
    headers_iff hheaders, timestamp_valid htimestamp, true_and]
  constructor
  · rintro ⟨-, h, -⟩
    exact ⟨includes_object.mp hobject, h⟩
  · intro h
    exact ⟨List.forall_mem_nil _, h.responseHeaders, List.forall_mem_nil _⟩

theorem bound_of_clean {default x : UInt16}
    (h : withDefault default readU16 (d.member key) = some x)
    (hdefault : 100 ≤ default ∧ default ≤ 599)
    (hclean : ∀ n, d.member key = some (.number n) → 100 ≤ n.value ∧ n.value ≤ 599) :
    100 ≤ x ∧ x ≤ 599 := by
  cases hv : d.member key with
  | none =>
    rw [hv] at h
    obtain rfl := Option.some.inj h
    exact hdefault
  | some v =>
    obtain rfl := readU16_eq_some.mp (withDefault_some h hv)
    obtain ⟨hlow, hhigh⟩ := hclean _ hv
    rw [Numeral.value_ofInt] at hlow hhigh
    rw [UInt16.le_iff_toNat_le, UInt16.le_iff_toNat_le]
    exact ⟨by exact_mod_cast hlow, by exact_mod_cast hhigh⟩

end

/-- The documents of an approved pair conform to their schemas exactly if they are clean. -/
theorem approved_valid_iff (crates : Crates) (strict : Bool) (floats : Floats) (a d : JsonValue)
    (sla : SlaDocument) (evidence : DeliveryEvidence) (result : EvaluationResult)
    (ha : readSla floats a.doc = some sla) (hd : readDelivery floats d.doc = some evidence)
    (heval : Evaluator.evaluate crates strict sla evidence = .ok result)
    (happroved : result.approved = true) :
    (Valid slaSchema a ∧ Valid deliverySchema d) ↔ CleanSla a.doc ∧ CleanDelivery d.doc := by
  obtain rfl := Except.ok.inj heval
  have hrules := Profile.all_passed.mp happroved
  have hversion : sla.version = 1 := hrules .version
  have hprofile : ∀ pid, sla.profileId = some pid → pid = API_QUALITY_V1_PROFILE_ID := by
    intro pid hpid
    have h := hrules .profileId
    rw [Profile.Rule.Holds, hpid] at h
    exact h
  obtain ⟨hlow, hhigh⟩ := hrules .statusCode
  have hsla := sla_valid_iff a.distinct ha hversion hprofile
  rw [Valid, Valid, hsla]
  apply and_congr_right
  intro hclean
  rw [readSla, readStruct_object a.distinct (includes_object.mpr hclean.object),
    readSlaFields_eq_some] at ha
  obtain ⟨-, -, -, -, -, -, -, hmin, hmax, -⟩ := ha
  have hminBound := bound_of_clean hmin (by decide) hclean.minStatusCode
  have hmaxBound := bound_of_clean hmax (by decide) hclean.maxStatusCode
  exact delivery_valid_iff d.distinct hd (UInt16.le_trans hminBound.1 hlow)
    (UInt16.le_trans hhigh hmaxBound.2)

theorem approved_valid_iff_min :
    (CleanSla slaMin.doc ∧ CleanDelivery deliveryMin.doc) ∧
      ((Valid slaSchema slaMin ∧ Valid deliverySchema deliveryMin) ↔
        CleanSla slaMin.doc ∧ CleanDelivery deliveryMin.doc) := by
  have h := approved_valid_iff .toy true noFloats slaMin deliveryMin slaMinRead deliveryMinRead _
    rfl rfl rfl rfl
  exact ⟨h.mp ⟨by decide +kernel, by decide +kernel⟩, h⟩

def emptyEndpoint : JsonValue where
  doc := .object [
    ("version", .number (.ofInt 1)),
    ("profile_id", .string "x402/oracle-qa/api-quality/v1"),
    ("endpoint", .string ""),
    ("method", .string "GET")]
  distinct := by
    apply Document.Distinct.object (by decide)
    simp [Document.Distinct.number, Document.Distinct.string]

def emptyEndpointRead : SlaDocument :=
  ⟨1, some API_QUALITY_V1_PROFILE_ID, "", "GET", none, [], 5000, 200, 299, none⟩

theorem approved_invalid :
    ¬ ∀ (crates : Crates) (strict : Bool) (floats : Floats) (a d : JsonValue) (sla : SlaDocument)
      (evidence : DeliveryEvidence) (result : EvaluationResult),
      readSla floats a.doc = some sla → readDelivery floats d.doc = some evidence →
      Evaluator.evaluate crates strict sla evidence = .ok result → result.approved = true →
      Valid slaSchema a ∧ Valid deliverySchema d := by
  intro h
  have hvalid := h .toy true noFloats emptyEndpoint deliveryMin emptyEndpointRead deliveryMinRead _
    rfl rfl rfl rfl
  have hinvalid : ¬ Valid slaSchema emptyEndpoint := by decide +kernel
  exact hinvalid hvalid.1

end OracleQa.Approved
