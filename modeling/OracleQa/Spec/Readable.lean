import OracleQa.Model.Documents
import OracleQa.Model.Pipeline

/-! Which conforming documents are read as they are written, and how a run on such a pair may
end. -/

namespace OracleQa.Readable
open Text Documents Pipeline Interaction

/-- A nonnegative integer below `2 ^ 64`, written without sign, point or exponent. -/
def Unsigned (v : Document) : Prop := ∃ k : Nat, k < 2 ^ 64 ∧ v = .number (.ofInt k)

def Signed (v : Document) : Prop :=
  ∃ t : Int, (-2 ^ 63 ≤ t ∧ t < 2 ^ 63) ∧ v = .number (.ofInt t)

section
variable (floats : Floats) (a d : Document)

/-- How a conforming SLA document is written so that it is read. -/
structure PlainSla : Prop where
  integers : ∀ key ∈ ["version", "max_latency_ms", "min_status_code", "max_status_code",
    "min_body_length"], ∀ v, a.member key = some v → Unsigned v
  responseSchema : ∀ v, a.member "response_schema" = some v → v.Within (Exact floats) 126

structure PlainDelivery : Prop where
  integers : ∀ key ∈ ["status_code", "latency_ms"], ∀ v, d.member key = some v → Unsigned v
  timestamp : ∀ v, d.member "timestamp" = some v → Signed v
  responseBody : ∀ v, d.member "response_body" = some v → v.Within (Exact floats) 126
  responseHeaders : ∀ v, d.member "response_headers" = some v → v.Within (InRange floats) 126

/-- The value written for a property, or else the default that its schema documents. -/
def stated (schema : Schema) (key : String) : Option Document :=
  (a.member key).or (defaultOf schema key)

structure SaysSla (sla : SlaDocument) : Prop where
  version : (stated a slaSchema "version").bind Document.number? = some (sla.version.toNat : ℚ)
  profileId : (stated a slaSchema "profile_id").bind Document.string? = sla.profileId
  endpoint : stated a slaSchema "endpoint" = some (.string sla.endpoint)
  method : stated a slaSchema "method" = some (.string sla.method)
  responseSchema : Option.Rel (Means floats) (stated a slaSchema "response_schema")
    sla.responseSchema
  requiredFields : stated a slaSchema "required_fields" =
    some (.array (sla.requiredFields.map .string))
  maxLatencyMs : (stated a slaSchema "max_latency_ms").bind Document.number? =
    some (sla.maxLatencyMs.toNat : ℚ)
  minStatusCode : (stated a slaSchema "min_status_code").bind Document.number? =
    some (sla.minStatusCode.toNat : ℚ)
  maxStatusCode : (stated a slaSchema "max_status_code").bind Document.number? =
    some (sla.maxStatusCode.toNat : ℚ)
  minBodyLength : (stated a slaSchema "min_body_length").bind Document.number? =
    sla.minBodyLength.map fun n : Nat => (n : ℚ)

structure SaysDelivery (evidence : DeliveryEvidence) : Prop where
  statusCode : (stated d deliverySchema "status_code").bind Document.number? =
    some (evidence.statusCode.toNat : ℚ)
  latencyMs : (stated d deliverySchema "latency_ms").bind Document.number? =
    some (evidence.latencyMs.toNat : ℚ)
  responseBody : Option.Rel (Means floats) (stated d deliverySchema "response_body")
    (some evidence.responseBody)
  responseHeaders : stated d deliverySchema "response_headers" = none →
    evidence.responseHeaders = none
  timestamp : (stated d deliverySchema "timestamp").bind Document.number? =
    some (evidence.timestamp : ℚ)

def ReadsSla : Prop := ∃ sla, readSla floats a = some sla ∧ SaysSla floats a sla

def ReadsDelivery : Prop :=
  ∃ evidence, readDelivery floats d = some evidence ∧ SaysDelivery floats d evidence

end

section
variable {α : Type} {read : Document → Option α} {default : α} {given : Option Document}

/-! ## What a field that was read states -/

theorem stated_number (value : α → ℚ) {x : α}
    (h : required read given = some x)
    (hread : ∀ v y, read v = some y → v.number? = some (value y)) :
    (given.or none).bind Document.number? = some (value x) := by
  obtain ⟨v, rfl, hv⟩ := Option.bind_eq_some_iff.mp h
  exact hread v x hv

theorem stated_number_default (value : α → ℚ) {x : α} {stated : Document}
    (h : withDefault default read given = some x)
    (hread : ∀ v y, read v = some y → v.number? = some (value y))
    (hdefault : stated.number? = some (value default)) :
    (given.or (some stated)).bind Document.number? = some (value x) := by
  cases given with
  | none =>
    obtain rfl := Option.some.inj h
    exact hdefault
  | some v => exact hread v x h

theorem exists_required (hsome : given.isSome)
    (h : ∀ v, given = some v → ∃ x, read v = some x) : ∃ x, required read given = some x := by
  obtain ⟨v, rfl⟩ := Option.isSome_iff_exists.mp hsome
  exact h v rfl

theorem exists_withDefault (h : ∀ v, given = some v → ∃ x, read v = some x) :
    ∃ x, withDefault default read given = some x := by
  cases given with
  | none => exact ⟨default, rfl⟩
  | some v => exact h v rfl

theorem exists_option (h : ∀ v, given = some v → v ≠ .null ∧ ∃ x, read v = some x) :
    ∃ x, withDefault none (readOption read) given = some x := by
  apply exists_withDefault
  intro v hv
  obtain ⟨hne, x, hx⟩ := h v hv
  rw [readOption_of_ne_null hne, hx]
  exact ⟨some x, rfl⟩

theorem number_ofInt (t : Int) : (Document.number (.ofInt t)).number? = some (t : ℚ) := by
  rw [Document.number?, Numeral.value_ofInt]

theorem number_readU16 {v : Document} {x : UInt16} (h : readU16 v = some x) :
    v.number? = some (x.toNat : ℚ) := by
  rw [readU16_eq_some.mp h, number_ofInt, Int.cast_natCast]

theorem number_readU32 {v : Document} {x : UInt32} (h : readU32 v = some x) :
    v.number? = some (x.toNat : ℚ) := by
  rw [readU32_eq_some.mp h, number_ofInt, Int.cast_natCast]

theorem number_readU64 {v : Document} {x : UInt64} (h : readU64 v = some x) :
    v.number? = some (x.toNat : ℚ) := by
  rw [readU64_eq_some.mp h, number_ofInt, Int.cast_natCast]

theorem number_readI64 {v : Document} {x : Int} (h : readI64 v = some x) :
    v.number? = some (x : ℚ) := by
  rw [(readI64_eq_some.mp h).2, number_ofInt]

theorem stated_statusCode {x default : UInt16} {stated : Document}
    (h : withDefault default readU16 given = some x)
    (hdefault : stated.number? = some (default.toNat : ℚ)) :
    (given.or (some stated)).bind Document.number? = some (x.toNat : ℚ) :=
  stated_number_default (fun x : UInt16 => (x.toNat : ℚ)) h (fun _ _ => number_readU16) hdefault

theorem stated_string {x : String} (h : required Document.string? given = some x) :
    given.or none = some (.string x) := by
  obtain ⟨v, rfl, hv⟩ := Option.bind_eq_some_iff.mp h
  rw [string?_eq_some.mp hv, Option.some_or]

theorem stated_string_option {x : Option String}
    (h : withDefault none (readOption Document.string?) given = some x) :
    (given.or none).bind Document.string? = x := by
  cases given with
  | none => exact Option.some.inj h
  | some v =>
    cases v with
    | string s => exact Option.some.inj h
    | null => exact Option.some.inj h
    | _ => cases h

theorem stated_usize_option {x : Option Nat}
    (h : withDefault none (readOption readUsize) given = some x) :
    (given.or none).bind Document.number? = x.map fun n : Nat => (n : ℚ) := by
  cases given with
  | none =>
    obtain rfl := Option.some.inj h
    rfl
  | some v =>
    by_cases hne : v = .null
    · subst hne
      obtain rfl := Option.some.inj h
      rfl
    · rw [withDefault, Option.elim, readOption_of_ne_null hne] at h
      obtain ⟨k, hk, rfl⟩ := Option.map_eq_some_iff.mp h
      obtain ⟨-, rfl⟩ := readUsize_eq_some.mp hk
      rw [Option.some_or, Option.bind_some, number_ofInt, Option.map_some, Int.cast_natCast]

theorem none_of_not_stated {x : Option α}
    (h : withDefault none (readOption read) given = some x) (hnone : given.or none = none) :
    x = none := by
  rw [Option.or_none] at hnone
  subst hnone
  exact (Option.some.inj h).symm

theorem stated_strings {x : List String} (h : withDefault [] readStrings given = some x) :
    given.or (some (.array [])) = some (.array (x.map .string)) := by
  cases given with
  | none =>
    obtain rfl := Option.some.inj h
    rfl
  | some v => rw [readStrings_eq_some.mp h, Option.some_or]

/-! ## How a field must be written -/

theorem unsigned_readU16 {v : Document} {x : UInt16} (h : readU16 v = some x) : Unsigned v :=
  ⟨x.toNat, x.toNat_lt.trans (by decide), readU16_eq_some.mp h⟩

theorem unsigned_readU32 {v : Document} {x : UInt32} (h : readU32 v = some x) : Unsigned v :=
  ⟨x.toNat, x.toNat_lt.trans (by decide), readU32_eq_some.mp h⟩

theorem unsigned_readU64 {v : Document} {x : UInt64} (h : readU64 v = some x) : Unsigned v :=
  ⟨x.toNat, x.toNat_lt, readU64_eq_some.mp h⟩

theorem of_required {P : Document → Prop} (hread : ∀ v x, read v = some x → P v) {x : α}
    (h : required read given = some x) : ∀ v, given = some v → P v := by
  rintro v rfl
  exact hread v x h

theorem of_withDefault {P : Document → Prop} (hread : ∀ v x, read v = some x → P v) {x : α}
    (h : withDefault default read given = some x) : ∀ v, given = some v → P v :=
  fun v hv => hread v x (withDefault_some h hv)

section
variable {floats : Floats} {v : Document} {schema rest : Schema}

theorem exists_readU16 (hv : Unsigned v)
    (hvalid : allHold (.type [.integer] :: .minimum 100 :: .maximum 599 :: schema) v = true) :
    ∃ x, readU16 v = some x := by
  obtain ⟨k, -, rfl⟩ := hv
  simp only [allHold_cons, holds_maximum_ofInt] at hvalid
  have hk : k < 2 ^ 16 := by omega
  refine ⟨.ofNat k, readU16_eq_some.mpr ?_⟩
  rw [UInt16.toNat_ofNat_of_lt' hk]

theorem exists_readU32 (hv : Unsigned v)
    (hvalid : allHold (.type [.integer] :: .constInteger 1 :: schema) v = true) :
    ∃ x, readU32 v = some x := by
  obtain ⟨k, -, rfl⟩ := hv
  simp only [allHold_cons, holds_constInteger_ofInt] at hvalid
  have hk : k < 2 ^ 32 := by omega
  refine ⟨.ofNat k, readU32_eq_some.mpr ?_⟩
  rw [UInt32.toNat_ofNat_of_lt' hk]

theorem exists_readU64 (hv : Unsigned v) : ∃ x, readU64 v = some x := by
  obtain ⟨k, hk, rfl⟩ := hv
  refine ⟨.ofNat k, readU64_eq_some.mpr ?_⟩
  rw [UInt64.toNat_ofNat_of_lt' hk]

theorem exists_readUsize (hv : Unsigned v) : ∃ x, readUsize v = some x := by
  obtain ⟨k, hk, rfl⟩ := hv
  exact ⟨k, readUsize_eq_some.mpr ⟨hk, rfl⟩⟩

theorem exists_readI64 (hv : Signed v) : ∃ x, readI64 v = some x := by
  obtain ⟨t, ht, rfl⟩ := hv
  exact ⟨t, readI64_eq_some.mpr ⟨ht, rfl⟩⟩

theorem exists_string (hvalid : allHold (.type [.string] :: schema) v = true) :
    ∃ x, v = .string x := by
  have htype := (allHold_cons.mp hvalid).1
  simpa [includes_string] using htype

theorem exists_string? (hvalid : allHold (.type [.string] :: schema) v = true) :
    v ≠ .null ∧ ∃ x, v.string? = some x := by
  obtain ⟨s, rfl⟩ := exists_string hvalid
  exact ⟨nofun, s, rfl⟩

theorem exists_readValue (hv : v.Within (Exact floats) 126) :
    ∃ j, readValue floats fieldDepth v = some j :=
  Option.isSome_iff_exists.mp (readValue_isSome.mpr (hv.mono fun _ => Exact.inRange))

theorem exists_readMap (hvalid : allHold [.type [.object]] v = true)
    (hv : v.Within (InRange floats) 126) : ∃ map, readMap floats fieldDepth v = some map := by
  have hobject : InstanceType.object.includes v = true := by simpa using hvalid
  exact Option.isSome_iff_exists.mp (readMap_isSome.mpr ⟨hobject, hv⟩)

theorem exists_readStrings (hvalid : allHold
      (.type [.array] :: .items (.type [.string] :: schema) :: rest) v = true) :
    ∃ x, readStrings v = some x := by
  obtain ⟨htype, hrest⟩ := allHold_cons.mp hvalid
  obtain ⟨items, rfl⟩ : ∃ items, v = .array items := by simpa [includes_array] using htype
  have hitems : ∀ v ∈ items, v ∈ Set.range Document.string := by
    intro v hv
    obtain ⟨s, rfl⟩ := exists_string (holds_items.mp (allHold_cons.mp hrest).1 v hv)
    exact ⟨s, rfl⟩
  obtain ⟨names, rfl⟩ : items ∈ Set.range (List.map Document.string) := by
    rw [Set.range_list_map]
    exact hitems
  exact ⟨names, readStrings_eq_some.mpr rfl⟩

end
end

/-! ## Documents -/

section
variable {floats : Floats} {a d : Document} {sla : SlaDocument} {evidence : DeliveryEvidence}

theorem saysSla_iff (hread : readSlaFields floats a.member = some sla) : SaysSla floats a sla ↔
    Option.Rel (Means floats) ((a.member "response_schema").or none) sla.responseSchema := by
  rw [readSlaFields_eq_some] at hread
  obtain ⟨hversion, hprofile, hendpoint, hmethod, -, hfields, hlatency, hmin, hmax, hlength⟩ :=
    hread
  constructor
  · intro h
    exact h.responseSchema
  · intro h
    exact {
      version := stated_number (fun x : UInt32 => (x.toNat : ℚ)) hversion fun _ _ => number_readU32
      profileId := stated_string_option hprofile
      endpoint := stated_string hendpoint
      method := stated_string hmethod
      responseSchema := h
      requiredFields := stated_strings hfields
      maxLatencyMs := stated_number_default (fun x : UInt64 => (x.toNat : ℚ)) hlatency
        (fun _ _ => number_readU64) (number_ofInt 5000)
      minStatusCode := stated_statusCode hmin (number_ofInt 200)
      maxStatusCode := stated_statusCode hmax (number_ofInt 299)
      minBodyLength := stated_usize_option hlength }

theorem means_option_iff {given : Option Document} {x : Option Json}
    (hdistinct : ∀ v, given = some v → v.Distinct) (hnull : ∀ v, given = some v → v ≠ .null)
    (h : withDefault none (readOption (readValue floats fieldDepth)) given = some x) :
    Option.Rel (Means floats) (given.or none) x ↔
      ∀ v, given = some v → v.Within (Exact floats) 126 := by
  cases given with
  | none =>
    obtain rfl := Option.some.inj h
    exact ⟨fun _ v hv => (by cases hv), fun _ => Option.Rel.none⟩
  | some v =>
    have hoption := withDefault_some h rfl
    rw [readOption_of_ne_null (hnull v rfl)] at hoption
    obtain ⟨j, hj, rfl⟩ := Option.map_eq_some_iff.mp hoption
    have hmeans := readValue_means (hdistinct v rfl) hj
    constructor
    · rintro (hrel | -) w ⟨⟩
      exact hmeans.mp hrel
    · intro hwithin
      exact .some (hmeans.mpr (hwithin v rfl))

theorem ne_null_of_valid {v : Document} {types : List InstanceType} {schema : Schema}
    (hvalid : allHold (.type types :: schema) v = true) (hnull : .null ∉ types) : v ≠ .null := by
  rintro rfl
  obtain ⟨t, ht, hincludes⟩ := holds_type.mp (allHold_cons.mp hvalid).1
  cases t with
  | null => exact hnull ht
  | _ => cases hincludes

theorem unsigned_option {given : Option Document} {x : Option Nat}
    (hnull : ∀ v, given = some v → v ≠ .null)
    (h : withDefault none (readOption readUsize) given = some x) :
    ∀ v, given = some v → Unsigned v := by
  intro v hv
  have hoption := withDefault_some h hv
  rw [readOption_of_ne_null (hnull v hv)] at hoption
  obtain ⟨k, hk, -⟩ := Option.map_eq_some_iff.mp hoption
  exact ⟨k, readUsize_eq_some.mp hk⟩

theorem readsSla_iff (hdistinct : a.Distinct) (hvalid : allHold slaSchema a = true) :
    ReadsSla floats a ↔ PlainSla floats a := by
  obtain ⟨hobject, hrequired, hproperties⟩ := record_holds.mp hvalid
  simp only [slaProperties, List.forall_mem_cons] at hproperties hrequired
  obtain ⟨hversion, hendpoint, hmethod, hprofile, hschema, hfields, -, hmin, hmax, hlength,
    -⟩ := hproperties
  obtain ⟨hversionGiven, hendpointGiven, hmethodGiven, -⟩ := hrequired
  have hreadSla : readSla floats a = readSlaFields floats a.member :=
    readStruct_object hdistinct hobject
  have hschemaDistinct : ∀ v, a.member "response_schema" = some v → v.Distinct :=
    fun v hv => hdistinct.of_member hv
  have hschemaNull : ∀ v, a.member "response_schema" = some v → v ≠ .null :=
    fun v hv => ne_null_of_valid (hschema v hv) (by decide)
  have hlengthNull : ∀ v, a.member "min_body_length" = some v → v ≠ .null :=
    fun v hv => ne_null_of_valid (hlength v hv) (by decide)
  constructor
  · rintro ⟨sla, hread, hsays⟩
    rw [hreadSla] at hread
    have hmeans := (saysSla_iff hread).mp hsays
    rw [readSlaFields_eq_some] at hread
    obtain ⟨h₁, -, -, -, h₅, -, h₇, h₈, h₉, h₁₀⟩ := hread
    have hschemaPlain := (means_option_iff hschemaDistinct hschemaNull h₅).mp hmeans
    refine ⟨?_, hschemaPlain⟩
    simp only [List.forall_mem_cons]
    exact ⟨of_required (fun _ _ => unsigned_readU32) h₁,
      of_withDefault (fun _ _ => unsigned_readU64) h₇,
      of_withDefault (fun _ _ => unsigned_readU16) h₈,
      of_withDefault (fun _ _ => unsigned_readU16) h₉,
      unsigned_option hlengthNull h₁₀, List.forall_mem_nil _⟩
  · intro hplain
    have hintegers := hplain.integers
    simp only [List.forall_mem_cons] at hintegers
    obtain ⟨hversionPlain, hlatencyPlain, hminPlain, hmaxPlain, hlengthPlain, -⟩ := hintegers
    obtain ⟨version, h₁⟩ := exists_required hversionGiven fun v hv =>
      exists_readU32 (hversionPlain v hv) (hversion v hv)
    obtain ⟨profileId, h₂⟩ := exists_option fun v hv => exists_string? (hprofile v hv)
    obtain ⟨endpoint, h₃⟩ := exists_required hendpointGiven fun v hv =>
      (exists_string? (hendpoint v hv)).2
    obtain ⟨method, h₄⟩ := exists_required hmethodGiven fun v hv =>
      (exists_string? (hmethod v hv)).2
    obtain ⟨responseSchema, h₅⟩ := exists_option fun v hv =>
      ⟨hschemaNull v hv, exists_readValue (hplain.responseSchema v hv)⟩
    obtain ⟨requiredFields, h₆⟩ := exists_withDefault fun v hv => exists_readStrings (hfields v hv)
    obtain ⟨maxLatencyMs, h₇⟩ := exists_withDefault fun v hv => exists_readU64 (hlatencyPlain v hv)
    obtain ⟨minStatusCode, h₈⟩ := exists_withDefault fun v hv =>
      exists_readU16 (hminPlain v hv) (hmin v hv)
    obtain ⟨maxStatusCode, h₉⟩ := exists_withDefault fun v hv =>
      exists_readU16 (hmaxPlain v hv) (hmax v hv)
    obtain ⟨minBodyLength, h₁₀⟩ := exists_option fun v hv =>
      ⟨hlengthNull v hv, exists_readUsize (hlengthPlain v hv)⟩
    have hread : readSlaFields floats a.member = some ⟨version, profileId, endpoint, method,
        responseSchema, requiredFields, maxLatencyMs, minStatusCode, maxStatusCode,
        minBodyLength⟩ :=
      readSlaFields_eq_some.mpr ⟨h₁, h₂, h₃, h₄, h₅, h₆, h₇, h₈, h₉, h₁₀⟩
    refine ⟨_, hreadSla.trans hread, (saysSla_iff hread).mpr ?_⟩
    exact (means_option_iff hschemaDistinct hschemaNull h₅).mpr hplain.responseSchema

theorem means_iff {given : Option Document} {j : Json}
    (hdistinct : ∀ v, given = some v → v.Distinct)
    (h : required (readValue floats fieldDepth) given = some j) :
    Option.Rel (Means floats) (given.or none) (some j) ↔
      ∀ v, given = some v → v.Within (Exact floats) 126 := by
  obtain ⟨v, rfl, hj⟩ := Option.bind_eq_some_iff.mp h
  have hmeans := readValue_means (hdistinct v rfl) hj
  constructor
  · rintro (hrel | -) w ⟨⟩
    exact hmeans.mp hrel
  · intro hwithin
    exact .some (hmeans.mpr (hwithin v rfl))

theorem saysDelivery_iff (hread : readDeliveryFields floats d.member = some evidence) :
    SaysDelivery floats d evidence ↔
      Option.Rel (Means floats) ((d.member "response_body").or none)
        (some evidence.responseBody) := by
  rw [readDeliveryFields_eq_some] at hread
  obtain ⟨hstatus, hlatency, -, hheaders, htimestamp⟩ := hread
  constructor
  · intro h
    exact h.responseBody
  · intro h
    exact {
      statusCode := stated_number (fun x : UInt16 => (x.toNat : ℚ)) hstatus
        fun _ _ => number_readU16
      latencyMs := stated_number (fun x : UInt64 => (x.toNat : ℚ)) hlatency
        fun _ _ => number_readU64
      responseBody := h
      responseHeaders := fun hnone => none_of_not_stated hheaders hnone
      timestamp := stated_number (fun x : Int => (x : ℚ)) htimestamp fun _ _ => number_readI64 }

theorem readsDelivery_iff (hdistinct : d.Distinct) (hvalid : allHold deliverySchema d = true) :
    ReadsDelivery floats d ↔ PlainDelivery floats d := by
  obtain ⟨hobject, hrequired, hproperties⟩ := record_holds.mp hvalid
  simp only [deliveryProperties, List.forall_mem_cons] at hproperties hrequired
  obtain ⟨hstatus, -, -, hheaders, -⟩ := hproperties
  obtain ⟨hstatusGiven, hlatencyGiven, hbodyGiven, htimestampGiven, -⟩ := hrequired
  have hreadDelivery : readDelivery floats d = readDeliveryFields floats d.member :=
    readStruct_object hdistinct hobject
  have hbodyDistinct : ∀ v, d.member "response_body" = some v → v.Distinct :=
    fun v hv => hdistinct.of_member hv
  have hheadersNull : ∀ v, d.member "response_headers" = some v → v ≠ .null :=
    fun v hv => ne_null_of_valid (hheaders v hv) (by decide)
  constructor
  · rintro ⟨evidence, hread, hsays⟩
    rw [hreadDelivery] at hread
    have hmeans := (saysDelivery_iff hread).mp hsays
    rw [readDeliveryFields_eq_some] at hread
    obtain ⟨h₁, h₂, h₃, h₄, h₅⟩ := hread
    have hbodyPlain := (means_iff hbodyDistinct h₃).mp hmeans
    have hheadersPlain : ∀ v, d.member "response_headers" = some v →
        v.Within (InRange floats) 126 := by
      intro v hv
      have hoption := withDefault_some h₄ hv
      rw [readOption_of_ne_null (hheadersNull v hv)] at hoption
      obtain ⟨map, hmap, -⟩ := Option.map_eq_some_iff.mp hoption
      exact (readMap_isSome.mp (Option.isSome_iff_exists.mpr ⟨map, hmap⟩)).2
    refine ⟨?_, of_required (fun v t ht => ⟨t, readI64_eq_some.mp ht⟩) h₅, hbodyPlain,
      hheadersPlain⟩
    simp only [List.forall_mem_cons]
    exact ⟨of_required (fun _ _ => unsigned_readU16) h₁,
      of_required (fun _ _ => unsigned_readU64) h₂, List.forall_mem_nil _⟩
  · intro hplain
    have hintegers := hplain.integers
    simp only [List.forall_mem_cons] at hintegers
    obtain ⟨hstatusPlain, hlatencyPlain, -⟩ := hintegers
    obtain ⟨statusCode, h₁⟩ := exists_required hstatusGiven fun v hv =>
      exists_readU16 (hstatusPlain v hv) (hstatus v hv)
    obtain ⟨latencyMs, h₂⟩ := exists_required hlatencyGiven fun v hv =>
      exists_readU64 (hlatencyPlain v hv)
    obtain ⟨responseBody, h₃⟩ := exists_required hbodyGiven fun v hv =>
      exists_readValue (hplain.responseBody v hv)
    obtain ⟨responseHeaders, h₄⟩ := exists_option fun v hv =>
      ⟨hheadersNull v hv, exists_readMap (hheaders v hv) (hplain.responseHeaders v hv)⟩
    obtain ⟨timestamp, h₅⟩ := exists_required htimestampGiven fun v hv =>
      exists_readI64 (hplain.timestamp v hv)
    have hread : readDeliveryFields floats d.member =
        some ⟨statusCode, latencyMs, responseBody, responseHeaders, timestamp⟩ :=
      readDeliveryFields_eq_some.mpr ⟨h₁, h₂, h₃, h₄, h₅⟩
    refine ⟨_, hreadDelivery.trans hread, (saysDelivery_iff hread).mpr ?_⟩
    exact (means_iff hbodyDistinct h₃).mpr hplain.responseBody

end
/-! ## How a run may end -/

def isParseError : OracleError → Bool
  | .slaParse _ => true
  | .deliveryParse _ => true
  | _ => false

def NoParseError {T : Type} (r : Except OracleError T) : Prop :=
  ∀ e, r = .error e → isParseError e = false

section
variable {crates : Crates} {cfg : OracleConfig} {job : EvaluationJob}

theorem noParseError_ok {T : Type} (x : T) : NoParseError (.ok x) := by
  rintro e ⟨⟩

theorem noParseError_error {T : Type} {e : OracleError} (he : isParseError e = false) :
    NoParseError (.error e : Except OracleError T) := by
  rintro e' ⟨⟩
  exact he

theorem isEligible_returns :
    (Settler.isEligible crates cfg job).Returns NoParseError := by
  unfold Settler.isEligible
  apply Prog.Returns.ask_bind
  intro r
  rcases r with e | _ | account
  · exact noParseError_error rfl
  · exact noParseError_ok false
  · dsimp only
    split
    · exact noParseError_ok false
    · split
      · exact noParseError_ok false
      split
      · exact noParseError_ok false
      split
      · exact noParseError_ok false
      apply (Prog.returns_true _).bind
      intro now _
      split
      · exact noParseError_ok false
      · exact noParseError_ok true

theorem settle_returns (approved : Bool) (reason : UInt16) (hash : Bytes32) :
    (Settler.settle crates cfg job approved reason hash).Returns NoParseError := by
  unfold Settler.settle
  apply Prog.Returns.ask_bind
  intro r
  cases r with
  | error e => exact noParseError_error rfl
  | ok blockhash =>
    apply Prog.Returns.ask_bind
    intro r
    cases r with
    | error e => exact noParseError_error rfl
    | ok sig => exact noParseError_ok _

section
variable {T : Type} {hash : Bytes32} {parse : Bytes → Except String T}
  {parseError : String → OracleError}

theorem acceptBody_noParseError
    (hparse : ∀ raw, crates.sha256 raw = hash → ∃ doc, parse raw = .ok doc) (raw : Bytes) :
    NoParseError (acceptBody crates hash parse parseError raw) := by
  unfold acceptBody
  by_cases hhash : crates.sha256 raw = hash
  · obtain ⟨doc, hdoc⟩ := hparse raw hhash
    rw [if_neg (not_not.mpr hhash), hdoc]
    exact noParseError_ok doc
  · rw [if_pos hhash]
    exact noParseError_error rfl

theorem fetchAttempts_returns
    (hparse : ∀ raw, crates.sha256 raw = hash → ∃ doc, parse raw = .ok doc)
    (auth : Option String) (url lastErr : String) :
    (fetchAttempts crates cfg hash parse parseError auth url cfg.evidenceFetchMaxRetries.toNat
      lastErr).Returns fun result => ∀ r, result = .done r → NoParseError r := by
  have hfail : ∀ (e : String) (r : Except OracleError T),
      (.next e : MirrorResult T) = .done r → NoParseError r := by
    intro e r h
    cases h
  apply Prog.Wp.returns
  refine fetchAttempts_rule (fun _ _ => True) (fun _ _ => True) ?_ ?_ ?_
    (fun _ _ _ => hfail) (fun _ _ => hfail) le_rfl trivial
  · exact fun _ _ _ => ⟨trivial, fun _ _ _ => trivial⟩
  · refine fun _ _ _ => ⟨trivial, fun reply _ _ => ⟨trivial, ?_⟩⟩
    rintro raw - r ⟨⟩
    exact acceptBody_noParseError hparse raw
  · exact fun _ _ _ _ _ _ => ⟨trivial, fun _ _ _ => trivial⟩

theorem fetchMirrors_returns
    (hparse : ∀ raw, crates.sha256 raw = hash → ∃ doc, parse raw = .ok doc)
    (auth : Option String) (bases : List String) (lastErr : String) :
    (fetchMirrors crates cfg hash parse parseError auth bases lastErr).Returns NoParseError := by
  induction bases generalizing lastErr with
  | nil => exact Prog.Returns.ask_bind fun _ => noParseError_error rfl
  | cons base bases ih =>
    unfold fetchMirrors
    apply (fetchAttempts_returns hparse auth _ lastErr).bind
    intro result hresult
    cases result with
    | done r => exact hresult r rfl
    | next e => exact ih e

theorem fetchEvidence_returns
    (hparse : ∀ raw, crates.sha256 raw = hash → ∃ doc, parse raw = .ok doc) :
    (fetchEvidence crates cfg hash parse parseError).Returns NoParseError := by
  unfold fetchEvidence authHeader
  cases cfg.evidenceRegistryAuthHeader with
  | none => exact fetchMirrors_returns hparse _ _ _
  | some auth =>
    dsimp only
    cases crates.headerValue auth with
    | error e => exact noParseError_error rfl
    | ok value => exact fetchMirrors_returns hparse _ _ _

end

theorem runPipeline_returns
    (hsla : ∀ raw, crates.sha256 raw = job.slaHash → ∃ doc, crates.parseSla raw = .ok doc)
    (hdelivery : ∀ raw, crates.sha256 raw = job.deliveryHash →
      ∃ doc, crates.parseDelivery raw = .ok doc) :
    (runPipeline crates cfg job).Returns NoParseError := by
  unfold runPipeline
  apply isEligible_returns.bind
  intro r hr
  rcases r with e | _ | _
  · exact noParseError_error (hr e rfl)
  · exact noParseError_error rfl
  apply (fetchEvidence_returns hsla).bind
  intro r hr
  rcases r with e | sla
  · exact noParseError_error (hr e rfl)
  apply (fetchEvidence_returns hdelivery).bind
  intro r hr
  rcases r with e | evidence
  · exact noParseError_error (hr e rfl)
  apply (settle_returns _ _ _).bind
  intro r hr
  rcases r with e | sig
  · exact noParseError_error (hr e rfl)
  · exact noParseError_ok _

end
structure ParsesTexts (crates : Crates) (floats : Floats) (isText : Bytes → JsonValue → Prop) :
    Prop where
  sla : ∀ raw v, isText raw v → (crates.parseSla raw).toOption = readSla floats v.doc
  delivery : ∀ raw v, isText raw v → (crates.parseDelivery raw).toOption = readDelivery floats v.doc

/-- The hashes of the job are those of texts of the two documents only. -/
structure Commits (crates : Crates) (isText : Bytes → JsonValue → Prop) (job : EvaluationJob)
    (a d : JsonValue) : Prop where
  sla : ∀ raw, crates.sha256 raw = job.slaHash → isText raw a
  delivery : ∀ raw, crates.sha256 raw = job.deliveryHash → isText raw d

/-- No run on the two documents ends with a parse error, whatever the mirrors and the node reply. -/
def NeverParseError (floats : Floats) (a d : JsonValue) : Prop :=
  ∀ (crates : Crates) (cfg : OracleConfig) (job : EvaluationJob)
    (isText : Bytes → JsonValue → Prop), ParsesTexts crates floats isText →
    Commits crates isText job a d → (runPipeline crates cfg job).Returns NoParseError

theorem ok_of_toOption {T : Type} {r : Except String T} {x : T} (h : r.toOption = some x) :
    ∃ doc, r = .ok doc := by
  cases r with
  | ok doc => exact ⟨doc, rfl⟩
  | error e => cases h

theorem neverParseError {floats : Floats} {a d : JsonValue} (hsla : ReadsSla floats a.doc)
    (hdelivery : ReadsDelivery floats d.doc) : NeverParseError floats a d := by
  intro crates cfg job isText hparses hcommits
  obtain ⟨sla, hreadSla, -⟩ := hsla
  obtain ⟨evidence, hreadDelivery, -⟩ := hdelivery
  apply runPipeline_returns
  · intro raw hraw
    have htext := hparses.sla raw a (hcommits.sla raw hraw)
    exact ok_of_toOption (htext.trans hreadSla)
  · intro raw hraw
    have htext := hparses.delivery raw d (hcommits.delivery raw hraw)
    exact ok_of_toOption (htext.trans hreadDelivery)

/-- A conforming document is read as it is written exactly if it is plain. -/
theorem conforming_reads_iff (floats : Floats) (a d : JsonValue) :
    (Valid slaSchema a → (ReadsSla floats a.doc ↔ PlainSla floats a.doc)) ∧
      (Valid deliverySchema d → (ReadsDelivery floats d.doc ↔ PlainDelivery floats d.doc)) ∧
      (Valid slaSchema a → Valid deliverySchema d →
        ((ReadsSla floats a.doc ∧ ReadsDelivery floats d.doc ∧ NeverParseError floats a d) ↔
          PlainSla floats a.doc ∧ PlainDelivery floats d.doc)) := by
  refine ⟨readsSla_iff a.distinct, readsDelivery_iff d.distinct, fun ha hd => ?_⟩
  rw [← readsSla_iff a.distinct ha, ← readsDelivery_iff d.distinct hd]
  constructor
  · rintro ⟨hsla, hdelivery, -⟩
    exact ⟨hsla, hdelivery⟩
  · rintro ⟨hsla, hdelivery⟩
    exact ⟨hsla, hdelivery, neverParseError hsla hdelivery⟩

/-! ## The minimal documents, under their hashes -/

def slaMinText : String :=
  "\x7b\n" ++
    "  \"version\": 1,\n" ++
    "  \"profile_id\": \"x402/oracle-qa/api-quality/v1\",\n" ++
    "  \"endpoint\": \"https://api.example.com/v1/resource\",\n" ++
    "  \"method\": \"GET\",\n" ++
    "  \"required_fields\": [\"status\"],\n" ++
    "  \"max_latency_ms\": 5000,\n" ++
    "  \"min_status_code\": 200,\n" ++
    "  \"max_status_code\": 299\n" ++
    "\x7d\n"

def deliveryMinText : String :=
  "\x7b\n" ++
    "  \"status_code\": 200,\n" ++
    "  \"latency_ms\": 120,\n" ++
    "  \"response_body\": \x7b \"status\": \"ok\", \"data\": \x7b\x7d \x7d,\n" ++
    "  \"response_headers\": \x7b \"content-type\": \"application/json\" \x7d,\n" ++
    "  \"timestamp\": 1712345678\n" ++
    "\x7d\n"

def utf8 (s : String) : Bytes := s.toUTF8.data.toList

def slaMinDigest : Bytes32 :=
  ⟨[94, 198, 114, 38, 216, 182, 151, 149, 162, 58, 253, 194, 4, 23, 184, 231,
    137, 247, 133, 204, 143, 83, 40, 86, 194, 196, 40, 26, 230, 12, 86, 71], rfl⟩

def deliveryMinDigest : Bytes32 :=
  ⟨[238, 80, 87, 4, 37, 2, 36, 241, 174, 40, 162, 75, 28, 216, 161, 4,
    222, 234, 81, 251, 129, 118, 193, 200, 15, 43, 69, 63, 159, 207, 23, 190], rfl⟩

def minimalSha256 (raw : Bytes) : Bytes32 :=
  if raw = utf8 slaMinText then slaMinDigest
  else if raw = utf8 deliveryMinText then deliveryMinDigest
  else byte32 0

def minimalSla (raw : Bytes) : Except String SlaDocument :=
  if raw = utf8 slaMinText then .ok slaMinRead else .error "missing field"

def minimalDelivery (raw : Bytes) : Except String DeliveryEvidence :=
  if raw = utf8 deliveryMinText then .ok deliveryMinRead else .error "missing field"

def Crates.minimal : Crates :=
  { Crates.toy with
    sha256 := minimalSha256
    parseSla := minimalSla
    parseDelivery := minimalDelivery }

def minimalJob : EvaluationJob :=
  { EvaluationJob.toy with slaHash := slaMinDigest, deliveryHash := deliveryMinDigest }

def minimalText (raw : Bytes) (v : JsonValue) : Prop :=
  (raw = utf8 slaMinText ∧ v = slaMin) ∨ (raw = utf8 deliveryMinText ∧ v = deliveryMin)

theorem texts_differ : utf8 slaMinText ≠ utf8 deliveryMinText := by
  intro h
  have htext : slaMinText = deliveryMinText := utf8_injective h
  exact absurd htext (by decide)

theorem minimal_parsed : ParsesTexts Crates.minimal noFloats minimalText where
  sla := by
    rintro raw v (⟨rfl, rfl⟩ | ⟨rfl, rfl⟩)
    · have hparse : minimalSla (utf8 slaMinText) = .ok slaMinRead := if_pos rfl
      rw [show Crates.minimal.parseSla = minimalSla from rfl, hparse]
      rfl
    · have hparse : minimalSla (utf8 deliveryMinText) = .error "missing field" :=
        if_neg texts_differ.symm
      rw [show Crates.minimal.parseSla = minimalSla from rfl, hparse]
      rfl
  delivery := by
    rintro raw v (⟨rfl, rfl⟩ | ⟨rfl, rfl⟩)
    · have hparse : minimalDelivery (utf8 slaMinText) = .error "missing field" :=
        if_neg texts_differ
      rw [show Crates.minimal.parseDelivery = minimalDelivery from rfl, hparse]
      rfl
    · have hparse : minimalDelivery (utf8 deliveryMinText) = .ok deliveryMinRead := if_pos rfl
      rw [show Crates.minimal.parseDelivery = minimalDelivery from rfl, hparse]
      rfl

theorem minimal_committed : Commits Crates.minimal minimalText minimalJob slaMin deliveryMin where
  sla := by
    intro raw (hraw : minimalSha256 raw = slaMinDigest)
    unfold minimalSha256 at hraw
    split at hraw
    · next h => exact Or.inl ⟨h, rfl⟩
    · split at hraw <;> exact absurd hraw (by decide)
  delivery := by
    intro raw (hraw : minimalSha256 raw = deliveryMinDigest)
    unfold minimalSha256 at hraw
    split at hraw
    · exact absurd hraw (by decide)
    · split at hraw
      · next h => exact Or.inr ⟨h, rfl⟩
      · exact absurd hraw (by decide)

theorem slaMin_plain : PlainSla noFloats slaMin.doc where
  integers := by
    simp only [List.forall_mem_cons]
    refine ⟨?_, ?_, ?_, ?_, ?_, List.forall_mem_nil _⟩
    · rintro v ⟨⟩
      exact ⟨1, by decide, rfl⟩
    · rintro v ⟨⟩
      exact ⟨5000, by decide, rfl⟩
    · rintro v ⟨⟩
      exact ⟨200, by decide, rfl⟩
    · rintro v ⟨⟩
      exact ⟨299, by decide, rfl⟩
    · rintro v ⟨⟩
  responseSchema := by rintro v ⟨⟩

theorem deliveryMin_plain : PlainDelivery noFloats deliveryMin.doc where
  integers := by
    simp only [List.forall_mem_cons]
    refine ⟨?_, ?_, List.forall_mem_nil _⟩
    · rintro v ⟨⟩
      exact ⟨200, by decide, rfl⟩
    · rintro v ⟨⟩
      exact ⟨120, by decide, rfl⟩
  timestamp := by
    rintro v ⟨⟩
    exact ⟨1712345678, by decide, rfl⟩
  responseBody := by
    rintro v ⟨⟩
    apply Document.Within.object
    simp [Document.Within.string, Document.Within.object]
  responseHeaders := by
    rintro v ⟨⟩
    apply Document.Within.object
    simp [Document.Within.string]

theorem conforming_reads_iff_min :
    (ReadsSla noFloats slaMin.doc ∧ ReadsDelivery noFloats deliveryMin.doc) ∧
      (runPipeline Crates.minimal .toy minimalJob).Returns NoParseError := by
  obtain ⟨-, -, hpair⟩ := conforming_reads_iff noFloats slaMin deliveryMin
  have hiff := hpair (by decide +kernel) (by decide +kernel)
  obtain ⟨hsla, hdelivery, hnever⟩ := hiff.mpr ⟨slaMin_plain, deliveryMin_plain⟩
  exact ⟨⟨hsla, hdelivery⟩,
    hnever Crates.minimal .toy minimalJob minimalText minimal_parsed minimal_committed⟩

def decimalLatency : Numeral := ⟨false, 250, [0], none⟩

def decimalSla : JsonValue where
  doc := .object [
    ("version", .number (.ofInt 1)),
    ("endpoint", .string "https://api.example.com/v1/ping"),
    ("method", .string "GET"),
    ("max_latency_ms", .number decimalLatency)]
  distinct := by
    apply Document.Distinct.object (by decide)
    simp [Document.Distinct.number, Document.Distinct.string]

def decimalFloats : Floats where
  read n := if n = decimalLatency then some 0x406F400000000000 else none
  value bits := if bits = 0x406F400000000000 then 250 else 0

theorem conforming_unread :
    ¬ ∀ (floats : Floats) (a d : JsonValue),
      (Valid slaSchema a → ReadsSla floats a.doc) ∧
      (Valid deliverySchema d → ReadsDelivery floats d.doc) ∧
      (Valid slaSchema a → Valid deliverySchema d → NeverParseError floats a d) := by
  intro h
  obtain ⟨hsla, -, -⟩ := h decimalFloats decimalSla deliveryMin
  obtain ⟨sla, hread, -⟩ := hsla (by decide +kernel)
  have hnone : readSla decimalFloats decimalSla.doc = none := rfl
  rw [hnone] at hread
  cases hread

end OracleQa.Readable
