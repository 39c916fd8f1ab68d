import OracleQa.Model.Config

/-! Exactly which configurations the variables of a host can give: whatever they hold, the settings
that are read are in this range, and each configuration in the range is read from some variables. -/

namespace OracleQa.Settings
open Config Text

/-- The text can be the value of a variable. -/
def IsValue (s : String) : Prop := Char.ofNat 0 ∉ s.toList

instance (s : String) : Decidable (IsValue s) := inferInstanceAs (Decidable (_ ∉ _))

def Environment (env : String → Option String) : Prop := ∀ name s, env name = some s → IsValue s

structure Trimmed (s : String) : Prop where
  trim : trimText s = s
  nonempty : s ≠ ""
  value : IsValue s

structure Listed (s : String) : Prop where
  trimmed : Trimmed s
  comma : ',' ∉ s.toList

/-- The configurations that the host, with its files, its database and the escrow program that the
oracle is built for, can be made to give. -/
structure Configurable (crates : Crates) (host : Host) (cfg : Configuration) : Prop where
  keypair : ∃ path, IsValue path ∧ host.readKeypairFile path = .ok cfg.oraclePubkey
  program : cfg.escrowProgramId = host.escrowApiId ∨
    ∃ text, IsValue text ∧ crates.pubkeyFromStr text = some cfg.escrowProgramId
  urls : (∃ url, IsValue url ∧ cfg.evidenceRegistryUrls = [url]) ∨
    cfg.evidenceRegistryUrls ≠ [] ∧ ∀ url ∈ cfg.evidenceRegistryUrls, Listed url
  header : ∀ header, cfg.evidenceRegistryAuthHeader = some header → Trimmed header
  database : ∀ url, cfg.databaseUrl = some url → Trimmed url
  pool : cfg.databaseEnabled = cfg.databaseUrl.any host.connect
  origins : ∀ origin ∈ cfg.corsAllowedOrigins, Listed origin
  rpc : IsValue cfg.solanaRpcUrl
  ws : IsValue cfg.solanaWsUrl
  bind : IsValue cfg.bindAddr
  rateLimit : cfg.manualEvaluateRateLimit < 2 ^ 64
  rateWindow : cfg.manualEvaluateRateWindowMs < 2 ^ 64
  capacity : cfg.jobChannelCapacity < 2 ^ 64
  lookback : cfg.backfillLookbackSignatures < 2 ^ 64

variable {env : String → Option String} {name s : String}

/-! ## What is read -/

theorem except_bind_ok {ε α β : Type} {x : Except ε α} {f : α → Except ε β} {b : β}
    (h : x >>= f = .ok b) : ∃ a, x = .ok a ∧ f a = .ok b := by
  cases x with
  | error e => cases h
  | ok a => exact ⟨a, rfl, h⟩

theorem trimText_trimText (s : String) : trimText (trimText s) = trimText s := by
  simp only [trimText, String.toList_ofList, trim_trim]

theorem trim_sublist (cs : List Char) : (trim cs).Sublist cs :=
  (List.rdropWhile_prefix _ _).sublist.trans (List.dropWhile_suffix _).sublist

theorem IsValue.trim (h : IsValue s) : IsValue (trimText s) := by
  unfold IsValue trimText
  rw [String.toList_ofList]
  exact fun hzero => h ((trim_sublist s.toList).mem hzero)

theorem nonBlank_trimmed (henv : Environment env) (h : nonBlank env name = some s) :
    Trimmed s := by
  obtain ⟨htext, hne⟩ := Option.filter_eq_some_iff.mp h
  obtain ⟨raw, hraw, rfl⟩ := Option.map_eq_some_iff.mp htext
  exact ⟨trimText_trimText raw, of_decide_eq_true hne, (henv name raw hraw).trim⟩

theorem getD_value {default : String} (henv : Environment env) (hdefault : IsValue default) :
    IsValue ((env name).getD default) := by
  cases h : env name with
  | none => exact hdefault
  | some s => exact henv name s h

theorem number_lt {default : Nat} (hdefault : default < 2 ^ 64) :
    number env parseU64 name default < 2 ^ 64 := by
  unfold number
  cases h : (env name).bind parseU64 with
  | none => exact hdefault
  | some n =>
    obtain ⟨s, -, hs⟩ := Option.bind_eq_some_iff.mp h
    have hlt := parseU64_lt s
    rw [hs] at hlt
    exact hlt

theorem splitOn_part {cs part : List Char} {c : Char} (h : part ∈ cs.splitOn c) :
    c ∉ part ∧ part ⊆ cs := by
  induction cs generalizing part with
  | nil =>
    rw [List.splitOn_nil, List.mem_singleton] at h
    rw [h]
    exact ⟨List.not_mem_nil, List.nil_subset _⟩
  | cons x xs ih =>
    rw [List.splitOn_cons_eq_if_modifyHead] at h
    split at h
    · rcases List.mem_cons.mp h with rfl | h
      · exact ⟨List.not_mem_nil, List.nil_subset _⟩
      · exact ⟨(ih h).1, List.subset_cons_of_subset x (ih h).2⟩
    · next hx =>
      obtain ⟨p, ps, hps⟩ := List.exists_cons_of_ne_nil (List.splitOn_ne_nil c xs)
      rw [hps, List.modifyHead_cons] at h
      rw [hps] at ih
      rcases List.mem_cons.mp h with rfl | h
      · obtain ⟨hp, hsubset⟩ := ih List.mem_cons_self
        refine ⟨?_, List.cons_subset_cons x hsubset⟩
        rw [List.mem_cons, not_or]
        exact ⟨fun heq => hx (by rw [heq, BEq.rfl]), hp⟩
      · obtain ⟨hp, hsubset⟩ := ih (List.mem_cons_of_mem p h)
        exact ⟨hp, List.subset_cons_of_subset x hsubset⟩

theorem splitList_listed {raw : String} (hraw : IsValue raw) (h : s ∈ splitList raw) :
    Listed s := by
  obtain ⟨hmem, hne⟩ := List.mem_filter.mp h
  obtain ⟨part, hpart, rfl⟩ := List.mem_map.mp hmem
  obtain ⟨hcomma, hsubset⟩ := splitOn_part hpart
  refine ⟨⟨?_, of_decide_eq_true hne, ?_⟩, ?_⟩
  · simp only [trimText, String.toList_ofList, trim_trim]
  · unfold IsValue
    rw [String.toList_ofList]
    exact fun hzero => hraw (hsubset ((trim_sublist part).mem hzero))
  · rw [String.toList_ofList]
    exact fun h => hcomma ((trim_sublist part).mem h)

theorem evidenceRegistryUrls_range (henv : Environment env) :
    (∃ url, IsValue url ∧ evidenceRegistryUrls env = [url]) ∨
      evidenceRegistryUrls env ≠ [] ∧ ∀ url ∈ evidenceRegistryUrls env, Listed url := by
  have hsingle : IsValue ((env "EVIDENCE_REGISTRY_URL").getD "http://localhost:4021") :=
    getD_value henv (by decide +kernel)
  unfold evidenceRegistryUrls
  dsimp only
  split
  · next raw hraw =>
    split
    · exact Or.inl ⟨_, hsingle, rfl⟩
    · next hne => exact Or.inr ⟨hne, fun _ => splitList_listed (henv _ raw hraw)⟩
  · exact Or.inl ⟨_, hsingle, rfl⟩

/-! ## Variables for a configuration -/

def Plain (cs : List Char) : Prop := ∀ c ∈ cs, isWhitespace c = false ∧ c ≠ Char.ofNat 0

theorem Plain.value {cs : List Char} (h : Plain cs) : IsValue (String.ofList cs) := by
  unfold IsValue
  rw [String.toList_ofList]
  exact fun hzero => (h _ hzero).2 rfl

theorem Plain.trimmed {cs : List Char} (h : Plain cs) (hne : cs ≠ []) :
    Trimmed (String.ofList cs) := by
  have hstart : cs.dropWhile isWhitespace = cs := by
    obtain ⟨c, rest, rfl⟩ := List.exists_cons_of_ne_nil hne
    rw [List.dropWhile_cons_of_neg]
    rw [(h c List.mem_cons_self).1]
    exact Bool.false_ne_true
  have hend : cs.rdropWhile isWhitespace = cs := by
    rw [List.rdropWhile_eq_self_iff]
    intro hlast
    rw [(h _ (List.getLast_mem hlast)).1]
    exact Bool.false_ne_true
  refine ⟨?_, ?_, h.value⟩
  · rw [trimText, String.toList_ofList, trim, hstart, hend]
  · rw [ne_eq, ← String.toList_inj, String.toList_ofList]
    exact hne

theorem plain_hexEncode (bs : List UInt8) : Plain (bs.flatMap hexByte) := by
  have hdigit : ∀ d : Fin 16, isWhitespace (Nat.digitChar d) = false ∧
      Nat.digitChar d ≠ Char.ofNat 0 := by decide
  intro c hc
  obtain ⟨b, -, hb⟩ := List.mem_flatMap.mp hc
  have hlt : b.toNat < 256 := b.toNat_lt
  rcases List.mem_cons.mp hb with rfl | hb
  · exact hdigit ⟨b.toNat / 16, by omega⟩
  · rw [List.mem_singleton.mp hb]
    exact hdigit ⟨b.toNat % 16, by omega⟩

theorem repr_value (n : Nat) : IsValue n.repr := by
  unfold IsValue
  rw [Nat.toList_repr]
  intro hzero
  have hdigit : (Char.ofNat 0).isDigit := Nat.isDigit_of_mem_toDigits (by decide) (by decide) hzero
  exact absurd hdigit (by decide)

theorem nonBlank_of_trimmed (h : env name = some s) (hs : Trimmed s) :
    nonBlank env name = some s := by
  rw [nonBlank, h, Option.map_some, hs.trim]
  exact Option.filter_eq_some_iff.mpr ⟨rfl, decide_eq_true hs.nonempty⟩

theorem number_repr {n default : Nat} (h : env name = some n.repr) (hn : n < 2 ^ 64) :
    number env parseU64 name default = n := by
  rw [number, h, Option.bind_some, parseU64_repr hn, Option.getD_some]

theorem number_repr_u32 {n default : Nat} (h : env name = some n.repr) (hn : n < 2 ^ 32) :
    number env parseU32 name default = n := by
  have hparse : parseU32 n.repr = some n := by
    rw [parseU32, parseU64_repr (hn.trans (by decide))]
    exact Option.filter_eq_some_iff.mpr ⟨rfl, decide_eq_true hn⟩
  rw [number, h, Option.bind_some, hparse, Option.getD_some]

def flag (b : Bool) : String := if b then "true" else "false"

theorem envBool_flag {b default : Bool} (h : env name = some (flag b)) :
    envBool env name default = b := by
  rw [envBool, h, Option.map_some, Option.getD_some]
  cases b <;> decide +kernel

theorem flag_value (b : Bool) : IsValue (flag b) := by cases b <;> decide +kernel

def joined (urls : List String) : String :=
  String.ofList ([','].intercalate (urls.map String.toList))

theorem splitList_joined {urls : List String} (h : ∀ url ∈ urls, Listed url) :
    splitList (joined urls) = urls := by
  by_cases hne : urls = []
  · rw [hne]
    decide +kernel
  have hparts : ([','].intercalate (urls.map String.toList)).splitOn ',' =
      urls.map String.toList := by
    refine List.splitOn_intercalate ',' ?_ (by simpa using hne)
    exact List.forall_mem_map.mpr fun url hurl => (h url hurl).comma
  have htrim : ∀ url ∈ urls, String.ofList (trim url.toList) = url :=
    fun url hurl => (h url hurl).trimmed.trim
  rw [splitList, joined, String.toList_ofList, hparts, List.map_map]
  have hmap : urls.map ((fun part => String.ofList (trim part)) ∘ String.toList) = urls :=
    (List.map_congr_left htrim).trans (List.map_id urls)
  rw [hmap]
  exact List.filter_eq_self.mpr fun url hurl => decide_eq_true (h url hurl).trimmed.nonempty

theorem joined_value {urls : List String} (h : ∀ url ∈ urls, Listed url) :
    IsValue (joined urls) := by
  unfold IsValue joined
  rw [String.toList_ofList]
  induction urls with
  | nil => exact List.not_mem_nil
  | cons url urls ih =>
    have hurl := (h url List.mem_cons_self).trimmed.value
    have hurls := ih fun url' hurl' => h url' (List.mem_cons_of_mem url hurl')
    cases urls with
    | nil => exact fun hzero => hurl (by simpa using hzero)
    | cons url' urls =>
      rw [List.map_cons, List.map_cons, List.intercalate_cons_cons] at *
      intro hzero
      simp only [List.mem_append, List.mem_singleton] at hzero
      rcases hzero with (hzero | hzero) | hzero
      · exact hurl hzero
      · exact absurd hzero (by decide)
      · exact hurls hzero

theorem hexEncode_trimmed {bs : List UInt8} (hne : bs ≠ []) : Trimmed (hexEncode bs) := by
  refine (plain_hexEncode bs).trimmed ?_
  obtain ⟨b, rest, rfl⟩ := List.exists_cons_of_ne_nil hne
  exact List.cons_ne_nil _ _

theorem operatorTokenSha256_hex {crates : Crates} {digest : Option Bytes32}
    (h : env "ORACLE_OPERATOR_TOKEN_SHA256" = digest.map fun d => hexEncode d.toList)
    (htoken : env "ORACLE_OPERATOR_TOKEN" = none) :
    operatorTokenSha256 env crates = .ok digest := by
  cases digest with
  | none =>
    have hnone : nonBlank env "ORACLE_OPERATOR_TOKEN_SHA256" = none := by
      rw [nonBlank, h, Option.map_none, Option.map_none, Option.filter_none]
    rw [operatorTokenSha256, hnone]
    dsimp only
    rw [nonBlank, htoken]
    rfl
  | some d =>
    have hlength : d.toList.length = 32 := d.toList_length
    have hne : d.toList ≠ [] := List.ne_nil_of_length_pos (by omega)
    have hhex := nonBlank_of_trimmed h (hexEncode_trimmed hne)
    rw [operatorTokenSha256, hhex]
    dsimp only
    rw [hexDecode_hexEncode]
    exact dif_pos hlength

def exported (cfg : Configuration) (path : String) (program : Option String) :
    String → Option String
  | "SOLANA_RPC_URL" => some cfg.solanaRpcUrl
  | "SOLANA_WS_URL" => some cfg.solanaWsUrl
  | "ORACLE_KEYPAIR_PATH" => some path
  | "ESCROW_PROGRAM_ID" => program
  | "BIND_ADDR" => some cfg.bindAddr
  | "EVALUATION_TIMEOUT_MS" => some cfg.evaluationTimeoutMs.toNat.repr
  | "EVIDENCE_REGISTRY_URL" => cfg.evidenceRegistryUrls.head?
  | "EVIDENCE_REGISTRY_URLS" =>
    if cfg.evidenceRegistryUrls.length = 1 then none else some (joined cfg.evidenceRegistryUrls)
  | "EVIDENCE_REGISTRY_AUTH_HEADER" => cfg.evidenceRegistryAuthHeader
  | "EVIDENCE_FETCH_MAX_RETRIES" => some cfg.evidenceFetchMaxRetries.toNat.repr
  | "EVIDENCE_FETCH_RETRY_BASE_MS" => some cfg.evidenceFetchRetryBaseMs.toNat.repr
  | "DATABASE_URL" => cfg.databaseUrl
  | "ORACLE_OPERATOR_TOKEN_SHA256" => cfg.operatorTokenSha256.map fun d => hexEncode d.toList
  | "ORACLE_ALLOW_UNAUTHENTICATED_MANUAL_EVALUATE" =>
    some (flag cfg.allowUnauthenticatedManualEvaluate)
  | "ORACLE_CORS_ALLOWED_ORIGINS" => some (joined cfg.corsAllowedOrigins)
  | "ORACLE_MANUAL_EVALUATE_RATE_LIMIT" => some cfg.manualEvaluateRateLimit.repr
  | "ORACLE_MANUAL_EVALUATE_RATE_WINDOW_MS" => some cfg.manualEvaluateRateWindowMs.repr
  | "ORACLE_STRICT_PROFILE" => some (flag cfg.strictProfile)
  | "ORACLE_DEAD_LETTER_MAX_ATTEMPTS" => some cfg.deadLetterMaxAttempts.toNat.repr
  | "ORACLE_JOB_CHANNEL_CAPACITY" => some cfg.jobChannelCapacity.repr
  | "ORACLE_REQUIRE_EVENT_MATCH" => some (flag cfg.requireEventMatch)
  | "ORACLE_BACKFILL_LOOKBACK_SIGNATURES" => some cfg.backfillLookbackSignatures.repr
  | _ => none

section
variable {crates : Crates} {host : Host} {cfg : Configuration} {path : String}
  {program : Option String}

theorem exported_environment (h : Configurable crates host cfg) (hpath : IsValue path)
    (hprogram : ∀ text, program = some text → IsValue text) :
    Environment (exported cfg path program) := by
  have hnumber : ∀ {n : Nat} {s : String}, some n.repr = some s → IsValue s := by
    intro n s hs
    exact Option.some.inj hs ▸ repr_value n
  have hflag : ∀ {b : Bool} {s : String}, some (flag b) = some s → IsValue s := by
    intro b s hs
    exact Option.some.inj hs ▸ flag_value b
  have hurl : ∀ s, cfg.evidenceRegistryUrls.head? = some s → IsValue s := by
    intro s hs
    have hmem := List.mem_of_mem_head? hs
    rcases h.urls with ⟨url, hurl, hone⟩ | ⟨-, hlisted⟩
    · rw [hone, List.mem_singleton] at hmem
      exact hmem ▸ hurl
    · exact (hlisted s hmem).trimmed.value
  have hurls : ∀ s, (if cfg.evidenceRegistryUrls.length = 1 then none
      else some (joined cfg.evidenceRegistryUrls)) = some s → IsValue s := by
    intro s hs
    obtain ⟨hone, hs⟩ := Option.ite_none_left_eq_some.mp hs
    obtain rfl := Option.some.inj hs
    refine joined_value (h.urls.resolve_left ?_).2
    rintro ⟨url, -, hsingle⟩
    exact hone (by rw [hsingle, List.length_singleton])
  intro name s hs
  unfold exported at hs
  split at hs
  all_goals first | exact hnumber hs | exact hflag hs | skip
  · exact Option.some.inj hs ▸ h.rpc
  · exact Option.some.inj hs ▸ h.ws
  · exact Option.some.inj hs ▸ hpath
  · exact hprogram s hs
  · exact Option.some.inj hs ▸ h.bind
  · exact hurl s hs
  · exact hurls s hs
  · exact (h.header s hs).value
  · exact (h.database s hs).value
  · obtain ⟨digest, -, rfl⟩ := Option.map_eq_some_iff.mp hs
    exact (plain_hexEncode digest.toList).value
  · exact Option.some.inj hs ▸ joined_value h.origins
  · cases hs

theorem exported_urls (h : Configurable crates host cfg) :
    evidenceRegistryUrls (exported cfg path program) = cfg.evidenceRegistryUrls := by
  have hurl : exported cfg path program "EVIDENCE_REGISTRY_URL" =
      cfg.evidenceRegistryUrls.head? := rfl
  have hurls : exported cfg path program "EVIDENCE_REGISTRY_URLS" =
      if cfg.evidenceRegistryUrls.length = 1 then none
      else some (joined cfg.evidenceRegistryUrls) := rfl
  by_cases hone : cfg.evidenceRegistryUrls.length = 1
  · obtain ⟨url, hsingle⟩ := List.length_eq_one_iff.mp hone
    rw [evidenceRegistryUrls, hurls, if_pos hone, hurl, hsingle]
    rfl
  · -- one URL alone may be any text, several are listed
    have hseveral : cfg.evidenceRegistryUrls ≠ [] ∧ ∀ url ∈ cfg.evidenceRegistryUrls, Listed url :=
      h.urls.resolve_left fun ⟨url, _, hsingle⟩ =>
        hone (by rw [hsingle, List.length_singleton])
    have hsplit := splitList_joined hseveral.2
    rw [evidenceRegistryUrls, hurls, if_neg hone]
    dsimp only
    rw [hsplit, if_neg hseveral.1]

theorem nonBlank_of_value {value : Option String} (hname : env name = value)
    (h : ∀ s, value = some s → Trimmed s) : nonBlank env name = value := by
  cases value with
  | none => rw [nonBlank, hname, Option.map_none, Option.filter_none]
  | some s => exact nonBlank_of_trimmed hname (h s rfl)

theorem fromEnv_exported (h : Configurable crates host cfg)
    (hkeypair : host.readKeypairFile path = .ok cfg.oraclePubkey)
    (hprogram : escrowProgramId crates { host with env := exported cfg path program } =
      .ok cfg.escrowProgramId) :
    Configuration.fromEnv crates { host with env := exported cfg path program } = .ok cfg := by
  have hkey : oraclePubkey { host with env := exported cfg path program } =
      .ok cfg.oraclePubkey := by
    have hpath : exported cfg path program "ORACLE_KEYPAIR_PATH" = some path := rfl
    simp only [oraclePubkey, hpath, hkeypair]
  have hdigest : operatorTokenSha256 (exported cfg path program) crates =
      .ok cfg.operatorTokenSha256 := operatorTokenSha256_hex rfl rfl
  have htimeout : number (exported cfg path program) parseU64 "EVALUATION_TIMEOUT_MS" 30000 =
      cfg.evaluationTimeoutMs.toNat := number_repr rfl (UInt64.toNat_lt _)
  have hretries : number (exported cfg path program) parseU32 "EVIDENCE_FETCH_MAX_RETRIES" 3 =
      cfg.evidenceFetchMaxRetries.toNat := number_repr_u32 rfl (UInt32.toNat_lt _)
  have hbase : number (exported cfg path program) parseU64 "EVIDENCE_FETCH_RETRY_BASE_MS" 200 =
      cfg.evidenceFetchRetryBaseMs.toNat := number_repr rfl (UInt64.toNat_lt _)
  have hlimit : number (exported cfg path program) parseU64 "ORACLE_MANUAL_EVALUATE_RATE_LIMIT"
      30 = cfg.manualEvaluateRateLimit := number_repr rfl h.rateLimit
  have hwindow : number (exported cfg path program) parseU64
      "ORACLE_MANUAL_EVALUATE_RATE_WINDOW_MS" 60000 = cfg.manualEvaluateRateWindowMs :=
    number_repr rfl h.rateWindow
  have hattempts : number (exported cfg path program) parseU32 "ORACLE_DEAD_LETTER_MAX_ATTEMPTS"
      5 = cfg.deadLetterMaxAttempts.toNat := number_repr_u32 rfl (UInt32.toNat_lt _)
  have hcapacity : number (exported cfg path program) parseU64 "ORACLE_JOB_CHANNEL_CAPACITY" 256 =
      cfg.jobChannelCapacity := number_repr rfl h.capacity
  have hlookback : number (exported cfg path program) parseU64
      "ORACLE_BACKFILL_LOOKBACK_SIGNATURES" 2000 = cfg.backfillLookbackSignatures :=
    number_repr rfl h.lookback
  have hopen : envBool (exported cfg path program) "ORACLE_ALLOW_UNAUTHENTICATED_MANUAL_EVALUATE"
      false = cfg.allowUnauthenticatedManualEvaluate := envBool_flag rfl
  have hstrict : envBool (exported cfg path program) "ORACLE_STRICT_PROFILE" true =
      cfg.strictProfile := envBool_flag rfl
  have hmatch : envBool (exported cfg path program) "ORACLE_REQUIRE_EVENT_MATCH" false =
      cfg.requireEventMatch := envBool_flag rfl
  have hheader : nonBlank (exported cfg path program) "EVIDENCE_REGISTRY_AUTH_HEADER" =
      cfg.evidenceRegistryAuthHeader := nonBlank_of_value rfl h.header
  have hdatabase : nonBlank (exported cfg path program) "DATABASE_URL" = cfg.databaseUrl :=
    nonBlank_of_value rfl h.database
  have horigins : exported cfg path program "ORACLE_CORS_ALLOWED_ORIGINS" =
      some (joined cfg.corsAllowedOrigins) := rfl
  have hrpc : exported cfg path program "SOLANA_RPC_URL" = some cfg.solanaRpcUrl := rfl
  have hws : exported cfg path program "SOLANA_WS_URL" = some cfg.solanaWsUrl := rfl
  have hbind : exported cfg path program "BIND_ADDR" = some cfg.bindAddr := rfl
  have hconfig : fromEnv crates { host with env := exported cfg path program } =
      .ok cfg.toOracleConfig := by
    unfold fromEnv
    dsimp only
    rw [hkey, hprogram, hdigest, htimeout, exported_urls h, hheader, hretries, hbase, hdatabase,
      hopen, hlimit, hwindow, hstrict, hattempts, hcapacity, hmatch, hlookback,
      UInt64.ofNat_toNat, UInt64.ofNat_toNat, UInt32.ofNat_toNat, UInt32.ofNat_toNat, ← h.pool]
    rfl
  unfold Configuration.fromEnv
  dsimp only
  rw [hconfig, hrpc, hws, hbind, hdatabase, horigins, Option.getD_some, Option.getD_some,
    Option.getD_some, Option.getD_some, splitList_joined h.origins]
  rfl

theorem exists_environment (h : Configurable crates host cfg) :
    ∃ env, Environment env ∧ Configuration.fromEnv crates { host with env := env } = .ok cfg := by
  obtain ⟨path, hpath, hkeypair⟩ := h.keypair
  rcases h.program with hid | ⟨text, htext, hparse⟩
  · refine ⟨exported cfg path none, exported_environment h hpath (fun _ hnone => by cases hnone),
      fromEnv_exported h hkeypair ?_⟩
    exact congrArg Except.ok hid.symm
  · refine ⟨exported cfg path (some text), exported_environment h hpath ?_,
      fromEnv_exported h hkeypair ?_⟩
    · intro s hs
      exact Option.some.inj hs ▸ htext
    · have hvalue : exported cfg path (some text) "ESCROW_PROGRAM_ID" = some text := rfl
      simp only [escrowProgramId, hvalue, hparse]

theorem oraclePubkey_ok {key : Pubkey} (henv : Environment host.env)
    (h : oraclePubkey host = .ok key) :
    ∃ path, IsValue path ∧ host.readKeypairFile path = .ok key := by
  unfold oraclePubkey at h
  split at h
  · cases h
  · next path hpath =>
    split at h
    · next key' hread =>
      obtain rfl := Except.ok.inj h
      exact ⟨path, henv _ path hpath, hread⟩
    · cases h

theorem escrowProgramId_ok {key : Pubkey} (henv : Environment host.env)
    (h : escrowProgramId crates host = .ok key) :
    key = host.escrowApiId ∨ ∃ text, IsValue text ∧ crates.pubkeyFromStr text = some key := by
  unfold escrowProgramId at h
  split at h
  · exact Or.inl (Except.ok.inj h).symm
  · next text htext =>
    split at h
    · next key' hparse =>
      obtain rfl := Except.ok.inj h
      exact Or.inr ⟨text, henv _ text htext, hparse⟩
    · cases h

theorem configurable_of_fromEnv (henv : Environment env)
    (h : Configuration.fromEnv crates { host with env := env } = .ok cfg) :
    Configurable crates host cfg := by
  unfold Configuration.fromEnv at h
  dsimp only at h
  obtain ⟨config, hconfig, h⟩ := except_bind_ok h
  obtain rfl := Except.ok.inj h
  obtain ⟨hkey, hprogram, -, -⟩ := fromEnv_ok hconfig
  unfold fromEnv at hconfig
  dsimp only at hconfig
  obtain ⟨key, -, hconfig⟩ := except_bind_ok hconfig
  obtain ⟨program, -, hconfig⟩ := except_bind_ok hconfig
  obtain ⟨digest, -, hconfig⟩ := except_bind_ok hconfig
  obtain rfl := Except.ok.inj hconfig
  exact {
    keypair := @oraclePubkey_ok { host with env := env } _ henv hkey
    program := @escrowProgramId_ok _ { host with env := env } _ henv hprogram
    urls := evidenceRegistryUrls_range henv
    header := fun _ => nonBlank_trimmed henv
    database := fun _ => nonBlank_trimmed henv
    pool := rfl
    origins := fun _ => splitList_listed (getD_value henv (by decide))
    rpc := getD_value henv (by decide +kernel)
    ws := getD_value henv (by decide +kernel)
    bind := getD_value henv (by decide +kernel)
    rateLimit := number_lt (by decide)
    rateWindow := number_lt (by decide)
    capacity := number_lt (by decide)
    lookback := number_lt (by decide) }

end

/-- On this host, the variables can give these configurations and no others. -/
theorem fromEnv_range (crates : Crates) (host : Host) (cfg : Configuration) :
    (∃ env, Environment env ∧ Configuration.fromEnv crates { host with env := env } = .ok cfg) ↔
      Configurable crates host cfg := by
  constructor
  · rintro ⟨env, henv, h⟩
    exact configurable_of_fromEnv henv h
  · exact exists_environment

end OracleQa.Settings
