import OracleQa.Spec.Detection
import OracleQa.Text.Base64

/-! Delivery events through the program logs: what is written as `Program data: ` lines is read
back from any log that carries them, and the monitor looks at every log that is read so. -/

namespace OracleQa.LogEvents
open Chain Detection Text

def eventBytes (e : DeliverySubmittedEvent) : Bytes :=
  e.paymentUid.toList ++ (e.deliveryHash.toList ++ (int64Bytes e.timestamp ++ e.seller.toList))

def readBytes32 (bs : Bytes) : Option Bytes32 := if h : bs.length = 32 then some ⟨bs, h⟩ else none

def readEvent (bs : Bytes) : Option DeliverySubmittedEvent := do
  let paymentUid ← readBytes32 (bs.take 32)
  let deliveryHash ← readBytes32 ((bs.drop 32).take 32)
  let seller ← readBytes32 (((bs.drop 32).drop 32).drop 8)
  return ⟨paymentUid, deliveryHash, int64Value (((bs.drop 32).drop 32).take 8), seller⟩

def InInt64 (z : Int) : Prop := -2 ^ 63 ≤ z ∧ z < 2 ^ 63

theorem readBytes32_toList (v : Bytes32) : readBytes32 v.toList = some v := by
  rw [readBytes32, dif_pos v.toList_length]
  rfl

theorem length_int64Bytes (z : Int) : (int64Bytes z).length = 8 := length_leBytes 8 _

theorem length_eventBytes (e : DeliverySubmittedEvent) : (eventBytes e).length = 104 := by
  simp only [eventBytes, List.length_append, List.Vector.toList_length, length_int64Bytes]

theorem readEvent_eventBytes {e : DeliverySubmittedEvent} (h : InInt64 e.timestamp) :
    readEvent (eventBytes e) = some e := by
  have huid : e.paymentUid.toList.length = 32 := e.paymentUid.toList_length
  have hhash : e.deliveryHash.toList.length = 32 := e.deliveryHash.toList_length
  have htime : (int64Bytes e.timestamp).length = 8 := length_int64Bytes _
  rw [readEvent, eventBytes, List.take_left' huid, List.drop_left' huid, List.take_left' hhash,
    List.drop_left' hhash, List.take_left' htime, List.drop_left' htime, readBytes32_toList,
    readBytes32_toList, readBytes32_toList, int64Value_bytes h]
  rfl

/-! ## Lines -/

/-- The other crates, as far as they read log lines, do what they document. -/
structure Standard (crates : Crates) : Prop where
  base64 : ∀ text, crates.base64Decode text = base64Decode text.toList
  eventSize : crates.eventSize = 104
  event : ∀ bs, bs.length = 104 → crates.eventFromBytes bs = readEvent bs

def Carries (line : String) (bs : Bytes) : Prop :=
  ∃ payload, trim line.toList = "Program data: ".toList ++ payload ∧
    base64Decode (trim payload) = some bs

/-- A line of a log: an event as `sol_log_data` writes it, amid white space, or anything that does
not carry as many bytes as an event has. -/
inductive LogLine
  | event (e : DeliverySubmittedEvent) (hrange : InInt64 e.timestamp) (before after : List Char)
      (hbefore : ∀ c ∈ before, isWhitespace c = true)
      (hafter : ∀ c ∈ after, isWhitespace c = true)
  | other (text : String) (hother : ∀ bs, Carries text bs → bs.length ≠ 104)

def LogLine.text : LogLine → String
  | .event e _ before after _ _ => String.ofList
      (before ++ ("Program data: ".toList ++ base64Encode (eventBytes e)) ++ after)
  | .other text _ => text

def LogLine.event? : LogLine → Option DeliverySubmittedEvent
  | .event e _ _ _ _ _ => some e
  | .other _ _ => none

theorem trim_padded {before cs after : List Char} (hne : cs ≠ [])
    (hbefore : ∀ c ∈ before, isWhitespace c = true) (hafter : ∀ c ∈ after, isWhitespace c = true)
    (hhead : isWhitespace (cs.head hne) = false)
    (hlast : isWhitespace (cs.getLast hne) = false) : trim (before ++ cs ++ after) = cs := by
  have hstart : (cs ++ after).dropWhile isWhitespace = cs ++ after := by
    cases cs with
    | nil => exact absurd rfl hne
    | cons c cs =>
      have hc : isWhitespace c = false := hhead
      rw [List.cons_append, List.dropWhile_cons, if_neg (by simp [hc])]
  have hend : (cs ++ after).rdropWhile isWhitespace = cs.rdropWhile isWhitespace := by
    have hreverse : ∀ c ∈ after.reverse, isWhitespace c = true :=
      fun c hc => hafter c (List.mem_reverse.mp hc)
    rw [List.rdropWhile, List.reverse_append, List.dropWhile_append_of_pos hreverse,
      List.rdropWhile]
  rw [trim, List.append_assoc, List.dropWhile_append_of_pos hbefore, hstart, hend,
    List.rdropWhile_eq_self_iff]
  intro hl
  simp [hlast]

theorem base64Encode_eventBytes_ne_nil (e : DeliverySubmittedEvent) :
    base64Encode (eventBytes e) ≠ [] := by
  intro h
  have hlength := length_eventBytes e
  rw [base64Encode_eq_nil h] at hlength
  cases hlength

theorem trim_base64 {bs : Bytes} (hne : base64Encode bs ≠ []) :
    trim (base64Encode bs) = base64Encode bs := by
  have hhead := base64Encode_not_whitespace (List.head_mem hne)
  have hlast := base64Encode_not_whitespace (List.getLast_mem hne)
  have hpadded : trim ([] ++ base64Encode bs ++ []) = base64Encode bs :=
    trim_padded hne nofun nofun hhead hlast
  rwa [List.nil_append, List.append_nil] at hpadded

theorem carries_event {e : DeliverySubmittedEvent} {hrange : InInt64 e.timestamp}
    {before after : List Char} {hbefore : ∀ c ∈ before, isWhitespace c = true}
    {hafter : ∀ c ∈ after, isWhitespace c = true} :
    Carries (LogLine.event e hrange before after hbefore hafter).text (eventBytes e) := by
  have hne := base64Encode_eventBytes_ne_nil e
  have hline : "Program data: ".toList ++ base64Encode (eventBytes e) ≠ [] :=
    List.append_ne_nil_of_right_ne_nil _ hne
  have hlast : isWhitespace
      (("Program data: ".toList ++ base64Encode (eventBytes e)).getLast hline) = false := by
    rw [List.getLast_append_of_ne_nil hline hne]
    exact base64Encode_not_whitespace (List.getLast_mem hne)
  refine ⟨base64Encode (eventBytes e), ?_, ?_⟩
  · rw [LogLine.text, String.toList_ofList]
    exact trim_padded hline hbefore hafter (by rfl) hlast
  · rw [trim_base64 hne, base64Decode_encode]

/-! ## Whole logs -/

variable {crates : Crates} {line : String}

theorem stripPrefix_eq_some {pre cs rest : List Char} :
    stripPrefix pre cs = some rest ↔ cs = pre ++ rest := by
  rw [stripPrefix]
  constructor
  · intro h
    split at h
    · next hpre =>
      obtain ⟨tail, rfl⟩ := hpre
      rw [List.drop_left] at h
      rw [Option.some.inj h]
    · cases h
  · rintro rfl
    rw [if_pos (List.prefix_append _ _), List.drop_left]

theorem parseDeliveryEvent_eq_some (h : Standard crates) {e : DeliverySubmittedEvent} :
    parseDeliveryEvent crates line = some e ↔
      ∃ bs, Carries line bs ∧ bs.length = 104 ∧ readEvent bs = some e := by
  unfold parseDeliveryEvent Carries
  simp only [h.base64, h.eventSize, String.toList_ofList]
  constructor
  · intro hparse
    split at hparse
    · cases hparse
    · next payload hpayload =>
      split at hparse
      · cases hparse
      · next bs hbs =>
        split at hparse
        · cases hparse
        · next hlength =>
          rw [not_not] at hlength
          rw [h.event bs hlength] at hparse
          exact ⟨bs, ⟨payload, stripPrefix_eq_some.mp hpayload, hbs⟩, hlength, hparse⟩
  · rintro ⟨bs, ⟨payload, hline, hbs⟩, hlength, hread⟩
    rw [stripPrefix_eq_some.mpr hline]
    dsimp only
    rw [hbs]
    dsimp only
    rw [if_neg (not_not.mpr hlength), h.event bs hlength, hread]

theorem parseDeliveryEvent_text (h : Standard crates) (l : LogLine) :
    parseDeliveryEvent crates l.text = l.event? := by
  cases l with
  | event e hrange before after hbefore hafter =>
    have hread : readEvent (eventBytes e) = some e := readEvent_eventBytes hrange
    exact (parseDeliveryEvent_eq_some h).mpr ⟨_, carries_event, length_eventBytes e, hread⟩
  | other text hother =>
    show parseDeliveryEvent crates text = none
    rw [Option.eq_none_iff_forall_ne_some]
    intro e he
    obtain ⟨bs, hcarries, hlength, -⟩ := (parseDeliveryEvent_eq_some h).mp he
    exact hother bs hcarries hlength

/-- The events written to a log are read back from it, whatever else it contains, and a log from
which anything is read is one that the monitor looks at. -/
theorem parse_interleaved (h : Standard crates) (lines : List LogLine) :
    parseDeliveryEventsFromLogs crates (lines.map LogLine.text) = lines.filterMap LogLine.event? ∧
      ∀ logs, parseDeliveryEventsFromLogs crates logs ≠ [] → hasDelivery logs = true := by
  constructor
  · rw [parseDeliveryEventsFromLogs, List.filterMap_map]
    apply List.filterMap_congr
    intro l _
    exact parseDeliveryEvent_text h l
  · intro logs hne
    obtain ⟨e, he⟩ := List.exists_mem_of_ne_nil _ hne
    exact hasDelivery_of_event he

def standardCrates : Crates := { Crates.toy with
  base64Decode := fun text => base64Decode text.toList
  eventSize := 104
  eventFromBytes := readEvent }

def sampleEvent : DeliverySubmittedEvent := ⟨byte32 7, byte32 8, -1700000000, byte32 9⟩

theorem isWhitespace_space {c : Char} (hc : c ∈ [' ']) : isWhitespace c = true := by
  rw [List.mem_singleton.mp hc]
  rfl

def sampleLine : LogLine :=
  .event sampleEvent ⟨by decide, by decide⟩ [' '] [' '] (fun _ => isWhitespace_space)
    (fun _ => isWhitespace_space)

theorem parse_interleaved_sample : parseDeliveryEventsFromLogs standardCrates
    [sampleLine.text, "Program log: settled", sampleLine.text] = [sampleEvent, sampleEvent] := by
  have hother : ∀ bs, Carries "Program log: settled" bs → bs.length ≠ 104 := by
    rintro bs ⟨payload, hline, -⟩
    have hprefix : "Program data: ".toList <+: trim "Program log: settled".toList :=
      ⟨payload, hline.symm⟩
    exact absurd hprefix (by decide)
  have hstandard : Standard standardCrates := ⟨fun _ => rfl, rfl, fun _ _ => rfl⟩
  exact (parse_interleaved hstandard
    [sampleLine, .other "Program log: settled" hother, sampleLine]).1

end OracleQa.LogEvents
