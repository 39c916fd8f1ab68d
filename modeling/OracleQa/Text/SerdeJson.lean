import OracleQa.Text.Json
import OracleQa.Text.Schema

/-! How `serde_json` reads a document: numerals become machine numbers, objects sorted maps, and
containers may be nested as deep as the recursion limit allows. -/

namespace OracleQa.Text

/-- The doubles: `read` has no result for a numeral that is out of range. -/
structure Floats where
  read : Numeral → Option UInt64
  value : UInt64 → ℚ

/-- A numeral without point and exponent that fits `u64`, or is negative and fits `i64`. -/
def Numeral.machine? (n : Numeral) : Option Number :=
  if n.isLiteral then
    if n.negative then
      if 0 < n.integer ∧ n.integer ≤ 2 ^ 63 then some (.negInt (-n.integer)) else none
    else if n.integer < 2 ^ 64 then some (.posInt (.ofNat n.integer)) else none
  else none

def insertMember (key : String) (value : Json) : List (String × Json) → List (String × Json)
  | [] => [(key, value)]
  | (k, v) :: map =>
    if key = k then (key, value) :: map
    else if key < k then (key, value) :: (k, v) :: map
    else (k, v) :: insertMember key value map

section
variable (floats : Floats)

def Number.value : Number → ℚ
  | .posInt n => n.toNat
  | .negInt n => n
  | .float bits => floats.value bits

def readNumber (n : Numeral) : Option Number := n.machine?.or ((floats.read n).map .float)

mutual

/-- A `serde_json::Value`; a container is entered only if `remaining` stays positive. -/
def readValue (remaining : Nat) : Document → Option Json
  | .null => some .null
  | .bool b => some (.bool b)
  | .number n => (readNumber floats n).map .number
  | .string s => some (.string s)
  | .array items =>
    if 1 < remaining then (readItems (remaining - 1) items).map .array else none
  | .object members =>
    if 1 < remaining then (readMembers (remaining - 1) members []).map .object else none

def readItems (remaining : Nat) : List Document → Option (List Json)
  | [] => some []
  | d :: ds => do
    let j ← readValue remaining d
    let js ← readItems remaining ds
    return j :: js

def readMembers (remaining : Nat) :
    List (String × Document) → List (String × Json) → Option (List (String × Json))
  | [], map => some map
  | (key, d) :: ms, map => do
    let j ← readValue remaining d
    readMembers remaining ms (insertMember key j map)

end

/-! ## What a value says of its document -/

def InRange (n : Numeral) : Prop := n.machine?.isSome ∨ (floats.read n).isSome

def Exact (n : Numeral) : Prop :=
  n.machine?.isSome ∨ ∃ bits, floats.read n = some bits ∧ floats.value bits = n.value

/-- The value has every number as written, and the members of every object by name. -/
inductive Means : Document → Json → Prop
  | null : Means .null .null
  | bool (b : Bool) : Means (.bool b) (.bool b)
  | number {n : Numeral} {m : Number} (h : m.value floats = n.value) :
      Means (.number n) (.number m)
  | string (s : String) : Means (.string s) (.string s)
  | array {items : List Document} {js : List Json} (h : List.Forall₂ Means items js) :
      Means (.array items) (.array js)
  | object {members : List (String × Document)} {map : List (String × Json)}
      (hnames : ∀ key, (map.lookup key).isSome = (members.lookup key).isSome)
      (h : ∀ key d j, members.lookup key = some d → map.lookup key = some j → Means d j) :
      Means (.object members) (.object map)

end

section
variable {floats : Floats} {n : Numeral} {d : Document} {remaining : Nat}

theorem machine?_value {m : Number} (h : n.machine? = some m) : m.value floats = n.value := by
  unfold Numeral.machine? at h
  split at h
  · next hliteral =>
    rw [Numeral.value_literal hliteral]
    split at h
    · split at h
      · obtain rfl := Option.some.inj h
        simp [Number.value, *]
      · cases h
    · split at h
      · next hlt =>
        obtain rfl := Option.some.inj h
        have hnat : (UInt64.ofNat n.integer).toNat = n.integer := UInt64.toNat_ofNat_of_lt' hlt
        simp [Number.value, *]
      · cases h
  · cases h

theorem readNumber_isSome : (readNumber floats n).isSome ↔ InRange floats n := by
  simp [readNumber, InRange]

theorem readNumber_exact {m : Number} (h : readNumber floats n = some m) :
    m.value floats = n.value ↔ Exact floats n := by
  cases hmachine : n.machine? with
  | some m' =>
    rw [readNumber, hmachine, Option.some_or] at h
    obtain rfl := Option.some.inj h
    have hvalue : m'.value floats = n.value := machine?_value hmachine
    simp [hvalue, Exact, hmachine]
  | none =>
    rw [readNumber, hmachine, Option.none_or] at h
    obtain ⟨bits, hbits, rfl⟩ := Option.map_eq_some_iff.mp h
    simp [Number.value, Exact, hmachine, hbits]

theorem Exact.inRange (h : Exact floats n) : InRange floats n := by
  rcases h with h | ⟨bits, hbits, -⟩
  · exact Or.inl h
  · exact Or.inr (by rw [hbits]; rfl)

/-! ## Containers -/

theorem lookup_insertMember (key : String) (j : Json) (map : List (String × Json)) (k : String) :
    (insertMember key j map).lookup k = if k = key then some j else map.lookup k := by
  induction map with
  | nil => simp only [insertMember, List.lookup_cons, List.lookup_nil]; split <;> simp_all
  | cons m ms ih =>
    obtain ⟨k', v⟩ := m
    unfold insertMember
    split
    · next h =>
      subst h
      simp only [List.lookup_cons]
      split <;> simp_all
    · next hne =>
      split
      · simp only [List.lookup_cons]
        split <;> simp_all
      · simp only [List.lookup_cons, ih]
        split
        · next heq =>
          rw [eq_of_beq heq, if_neg (Ne.symm hne)]
        · rfl

theorem forall₂_iff_forall {α β : Type} {R S : α → β → Prop} {P : α → Prop} {xs : List α}
    {ys : List β} (h : List.Forall₂ R xs ys)
    (hiff : ∀ x ∈ xs, ∀ y, R x y → (S x y ↔ P x)) : List.Forall₂ S xs ys ↔ ∀ x ∈ xs, P x := by
  induction h with
  | nil => simp
  | cons hxy _ ih =>
    obtain ⟨hhead, htail⟩ := List.forall_mem_cons.mp hiff
    rw [List.forall₂_cons, List.forall_mem_cons, hhead _ hxy, ih htail]

theorem readItems_eq_some {items : List Document} {js : List Json} :
    readItems floats remaining items = some js ↔
      List.Forall₂ (fun d j => readValue floats remaining d = some j) items js := by
  induction items generalizing js with
  | nil => simp [readItems, eq_comm]
  | cons d ds ih =>
    simp only [readItems, Option.bind_eq_bind, Option.bind_eq_some_iff, Option.pure_def,
      Option.some.injEq, List.forall₂_cons_left_iff, ih]
    constructor
    · rintro ⟨j, hj, js', hjs, rfl⟩
      exact ⟨j, js', hj, hjs, rfl⟩
    · rintro ⟨j, js', hj, hjs, rfl⟩
      exact ⟨j, hj, js', hjs, rfl⟩

theorem readItems_isSome {items : List Document} : (readItems floats remaining items).isSome ↔
    ∀ d ∈ items, (readValue floats remaining d).isSome := by
  induction items with
  | nil => simp [readItems]
  | cons d ds ih =>
    rw [List.forall_mem_cons, ← ih, readItems]
    cases readValue floats remaining d with
    | none => simp
    | some j => cases readItems floats remaining ds <;> simp

theorem readMembers_isSome {members : List (String × Document)} {map : List (String × Json)} :
    (readMembers floats remaining members map).isSome ↔
      ∀ m ∈ members, (readValue floats remaining m.2).isSome := by
  induction members generalizing map with
  | nil => simp [readMembers]
  | cons m ms ih =>
    rw [List.forall_mem_cons, readMembers]
    cases readValue floats remaining m.2 with
    | none => simp
    | some j => simp [ih]

theorem readMembers_lookup {members : List (String × Document)} {map js : List (String × Json)}
    (hkeys : (members.map Prod.fst).Nodup) (h : readMembers floats remaining members map = some js)
    (key : String) :
    js.lookup key = (members.lookup key).elim (map.lookup key) (readValue floats remaining) := by
  induction members generalizing map with
  | nil =>
    obtain rfl := Option.some.inj h
    rfl
  | cons m ms ih =>
    obtain ⟨k, d⟩ := m
    obtain ⟨hnot, hrest⟩ := List.nodup_cons.mp hkeys
    obtain ⟨j, hj, h⟩ := Option.bind_eq_some_iff.mp h
    rw [ih hrest h, lookup_insertMember, List.lookup_cons]
    split
    · next heq =>
      subst heq
      have hnone : ms.lookup key = none := lookup_eq_none hnot
      simp [hnone, hj]
    · next hne => rw [beq_false_of_ne hne]

/-! ## Values -/

theorem readValue_isSome {depth : Nat} :
    (readValue floats (depth + 1) d).isSome ↔ d.Within (InRange floats) depth := by
  induction d generalizing depth with
  | null => simp [readValue, Document.Within.null]
  | bool b => simp [readValue, Document.Within.bool]
  | string s => simp [readValue, Document.Within.string]
  | number n =>
    rw [readValue, Option.isSome_map, readNumber_isSome]
    exact ⟨fun h => .number depth h, fun h => by cases h; assumption⟩
  | array items ih =>
    rw [readValue]
    cases depth with
    | zero => exact ⟨fun h => absurd h (by simp), fun h => by cases h⟩
    | succ depth =>
      rw [if_pos (by omega), Option.isSome_map, Nat.add_sub_cancel, readItems_isSome]
      constructor
      · intro h
        exact .array fun v hv => (ih v hv).mp (h v hv)
      · rintro (_ | _ | _ | _ | h | _) v hv
        exact (ih v hv).mpr (h v hv)
  | object members ih =>
    rw [readValue]
    cases depth with
    | zero => exact ⟨fun h => absurd h (by simp), fun h => by cases h⟩
    | succ depth =>
      rw [if_pos (by omega), Option.isSome_map, Nat.add_sub_cancel, readMembers_isSome]
      constructor
      · intro h
        exact .object fun m hm => (ih m hm).mp (h m hm)
      · rintro (_ | _ | _ | _ | _ | h) m hm
        exact (ih m hm).mpr (h m hm)

theorem readValue_means {depth : Nat} {j : Json} (hdistinct : d.Distinct)
    (h : readValue floats (depth + 1) d = some j) :
    Means floats d j ↔ d.Within (Exact floats) depth := by
  induction d generalizing depth j with
  | null =>
    obtain rfl := Option.some.inj h
    exact ⟨fun _ => .null depth, fun _ => .null⟩
  | bool b =>
    obtain rfl := Option.some.inj h
    exact ⟨fun _ => .bool depth b, fun _ => .bool b⟩
  | string s =>
    obtain rfl := Option.some.inj h
    exact ⟨fun _ => .string depth s, fun _ => .string s⟩
  | number n =>
    obtain ⟨m, hm, rfl⟩ := Option.map_eq_some_iff.mp h
    constructor
    · rintro (_ | _ | hvalue)
      exact .number depth ((readNumber_exact hm).mp hvalue)
    · intro hwithin
      cases hwithin with
      | number _ hexact => exact .number ((readNumber_exact hm).mpr hexact)
  | array items ih =>
    rw [readValue] at h
    cases depth with
    | zero => cases h
    | succ depth =>
      rw [if_pos (by omega), Nat.add_sub_cancel] at h
      obtain ⟨js, hjs, rfl⟩ := Option.map_eq_some_iff.mp h
      have hread := readItems_eq_some.mp hjs
      have hitem : ∀ d ∈ items, ∀ j, readValue floats (depth + 1) d = some j →
          (Means floats d j ↔ d.Within (Exact floats) depth) :=
        fun d hd j hj => ih d hd (hdistinct.of_array d hd) hj
      have hitems := forall₂_iff_forall hread hitem
      constructor
      · rintro (_ | _ | _ | _ | hmeans)
        exact .array (hitems.mp hmeans)
      · intro hwithin
        cases hwithin with
        | array h => exact .array (hitems.mpr h)
  | object members ih =>
    rw [readValue] at h
    cases depth with
    | zero => cases h
    | succ depth =>
      rw [if_pos (by omega), Nat.add_sub_cancel] at h
      obtain ⟨js, hjs, rfl⟩ := Option.map_eq_some_iff.mp h
      obtain ⟨hkeys, hmembers⟩ := hdistinct.of_object
      have hlookup := readMembers_lookup hkeys hjs
      have hsome := readMembers_isSome.mp (Option.isSome_iff_exists.mpr ⟨js, hjs⟩)
      constructor
      · rintro (_ | _ | _ | _ | _ | ⟨hnames, hmeans⟩)
        refine .object fun m hm => ?_
        obtain ⟨j, hj⟩ := Option.isSome_iff_exists.mp (hsome m hm)
        have hmember : members.lookup m.1 = some m.2 := lookup_of_mem hkeys hm
        have hvalue : js.lookup m.1 = some j := by rw [hlookup, hmember, Option.elim, hj]
        exact (ih m hm (hmembers m hm) hj).mp (hmeans m.1 m.2 j hmember hvalue)
      · rintro (_ | _ | _ | _ | _ | hwithin)
        refine .object (fun key => ?_) fun key d j hd hj => ?_
        · rw [hlookup]
          cases hd : members.lookup key with
          | none => rfl
          | some d => exact hsome (key, d) (mem_of_lookup hd)
        · rw [hlookup, hd, Option.elim] at hj
          have hm := mem_of_lookup hd
          exact (ih (key, d) hm (hmembers _ hm) hj).mpr (hwithin _ hm)

end

/-! ## Derived structs -/

def readMap (floats : Floats) (remaining : Nat) : Document → Option (List (String × Json))
  | .object members => if 1 < remaining then readMembers floats (remaining - 1) members [] else none
  | _ => none

def Number.unsigned? (bound : Nat) : Number → Option Nat
  | .posInt n => if n.toNat < bound then some n.toNat else none
  | _ => none

def Number.signed? (bound : Nat) : Number → Option Int
  | .posInt n => if n.toNat < bound then some n.toNat else none
  | .negInt n => some n
  | .float _ => none

/-- An integer field takes no float, whatever its value. -/
def readUnsigned (bound : Nat) : Document → Option Nat
  | .number n => n.machine?.bind (Number.unsigned? bound)
  | _ => none

def readU16 (d : Document) : Option UInt16 := (readUnsigned (2 ^ 16) d).map .ofNat

def readU32 (d : Document) : Option UInt32 := (readUnsigned (2 ^ 32) d).map .ofNat

def readU64 (d : Document) : Option UInt64 := (readUnsigned (2 ^ 64) d).map .ofNat

def readUsize (d : Document) : Option Nat := readUnsigned (2 ^ 64) d

def readI64 : Document → Option Int
  | .number n => n.machine?.bind (Number.signed? (2 ^ 63))
  | _ => none

def readStringItems : List Document → Option (List String)
  | [] => some []
  | d :: ds => do
    let s ← d.string?
    let ss ← readStringItems ds
    return s :: ss

def readStrings (d : Document) : Option (List String) := d.items?.bind readStringItems

section
variable {α : Type}

def readOption (read : Document → Option α) : Document → Option (Option α)
  | .null => some none
  | d => (read d).map some

def required (read : Document → Option α) (given : Option Document) : Option α := given.bind read

def withDefault (default : α) (read : Document → Option α) (given : Option Document) : Option α :=
  given.elim (some default) read

theorem withDefault_some {default a : α} {read : Document → Option α} {given : Option Document}
    {v : Document} (h : withDefault default read given = some a) (hv : given = some v) :
    read v = some a := by
  rw [hv] at h
  exact h

theorem readOption_of_ne_null {read : Document → Option α} {v : Document} (hv : v ≠ .null) :
    readOption read v = (read v).map some := by
  cases v with
  | null => exact absurd rfl hv
  | _ => rfl

/-- A struct is read from an object, by the names of its fields, or from an array, by their
order. Other members are ignored; a field is not given twice, nor an item too many. -/
def readStruct (fields : List String) (read : (String → Option Document) → Option α) :
    Document → Option α
  | .object members =>
    if fields.all fun field => (members.filter (·.1 == field)).length ≤ 1 then
      read (members.lookup ·)
    else none
  | .array items =>
    if items.length ≤ fields.length then read ((fields.zip items).lookup ·) else none
  | _ => none

end

section
variable {floats : Floats} {n : Numeral} {d : Document} {bound : Nat}

theorem readStruct_object {α : Type} {fields : List String}
    {read : (String → Option Document) → Option α} (hdistinct : d.Distinct)
    (hobject : InstanceType.object.includes d = true) :
    readStruct fields read d = read d.member := by
  obtain ⟨members, rfl⟩ := includes_object.mp hobject
  obtain ⟨hkeys, -⟩ := hdistinct.of_object
  rw [readStruct, if_pos]
  · rfl
  · exact List.all_eq_true.mpr fun field _ => decide_eq_true (filter_key_length hkeys)

theorem machine?_ofNat {k : Nat} (hk : k < 2 ^ 64) :
    (Numeral.ofInt k).machine? = some (.posInt (.ofNat k)) := by
  have hsign : ¬ (k : Int) < 0 := by omega
  simp only [Numeral.machine?, Numeral.ofInt, Numeral.isLiteral, hsign, Int.natAbs_natCast, hk,
    decide_true, decide_false, Bool.and_self, if_true, Bool.false_eq_true, if_false]

theorem machine?_ofNeg {t : Int} (hlow : -2 ^ 63 ≤ t) (hneg : t < 0) :
    (Numeral.ofInt t).machine? = some (.negInt t) := by
  have hpos : 0 < t.natAbs := by omega
  have hle : t.natAbs ≤ 2 ^ 63 := by omega
  have habs : -(t.natAbs : Int) = t := by omega
  simp only [Numeral.machine?, Numeral.ofInt, Numeral.isLiteral, hneg, hpos, hle, habs,
    decide_true, Bool.and_self, and_self, if_true]

theorem machine?_cases {m : Number} (h : n.machine? = some m) :
    (∃ k : UInt64, m = .posInt k ∧ n = .ofInt k.toNat) ∨
      ∃ t : Int, m = .negInt t ∧ -2 ^ 63 ≤ t ∧ t < 0 ∧ n = .ofInt t := by
  obtain ⟨negative, integer, fraction, exponent⟩ := n
  unfold Numeral.machine? at h
  dsimp only at h
  split at h
  · next hliteral =>
    obtain ⟨hfraction, hexponent⟩ := Bool.and_eq_true_iff.mp hliteral
    obtain rfl := of_decide_eq_true hfraction
    obtain rfl := of_decide_eq_true hexponent
    split at h
    · next hnegative =>
      obtain rfl := hnegative
      split at h
      · next hrange =>
        obtain rfl := Option.some.inj h
        have hneg : -(integer : Int) < 0 := by omega
        refine Or.inr ⟨_, rfl, by omega, hneg, ?_⟩
        simp only [Numeral.ofInt, hneg, decide_true, Int.natAbs_neg, Int.natAbs_natCast]
      · cases h
    · next hnegative =>
      obtain rfl := Bool.eq_false_of_not_eq_true hnegative
      split at h
      · next hlt =>
        obtain rfl := Option.some.inj h
        refine Or.inl ⟨_, rfl, ?_⟩
        have hnat : (UInt64.ofNat integer).toNat = integer := UInt64.toNat_ofNat_of_lt' hlt
        have hsign : ¬ (integer : Int) < 0 := by omega
        simp only [Numeral.ofInt, hnat, hsign, decide_false, Int.natAbs_natCast]
      · cases h
  · cases h

theorem readUnsigned_eq_some (hbound : bound ≤ 2 ^ 64) {k : Nat} :
    readUnsigned bound d = some k ↔ k < bound ∧ d = .number (.ofInt k) := by
  constructor
  · intro h
    cases d with
    | number n =>
      obtain ⟨m, hm, hk⟩ := Option.bind_eq_some_iff.mp h
      rcases machine?_cases hm with ⟨k', rfl, rfl⟩ | ⟨t, rfl, -⟩
      · rw [Number.unsigned?] at hk
        split at hk
        · next hlt =>
          obtain rfl := Option.some.inj hk
          exact ⟨hlt, rfl⟩
        · cases hk
      · cases hk
    | _ => cases h
  · rintro ⟨hk, rfl⟩
    have hnat : (UInt64.ofNat k).toNat = k := UInt64.toNat_ofNat_of_lt' (hk.trans_le hbound)
    rw [readUnsigned, machine?_ofNat (hk.trans_le hbound), Option.bind_some, Number.unsigned?,
      hnat, if_pos hk]

theorem readU16_eq_some {k : UInt16} :
    readU16 d = some k ↔ d = .number (.ofInt k.toNat) := by
  simp only [readU16, Option.map_eq_some_iff, readUnsigned_eq_some (by decide : 2 ^ 16 ≤ 2 ^ 64)]
  constructor
  · rintro ⟨m, ⟨hm, rfl⟩, rfl⟩
    rw [UInt16.toNat_ofNat_of_lt' hm]
  · intro h
    exact ⟨k.toNat, ⟨k.toNat_lt, h⟩, UInt16.ofNat_toNat⟩

theorem readU32_eq_some {k : UInt32} :
    readU32 d = some k ↔ d = .number (.ofInt k.toNat) := by
  simp only [readU32, Option.map_eq_some_iff, readUnsigned_eq_some (by decide : 2 ^ 32 ≤ 2 ^ 64)]
  constructor
  · rintro ⟨m, ⟨hm, rfl⟩, rfl⟩
    rw [UInt32.toNat_ofNat_of_lt' hm]
  · intro h
    exact ⟨k.toNat, ⟨k.toNat_lt, h⟩, UInt32.ofNat_toNat⟩

theorem readU64_eq_some {k : UInt64} :
    readU64 d = some k ↔ d = .number (.ofInt k.toNat) := by
  simp only [readU64, Option.map_eq_some_iff, readUnsigned_eq_some (Nat.le_refl _)]
  constructor
  · rintro ⟨m, ⟨hm, rfl⟩, rfl⟩
    rw [UInt64.toNat_ofNat_of_lt' hm]
  · intro h
    exact ⟨k.toNat, ⟨k.toNat_lt, h⟩, UInt64.ofNat_toNat⟩

theorem readUsize_eq_some {k : Nat} :
    readUsize d = some k ↔ k < 2 ^ 64 ∧ d = .number (.ofInt k) :=
  readUnsigned_eq_some (Nat.le_refl _)

theorem readI64_eq_some {t : Int} :
    readI64 d = some t ↔ (-2 ^ 63 ≤ t ∧ t < 2 ^ 63) ∧ d = .number (.ofInt t) := by
  constructor
  · intro h
    cases d with
    | number n =>
      obtain ⟨m, hm, ht⟩ := Option.bind_eq_some_iff.mp h
      rcases machine?_cases hm with ⟨k, rfl, rfl⟩ | ⟨u, rfl, hlow, hneg, rfl⟩
      · rw [Number.signed?] at ht
        split at ht
        · next hlt =>
          obtain rfl := Option.some.inj ht
          exact ⟨by omega, rfl⟩
        · cases ht
      · obtain rfl := Option.some.inj ht
        exact ⟨by omega, rfl⟩
    | _ => cases h
  · rintro ⟨hrange, rfl⟩
    by_cases hneg : t < 0
    · rw [readI64, machine?_ofNeg hrange.1 hneg]
      rfl
    · obtain ⟨k, rfl⟩ := Int.eq_ofNat_of_zero_le (not_lt.mp hneg)
      have hk : k < 2 ^ 63 := by omega
      have hnat : (UInt64.ofNat k).toNat = k := UInt64.toNat_ofNat_of_lt' (show k < 2 ^ 64 by omega)
      rw [readI64, machine?_ofNat (by omega), Option.bind_some, Number.signed?, hnat, if_pos hk]

theorem string?_eq_some {s : String} : d.string? = some s ↔ d = .string s := by
  cases d <;> simp [Document.string?]

theorem readStringItems_eq_some {items : List Document} {ss : List String} :
    readStringItems items = some ss ↔ items = ss.map .string := by
  induction items generalizing ss with
  | nil => simp [readStringItems, eq_comm]
  | cons d ds ih =>
    simp only [readStringItems, Option.bind_eq_bind, Option.bind_eq_some_iff, Option.pure_def,
      Option.some.injEq, string?_eq_some, ih]
    constructor
    · rintro ⟨s, rfl, ss', rfl, rfl⟩
      rfl
    · intro h
      cases ss with
      | nil => cases h
      | cons s ss =>
        obtain ⟨hd, hds⟩ := List.cons.inj h
        exact ⟨s, hd, ss, hds, rfl⟩

theorem readStrings_eq_some {ss : List String} :
    readStrings d = some ss ↔ d = .array (ss.map .string) := by
  cases d <;> simp [readStrings, Document.items?, readStringItems_eq_some]

theorem readMap_isSome {depth : Nat} : (readMap floats (depth + 1) d).isSome ↔
    InstanceType.object.includes d = true ∧ d.Within (InRange floats) depth := by
  rw [includes_object, ← readValue_isSome]
  cases d with
  | object members =>
    rw [readMap, readValue]
    split <;> simp
  | _ => simp [readMap]

end
end OracleQa.Text
