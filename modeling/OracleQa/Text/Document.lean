import Mathlib.Algebra.Order.Field.Rat
import Mathlib.Data.List.Nodup

/-! JSON documents as they are written: numbers keep their numerals, objects the order of their
members. -/

namespace OracleQa.Text

structure Numeral where
  negative : Bool
  integer : Nat
  fraction : List (Fin 10)
  exponent : Option Int
  deriving DecidableEq

namespace Numeral

def fractionValue : List (Fin 10) → ℚ
  | [] => 0
  | d :: ds => ((d : Nat) + fractionValue ds) / 10

def value (n : Numeral) : ℚ :=
  (if n.negative then -1 else 1) * (n.integer + fractionValue n.fraction) * 10 ^ n.exponent.getD 0

/-- Written without point and exponent. -/
def isLiteral (n : Numeral) : Bool := n.fraction = [] && n.exponent = none

def ofInt (t : Int) : Numeral := ⟨decide (t < 0), t.natAbs, [], none⟩

theorem value_literal {n : Numeral} (h : n.isLiteral = true) :
    n.value = if n.negative then -(n.integer : ℚ) else n.integer := by
  obtain ⟨hfraction, hexponent⟩ := Bool.and_eq_true_iff.mp h
  rw [value, of_decide_eq_true hfraction, of_decide_eq_true hexponent]
  cases n.negative <;> simp [fractionValue]

@[simp] theorem value_ofInt (t : Int) : (ofInt t).value = t := by
  rw [value_literal rfl]
  by_cases ht : t < 0
  · have habs : (t.natAbs : ℚ) = -t := by
      rw [← Int.cast_natCast, Int.ofNat_natAbs_of_nonpos ht.le, Int.cast_neg]
    simp [ofInt, ht, habs]
  · have habs : (t.natAbs : ℚ) = t := by
      rw [← Int.cast_natCast, Int.natAbs_of_nonneg (not_lt.mp ht)]
    simp [ofInt, ht, habs]

end Numeral

inductive Document
  | null
  | bool (b : Bool)
  | number (n : Numeral)
  | string (s : String)
  | array (items : List Document)
  | object (members : List (String × Document))

namespace Document

@[elab_as_elim, induction_eliminator]
theorem nested {P : Document → Prop} (null : P .null) (bool : ∀ b, P (.bool b))
    (number : ∀ n, P (.number n)) (string : ∀ s, P (.string s))
    (array : ∀ items, (∀ v ∈ items, P v) → P (.array items))
    (object : ∀ members, (∀ m ∈ members, P m.2) → P (.object members)) (d : Document) : P d :=
  @Document.rec P (fun items => ∀ v ∈ items, P v) (fun members => ∀ m ∈ members, P m.2)
    (fun m => P m.2) null bool number string array object (List.forall_mem_nil _)
    (fun _ _ hd hds => List.forall_mem_cons.mpr ⟨hd, hds⟩) (List.forall_mem_nil _)
    (fun _ _ hm hms => List.forall_mem_cons.mpr ⟨hm, hms⟩) (fun _ _ hd => hd) d

def number? : Document → Option ℚ
  | .number n => some n.value
  | _ => none

def string? : Document → Option String
  | .string s => some s
  | _ => none

def items? : Document → Option (List Document)
  | .array items => some items
  | _ => none

def member : Document → String → Option Document
  | .object members, key => members.lookup key
  | _, _ => none

inductive Distinct : Document → Prop
  | null : Distinct .null
  | bool (b : Bool) : Distinct (.bool b)
  | number (n : Numeral) : Distinct (.number n)
  | string (s : String) : Distinct (.string s)
  | array {items : List Document} (h : ∀ v ∈ items, Distinct v) : Distinct (.array items)
  | object {members : List (String × Document)} (hkeys : (members.map Prod.fst).Nodup)
      (h : ∀ m ∈ members, Distinct m.2) : Distinct (.object members)

theorem Distinct.of_array {items : List Document} (h : Distinct (.array items)) :
    ∀ v ∈ items, Distinct v := by
  cases h
  assumption

theorem Distinct.of_object {members : List (String × Document)} (h : Distinct (.object members)) :
    (members.map Prod.fst).Nodup ∧ ∀ m ∈ members, Distinct m.2 := by
  cases h with
  | object hkeys h => exact ⟨hkeys, h⟩

/-- Containers are nested at most `depth` deep, and every numeral satisfies `P`. -/
inductive Within (P : Numeral → Prop) : Nat → Document → Prop
  | null (depth : Nat) : Within P depth .null
  | bool (depth : Nat) (b : Bool) : Within P depth (.bool b)
  | number (depth : Nat) {n : Numeral} (h : P n) : Within P depth (.number n)
  | string (depth : Nat) (s : String) : Within P depth (.string s)
  | array {depth : Nat} {items : List Document} (h : ∀ v ∈ items, Within P depth v) :
      Within P (depth + 1) (.array items)
  | object {depth : Nat} {members : List (String × Document)}
      (h : ∀ m ∈ members, Within P depth m.2) : Within P (depth + 1) (.object members)

theorem Within.mono {P Q : Numeral → Prop} {depth : Nat} {d : Document} (h : d.Within P depth)
    (hPQ : ∀ n, P n → Q n) : d.Within Q depth := by
  induction d generalizing depth with
  | null => exact .null depth
  | bool b => exact .bool depth b
  | number n =>
    cases h with
    | number _ hn => exact .number depth (hPQ n hn)
  | string s => exact .string depth s
  | array items ih =>
    cases h with
    | array h => exact .array fun v hv => ih v hv (h v hv)
  | object members ih =>
    cases h with
    | object h => exact .object fun m hm => ih m hm (h m hm)

end Document

/-- A JSON value: a document whose objects have members of distinct names. -/
structure JsonValue where
  doc : Document
  distinct : doc.Distinct

/-! ## Lookups -/

section
variable {α β : Type} {members : List (String × α)} {key : String}

theorem mem_of_lookup {a : α} (h : members.lookup key = some a) : (key, a) ∈ members := by
  induction members with
  | nil => cases h
  | cons m ms ih =>
    obtain ⟨k, b⟩ := m
    rw [List.lookup_cons] at h
    split at h
    · next heq =>
      obtain rfl := Option.some.inj h
      rw [eq_of_beq heq]
      exact List.mem_cons_self
    · exact List.mem_cons_of_mem _ (ih h)

theorem lookup_of_mem {a : α} (hkeys : (members.map Prod.fst).Nodup) (h : (key, a) ∈ members) :
    members.lookup key = some a := by
  induction members with
  | nil => cases h
  | cons m ms ih =>
    obtain ⟨hnot, hrest⟩ := List.nodup_cons.mp hkeys
    rw [List.lookup_cons]
    rcases List.mem_cons.mp h with rfl | hmem
    · simp
    · have hne : key ≠ m.1 := by
        rintro rfl
        exact hnot (List.mem_map.mpr ⟨_, hmem, rfl⟩)
      rw [beq_false_of_ne hne]
      exact ih hrest hmem

theorem lookup_eq_none {ms : List (String × α)} (h : key ∉ ms.map Prod.fst) :
    ms.lookup key = none := by
  cases hlookup : ms.lookup key with
  | none => rfl
  | some a => exact absurd (List.mem_map.mpr ⟨_, mem_of_lookup hlookup, rfl⟩) h

theorem filter_key_length (hkeys : (members.map Prod.fst).Nodup) :
    (members.filter (·.1 == key)).length ≤ 1 := by
  induction members with
  | nil => exact Nat.zero_le _
  | cons m ms ih =>
    obtain ⟨hnot, hrest⟩ := List.nodup_cons.mp hkeys
    rw [List.filter_cons]
    split
    · next heq =>
      have hempty : ms.filter (·.1 == key) = [] := by
        refine List.filter_eq_nil_iff.mpr fun m' hm' heq' => ?_
        have hname : m'.1 = m.1 := (eq_of_beq heq').trans (eq_of_beq heq).symm
        exact hnot (List.mem_map.mpr ⟨m', hm', hname⟩)
      rw [hempty]
      exact Nat.le_refl _
    · exact ih hrest

end

theorem Document.Distinct.of_member {d v : Document} {key : String} (h : d.Distinct)
    (hv : d.member key = some v) : v.Distinct := by
  cases d with
  | object members => exact h.of_object.2 (key, v) (mem_of_lookup hv)
  | _ => cases hv

end OracleQa.Text
