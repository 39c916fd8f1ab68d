import Mathlib.Algebra.Order.Ring.Cast
import OracleQa.Text.Document

/-! The part of JSON Schema (draft 2020-12) that bounds a flat record: types, constants, numeric
ranges, lengths, items and properties. An integer is a number of integral value, however written. -/

namespace OracleQa.Text

inductive InstanceType
  | null
  | boolean
  | object
  | array
  | number
  | string
  | integer
  deriving DecidableEq

def InstanceType.includes : InstanceType → Document → Bool
  | null, .null => true
  | boolean, .bool _ => true
  | object, .object _ => true
  | array, .array _ => true
  | number, .number _ => true
  | string, .string _ => true
  | integer, .number n => n.value.den == 1
  | _, _ => false

/-- A schema is the list of its keywords; `default` is an annotation. -/
inductive Keyword
  | type (types : List InstanceType)
  | constInteger (value : Int)
  | constString (value : String)
  | minimum (bound : Int)
  | maximum (bound : Int)
  | minLength (length : Nat)
  | items (schema : List Keyword)
  | required (keys : List String)
  | properties (schemas : List (String × List Keyword))
  | default (value : Document)

abbrev Schema := List Keyword

mutual

def Keyword.holds : Keyword → Document → Bool
  | .type types, d => types.any (·.includes d)
  | .constInteger value, d => d.number? == some (value : ℚ)
  | .constString value, d => d.string? == some value
  | .minimum bound, d => d.number?.all fun q => decide ((bound : ℚ) ≤ q)
  | .maximum bound, d => d.number?.all fun q => decide (q ≤ (bound : ℚ))
  | .minLength length, d => d.string?.all fun s => decide (length ≤ s.length)
  | .items schema, d => (d.items?.getD []).all fun v => allHold schema v
  | .required keys, d => !InstanceType.object.includes d || keys.all fun k => (d.member k).isSome
  | .properties schemas, d => propertiesHold schemas d
  | .default _, _ => true

def allHold : List Keyword → Document → Bool
  | [], _ => true
  | k :: ks, d => k.holds d && allHold ks d

def propertiesHold : List (String × List Keyword) → Document → Bool
  | [], _ => true
  | (key, schema) :: ps, d => (d.member key).all (fun v => allHold schema v) && propertiesHold ps d

end

def Valid (schema : Schema) (v : JsonValue) : Prop := allHold schema v.doc = true

instance (schema : Schema) (v : JsonValue) : Decidable (Valid schema v) :=
  inferInstanceAs (Decidable (_ = true))

def Keyword.default? : Keyword → Option Document
  | .default value => some value
  | _ => none

def Keyword.propertySchema? (key : String) : Keyword → Option Schema
  | .properties schemas => schemas.lookup key
  | _ => none

/-- The default that a schema documents for a property. -/
def defaultOf (schema : Schema) (key : String) : Option Document :=
  (schema.findSome? (Keyword.propertySchema? key)).bind (List.findSome? Keyword.default?)

def Document.HasProperty (d : Document) (key : String) (schema : Schema) : Prop :=
  ∀ v, d.member key = some v → allHold schema v = true

/-! ## What the keywords say -/

section
variable {d : Document}

theorem includes_object :
    InstanceType.object.includes d = true ↔ ∃ members, d = .object members := by
  constructor
  · intro h
    cases d with
    | object members => exact ⟨members, rfl⟩
    | _ => cases h
  · rintro ⟨members, rfl⟩
    rfl

theorem includes_array : InstanceType.array.includes d = true ↔ ∃ items, d = .array items := by
  constructor
  · intro h
    cases d with
    | array items => exact ⟨items, rfl⟩
    | _ => cases h
  · rintro ⟨items, rfl⟩
    rfl

theorem includes_boolean : InstanceType.boolean.includes d = true ↔ ∃ b, d = .bool b := by
  constructor
  · intro h
    cases d with
    | bool b => exact ⟨b, rfl⟩
    | _ => cases h
  · rintro ⟨b, rfl⟩
    rfl

theorem includes_string : InstanceType.string.includes d = true ↔ ∃ s, d = .string s := by
  constructor
  · intro h
    cases d with
    | string s => exact ⟨s, rfl⟩
    | _ => cases h
  · rintro ⟨s, rfl⟩
    rfl

@[simp] theorem allHold_nil : allHold [] d = true := rfl

@[simp] theorem allHold_cons {k : Keyword} {ks : List Keyword} :
    allHold (k :: ks) d = true ↔ k.holds d = true ∧ allHold ks d = true := by
  show (k.holds d && allHold ks d) = true ↔ _
  rw [Bool.and_eq_true]

@[simp] theorem holds_type {types : List InstanceType} :
    (Keyword.type types).holds d = true ↔ ∃ t ∈ types, t.includes d = true := by
  show (types.any fun t => t.includes d) = true ↔ _
  rw [List.any_eq_true]

@[simp] theorem holds_default {value : Document} : (Keyword.default value).holds d = true :=
  rfl

theorem propertiesHold_iff {schemas : List (String × Schema)} :
    propertiesHold schemas d = true ↔ ∀ p ∈ schemas, d.HasProperty p.1 p.2 := by
  induction schemas with
  | nil => exact iff_of_true rfl (List.forall_mem_nil _)
  | cons p ps ih =>
    obtain ⟨key, schema⟩ := p
    show ((d.member key).all (allHold schema) && propertiesHold ps d) = true ↔ _
    rw [Bool.and_eq_true, ih, List.forall_mem_cons, Option.all_eq_true]
    rfl

theorem holds_properties {schemas : List (String × Schema)} :
    (Keyword.properties schemas).holds d = true ↔ ∀ p ∈ schemas, d.HasProperty p.1 p.2 :=
  propertiesHold_iff

theorem holds_required {keys : List String} (hobject : InstanceType.object.includes d = true) :
    (Keyword.required keys).holds d = true ↔ ∀ key ∈ keys, (d.member key).isSome := by
  show (!InstanceType.object.includes d || keys.all fun key => (d.member key).isSome) = true ↔ _
  rw [hobject, Bool.not_true, Bool.false_or, List.all_eq_true]

theorem record_holds {keys : List String} {schemas : List (String × Schema)} :
    allHold [.type [.object], .required keys, .properties schemas] d = true ↔
      InstanceType.object.includes d = true ∧ (∀ key ∈ keys, (d.member key).isSome) ∧
        ∀ p ∈ schemas, d.HasProperty p.1 p.2 := by
  simp only [allHold_cons, allHold_nil, holds_type, List.mem_singleton, exists_eq_left, and_true,
    holds_properties]
  constructor
  · rintro ⟨hobject, hrequired, hproperties⟩
    exact ⟨hobject, (holds_required hobject).mp hrequired, hproperties⟩
  · rintro ⟨hobject, hrequired, hproperties⟩
    exact ⟨hobject, (holds_required hobject).mpr hrequired, hproperties⟩

@[simp] theorem includes_ofInt (t : Int) :
    InstanceType.integer.includes (.number (.ofInt t)) = true := by
  show ((Numeral.ofInt t).value.den == 1) = true
  rw [Numeral.value_ofInt, beq_iff_eq]
  rfl

@[simp] theorem holds_constInteger_ofInt {value t : Int} :
    (Keyword.constInteger value).holds (.number (.ofInt t)) = true ↔ t = value := by
  show ((Document.number (.ofInt t)).number? == some (value : ℚ)) = true ↔ _
  simp [Document.number?]

@[simp] theorem holds_minimum_ofInt {bound t : Int} :
    (Keyword.minimum bound).holds (.number (.ofInt t)) = true ↔ bound ≤ t := by
  show ((Document.number (.ofInt t)).number?.all fun q => decide ((bound : ℚ) ≤ q)) = true ↔ _
  simp [Document.number?]

@[simp] theorem holds_maximum_ofInt {bound t : Int} :
    (Keyword.maximum bound).holds (.number (.ofInt t)) = true ↔ t ≤ bound := by
  show ((Document.number (.ofInt t)).number?.all fun q => decide (q ≤ (bound : ℚ))) = true ↔ _
  simp [Document.number?]

@[simp] theorem holds_constString {value s : String} :
    (Keyword.constString value).holds (.string s) = true ↔ s = value := by
  show ((Document.string s).string? == some value) = true ↔ _
  simp [Document.string?]

@[simp] theorem holds_minLength {length : Nat} {s : String} :
    (Keyword.minLength length).holds (.string s) = true ↔ length ≤ s.length := by
  show ((Document.string s).string?.all fun s => decide (length ≤ s.length)) = true ↔ _
  simp [Document.string?]

@[simp] theorem holds_items {schema : Schema} {items : List Document} :
    (Keyword.items schema).holds (.array items) = true ↔ ∀ v ∈ items, allHold schema v = true := by
  show (((Document.array items).items?.getD []).all fun v => allHold schema v) = true ↔ _
  simp [Document.items?]

end
end OracleQa.Text
