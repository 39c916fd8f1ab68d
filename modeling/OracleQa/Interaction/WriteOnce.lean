import Mathlib.Data.List.Nodup
import Mathlib.Logic.Relation

/-! A table whose places are written once: by us, with entries that are justified, or by someone
else. -/

namespace OracleQa.Interaction

structure WriteOnce (K V T : Type) where
  value : K → Option V
  entries : List T

namespace WriteOnce
variable {K V T : Type} [DecidableEq K] {key : T → K} {val : T → V} {justified : T → Prop}
  {w w' : WriteOnce K V T}

inductive Step (key : T → K) (val : T → V) (justified : T → Prop) (w : WriteOnce K V T) :
    WriteOnce K V T → Prop
  | enter (t : T) (hfree : w.value (key t) = none) (h : justified t) :
      Step key val justified w ⟨Function.update w.value (key t) (some (val t)), t :: w.entries⟩
  | other (k : K) (v : V) (hfree : w.value k = none) :
      Step key val justified w ⟨Function.update w.value k (some v), w.entries⟩

/-- Our entries are justified, stand in the table, and are for different places. -/
structure Lawful (key : T → K) (val : T → V) (justified : T → Prop) (w : WriteOnce K V T) :
    Prop where
  justified : ∀ t ∈ w.entries, justified t
  stands : ∀ t ∈ w.entries, w.value (key t) = some (val t)
  once : (w.entries.map key).Nodup

theorem update_of_some {k k' : K} {v v' : V} (hfree : w.value k = none)
    (hk' : w.value k' = some v') : Function.update w.value k (some v) k' = some v' := by
  rw [Function.update_of_ne, hk']
  rintro rfl
  rw [hfree] at hk'
  cases hk'

theorem Step.stays (h : Step key val justified w w') {k : K} {v : V} (hk : w.value k = some v) :
    w'.value k = some v := by
  cases h with
  | enter t hfree => exact update_of_some hfree hk
  | other k' v' hfree => exact update_of_some hfree hk

omit [DecidableEq K] in
theorem lawful_nil (value : K → Option V) : Lawful key val justified ⟨value, []⟩ :=
  ⟨List.forall_mem_nil _, List.forall_mem_nil _, List.nodup_nil⟩

theorem Step.lawful (h : Step key val justified w w') (hw : Lawful key val justified w) :
    Lawful key val justified w' := by
  have hstands : ∀ t ∈ w.entries, w'.value (key t) = some (val t) := fun t ht =>
    h.stays (hw.stands t ht)
  cases h with
  | enter t hfree ht =>
    refine ⟨List.forall_mem_cons.mpr ⟨ht, hw.justified⟩,
      List.forall_mem_cons.mpr ⟨Function.update_self .., hstands⟩, ?_⟩
    -- the place was free, so none of our entries is for it
    refine List.nodup_cons.mpr ⟨fun hmem => ?_, hw.once⟩
    obtain ⟨t', ht', hkey⟩ := List.mem_map.mp hmem
    have hwritten := hw.stands t' ht'
    rw [hkey, hfree] at hwritten
    cases hwritten
  | other k v hfree => exact ⟨hw.justified, hstands, hw.once⟩

end WriteOnce
end OracleQa.Interaction
