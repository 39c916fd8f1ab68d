import OracleQa.Spec.Lookup
import OracleQa.Text.Base58

/-! The payments that a transaction may deliver, whichever of the two renderings of an instruction
the node has chosen, and in whatever order it lists the instructions. -/

namespace OracleQa.Candidates
open Chain Detection Text

abbrev AccountIndex (accountKeys : List String) := { i : UInt8 // i.toNat < accountKeys.length }

def AccountIndex.text {accountKeys : List String} (i : AccountIndex accountKeys) : String :=
  accountKeys.get ⟨i.1.toNat, i.2⟩

structure Instruction (accountKeys : List String) where
  program : AccountIndex accountKeys
  accounts : List (AccountIndex accountKeys)
  data : String

/-- The two ways to write an instruction that the node does not parse itself. -/
inductive Renders {accountKeys : List String} :
    Instruction accountKeys → UiInstruction → Prop
  | compiled (ix : Instruction accountKeys) :
      Renders ix (.compiled ix.program.1 (ix.accounts.map Subtype.val) ix.data)
  | partiallyDecoded (ix : Instruction accountKeys) :
      Renders ix (.partiallyDecoded ix.program.text (ix.accounts.map AccountIndex.text) ix.data)

structure Instructions (accountKeys : List String) where
  topLevel : List (Instruction accountKeys)
  inner : List (List (Instruction accountKeys))

def Instructions.all {accountKeys : List String} (ixs : Instructions accountKeys) :
    List (Instruction accountKeys) :=
  ixs.topLevel ++ ixs.inner.flatten

/-- Each instruction is rendered in a way of its own. -/
structure Rendered {accountKeys : List String} (ixs : Instructions accountKeys)
    (enc : EncodedTransaction) (instructions : List UiInstruction) : Prop where
  topLevel : List.Forall₂ Renders ixs.topLevel instructions
  inner : List.Forall₂ (List.Forall₂ Renders) ixs.inner
    ((enc.txMeta.bind (·.innerInstructions)).getD [])

/-- A public key has one text, and is read from it. -/
structure OneText (crates : Crates) : Prop where
  printed : ∀ key, crates.pubkeyFromStr (crates.pubkeyToString key) = some key
  unique : ∀ {text text' key}, crates.pubkeyFromStr text = some key →
    crates.pubkeyFromStr text' = some key → text = text'

/-- The instruction is a `SubmitDelivery` to the escrow program, with this fifth account. -/
structure Instruction.Submits {accountKeys : List String} (crates : Crates) (escrowProgram : Pubkey)
    (ix : Instruction accountKeys) (key : Pubkey) : Prop where
  program : crates.pubkeyFromStr ix.program.text = some escrowProgram
  data : ∃ bytes, crates.bs58Decode ix.data = some bytes ∧
    bytes.head? = some crates.submitDeliveryDiscriminant
  payment : ∃ i, ix.accounts[4]? = some i ∧ crates.pubkeyFromStr i.text = some key

variable {crates : Crates} {cfg : OracleConfig} {accountKeys : List String} {key : Pubkey}

/-! ## One instruction -/

theorem isSubmitDelivery_iff {data : String} : isSubmitDelivery crates data = true ↔
    ∃ bytes, crates.bs58Decode data = some bytes ∧
      bytes.head? = some crates.submitDeliveryDiscriminant := by
  unfold isSubmitDelivery
  cases crates.bs58Decode data with
  | none => simp
  | some bytes => simp

theorem OneText.eq_iff (h : OneText crates) {text : String} :
    text = crates.pubkeyToString key ↔ crates.pubkeyFromStr text = some key := by
  constructor
  · rintro rfl
    exact h.printed key
  · intro htext
    exact h.unique htext (h.printed key)

theorem getElem?_text (i : AccountIndex accountKeys) : accountKeys[i.1.toNat]? = some i.text :=
  List.getElem?_eq_getElem i.2

theorem partiallyDecoded_iff (h : OneText crates) (ix : Instruction accountKeys) :
    paymentFromInstruction crates accountKeys cfg.escrowProgramId
        (.partiallyDecoded ix.program.text (ix.accounts.map AccountIndex.text) ix.data) =
      some key ↔ ix.Submits crates cfg.escrowProgramId key := by
  rw [paymentFromInstruction, paymentFromPartialIx]
  constructor
  · intro hpayment
    split at hpayment
    · cases hpayment
    next hprogram =>
    split at hpayment
    · cases hpayment
    next hdata =>
    rw [List.getElem?_map, Option.bind_map] at hpayment
    obtain ⟨i, hi, hkey⟩ := Option.bind_eq_some_iff.mp hpayment
    exact ⟨h.eq_iff.mp (not_not.mp hprogram), isSubmitDelivery_iff.mp (by simpa using hdata),
      i, hi, hkey⟩
  · rintro ⟨hprogram, hdata, i, hi, hkey⟩
    rw [if_neg (not_not.mpr (h.eq_iff.mpr hprogram)), isSubmitDelivery_iff.mpr hdata,
      List.getElem?_map, hi]
    exact hkey

theorem compiled_iff (ix : Instruction accountKeys) :
    paymentFromInstruction crates accountKeys cfg.escrowProgramId
        (.compiled ix.program.1 (ix.accounts.map Subtype.val) ix.data) = some key ↔
      ix.Submits crates cfg.escrowProgramId key := by
  rw [paymentFromInstruction, paymentFromCompiledIx, getElem?_text, Option.bind_some]
  constructor
  · intro hpayment
    split at hpayment
    · cases hpayment
    next programId hprogram =>
    split at hpayment
    · cases hpayment
    next hescrow =>
    split at hpayment
    · cases hpayment
    next hdata =>
    rw [List.getElem?_map] at hpayment
    cases hi : ix.accounts[4]? with
    | none =>
      rw [hi] at hpayment
      cases hpayment
    | some i =>
      rw [hi] at hpayment
      change accountKeys[i.1.toNat]?.bind crates.pubkeyFromStr = some key at hpayment
      rw [getElem?_text] at hpayment
      rw [not_not] at hescrow
      exact ⟨hescrow ▸ hprogram, isSubmitDelivery_iff.mp (by simpa using hdata), i, hi, hpayment⟩
  · rintro ⟨hprogram, hdata, i, hi, hkey⟩
    rw [hprogram]
    simp only [ne_eq, not_true_eq_false, if_false, isSubmitDelivery_iff.mpr hdata, Bool.not_true,
      Bool.false_eq_true, List.getElem?_map, hi, Option.map_some, getElem?_text]
    exact hkey

theorem Renders.payment_iff (h : OneText crates) {ix : Instruction accountKeys}
    {ui : UiInstruction} (hui : Renders ix ui) :
    paymentFromInstruction crates accountKeys cfg.escrowProgramId ui = some key ↔
      ix.Submits crates cfg.escrowProgramId key := by
  cases hui with
  | compiled => exact compiled_iff ix
  | partiallyDecoded => exact partiallyDecoded_iff h ix

/-! ## The list of candidates -/

section
variable {α β : Type} {R : α → β → Prop} {xs : List α} {ys : List β}

theorem exists_of_forall₂ (h : List.Forall₂ R xs ys) {x : α} (hx : x ∈ xs) : ∃ y ∈ ys, R x y := by
  induction h with
  | nil => cases hx
  | @cons x' y xs ys hxy h ih =>
    rcases List.mem_cons.mp hx with rfl | hx
    · exact ⟨y, List.mem_cons_self, hxy⟩
    · obtain ⟨y', hy', hR⟩ := ih hx
      exact ⟨y', List.mem_cons_of_mem y hy', hR⟩

theorem nodup_of_isChain [PartialOrder β] {f : α → β} (hf : Function.Injective f)
    (hsorted : xs.Pairwise fun a b => f a ≤ f b) (hchain : xs.IsChain (· ≠ ·)) : xs.Nodup := by
  induction xs with
  | nil => exact .nil
  | cons a xs ih =>
    obtain ⟨hle, hrest⟩ := List.pairwise_cons.mp hsorted
    refine List.nodup_cons.mpr ⟨fun hmem => ?_, ih hrest hchain.tail⟩
    cases xs with
    | nil => cases hmem
    | cons b xs =>
      have hne : a ≠ b := (List.isChain_cons_cons.mp hchain).1
      -- the second element lies between the two equal ones
      have hback : f b ≤ f a := by
        rcases List.mem_cons.mp hmem with rfl | hmem
        · exact le_rfl
        · exact (List.pairwise_cons.mp hrest).1 a hmem
      exact hne (hf (le_antisymm (hle b List.mem_cons_self) hback))

end

variable {enc enc' : EncodedTransaction} {instructions instructions' : List UiInstruction}
  {ixs ixs' : Instructions accountKeys}

theorem Rendered.all (h : Rendered ixs enc instructions) :
    List.Forall₂ Renders ixs.all (allInstructions enc instructions) :=
  List.rel_append h.topLevel (List.rel_flatten h.inner)

theorem mem_candidates_iff (h : OneText crates) (hixs : Rendered ixs enc instructions) :
    key ∈ paymentCandidates crates cfg enc accountKeys instructions ↔
      ∃ ix ∈ ixs.all, ix.Submits crates cfg.escrowProgramId key := by
  rw [mem_paymentCandidates_iff]
  constructor
  · rintro ⟨ui, hui, hkey⟩
    obtain ⟨ix, hix, hrenders⟩ := exists_of_forall₂ hixs.all.flip hui
    exact ⟨ix, hix, (hrenders.payment_iff h).mp hkey⟩
  · rintro ⟨ix, hix, hsubmits⟩
    obtain ⟨ui, hui, hrenders⟩ := exists_of_forall₂ hixs.all hix
    exact ⟨ui, hui, (hrenders.payment_iff h).mpr hsubmits⟩

theorem OneText.injective (h : OneText crates) : Function.Injective crates.pubkeyToString := by
  intro key key' htext
  have hread := h.printed key
  rw [htext, h.printed key'] at hread
  exact (Option.some.inj hread).symm

theorem candidates_nodup (h : OneText crates) :
    (paymentCandidates crates cfg enc accountKeys instructions).Nodup :=
  nodup_of_isChain h.injective (Lookup.paymentCandidates_sorted accountKeys instructions)
    (List.isChain_destutter _ _)

theorem candidates_eq (h : OneText crates) (hsame : ∀ key,
      key ∈ paymentCandidates crates cfg enc accountKeys instructions ↔
        key ∈ paymentCandidates crates cfg enc' accountKeys instructions') :
    paymentCandidates crates cfg enc accountKeys instructions =
      paymentCandidates crates cfg enc' accountKeys instructions' := by
  have hperm := (List.perm_ext_iff_of_nodup (candidates_nodup h) (candidates_nodup h)).mpr hsame
  refine List.Perm.eq_of_pairwise (fun a b _ _ hab hba => ?_)
    (Lookup.paymentCandidates_sorted accountKeys instructions)
    (Lookup.paymentCandidates_sorted accountKeys instructions') hperm
  exact h.injective (le_antisymm hab hba)

/-- The candidates are the payments that the instructions submit, once each, whatever the
rendering and the order of the instructions. -/
theorem paymentCandidates_exact (crates : Crates) (cfg : OracleConfig) (h : OneText crates)
    {accountKeys : List String} {ixs : Instructions accountKeys} {enc : EncodedTransaction}
    {instructions : List UiInstruction} (hixs : Rendered ixs enc instructions) :
    let candidates := paymentCandidates crates cfg enc accountKeys instructions
    candidates.Nodup ∧
      (∀ key, key ∈ candidates ↔ ∃ ix ∈ ixs.all, ix.Submits crates cfg.escrowProgramId key) ∧
      ∀ (ixs' : Instructions accountKeys) (enc' : EncodedTransaction)
        (instructions' : List UiInstruction), Rendered ixs' enc' instructions' →
        ixs.all.Perm ixs'.all →
        paymentCandidates crates cfg enc' accountKeys instructions' = candidates := by
  intro candidates
  refine ⟨candidates_nodup h, fun key => mem_candidates_iff h hixs, ?_⟩
  intro ixs' enc' instructions' hixs' hperm
  apply candidates_eq h
  intro key
  rw [mem_candidates_iff h hixs', mem_candidates_iff h hixs]
  simp only [hperm.mem_iff]

/-! ## Two renderings of one transaction -/

def keyTexts : Crates :=
  { Crates.toy with
    pubkeyToString := fun key => base58Encode key.toList
    pubkeyFromStr := base58Read 32
    bs58Decode := fun text => (base58Read 1 text).map List.Vector.toList }

theorem keyTexts_read : keyTexts.pubkeyFromStr = base58Read 32 := by simp only [keyTexts]

theorem keyTexts_print (key : Pubkey) : keyTexts.pubkeyToString key = base58Encode key.toList := by
  simp only [keyTexts]

theorem oneText_keyTexts : OneText keyTexts where
  printed key := by
    rw [keyTexts_read, keyTexts_print]
    exact base58Read_encode key
  unique h h' := by
    rw [keyTexts_read] at h h'
    rw [← encode_of_base58Read h, encode_of_base58Read h']

def deliveryKeys : List String :=
  [byte32 6, byte32 1, byte32 2].map fun key => base58Encode key.toList

def firstDelivery : Instruction deliveryKeys :=
  ⟨⟨0, by decide⟩, List.replicate 4 ⟨0, by decide⟩ ++ [⟨2, by decide⟩], "4"⟩

theorem firstDelivery_submits : firstDelivery.Submits keyTexts (byte32 6) (byte32 2) where
  program := by
    rw [keyTexts_read]
    exact base58Read_encode (byte32 6)
  data := ⟨[3], by decide +kernel, rfl⟩
  payment := by
    rw [keyTexts_read]
    exact ⟨⟨2, by decide⟩, rfl, base58Read_encode (byte32 2)⟩

def deliveries : List (Instruction deliveryKeys) :=
  [firstDelivery,
    ⟨⟨0, by decide⟩, List.replicate 4 ⟨2, by decide⟩ ++ [⟨1, by decide⟩], "4"⟩,
    ⟨⟨0, by decide⟩, List.replicate 4 ⟨1, by decide⟩ ++ [⟨2, by decide⟩], "4"⟩]

def asCompiled (ix : Instruction deliveryKeys) : UiInstruction :=
  .compiled ix.program.1 (ix.accounts.map Subtype.val) ix.data

def asDecoded (ix : Instruction deliveryKeys) : UiInstruction :=
  .partiallyDecoded ix.program.text (ix.accounts.map AccountIndex.text) ix.data

theorem paymentCandidates_exact_deliveries :
    let topLevel := paymentCandidates keyTexts .toy ⟨none, none⟩ deliveryKeys
      (deliveries.map asCompiled)
    byte32 2 ∈ topLevel ∧
      paymentCandidates keyTexts .toy
        ⟨none, some ⟨none, some [deliveries.reverse.map asDecoded]⟩⟩ deliveryKeys [] =
        topLevel := by
  have htop : Rendered ⟨deliveries, []⟩ ⟨none, none⟩ (deliveries.map asCompiled) :=
    ⟨List.forall₂_map_right_iff.mpr (List.forall₂_same.mpr fun ix _ => .compiled ix), .nil⟩
  have hinner : Rendered ⟨[], [deliveries.reverse]⟩
      ⟨none, some ⟨none, some [deliveries.reverse.map asDecoded]⟩⟩ [] :=
    ⟨.nil, .cons (List.forall₂_map_right_iff.mpr
      (List.forall₂_same.mpr fun ix _ => .partiallyDecoded ix)) .nil⟩
  obtain ⟨-, hmem, hsame⟩ := paymentCandidates_exact keyTexts .toy oneText_keyTexts htop
  refine ⟨(hmem _).mpr ⟨firstDelivery, List.mem_cons_self, firstDelivery_submits⟩, ?_⟩
  exact hsame _ _ _ hinner (by simp [Instructions.all])

end OracleQa.Candidates
