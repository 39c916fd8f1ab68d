import Mathlib.Data.Nat.Digits.Lemmas
import Mathlib.Data.Vector.Basic
import OracleQa.Text.Encoding

/-! Base 58, in which public keys are written: a digit 1 for each leading zero byte, and the
base-58 digits of the bytes as a number, most significant first. -/

namespace OracleQa.Text

def base58Alphabet : List Char :=
  "123456789ABCDEFGHJKLMNPQRSTUVWXYZabcdefghijkmnopqrstuvwxyz".toList

def base58Char (d : Nat) : Char := base58Alphabet.getD d '1'

def bytesValue (bs : List UInt8) : Nat := Nat.ofDigits 256 (bs.reverse.map UInt8.toNat)

def base58Encode (bs : List UInt8) : String :=
  String.ofList (List.replicate (bs.takeWhile (· == 0)).length '1' ++
    (Nat.digits 58 (bytesValue bs)).reverse.map base58Char)

def base58Value (cs : List Char) : Nat :=
  cs.foldl (fun n c => base58Alphabet.idxOf c + 58 * n) 0

theorem idxOf_base58Char : ∀ d < 58, base58Alphabet.idxOf (base58Char d) = d := by decide

theorem foldl_ones (k : Nat) :
    (List.replicate k '1').foldl (fun n c => base58Alphabet.idxOf c + 58 * n) 0 = 0 := by
  induction k with
  | zero => rfl
  | succ k ih => exact ih

theorem foldr_digits {ds : List Nat} (h : ∀ d ∈ ds, d < 58) :
    ds.foldr (fun d n => base58Alphabet.idxOf (base58Char d) + 58 * n) 0 = Nat.ofDigits 58 ds := by
  induction ds with
  | nil => rfl
  | cons d ds ih =>
    rw [List.foldr_cons, idxOf_base58Char d (h d List.mem_cons_self),
      ih fun e he => h e (List.mem_cons_of_mem _ he), Nat.ofDigits_cons]

theorem base58Value_encode (bs : List UInt8) :
    base58Value (base58Encode bs).toList = bytesValue bs := by
  have hdigits : ∀ d ∈ Nat.digits 58 (bytesValue bs), d < 58 :=
    fun d hd => Nat.digits_lt_base (by decide) hd
  rw [base58Value, base58Encode, String.toList_ofList, List.foldl_append, foldl_ones,
    List.foldl_map, List.foldl_reverse, foldr_digits hdigits, Nat.ofDigits_digits]

theorem bytesValue_injective {bs bs' : List UInt8} (hlength : bs.length = bs'.length)
    (h : bytesValue bs = bytesValue bs') : bs = bs' := by
  have hlt : ∀ (bs : List UInt8), ∀ d ∈ bs.reverse.map UInt8.toNat, d < 256 := by
    intro bs d hd
    obtain ⟨b, -, rfl⟩ := List.mem_map.mp hd
    exact b.toNat_lt
  have hdigits := Nat.ofDigits_inj_of_len_eq (by decide) (by simpa using hlength) (hlt bs)
    (hlt bs') h
  have hreverse := List.map_injective_iff.mpr (fun a b hab => UInt8.toNat_inj.mp hab) hdigits
  exact List.reverse_injective hreverse

theorem base58Encode_injective {n : Nat} :
    Function.Injective fun v : List.Vector UInt8 n => base58Encode v.toList := by
  intro v v' h
  have hvalue : bytesValue v.toList = bytesValue v'.toList := by
    rw [← base58Value_encode, ← base58Value_encode]
    exact congrArg (base58Value ·.toList) h
  have hlength : v.toList.length = v'.toList.length := by
    rw [List.Vector.toList_length, List.Vector.toList_length]
  exact List.Vector.toList_injective (bytesValue_injective hlength hvalue)

example : base58Encode [0, 0, 1, 2, 255] = "11LiA" := by decide +kernel

/-- The `n` bytes of which this is the text. -/
def base58Read (n : Nat) (s : String) : Option (List.Vector UInt8 n) :=
  let v : List.Vector UInt8 n := ⟨(leBytes n (base58Value s.toList)).reverse, by
    rw [List.length_reverse, length_leBytes]⟩
  if base58Encode v.toList = s then some v else none

theorem leValue_eq_ofDigits (bs : List UInt8) :
    leValue bs = Nat.ofDigits 256 (bs.map UInt8.toNat) := by
  induction bs with
  | nil => rfl
  | cons b bs ih => rw [leValue, ih, List.map_cons, Nat.ofDigits_cons]

theorem bytesValue_lt (bs : List UInt8) : bytesValue bs < 256 ^ bs.length := by
  have hlt : ∀ d ∈ bs.reverse.map UInt8.toNat, d < 256 := by
    intro d hd
    obtain ⟨b, -, rfl⟩ := List.mem_map.mp hd
    exact b.toNat_lt
  have h := Nat.ofDigits_lt_base_pow_length (by decide) hlt
  rwa [List.length_map, List.length_reverse] at h

theorem leBytes_bytesValue (bs : List UInt8) :
    (leBytes bs.length (bytesValue bs)).reverse = bs := by
  apply bytesValue_injective
  · rw [List.length_reverse, length_leBytes]
  · rw [bytesValue, List.reverse_reverse, ← leValue_eq_ofDigits]
    exact leValue_leBytes (bytesValue_lt bs)

theorem base58Read_encode {n : Nat} (v : List.Vector UInt8 n) :
    base58Read n (base58Encode v.toList) = some v := by
  have hbytes : (leBytes n (base58Value (base58Encode v.toList).toList)).reverse = v.toList := by
    have h := leBytes_bytesValue v.toList
    rwa [List.Vector.toList_length, ← base58Value_encode] at h
  simp only [base58Read, List.Vector.toList_mk, hbytes, if_true]
  exact congrArg some (List.Vector.toList_injective rfl)

theorem encode_of_base58Read {n : Nat} {s : String} {v : List.Vector UInt8 n}
    (h : base58Read n s = some v) : base58Encode v.toList = s := by
  unfold base58Read at h
  dsimp only at h
  split at h
  · next hs =>
    cases h
    exact hs
  · cases h

end OracleQa.Text
