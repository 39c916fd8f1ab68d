import Mathlib

/-! Encodings of bytes and machine integers: lower-case hexadecimal, unsigned decimal, little-endian
bytes; and the Unicode notion of surrounding white space. -/

namespace OracleQa.Text

/-! ## Hexadecimal -/

def hexByte (b : UInt8) : List Char :=
  [Nat.digitChar (b.toNat / 16), Nat.digitChar (b.toNat % 16)]

def hexEncode (bs : List UInt8) : String := String.ofList (bs.flatMap hexByte)

theorem digitChar_inj : ∀ {a b : Nat}, a < 16 → b < 16 →
    Nat.digitChar a = Nat.digitChar b → a = b := by
  have key : ∀ a b : Fin 16, Nat.digitChar a = Nat.digitChar b → a = b := by decide
  intro a b ha hb h
  exact congrArg Fin.val (key ⟨a, ha⟩ ⟨b, hb⟩ h)

theorem hexByte_inj {a b : UInt8} (h : hexByte a = hexByte b) : a = b := by
  have ha : a.toNat < 256 := a.toNat_lt
  have hb : b.toNat < 256 := b.toNat_lt
  obtain ⟨hhigh, hrest⟩ := List.cons.inj h
  obtain ⟨hlow, -⟩ := List.cons.inj hrest
  have h1 : a.toNat / 16 = b.toNat / 16 := digitChar_inj (by omega) (by omega) hhigh
  have h2 : a.toNat % 16 = b.toNat % 16 := digitChar_inj (by omega) (by omega) hlow
  exact UInt8.toNat_inj.mp (by omega)

theorem hexEncode_injective : Function.Injective hexEncode := by
  intro as bs h
  have hbytes : as.flatMap hexByte = bs.flatMap hexByte := String.ofList_injective h
  clear h
  induction as generalizing bs with
  | nil =>
    cases bs with
    | nil => rfl
    | cons b bs => simp [hexByte] at hbytes
  | cons a as ih =>
    cases bs with
    | nil => simp [hexByte] at hbytes
    | cons b bs =>
      rw [List.flatMap_cons, List.flatMap_cons] at hbytes
      obtain ⟨hhead, htail⟩ := List.append_inj hbytes rfl
      rw [hexByte_inj hhead, ih htail]

def hexDigit (c : Char) : Option Nat :=
  if c.isDigit then some (c.toNat - '0'.toNat)
  else if 'a' ≤ c ∧ c ≤ 'f' then some (c.toNat - 'a'.toNat + 10)
  else if 'A' ≤ c ∧ c ≤ 'F' then some (c.toNat - 'A'.toNat + 10)
  else none

/-- `hex::decode`: pairs of digits, and no odd one. -/
def hexDecode : List Char → Option (List UInt8)
  | [] => some []
  | [_] => none
  | high :: low :: cs => do
    let h ← hexDigit high
    let l ← hexDigit low
    let bs ← hexDecode cs
    return .ofNat (16 * h + l) :: bs

theorem hexDecode_hexEncode (bs : List UInt8) : hexDecode (hexEncode bs).toList = some bs := by
  have hdigit : ∀ d : Fin 16, hexDigit (Nat.digitChar d) = some d.val := by decide
  rw [hexEncode, String.toList_ofList]
  induction bs with
  | nil => rfl
  | cons b bs ih =>
    have hb : b.toNat < 256 := b.toNat_lt
    have hhigh : hexDigit (Nat.digitChar (b.toNat / 16)) = some (b.toNat / 16) :=
      hdigit ⟨b.toNat / 16, by omega⟩
    have hlow : hexDigit (Nat.digitChar (b.toNat % 16)) = some (b.toNat % 16) :=
      hdigit ⟨b.toNat % 16, by omega⟩
    have hbyte : UInt8.ofNat (16 * (b.toNat / 16) + b.toNat % 16) = b := by
      rw [Nat.div_add_mod, UInt8.ofNat_toNat]
    rw [List.flatMap_cons, hexByte]
    show (do
      let h ← hexDigit (Nat.digitChar (b.toNat / 16))
      let l ← hexDigit (Nat.digitChar (b.toNat % 16))
      let bs ← hexDecode (bs.flatMap hexByte)
      return UInt8.ofNat (16 * h + l) :: bs) = some (b :: bs)
    rw [hhigh, hlow, ih]
    exact congrArg (fun b => some (b :: bs)) hbyte

example : hexDecode "0aFf".toList = some [10, 255] := by decide

/-! ## Decimal -/

def unsigned : List Char → List Char
  | '+' :: cs => cs
  | cs => cs

/-- `str::parse::<u64>`: an optional plus sign, at least one digit, and no overflow. -/
def parseU64 (s : String) : Option Nat :=
  let digits := unsigned s.toList
  if digits ≠ [] ∧ digits.all Char.isDigit ∧ Nat.ofDigitChars 10 digits 0 < 2 ^ 64 then
    some (Nat.ofDigitChars 10 digits 0)
  else none

theorem unsigned_of_digits {cs : List Char} (h : ∀ c ∈ cs, c.isDigit) : unsigned cs = cs := by
  unfold unsigned
  split
  · next rest =>
    have := h '+' List.mem_cons_self
    simp at this
  · rfl

theorem parseU64_repr {n : Nat} (h : n < 2 ^ 64) : parseU64 n.repr = some n := by
  have hdigit : ∀ c ∈ Nat.toDigits 10 n, c.isDigit :=
    fun c hc => Nat.isDigit_of_mem_toDigits (by decide) (by decide) hc
  have hvalue : Nat.ofDigitChars 10 (Nat.toDigits 10 n) 0 = n :=
    Nat.ofDigitChars_toDigits (by decide) (by decide)
  simp only [parseU64, Nat.toList_repr, unsigned_of_digits hdigit, hvalue]
  exact if_pos ⟨Nat.toDigits_ne_nil, List.all_eq_true.mpr hdigit, h⟩

theorem parseU64_lt (s : String) : (parseU64 s).getD 0 < 2 ^ 64 := by
  unfold parseU64
  dsimp only
  split
  · next h => exact h.2.2
  · decide

/-! ## Little-endian bytes -/

def leBytes : Nat → Nat → List UInt8
  | 0, _ => []
  | k + 1, n => .ofNat (n % 256) :: leBytes k (n / 256)

def leValue : List UInt8 → Nat
  | [] => 0
  | b :: bs => b.toNat + 256 * leValue bs

theorem length_leBytes (k n : Nat) : (leBytes k n).length = k := by
  induction k generalizing n with
  | zero => rfl
  | succ k ih => rw [leBytes, List.length_cons, ih]

theorem leValue_leBytes {k n : Nat} (h : n < 256 ^ k) : leValue (leBytes k n) = n := by
  induction k generalizing n with
  | zero =>
    rw [pow_zero] at h
    exact (Nat.lt_one_iff.mp h).symm
  | succ k ih =>
    have hrest : n / 256 < 256 ^ k := Nat.div_lt_of_lt_mul (by rwa [pow_succ'] at h)
    have hbyte : (UInt8.ofNat (n % 256)).toNat = n % 256 :=
      UInt8.toNat_ofNat_of_lt' (Nat.mod_lt _ (by decide))
    rw [leBytes, leValue, ih hrest, hbyte]
    exact Nat.mod_add_div n 256

def int64Bytes (z : Int) : List UInt8 := leBytes 8 (z % 2 ^ 64).toNat

def int64Value (bs : List UInt8) : Int :=
  let n := leValue bs
  if n < 2 ^ 63 then n else n - 2 ^ 64

theorem int64Value_bytes {z : Int} (h : -2 ^ 63 ≤ z ∧ z < 2 ^ 63) :
    int64Value (int64Bytes z) = z := by
  have hlt : (z % 2 ^ 64).toNat < 256 ^ 8 := by omega
  rw [int64Value, int64Bytes, leValue_leBytes hlt]
  split <;> omega

/-! ## White space -/

/-- The code points of the Unicode property `White_Space`. -/
def isWhitespace (c : Char) : Bool :=
  let n := c.toNat
  (9 ≤ n && n ≤ 13) || n == 0x20 || n == 0x85 || n == 0xA0 || n == 0x1680 ||
    (0x2000 ≤ n && n ≤ 0x200A) || n == 0x2028 || n == 0x2029 || n == 0x202F ||
    n == 0x205F || n == 0x3000

/-- `str::trim` on the characters of a line. -/
def trim (cs : List Char) : List Char :=
  (cs.dropWhile isWhitespace).rdropWhile isWhitespace

theorem trim_trim (cs : List Char) : trim (trim cs) = trim cs := by
  unfold trim
  have hstart : ((cs.dropWhile isWhitespace).rdropWhile isWhitespace).dropWhile isWhitespace =
      (cs.dropWhile isWhitespace).rdropWhile isWhitespace := by
    rw [List.dropWhile_eq_self_iff]
    intro hlength
    -- what is left begins where the text without leading white space does
    rw [(List.rdropWhile_prefix _ _).getElem]
    exact List.dropWhile_get_zero_not _ _ _
  rw [hstart, List.rdropWhile_idempotent]

def stripPrefix (pre cs : List Char) : Option (List Char) :=
  if pre <+: cs then some (cs.drop pre.length) else none

/-! ## UTF-8 -/

theorem utf8_injective {s t : String} (h : s.toUTF8.data.toList = t.toUTF8.data.toList) :
    s = t := by
  have hdata : s.toByteArray = t.toByteArray := ByteArray.ext (Array.toList_inj.mp h)
  exact String.toByteArray_inj.mp hdata

theorem utf8_ascii {bs : List UInt8} (h : ∀ b ∈ bs, b < 128) :
    (String.ofList (bs.map fun b => Char.ofNat b.toNat)).toUTF8.data.toList = bs := by
  have hbyte : ∀ n : Fin 128, String.utf8EncodeChar (Char.ofNat n.val) = [UInt8.ofNat n.val] := by
    decide
  have hflat : (bs.map fun b => Char.ofNat b.toNat).flatMap String.utf8EncodeChar = bs := by
    induction bs with
    | nil => rfl
    | cons b bs ih =>
      obtain ⟨hb, hbs⟩ := List.forall_mem_cons.mp h
      have hone := hbyte ⟨b.toNat, UInt8.lt_iff_toNat_lt.mp hb⟩
      rw [List.map_cons, List.flatMap_cons, hone, ih hbs, UInt8.ofNat_toNat]
      rfl
  show (String.ofList _).toByteArray.data.toList = bs
  rw [String.toByteArray_ofList, List.utf8Encode, hflat, List.data_toByteArray,
    List.toList_toArray]

end OracleQa.Text
