import OracleQa.Text.Encoding

/-! Base 64 with the standard alphabet and canonical padding: four characters for three bytes, the
last group filled up with `=`, and no stray bits before the padding. -/

namespace OracleQa.Text

def base64Alphabet : List Char :=
  "ABCDEFGHIJKLMNOPQRSTUVWXYZabcdefghijklmnopqrstuvwxyz0123456789+/".toList

def base64Char (d : Nat) : Char := base64Alphabet.getD d 'A'

def base64Value (c : Char) : Option Nat :=
  let d := base64Alphabet.idxOf c
  if d < 64 then some d else none

def base64Encode : List UInt8 → List Char
  | [] => []
  | [x] => [base64Char (x.toNat / 4), base64Char (x.toNat % 4 * 16), '=', '=']
  | [x, y] =>
    [base64Char (x.toNat / 4), base64Char (x.toNat % 4 * 16 + y.toNat / 16),
      base64Char (y.toNat % 16 * 4), '=']
  | x :: y :: z :: rest =>
    base64Char (x.toNat / 4) :: base64Char (x.toNat % 4 * 16 + y.toNat / 16) ::
      base64Char (y.toNat % 16 * 4 + z.toNat / 64) :: base64Char (z.toNat % 64) ::
      base64Encode rest

/-- The bytes of a group whose fourth character is the padding. -/
def base64Last (a b c : Char) : Option (List UInt8) := do
  let a ← base64Value a
  let b ← base64Value b
  if c = '=' then
    if b % 16 = 0 then return [.ofNat (a * 4 + b / 16)] else none
  else
    let c ← base64Value c
    if c % 4 = 0 then return [.ofNat (a * 4 + b / 16), .ofNat (b % 16 * 16 + c / 4)] else none

def base64Group (a b c d : Char) : Option (List UInt8) := do
  let a ← base64Value a
  let b ← base64Value b
  let c ← base64Value c
  let d ← base64Value d
  return [.ofNat (a * 4 + b / 16), .ofNat (b % 16 * 16 + c / 4), .ofNat (c % 4 * 64 + d)]

def base64Decode : List Char → Option (List UInt8)
  | [] => some []
  | a :: b :: c :: d :: rest =>
    if d = '=' then if rest = [] then base64Last a b c else none
    else do
      let group ← base64Group a b c d
      let bytes ← base64Decode rest
      return group ++ bytes
  | _ => none

theorem base64Value_char : ∀ d < 64, base64Value (base64Char d) = some d := by decide +kernel

theorem base64Char_ne_padding : ∀ d < 64, base64Char d ≠ '=' := by decide +kernel

section
variable {x y z : UInt8}

theorem ofNat_eq_of_toNat {n : Nat} (h : n = x.toNat) : UInt8.ofNat n = x := by
  rw [h, UInt8.ofNat_toNat]

theorem base64Last_one : base64Last (base64Char (x.toNat / 4)) (base64Char (x.toNat % 4 * 16)) '=' =
    some [x] := by
  have hx : x.toNat < 256 := x.toNat_lt
  have hbyte : UInt8.ofNat (x.toNat / 4 * 4 + x.toNat % 4 * 16 / 16) = x :=
    ofNat_eq_of_toNat (by omega)
  rw [base64Last, base64Value_char _ (by omega), base64Value_char _ (by omega)]
  simp only [Option.bind_eq_bind, Option.bind_some, if_true]
  rw [if_pos (by omega), hbyte]
  rfl

theorem base64Last_two : base64Last (base64Char (x.toNat / 4))
    (base64Char (x.toNat % 4 * 16 + y.toNat / 16)) (base64Char (y.toNat % 16 * 4)) =
    some [x, y] := by
  have hx : x.toNat < 256 := x.toNat_lt
  have hy : y.toNat < 256 := y.toNat_lt
  have hfirst : UInt8.ofNat (x.toNat / 4 * 4 + (x.toNat % 4 * 16 + y.toNat / 16) / 16) = x :=
    ofNat_eq_of_toNat (by omega)
  have hsecond : UInt8.ofNat ((x.toNat % 4 * 16 + y.toNat / 16) % 16 * 16 +
      y.toNat % 16 * 4 / 4) = y := ofNat_eq_of_toNat (by omega)
  have hpadding : base64Char (y.toNat % 16 * 4) ≠ '=' := base64Char_ne_padding _ (by omega)
  rw [base64Last, base64Value_char _ (by omega), base64Value_char _ (by omega),
    base64Value_char _ (by omega)]
  simp only [Option.bind_eq_bind, Option.bind_some, if_neg hpadding]
  rw [if_pos (by omega), hfirst, hsecond]
  rfl

theorem base64Group_encode : base64Group (base64Char (x.toNat / 4))
    (base64Char (x.toNat % 4 * 16 + y.toNat / 16)) (base64Char (y.toNat % 16 * 4 + z.toNat / 64))
    (base64Char (z.toNat % 64)) = some [x, y, z] := by
  have hx : x.toNat < 256 := x.toNat_lt
  have hy : y.toNat < 256 := y.toNat_lt
  have hz : z.toNat < 256 := z.toNat_lt
  have hfirst : UInt8.ofNat (x.toNat / 4 * 4 + (x.toNat % 4 * 16 + y.toNat / 16) / 16) = x :=
    ofNat_eq_of_toNat (by omega)
  have hsecond : UInt8.ofNat ((x.toNat % 4 * 16 + y.toNat / 16) % 16 * 16 +
      (y.toNat % 16 * 4 + z.toNat / 64) / 4) = y := ofNat_eq_of_toNat (by omega)
  have hthird : UInt8.ofNat ((y.toNat % 16 * 4 + z.toNat / 64) % 4 * 64 + z.toNat % 64) = z :=
    ofNat_eq_of_toNat (by omega)
  rw [base64Group, base64Value_char _ (by omega), base64Value_char _ (by omega),
    base64Value_char _ (by omega), base64Value_char _ (by omega)]
  simp only [Option.bind_eq_bind, Option.bind_some]
  rw [hfirst, hsecond, hthird]
  rfl

end

theorem base64Decode_encode (bs : List UInt8) : base64Decode (base64Encode bs) = some bs := by
  induction bs using base64Encode.induct with
  | case1 => rfl
  | case2 x => exact base64Last_one
  | case3 x y => exact base64Last_two
  | case4 x y z rest ih =>
    have hpadding : base64Char (z.toNat % 64) ≠ '=' :=
      base64Char_ne_padding _ (Nat.mod_lt _ (by decide))
    rw [base64Encode, base64Decode, if_neg hpadding, base64Group_encode, ih]
    rfl

theorem base64Char_mem (d : Nat) : base64Char d ∈ base64Alphabet := by
  rw [base64Char, List.getD_eq_getElem?_getD]
  cases hget : base64Alphabet[d]? with
  | none => decide
  | some c => exact List.mem_of_getElem? hget

theorem mem_base64Encode {bs : List UInt8} {c : Char} (hc : c ∈ base64Encode bs) :
    c ∈ '=' :: base64Alphabet := by
  induction bs using base64Encode.induct with
  | case1 => cases hc
  | case2 x =>
    simp only [base64Encode, List.mem_cons, List.not_mem_nil, or_false] at hc
    rcases hc with rfl | rfl | rfl | rfl <;> simp [base64Char_mem]
  | case3 x y =>
    simp only [base64Encode, List.mem_cons, List.not_mem_nil, or_false] at hc
    rcases hc with rfl | rfl | rfl | rfl <;> simp [base64Char_mem]
  | case4 x y z rest ih =>
    simp only [base64Encode, List.mem_cons] at hc
    rcases hc with rfl | rfl | rfl | rfl | hc
    · exact List.mem_cons_of_mem _ (base64Char_mem _)
    · exact List.mem_cons_of_mem _ (base64Char_mem _)
    · exact List.mem_cons_of_mem _ (base64Char_mem _)
    · exact List.mem_cons_of_mem _ (base64Char_mem _)
    · exact ih hc

theorem base64Encode_not_whitespace {bs : List UInt8} {c : Char} (hc : c ∈ base64Encode bs) :
    isWhitespace c = false := by
  have hall : (('=' :: base64Alphabet).all fun c => !isWhitespace c) = true := by decide +kernel
  simpa using List.all_eq_true.mp hall c (mem_base64Encode hc)

theorem base64Encode_eq_nil {bs : List UInt8} (h : base64Encode bs = []) : bs = [] := by
  cases bs using base64Encode.fun_cases with
  | case1 => rfl
  | case2 x => cases h
  | case3 x y => cases h
  | case4 x y z rest => cases h

end OracleQa.Text
