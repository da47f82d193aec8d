import NeuraHash.Python.Json

/-!
# Byte strings

`utf8` is `str.encode`, `fromHex` is `bytes.fromhex` (which skips blanks between bytes and
takes either case), `toBytes8` is `int.to_bytes(8, "big", signed=False)` and `toBytes8Signed` the
signed one.
-/

namespace Py

abbrev Bytes := List UInt8

def utf8 (s : String) : Bytes := s.toUTF8.data.toList

theorem utf8_injective {s t : String} (h : utf8 s = utf8 t) : s = t := by
  have hdata : s.toUTF8.data = t.toUTF8.data := Array.toList_inj.mp h
  have hbytes : s.toByteArray = t.toByteArray := ByteArray.ext hdata
  exact String.toByteArray_inj.mp hbytes

/-- The blanks `bytes.fromhex` skips. -/
def isAsciiSpace (c : Char) : Bool :=
  c == ' ' || c == '\t' || c == '\n' || c == '\r' || c.toNat == 11 || c.toNat == 12

def hexNibble (c : Char) : Option ℕ :=
  if '0' ≤ c ∧ c ≤ '9' then some (c.toNat - 48)
  else if 'a' ≤ c ∧ c ≤ 'f' then some (c.toNat - 87)
  else if 'A' ≤ c ∧ c ≤ 'F' then some (c.toNat - 55)
  else none

def fromHexChars : List Char → Option Bytes
  | [] => some []
  | [c] => if isAsciiSpace c then some [] else none
  | c :: d :: t =>
    if isAsciiSpace c then fromHexChars (d :: t)
    else match hexNibble c, hexNibble d, fromHexChars t with
      | some hi, some lo, some bs => some ((hi * 16 + lo).toUInt8 :: bs)
      | _, _, _ => none

/-- `bytes.fromhex(s)`; `none` raises `ValueError`. -/
def fromHex (s : String) : Option Bytes := fromHexChars s.toList

/-- Eight bytes, most significant first; raises when the integer does not fit. -/
def toBytes8 (n : ℤ) : Except PyErr Bytes :=
  if 0 ≤ n ∧ n < 2 ^ 64 then
    .ok ((List.range 8).map (fun i => (n.toNat / 256 ^ (7 - i)).toUInt8))
  else .error .overflowError

/-- `int.to_bytes(8, "big", signed=True)`: two's complement. -/
def toBytes8Signed (n : ℤ) : Except PyErr Bytes :=
  if -2 ^ 63 ≤ n ∧ n < 2 ^ 63 then toBytes8 (n % 2 ^ 64) else .error .overflowError

theorem length_toBytes8 {n : ℤ} {b : Bytes} (h : toBytes8 n = .ok b) : b.length = 8 := by
  unfold toBytes8 at h
  split at h
  · cases h
    rw [List.length_map, List.length_range]
  · cases h

/-- Numbers with the same base-256 digits agree modulo the power. -/
theorem mod_pow_eq_of_digits {m n k : ℕ}
    (h : ∀ i < k, m / 256 ^ i % 256 = n / 256 ^ i % 256) : m % 256 ^ k = n % 256 ^ k := by
  induction k with
  | zero => rw [pow_zero, Nat.mod_one, Nat.mod_one]
  | succ k ih =>
    rw [Nat.mod_pow_succ, Nat.mod_pow_succ, ih fun i hi => h i (by omega), h k (by omega)]

theorem toBytes8_injective {m n : ℤ} {b : Bytes} (hm : toBytes8 m = .ok b)
    (hn : toBytes8 n = .ok b) : m = n := by
  unfold toBytes8 at hm hn
  split at hm
  swap
  · cases hm
  next hmrange =>
  split at hn
  swap
  · cases hn
  next hnrange =>
  have hbytes := (Except.ok.inj hm).trans (Except.ok.inj hn).symm
  have hdigits : ∀ i < 8, m.toNat / 256 ^ i % 256 = n.toNat / 256 ^ i % 256 := by
    intro i hi
    have hbyte := List.map_inj_left.mp hbytes (7 - i) (List.mem_range.mpr (by omega))
    rw [show 7 - (7 - i) = i from by omega] at hbyte
    simpa using congrArg UInt8.toNat hbyte
  have hmod := mod_pow_eq_of_digits hdigits
  rw [Nat.mod_eq_of_lt (by omega), Nat.mod_eq_of_lt (by omega)] at hmod
  omega

theorem length_toBytes8Signed {n : ℤ} {b : Bytes} (h : toBytes8Signed n = .ok b) :
    b.length = 8 := by
  unfold toBytes8Signed at h
  split at h
  · exact length_toBytes8 h
  · cases h

theorem toBytes8Signed_injective {m n : ℤ} {b : Bytes} (hm : toBytes8Signed m = .ok b)
    (hn : toBytes8Signed n = .ok b) : m = n := by
  unfold toBytes8Signed at hm hn
  split at hm
  swap
  · cases hm
  split at hn
  swap
  · cases hn
  have := toBytes8_injective hm hn
  omega

theorem utf8_append (s t : String) : utf8 (s ++ t) = utf8 s ++ utf8 t := by
  simp [utf8, String.toUTF8]

theorem utf8_eq_flatMap (s : String) : utf8 s = s.toList.flatMap String.utf8EncodeChar := by
  have h : s.toByteArray = (s.toList.flatMap String.utf8EncodeChar).toByteArray := by
    rw [← String.utf8Encode_toList]
    rfl
  show s.toByteArray.data.toList = _
  rw [h]
  simp

/-- A numeral is written in digits. -/
theorem digit_of_mem_utf8_repr {e : ℕ} {b : UInt8} (hb : b ∈ utf8 e.repr) :
    48 ≤ b.toNat ∧ b.toNat ≤ 57 := by
  rw [utf8_eq_flatMap, List.mem_flatMap] at hb
  obtain ⟨c, hc, hb⟩ := hb
  have hdigit : c.isDigit = true := by
    rw [Nat.repr, String.toList_ofList] at hc
    exact Nat.isDigit_of_mem_toDigits (by norm_num) (by norm_num) hc
  have hval : 48 ≤ c.toNat ∧ c.toNat < 58 := by
    have h : 48 ≤ c.val.toNat ∧ c.val.toNat ≤ 57 := by
      simpa [Char.isDigit, UInt32.le_iff_toNat_le] using hdigit
    exact ⟨h.1, Nat.lt_succ_of_le h.2⟩
  have hbytes : ∀ n < 58, 48 ≤ n → ∀ b ∈ String.utf8EncodeChar (Char.ofNat n),
      48 ≤ b.toNat ∧ b.toNat ≤ 57 := by decide +kernel
  have hchar := hbytes c.toNat hval.2 hval.1 b
  rw [Char.ofNat_toNat] at hchar
  exact hchar hb
end Py
