import NeuraHash.Python.Float

/-!
# The bits of a `float32`

An entry of a `np.float32` array by its 32 bits: the sign, eight bits of exponent and 23 of
mantissa. The bits without the sign are in the order of the absolute values
(`NpFloat32.lt_abs_toFloat`).
-/

namespace Py

/-- A `np.float32`. -/
structure NpFloat32 where
  bits : BitVec 32
  deriving DecidableEq

namespace NpFloat32

def signBit (x : NpFloat32) : Bool := x.bits.msb

def exponent (x : NpFloat32) : ℕ := x.bits.toNat / 2 ^ 23 % 2 ^ 8

def mantissa (x : NpFloat32) : ℕ := x.bits.toNat % 2 ^ 23

/-- The absolute value of a finite entry, in units of the smallest positive one: subnormal numbers
have no leading one. -/
def magnitude (x : NpFloat32) : ℕ :=
  if x.exponent = 0 then x.mantissa else (2 ^ 23 + x.mantissa) * 2 ^ (x.exponent - 1)

/-- `np.isfinite`. -/
def isFinite (x : NpFloat32) : Bool := x.exponent != 2 ^ 8 - 1

/-- `float(x)`. -/
def toFloat (x : NpFloat32) : PyFloat :=
  if x.isFinite then
    .fin (if x.signBit then -(x.magnitude / 2 ^ 149 : ℚ) else (x.magnitude / 2 ^ 149 : ℚ))
  else if x.mantissa = 0 then if x.signBit then .negInf else .inf
  else .nan

/-- `np.abs`: the sign is cleared. -/
def abs (x : NpFloat32) : NpFloat32 := ⟨x.bits &&& 0x7FFFFFFF#32⟩

/-- `.view(np.uint32)`. -/
def view (x : NpFloat32) : BitVec 32 := x.bits

/-! ## The absolute value -/

theorem toNat_abs (x : NpFloat32) : x.abs.bits.toNat = x.bits.toNat % 2 ^ 31 := by
  show (x.bits &&& 0x7FFFFFFF#32).toNat = _
  rw [BitVec.toNat_and]
  exact Nat.and_two_pow_sub_one_eq_mod x.bits.toNat 31

@[simp] theorem exponent_abs (x : NpFloat32) : x.abs.exponent = x.exponent := by
  unfold exponent
  rw [toNat_abs]
  omega

@[simp] theorem mantissa_abs (x : NpFloat32) : x.abs.mantissa = x.mantissa := by
  unfold mantissa
  rw [toNat_abs]
  omega

@[simp] theorem signBit_abs (x : NpFloat32) : x.abs.signBit = false := by
  have habs := toNat_abs x
  unfold signBit
  rw [BitVec.msb_eq_decide, decide_eq_false_iff_not]
  omega

@[simp] theorem magnitude_abs (x : NpFloat32) : x.abs.magnitude = x.magnitude := by
  unfold magnitude
  rw [exponent_abs, mantissa_abs]

@[simp] theorem isFinite_abs (x : NpFloat32) : x.abs.isFinite = x.isFinite := by
  unfold isFinite
  rw [exponent_abs]

/-- `np.abs` is the absolute value. -/
theorem abs_toFloat {x : NpFloat32} (h : x.isFinite = true) :
    x.toFloat.abs = .fin (x.magnitude / 2 ^ 149) := by
  have hpos : (0 : ℚ) ≤ x.magnitude / 2 ^ 149 := by positivity
  unfold toFloat
  rw [if_pos h]
  show PyFloat.fin |_| = _
  cases x.signBit with
  | true => rw [if_pos rfl, abs_neg, abs_of_nonneg hpos]
  | false => rw [if_neg (by simp), abs_of_nonneg hpos]

/-! ## The order of the bits -/

/-- The bits without the sign are the exponent and the mantissa. -/
theorem toNat_abs_eq (x : NpFloat32) : x.abs.bits.toNat = x.exponent * 2 ^ 23 + x.mantissa := by
  rw [toNat_abs]
  unfold exponent mantissa
  omega

theorem magnitude_lt_of_exponent {x y : NpFloat32} (h : x.exponent < y.exponent) :
    x.magnitude < y.magnitude := by
  have hx : x.mantissa < 2 ^ 23 := Nat.mod_lt _ (by decide)
  have hle : x.magnitude < 2 ^ 23 * 2 ^ x.exponent := by
    unfold magnitude
    split_ifs with hzero
    · rw [hzero]
      omega
    · have hpow : 2 ^ x.exponent = 2 * 2 ^ (x.exponent - 1) := by
        rw [← Nat.pow_succ', Nat.succ_eq_add_one, Nat.sub_add_cancel (by omega)]
      rw [hpow, ← Nat.mul_assoc]
      exact Nat.mul_lt_mul_of_pos_right (by omega) (by positivity)
  have hge : 2 ^ 23 * 2 ^ (y.exponent - 1) ≤ y.magnitude := by
    unfold magnitude
    rw [if_neg (by omega)]
    exact Nat.mul_le_mul_right _ (by omega)
  have hpow : 2 ^ 23 * 2 ^ x.exponent ≤ 2 ^ 23 * 2 ^ (y.exponent - 1) :=
    Nat.mul_le_mul_left _ (Nat.pow_le_pow_right (by decide) (by omega))
  omega

theorem magnitude_lt_iff (x y : NpFloat32) :
    x.magnitude < y.magnitude ↔ x.abs.bits.toNat < y.abs.bits.toNat := by
  have hx : x.mantissa < 2 ^ 23 := Nat.mod_lt _ (by decide)
  have hy : y.mantissa < 2 ^ 23 := Nat.mod_lt _ (by decide)
  rw [toNat_abs_eq, toNat_abs_eq]
  rcases Nat.lt_trichotomy x.exponent y.exponent with hlt | heq | hgt
  · have := magnitude_lt_of_exponent hlt
    omega
  · -- one exponent: the mantissas decide
    unfold magnitude
    rw [heq]
    split_ifs with hzero
    · omega
    · rw [Nat.mul_lt_mul_right (by positivity)]
      omega
  · have := magnitude_lt_of_exponent hgt
    omega

/-- **The order of the absolute values is the order of the bits without the sign.** -/
theorem lt_abs_toFloat {x y : NpFloat32} (hx : x.isFinite = true) (hy : y.isFinite = true) :
    x.toFloat.abs.lt y.toFloat.abs = decide (x.abs.view.toNat < y.abs.view.toNat) := by
  rw [abs_toFloat hx, abs_toFloat hy, PyFloat.fin_lt, decide_eq_decide,
    div_lt_div_iff_of_pos_right (by positivity), Nat.cast_lt]
  exact magnitude_lt_iff x y

theorem magnitude_eq_iff (x y : NpFloat32) :
    x.magnitude = y.magnitude ↔ x.abs.bits.toNat = y.abs.bits.toNat := by
  have hlt := magnitude_lt_iff x y
  have hgt := magnitude_lt_iff y x
  omega

/-- Absolute values are equal when their bits are. -/
theorem eq_abs_toFloat {x y : NpFloat32} (hx : x.isFinite = true) (hy : y.isFinite = true) :
    x.toFloat.abs.eq y.toFloat.abs = decide (x.abs.view.toNat = y.abs.view.toNat) := by
  rw [abs_toFloat hx, abs_toFloat hy]
  show decide (PyFloat.fin _ = PyFloat.fin _) = _
  rw [decide_eq_decide, PyFloat.fin.injEq, div_left_inj' (by positivity), Nat.cast_inj]
  exact magnitude_eq_iff x y

end NpFloat32

end Py
