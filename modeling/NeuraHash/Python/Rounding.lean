import NeuraHash.Python.Float32

/-!
# Arithmetic of `float32`

An operation on `np.float32` values is the exact one, rounded to the nearest number that 24 bits
can write, a tie to the even one. Numbers are counted here in units of the smallest positive one,
`2 ** -149`: `Fits m` says that `m` units can be written, and `roundUnits` is the nearest such
number. It is monotone and leaves alone what fits, and the proofs about rounded results use these
two facts only.
-/

namespace Py

/-! ## Rounding to an integer -/

theorem roundHalfEven_mono {x y : ℚ} (h : x ≤ y) : roundHalfEven x ≤ roundHalfEven y := by
  have hx := abs_le.mp (abs_sub_roundHalfEven_le x)
  have hy := abs_le.mp (abs_sub_roundHalfEven_le y)
  by_contra hlt
  have hstep : roundHalfEven y + 1 ≤ roundHalfEven x := by omega
  have hcast : (roundHalfEven y : ℚ) + 1 ≤ roundHalfEven x := by exact_mod_cast hstep
  -- both are half way between the two integers
  obtain rfl : x = y := by linarith
  omega

theorem roundHalfEven_le {x : ℚ} {n : ℤ} (h : x ≤ n) : roundHalfEven x ≤ n :=
  (roundHalfEven_mono h).trans_eq (roundHalfEven_intCast n)

theorem le_roundHalfEven {x : ℚ} {n : ℤ} (h : (n : ℚ) ≤ x) : n ≤ roundHalfEven x :=
  (roundHalfEven_intCast n).symm.trans_le (roundHalfEven_mono h)

/-! ## What 24 bits can write -/

/-- So many units can be written with 24 bits. -/
def Fits (m : ℕ) : Prop := ∃ c e, m = c * 2 ^ e ∧ c < 2 ^ 24

theorem fits_of_lt {m : ℕ} (h : m < 2 ^ 24) : Fits m := ⟨m, 0, (Nat.mul_one m).symm, h⟩

theorem Fits.mul_two_pow {m : ℕ} (h : Fits m) (k : ℕ) : Fits (m * 2 ^ k) := by
  obtain ⟨c, e, rfl, hc⟩ := h
  exact ⟨c, e + k, by rw [Nat.pow_add, Nat.mul_assoc], hc⟩

/-- The next number of a grid. -/
theorem fits_of_le {c : ℕ} (e : ℕ) (h : c ≤ 2 ^ 24) : Fits (c * 2 ^ e) := by
  rcases Nat.lt_or_eq_of_le h with hlt | rfl
  · exact ⟨c, e, rfl, hlt⟩
  · exact ⟨2 ^ 23, e + 1, by rw [Nat.pow_succ]; omega, by decide⟩

/-- **The difference of two numbers of which neither is more than twice the other fits.** -/
theorem Fits.sub {a b : ℕ} (ha : Fits a) (hb : Fits b) (hba : b ≤ a) (hab : a ≤ 2 * b) :
    Fits (a - b) := by
  obtain ⟨c, e, rfl, hc⟩ := ha
  obtain ⟨d, f, rfl, hd⟩ := hb
  -- the difference is on the finer of the two grids, and no larger than the number from there
  rcases Nat.le_total e f with hef | hfe
  · obtain ⟨k, rfl⟩ := Nat.exists_eq_add_of_le hef
    have hgrid : d * 2 ^ (e + k) = d * 2 ^ k * 2 ^ e := by
      rw [Nat.pow_add, Nat.mul_comm (2 ^ e), Nat.mul_assoc]
    refine ⟨c - d * 2 ^ k, e, ?_, by omega⟩
    rw [hgrid, Nat.sub_mul]
  · obtain ⟨k, rfl⟩ := Nat.exists_eq_add_of_le hfe
    have hgrid : c * 2 ^ (f + k) = c * 2 ^ k * 2 ^ f := by
      rw [Nat.pow_add, Nat.mul_comm (2 ^ f), Nat.mul_assoc]
    have hle : c * 2 ^ k ≤ 2 * d := by
      refine Nat.le_of_mul_le_mul_right ?_ (Nat.two_pow_pos f)
      rw [← hgrid, Nat.mul_assoc]
      exact hab
    refine ⟨c * 2 ^ k - d, f, ?_, by omega⟩
    rw [hgrid, Nat.sub_mul]

/-! ## Rounding -/

/-- The exponent of the grid that `u` units are written on. -/
def gridExponent (u : ℚ) : ℕ := ⌊u⌋.toNat.log2 - 23

/-- The mantissa of `u` units, rounded. -/
def gridDigits (u : ℚ) : ℕ := (roundHalfEven (u / 2 ^ gridExponent u)).toNat

/-- `u` units, rounded to the nearest number that fits. -/
def roundUnits (u : ℚ) : ℕ := gridDigits u * 2 ^ gridExponent u

section rounding

variable {u v : ℚ}

theorem toNat_floor_le (hu : 0 ≤ u) : (⌊u⌋.toNat : ℚ) ≤ u := by
  have hfloor : (0 : ℤ) ≤ ⌊u⌋ := Int.floor_nonneg.mpr hu
  have hcast : ((⌊u⌋.toNat : ℤ) : ℚ) ≤ u := by
    rw [Int.toNat_of_nonneg hfloor]
    exact Int.floor_le u
  exact_mod_cast hcast

theorem lt_toNat_floor (u : ℚ) : u < (⌊u⌋.toNat : ℚ) + 1 := by
  have hle : ⌊u⌋ ≤ (⌊u⌋.toNat : ℤ) := Int.self_le_toNat _
  have hcast : (⌊u⌋ : ℚ) ≤ (⌊u⌋.toNat : ℚ) := by exact_mod_cast hle
  linarith [Int.lt_floor_add_one u]

theorem lt_gridExponent (u : ℚ) : u < 2 ^ (24 + gridExponent u) := by
  have hlog := Nat.lt_log2_self (n := ⌊u⌋.toNat)
  have hpow : 2 ^ (⌊u⌋.toNat.log2 + 1) ≤ 2 ^ (24 + gridExponent u) :=
    Nat.pow_le_pow_right (by decide) (by unfold gridExponent; omega)
  have hnat : ⌊u⌋.toNat + 1 ≤ 2 ^ (24 + gridExponent u) := by omega
  have hcast : (⌊u⌋.toNat : ℚ) + 1 ≤ 2 ^ (24 + gridExponent u) := by exact_mod_cast hnat
  exact (lt_toNat_floor u).trans_le hcast

theorem gridExponent_le (hu : 0 ≤ u) (he : gridExponent u ≠ 0) :
    2 ^ (23 + gridExponent u) ≤ u := by
  have hne : ⌊u⌋.toNat ≠ 0 := by
    intro hzero
    unfold gridExponent at he
    rw [hzero] at he
    exact he rfl
  have hpow : 2 ^ (23 + gridExponent u) ≤ 2 ^ ⌊u⌋.toNat.log2 :=
    Nat.pow_le_pow_right (by decide) (by unfold gridExponent at he ⊢; omega)
  have hnat : 2 ^ (23 + gridExponent u) ≤ ⌊u⌋.toNat := hpow.trans (Nat.log2_self_le hne)
  have hcast : (2 : ℚ) ^ (23 + gridExponent u) ≤ (⌊u⌋.toNat : ℚ) := by exact_mod_cast hnat
  exact hcast.trans (toNat_floor_le hu)

/-- A number below a power of two is on the grid of that power, or on a finer one. -/
theorem gridExponent_le_of_lt (hu : 0 ≤ u) {e : ℕ} (h : u < 2 ^ (24 + e)) : gridExponent u ≤ e := by
  by_contra hlt
  have hle := gridExponent_le hu (by omega)
  have hpow : (2 : ℚ) ^ (24 + e) ≤ 2 ^ (23 + gridExponent u) :=
    pow_le_pow_right₀ (by norm_num) (by omega)
  linarith

theorem gridExponent_mono (hu : 0 ≤ u) (h : u ≤ v) : gridExponent u ≤ gridExponent v :=
  gridExponent_le_of_lt hu (h.trans_lt (lt_gridExponent v))

theorem gridDigits_le (u : ℚ) : gridDigits u ≤ 2 ^ 24 := by
  have hpos : (0 : ℚ) < 2 ^ gridExponent u := by positivity
  have hlt := lt_gridExponent u
  rw [pow_add] at hlt
  have hdiv : u / 2 ^ gridExponent u ≤ ((2 ^ 24 : ℤ) : ℚ) := by
    rw [div_le_iff₀ hpos]
    push_cast
    exact hlt.le
  have hround := roundHalfEven_le hdiv
  unfold gridDigits
  omega

theorem le_gridDigits (hu : 0 ≤ u) (he : gridExponent u ≠ 0) : 2 ^ 23 ≤ gridDigits u := by
  have hpos : (0 : ℚ) < 2 ^ gridExponent u := by positivity
  have hle := gridExponent_le hu he
  rw [pow_add] at hle
  have hdiv : ((2 ^ 23 : ℤ) : ℚ) ≤ u / 2 ^ gridExponent u := by
    rw [le_div_iff₀ hpos]
    push_cast
    exact hle
  have hround := le_roundHalfEven hdiv
  unfold gridDigits
  omega

theorem fits_roundUnits (u : ℚ) : Fits (roundUnits u) := fits_of_le _ (gridDigits_le u)

/-- **Rounding is monotone.** -/
theorem roundUnits_mono (hu : 0 ≤ u) (h : u ≤ v) : roundUnits u ≤ roundUnits v := by
  rcases Nat.lt_or_eq_of_le (gridExponent_mono hu h) with hlt | heq
  · -- the power of two between the grids
    have hpow : 2 ^ 24 * 2 ^ gridExponent u ≤ 2 ^ 23 * 2 ^ gridExponent v := by
      rw [← Nat.pow_add, ← Nat.pow_add]
      exact Nat.pow_le_pow_right (by decide) (by omega)
    calc roundUnits u ≤ 2 ^ 24 * 2 ^ gridExponent u :=
          Nat.mul_le_mul_right _ (gridDigits_le u)
      _ ≤ 2 ^ 23 * 2 ^ gridExponent v := hpow
      _ ≤ roundUnits v := Nat.mul_le_mul_right _ (le_gridDigits (hu.trans h) (by omega))
  · unfold roundUnits gridDigits
    rw [heq]
    refine Nat.mul_le_mul_right _ (Int.toNat_le_toNat (roundHalfEven_mono ?_))
    gcongr

/-- **What fits is left alone.** -/
theorem roundUnits_of_fits {m : ℕ} (h : Fits m) : roundUnits m = m := by
  obtain ⟨c, e, rfl, hc⟩ := h
  have hlt : ((c * 2 ^ e : ℕ) : ℚ) < 2 ^ (24 + e) := by
    rw [pow_add]
    exact_mod_cast Nat.mul_lt_mul_of_pos_right hc (Nat.two_pow_pos e)
  have hle := gridExponent_le_of_lt (Nat.cast_nonneg _) hlt
  obtain ⟨k, hk⟩ := Nat.exists_eq_add_of_le hle
  have hne : (2 : ℚ) ^ gridExponent ((c * 2 ^ e : ℕ) : ℚ) ≠ 0 := by positivity
  have hsplit : c * 2 ^ e = c * 2 ^ k * 2 ^ gridExponent ((c * 2 ^ e : ℕ) : ℚ) := by
    rw [Nat.mul_assoc, ← Nat.pow_add, Nat.add_comm k, ← hk]
  have hdigits : gridDigits ((c * 2 ^ e : ℕ) : ℚ) = c * 2 ^ k := by
    have hquot : ((c * 2 ^ e : ℕ) : ℚ) / 2 ^ gridExponent ((c * 2 ^ e : ℕ) : ℚ)
        = ((c * 2 ^ k : ℕ) : ℤ) := by
      rw [div_eq_iff hne]
      exact_mod_cast hsplit
    unfold gridDigits
    rw [hquot, roundHalfEven_intCast, Int.toNat_natCast]
  unfold roundUnits
  rw [hdigits]
  exact hsplit.symm

/-- What rounds below a number that fits is below it. -/
theorem lt_of_roundUnits_lt {m : ℕ} (hm : Fits m) (h : roundUnits u < m) : u < m := by
  by_contra hle
  have := roundUnits_mono (Nat.cast_nonneg m) (not_lt.mp hle)
  rw [roundUnits_of_fits hm] at this
  omega

theorem lt_of_lt_roundUnits (hu : 0 ≤ u) {m : ℕ} (hm : Fits m) (h : m < roundUnits u) : m < u := by
  by_contra hle
  have := roundUnits_mono hu (not_lt.mp hle)
  rw [roundUnits_of_fits hm] at this
  omega

end rounding

namespace NpFloat32

/-! ## Conversion -/

/-- `np.float32(q)` of a finite number. A mantissa that is rounded up to the next power of two carries
into the exponent; what is too large is an infinity. -/
def ofRat (q : ℚ) : NpFloat32 :=
  let u := |q| * 2 ^ 149
  let bits := min (gridExponent u * 2 ^ 23 + gridDigits u) (255 * 2 ^ 23)
  ⟨BitVec.ofNat 32 (if q < 0 then 2 ^ 31 + bits else bits)⟩

/-- `np.float32(x)`. -/
def ofFloat : PyFloat → NpFloat32
  | .fin q => ofRat q
  | .inf => ⟨0x7F800000#32⟩
  | .negInf => ⟨0xFF800000#32⟩
  | .nan => ⟨0x7FC00000#32⟩

/-- The sign of a zero is not kept. -/
instance : Sub NpFloat32 := ⟨fun x y => ofFloat (x.toFloat - y.toFloat)⟩

instance : Mul NpFloat32 := ⟨fun x y => ofFloat (x.toFloat * y.toFloat)⟩

/-- A zero divisor gives an infinity, or `nan` for zero. -/
instance : Div NpFloat32 := ⟨fun x y =>
  match x.toFloat, y.toFloat with
  | .fin a, .fin b => if b = 0 then ofFloat (PyFloat.scaleInf a) else ofRat (a / b)
  | a, b => ofFloat (a / b)⟩

theorem div_of_fin {x y : NpFloat32} {a b : ℚ} (hx : x.toFloat = .fin a) (hy : y.toFloat = .fin b)
    (hb : b ≠ 0) : x / y = ofRat (a / b) := by
  show (match x.toFloat, y.toFloat with
    | .fin a, .fin b => if b = 0 then ofFloat (PyFloat.scaleInf a) else ofRat (a / b)
    | a, b => ofFloat (a / b)) = _
  rw [hx, hy]
  exact if_neg hb

/-- A number of units, with a sign. -/
def signed (neg : Bool) (m : ℕ) : ℚ := if neg then -(m / 2 ^ 149) else m / 2 ^ 149

theorem toFloat_eq {x : NpFloat32} (h : x.isFinite = true) :
    x.toFloat = .fin (signed x.signBit x.magnitude) := by
  unfold toFloat
  rw [if_pos h]
  rfl

/-- Two to the 128, in units: the first power of two that is too large. -/
def tooLarge : ℕ := 2 ^ 24 * 2 ^ 253

theorem fits_magnitude (x : NpFloat32) : Fits x.magnitude := by
  have hmantissa : x.mantissa < 2 ^ 23 := Nat.mod_lt _ (by decide)
  unfold magnitude
  split
  · exact fits_of_lt (by omega)
  · exact ⟨_, _, rfl, by omega⟩

theorem magnitude_lt {x : NpFloat32} (h : x.isFinite = true) : x.magnitude < tooLarge := by
  have hmantissa : x.mantissa < 2 ^ 23 := Nat.mod_lt _ (by decide)
  have hexponent : x.exponent < 2 ^ 8 := Nat.mod_lt _ (by decide)
  have hne : x.exponent ≠ 2 ^ 8 - 1 := by
    unfold isFinite at h
    exact bne_iff_ne.mp h
  unfold magnitude tooLarge
  split
  · exact hmantissa.trans (by decide)
  · have hpow : 2 ^ (x.exponent - 1) ≤ 2 ^ 253 := Nat.pow_le_pow_right (by decide) (by omega)
    calc (2 ^ 23 + x.mantissa) * 2 ^ (x.exponent - 1)
        ≤ (2 ^ 23 + x.mantissa) * 2 ^ 253 := Nat.mul_le_mul_left _ hpow
      _ < 2 ^ 24 * 2 ^ 253 := Nat.mul_lt_mul_of_pos_right (by omega) (by decide)

/-! ## The bits of a rounded number -/

section encoding

variable {e d : ℕ}

/-- The bits of a finite number, without the sign, are those below the bits of infinity. -/
theorem encoded_lt_iff (hd : d ≤ 2 ^ 24) (hnormal : e ≠ 0 → 2 ^ 23 ≤ d) :
    e * 2 ^ 23 + d < 255 * 2 ^ 23 ↔ d * 2 ^ e < tooLarge := by
  have hsplit : tooLarge = 2 ^ 24 * 2 ^ 253 := rfl
  have hsplit' : tooLarge = 2 ^ 23 * 2 ^ 254 := by
    unfold tooLarge
    rw [Nat.pow_succ 2 253]
    omega
  rcases Nat.lt_trichotomy e 253 with hlt | rfl | hgt
  · have hpow : 2 ^ e < 2 ^ 253 := Nat.pow_lt_pow_right (by decide) hlt
    have hsmall : d * 2 ^ e < tooLarge := by
      rw [hsplit]
      calc d * 2 ^ e ≤ 2 ^ 24 * 2 ^ e := Nat.mul_le_mul_right _ hd
        _ < 2 ^ 24 * 2 ^ 253 := Nat.mul_lt_mul_of_pos_left hpow (by decide)
    exact iff_of_true (by omega) hsmall
  · rw [hsplit, Nat.mul_lt_mul_right (by decide)]
    omega
  · have hpow : 2 ^ 254 ≤ 2 ^ e := Nat.pow_le_pow_right (by decide) hgt
    have hlarge : tooLarge ≤ d * 2 ^ e := by
      rw [hsplit']
      exact Nat.mul_le_mul (hnormal (by omega)) hpow
    have := hnormal (by omega)
    exact iff_of_false (by omega) (by omega)

variable {neg : Bool} {b : ℕ}

variable (neg) in
/-- The sign, the exponent and the mantissa that bits are read as. -/
theorem fields_ofNat (hb : b ≤ 255 * 2 ^ 23) :
    let x : NpFloat32 := ⟨BitVec.ofNat 32 (if neg then 2 ^ 31 + b else b)⟩
    x.signBit = neg ∧ x.exponent = b / 2 ^ 23 ∧ x.mantissa = b % 2 ^ 23 := by
  intro x
  have hbits : x.bits.toNat = if neg then 2 ^ 31 + b else b := by
    show (BitVec.ofNat 32 _).toNat = _
    rw [BitVec.toNat_ofNat]
    refine Nat.mod_eq_of_lt ?_
    split <;> omega
  unfold signBit exponent mantissa
  rw [BitVec.msb_eq_decide, hbits]
  cases neg with
  | false =>
    rw [if_neg (by decide)]
    refine ⟨decide_eq_false (by omega), by omega, rfl⟩
  | true =>
    rw [if_pos rfl]
    refine ⟨decide_eq_true (by omega), by omega, by omega⟩

theorem magnitude_of_fields {x : NpFloat32} (hd : d ≤ 2 ^ 24) (hnormal : e ≠ 0 → 2 ^ 23 ≤ d)
    (hexponent : x.exponent = (e * 2 ^ 23 + d) / 2 ^ 23)
    (hmantissa : x.mantissa = (e * 2 ^ 23 + d) % 2 ^ 23) : x.magnitude = d * 2 ^ e := by
  unfold magnitude
  rcases Nat.lt_trichotomy d (2 ^ 23) with hlt | heq | hgt
  · -- a subnormal number
    have he : e = 0 := by
      by_contra hne
      have := hnormal hne
      omega
    subst he
    rw [if_pos (by omega), hmantissa]
    omega
  · subst heq
    rw [if_neg (by omega), show x.mantissa = 0 by omega, show x.exponent - 1 = e by omega,
      Nat.add_zero]
  · rcases Nat.lt_or_eq_of_le hd with hlt | heq
    · rw [if_neg (by omega), show 2 ^ 23 + x.mantissa = d by omega,
        show x.exponent - 1 = e by omega]
    · -- the mantissa carried
      subst heq
      rw [if_neg (by omega), show x.mantissa = 0 by omega, show x.exponent - 1 = e + 1 by omega,
        Nat.pow_succ]
      omega

end encoding

section conversion

variable {q : ℚ}

/-- `q` in units, rounded. -/
def unitsOf (q : ℚ) : ℕ := roundUnits (|q| * 2 ^ 149)

theorem units_nonneg (q : ℚ) : 0 ≤ |q| * 2 ^ 149 := by positivity

theorem toFloat_ofRat (h : unitsOf q < tooLarge) :
    (ofRat q).toFloat = .fin (signed (decide (q < 0)) (unitsOf q)) := by
  have hd := gridDigits_le (|q| * 2 ^ 149)
  have hnormal := le_gridDigits (units_nonneg q)
  have hlt := (encoded_lt_iff hd hnormal).mpr h
  have hbits : ofRat q = ⟨BitVec.ofNat 32 (if decide (q < 0) = true
      then 2 ^ 31 + (gridExponent (|q| * 2 ^ 149) * 2 ^ 23 + gridDigits (|q| * 2 ^ 149))
      else gridExponent (|q| * 2 ^ 149) * 2 ^ 23 + gridDigits (|q| * 2 ^ 149))⟩ := by
    unfold ofRat
    dsimp only
    rw [Nat.min_eq_left hlt.le]
    simp only [decide_eq_true_eq]
  obtain ⟨hsign, hexponent, hmantissa⟩ := fields_ofNat (decide (q < 0)) hlt.le
  rw [← hbits] at hsign hexponent hmantissa
  have hfinite : (ofRat q).isFinite = true := by
    unfold isFinite
    rw [hexponent, bne_iff_ne]
    omega
  rw [toFloat_eq hfinite, hsign, magnitude_of_fields hd hnormal hexponent hmantissa]
  rfl

theorem toFloat_ofRat_tooLarge (h : tooLarge ≤ unitsOf q) :
    (ofRat q).toFloat = if q < 0 then .negInf else .inf := by
  have hd := gridDigits_le (|q| * 2 ^ 149)
  have hnormal := le_gridDigits (units_nonneg q)
  have hge : 255 * 2 ^ 23 ≤ gridExponent (|q| * 2 ^ 149) * 2 ^ 23 + gridDigits (|q| * 2 ^ 149) := by
    by_contra hlt
    have := (encoded_lt_iff hd hnormal).mp (not_le.mp hlt)
    have hunits : gridDigits (|q| * 2 ^ 149) * 2 ^ gridExponent (|q| * 2 ^ 149) = unitsOf q := rfl
    omega
  have hbits : ofRat q = ⟨BitVec.ofNat 32 (if q < 0 then 2 ^ 31 + 255 * 2 ^ 23
      else 255 * 2 ^ 23)⟩ := by
    unfold ofRat
    dsimp only
    rw [Nat.min_eq_right hge]
  rw [hbits]
  split <;> rfl

/-- A number that fits is its own rounding. -/
theorem unitsOf_signed {neg : Bool} {m : ℕ} (hm : Fits m) : unitsOf (signed neg m) = m := by
  have habs : |signed neg m| * 2 ^ 149 = (m : ℚ) := by
    have hpos : (0 : ℚ) ≤ m / 2 ^ 149 := by positivity
    unfold signed
    split
    · rw [abs_neg, abs_of_nonneg hpos]
      exact div_mul_cancel₀ _ (by positivity)
    · rw [abs_of_nonneg hpos]
      exact div_mul_cancel₀ _ (by positivity)
  unfold unitsOf
  rw [habs, roundUnits_of_fits hm]

/-- **What 24 bits can write is converted exactly.** -/
theorem toFloat_ofRat_signed {neg : Bool} {m : ℕ} (hm : Fits m) (hlt : m < tooLarge) :
    (ofRat (signed neg m)).toFloat = .fin (signed neg m) := by
  have hunits : unitsOf (signed neg m) = m := unitsOf_signed hm
  rw [toFloat_ofRat (hunits.trans_lt hlt), hunits]
  -- the sign of zero is the one case where the two signs may differ
  congr 1
  have hcast : (0 : ℚ) ≤ m / 2 ^ 149 := by positivity
  cases neg with
  | false =>
    have : ¬ signed false m < 0 := not_lt.mpr hcast
    rw [decide_eq_false this]
  | true =>
    rcases Nat.eq_zero_or_pos m with rfl | hpos
    · simp [signed]
    · have hneg : signed true m < 0 := by
        show -((m : ℚ) / 2 ^ 149) < 0
        have : (0 : ℚ) < m / 2 ^ 149 := by positivity
        linarith
      rw [decide_eq_true hneg]

end conversion

end NpFloat32

end Py
