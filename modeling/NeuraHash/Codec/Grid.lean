import NeuraHash.Python.Rounding

/-!
# The grid of a quantised tensor (`neurahash/delta_codec.py`)

A kept entry is stored as a small integer, a multiple of the largest entry over 127, or over 7. All
of it is `float32` arithmetic, and still what the multiple leaves of the entry is written exactly
(`fits_rest`): the multiple is never less than half the entry nor more than twice it, or both are
few units. The one thing that can go wrong is the largest number there is (`dequantized_finite_iff`).
-/

namespace NeuraHash

open Py NpFloat32

/-! ## The source's words -/

/-- `np.clip(np.round(v / scale), -qmax, qmax).astype(np.int8)`. What the cast makes of a `nan` is
left to the machine. -/
def onInt8Grid (nanByte : BitVec 8) (qmax : ℤ) (scale : PyFloat) (v : NpFloat32) : ℤ :=
  match (v / ofFloat scale).toFloat with
  | .fin x => max (-qmax) (min qmax (roundHalfEven x))
  | .inf => qmax
  | .negInf => -qmax
  | .nan => nanByte.toInt

/-- `q.astype(np.float32) * np.float32(scale)`. -/
def dequantized (scale : PyFloat) (q : ℤ) : NpFloat32 := ofRat q * ofFloat scale

/-! ## The multiple of an entry -/

/-- The multiple of `S` units that `A` units are rounded to, at most `qmax`. -/
def gridNumber (qmax A S : ℕ) : ℕ :=
  min qmax (roundHalfEven (roundUnits (A / S * 2 ^ 149) / 2 ^ 149)).toNat

section grid

variable {u : ℚ} {qmax A S M k : ℕ}

theorem fits_quarters (hk : k < 2 ^ 24) : Fits (k * 2 ^ 147) := (fits_of_lt hk).mul_two_pow 147

theorem cast_quarters (k : ℕ) : ((k * 2 ^ 147 : ℕ) : ℚ) = k / 4 * 2 ^ 149 := by
  rw [Nat.cast_mul, Nat.cast_pow, Nat.cast_ofNat, pow_add 2 147 2, div_mul_eq_mul_div]
  ring

/-- A rounded number is on the same side of a quarter as the number. -/
theorem lt_quarters_of_rounded (hk : k < 2 ^ 24)
    (h : (roundUnits (u * 2 ^ 149) / 2 ^ 149 : ℚ) < k / 4) : u < k / 4 := by
  rw [div_lt_iff₀ (by positivity), ← cast_quarters] at h
  have hlt := lt_of_roundUnits_lt (fits_quarters hk) (by exact_mod_cast h)
  rw [cast_quarters] at hlt
  exact lt_of_mul_lt_mul_right hlt (by positivity)

theorem quarters_lt_of_rounded (hu : 0 ≤ u) (hk : k < 2 ^ 24)
    (h : (k / 4 : ℚ) < roundUnits (u * 2 ^ 149) / 2 ^ 149) : k / 4 < u := by
  rw [lt_div_iff₀ (by positivity), ← cast_quarters] at h
  have hlt := lt_of_lt_roundUnits (u := u * 2 ^ 149) (by positivity) (fits_quarters hk)
    (by exact_mod_cast h)
  rw [cast_quarters] at hlt
  exact lt_of_mul_lt_mul_right hlt (by positivity)

theorem half_lt_of_one_le {x : ℚ} (h : 1 ≤ roundHalfEven x) : 1 / 2 < x := by
  by_contra hle
  have hround := roundHalfEven_mono (not_lt.mp hle)
  have hzero : roundHalfEven (1 / 2) = 0 := by decide +kernel
  omega

/-- The multiple is at most twice the entry. -/
theorem gridNumber_mul_le (hS : 0 < S) (hqmax : qmax < 2 ^ 20) :
    gridNumber qmax A S * S ≤ 2 * A := by
  have hSpos : (0 : ℚ) < S := by exact_mod_cast hS
  set x : ℚ := roundUnits (A / S * 2 ^ 149) / 2 ^ 149 with hx
  set Q := gridNumber qmax A S with hQ
  have hQx : Q ≤ (roundHalfEven x).toNat := Nat.min_le_right _ _
  have hQmax : Q ≤ qmax := Nat.min_le_left _ _
  rcases Nat.lt_trichotomy Q 1 with hlt | heq | hgt
  · rw [show Q = 0 by omega]
    omega
  · -- a half is rounded down
    have hhalf : ((2 : ℕ) / 4 : ℚ) < x := by
      have := half_lt_of_one_le (x := x) (by omega)
      push_cast
      linarith
    have hquot := quarters_lt_of_rounded (by positivity) (by decide) (hx ▸ hhalf)
    rw [lt_div_iff₀ hSpos] at hquot
    have : ((Q * S : ℕ) : ℚ) ≤ (2 * A : ℕ) := by
      rw [heq]
      push_cast at hquot ⊢
      linarith
    exact_mod_cast this
  · have hnear := (abs_le.mp (abs_sub_roundHalfEven_le x)).1
    have hcast : (Q : ℚ) ≤ roundHalfEven x := by
      have : (Q : ℤ) ≤ roundHalfEven x := by omega
      exact_mod_cast this
    have hbelow : ((4 * Q - 3 : ℕ) / 4 : ℚ) < x := by
      rw [Nat.cast_sub (by omega)]
      push_cast
      linarith
    have hquot := quarters_lt_of_rounded (by positivity) (by omega) (hx ▸ hbelow)
    rw [lt_div_iff₀ hSpos, Nat.cast_sub (by omega)] at hquot
    have htwo : (2 : ℚ) ≤ Q := by exact_mod_cast hgt
    have : ((Q * S : ℕ) : ℚ) ≤ (2 * A : ℕ) := by
      push_cast at hquot ⊢
      nlinarith
    exact_mod_cast this

/-- Unless the grid ends before the entry, the entry is at most twice the multiple rounded. -/
theorem le_two_mul_roundUnits (hS : 0 < S) (hfits : Fits S) (hqmax : qmax < 2 ^ 20)
    (hin : roundHalfEven (roundUnits (A / S * 2 ^ 149) / 2 ^ 149) ≤ qmax)
    (hpos : 0 < gridNumber qmax A S) :
    A ≤ 2 * roundUnits (gridNumber qmax A S * S : ℕ) := by
  have hSpos : (0 : ℚ) < S := by exact_mod_cast hS
  set x : ℚ := roundUnits (A / S * 2 ^ 149) / 2 ^ 149 with hx
  have hQ : gridNumber qmax A S = (roundHalfEven x).toNat :=
    Nat.min_eq_right (Int.toNat_le.mpr hin)
  rw [hQ] at hpos ⊢
  set Q := (roundHalfEven x).toNat
  have hcast : (roundHalfEven x : ℚ) = Q := by
    have : roundHalfEven x = (Q : ℤ) := by omega
    exact_mod_cast this
  have hnear := (abs_le.mp (abs_sub_roundHalfEven_le x)).2
  have habove : x < ((4 * Q + 3 : ℕ) / 4 : ℚ) := by
    push_cast
    linarith
  have hquot := lt_quarters_of_rounded (by omega) (hx ▸ habove)
  rw [div_lt_iff₀ hSpos] at hquot
  -- the power of two below the multiple
  have hlow : 2 ^ Q.log2 ≤ Q := Nat.log2_self_le (by omega)
  have hhigh : Q + 1 ≤ 2 * 2 ^ Q.log2 := by
    have := Nat.lt_log2_self (n := Q)
    rw [Nat.pow_succ] at this
    omega
  have hround : S * 2 ^ Q.log2 ≤ roundUnits (Q * S : ℕ) := by
    rw [← roundUnits_of_fits (hfits.mul_two_pow Q.log2)]
    refine roundUnits_mono (Nat.cast_nonneg _) ?_
    exact_mod_cast (Nat.mul_comm S _).trans_le (Nat.mul_le_mul_right S hlow)
  have hA : A ≤ 2 * (S * 2 ^ Q.log2) := by
    have hhigh' : (Q : ℚ) + 1 ≤ 2 * 2 ^ Q.log2 := by exact_mod_cast hhigh
    have : ((A : ℕ) : ℚ) ≤ (2 * (S * 2 ^ Q.log2) : ℕ) := by
      push_cast at hquot ⊢
      nlinarith
    exact_mod_cast this
  omega

/-- **The grid reaches the largest entry**, unless a step of it is a few units. -/
theorem step_small_of_clipped (hqmax : 0 < qmax) (hsmall : qmax < 2 ^ 20) (hAM : A ≤ M)
    (hS : S = roundUnits (M / qmax))
    (hout : (qmax : ℤ) < roundHalfEven (roundUnits (A / S * 2 ^ 149) / 2 ^ 149)) :
    S < 4 * qmax := by
  by_contra hge
  have hSpos : (0 : ℚ) < S := by
    have : 0 < S := by omega
    exact_mod_cast this
  have hqpos : (0 : ℚ) < qmax := by exact_mod_cast hqmax
  set x : ℚ := roundUnits (A / S * 2 ^ 149) / 2 ^ 149 with hx
  have hnear := (abs_le.mp (abs_sub_roundHalfEven_le x)).1
  have hcast : (qmax : ℚ) + 1 ≤ roundHalfEven x := by exact_mod_cast hout
  have habove : ((4 * qmax + 1 : ℕ) / 4 : ℚ) < x := by
    push_cast
    linarith
  have hquot := quarters_lt_of_rounded (by positivity) (by omega) (hx ▸ habove)
  rw [lt_div_iff₀ hSpos] at hquot
  -- the number after the step is still below the largest entry's share
  have hgrid : gridDigits (S : ℚ) * 2 ^ gridExponent (S : ℚ) = S :=
    roundUnits_of_fits (hS ▸ fits_roundUnits _)
  have hdigits : 4 * qmax ≤ gridDigits (S : ℚ) := by
    by_cases he : gridExponent (S : ℚ) = 0
    · rw [he] at hgrid
      omega
    · have := le_gridDigits (Nat.cast_nonneg S) he
      omega
  have hlt : gridDigits (S : ℚ) + 1 ≤ 2 ^ 24 := by
    have hbound : S < 2 ^ 24 * 2 ^ gridExponent (S : ℚ) := by
      have := lt_gridExponent (S : ℚ)
      rw [pow_add] at this
      exact_mod_cast this
    have hdigits' := hgrid.trans_lt hbound
    exact Nat.lt_of_mul_lt_mul_right hdigits'
  have hnext : (S : ℚ) + 2 ^ gridExponent (S : ℚ) ≤ M / qmax := by
    have hAM' : (A : ℚ) ≤ M := by exact_mod_cast hAM
    have hstep : (4 * qmax : ℚ) * 2 ^ gridExponent (S : ℚ) ≤ S := by
      have : 4 * qmax * 2 ^ gridExponent (S : ℚ) ≤ S :=
        (Nat.mul_le_mul_right _ hdigits).trans_eq hgrid
      exact_mod_cast this
    rw [le_div_iff₀ hqpos]
    push_cast at hquot
    nlinarith
  have hfits := fits_of_le (gridExponent (S : ℚ)) hlt
  have hmono := roundUnits_mono (v := M / qmax)
    (Nat.cast_nonneg ((gridDigits (S : ℚ) + 1) * 2 ^ gridExponent (S : ℚ))) (by
      rw [Nat.add_mul, hgrid, Nat.one_mul]
      push_cast
      exact hnext)
  rw [roundUnits_of_fits hfits, ← hS, Nat.add_mul, hgrid, Nat.one_mul] at hmono
  have := Nat.two_pow_pos (gridExponent (S : ℚ))
  omega

/-- **What the multiple leaves of the entry can be written**, on either side. -/
theorem fits_rest (hqmax : 0 < qmax) (hsmall : qmax < 2 ^ 10) (hA : Fits A) (hAM : A ≤ M)
    (hS : S = roundUnits (M / qmax)) :
    Fits (A - roundUnits (gridNumber qmax A S * S : ℕ)) ∧
      Fits (roundUnits (gridNumber qmax A S * S : ℕ) - A) := by
  have hfits : Fits S := hS ▸ fits_roundUnits _
  have hzero : Fits 0 := fits_of_lt (by decide)
  by_cases hnone : gridNumber qmax A S * S = 0
  · rw [hnone, roundUnits_of_fits hzero, Nat.sub_zero, Nat.zero_sub]
    exact ⟨hA, hzero⟩
  obtain ⟨hQ, hSpos⟩ : 0 < gridNumber qmax A S ∧ 0 < S :=
    ⟨Nat.pos_of_ne_zero fun h => hnone (by rw [h, Nat.zero_mul]),
      Nat.pos_of_ne_zero fun h => hnone (by rw [h, Nat.mul_zero])⟩
  have hlow : roundUnits (gridNumber qmax A S * S : ℕ) ≤ 2 * A := by
    have htwice : Fits (2 * A) := by
      rw [Nat.mul_comm]
      exact hA.mul_two_pow 1
    rw [← roundUnits_of_fits htwice]
    refine roundUnits_mono (Nat.cast_nonneg _) ?_
    exact_mod_cast gridNumber_mul_le hSpos (by omega)
  rcases lt_or_ge (qmax : ℤ) (roundHalfEven (roundUnits (A / S * 2 ^ 149) / 2 ^ 149))
    with hout | hin
  · -- the grid ends before the entry: all numbers are small
    have hstep := step_small_of_clipped hqmax (by omega) hAM hS hout
    have hM : M < 4 * qmax * qmax := by
      by_contra hge
      have hqpos : (0 : ℚ) < qmax := by exact_mod_cast hqmax
      have hshare : ((4 * qmax : ℕ) : ℚ) ≤ M / qmax := by
        rw [le_div_iff₀ hqpos]
        exact_mod_cast not_lt.mp hge
      have := roundUnits_mono (Nat.cast_nonneg _) hshare
      rw [roundUnits_of_fits (fits_of_lt (by omega)), ← hS] at this
      omega
    have hsquare : 4 * qmax * qmax < 2 ^ 22 + 1 := by nlinarith
    exact ⟨fits_of_lt (by omega), fits_of_lt (by omega)⟩
  · have hhigh := le_two_mul_roundUnits hSpos hfits (by omega) hin hQ
    have hR := fits_roundUnits (gridNumber qmax A S * S : ℕ)
    rcases Nat.le_total (roundUnits (gridNumber qmax A S * S : ℕ)) A with hle | hge
    · rw [Nat.sub_eq_zero_of_le hle]
      exact ⟨hA.sub hR hle hhigh, hzero⟩
    · rw [Nat.sub_eq_zero_of_le hge]
      exact ⟨hzero, hR.sub hA hge hlow⟩

end grid

/-! ## With signs -/

theorem floor_neg_of_not_int {x : ℚ} (h : (⌊x⌋ : ℚ) ≠ x) : ⌊-x⌋ = -⌊x⌋ - 1 := by
  have hle := Int.floor_le x
  have hlt := Int.lt_floor_add_one x
  have hne : (⌊x⌋ : ℚ) < x := lt_of_le_of_ne hle h
  rw [Int.floor_eq_iff]
  push_cast
  constructor <;> linarith

/-- Rounding to an integer has no sign. -/
theorem roundHalfEven_neg (x : ℚ) : roundHalfEven (-x) = -roundHalfEven x := by
  by_cases hint : (⌊x⌋ : ℚ) = x
  · rw [← hint, roundHalfEven_intCast, ← Int.cast_neg, roundHalfEven_intCast]
  · have hfloor := floor_neg_of_not_int hint
    unfold roundHalfEven
    dsimp only
    rw [hfloor]
    push_cast
    rcases lt_trichotomy (x - ⌊x⌋) (1 / 2) with hlt | heq | hgt
    · have hmirror : 1 / 2 < -x - (-(⌊x⌋ : ℚ) - 1) := by linarith
      rw [if_pos hlt, if_neg (lt_asymm hmirror), if_pos hmirror]
      ring
    · -- a tie: one of the two integers is even
      have hmirror : -x - (-(⌊x⌋ : ℚ) - 1) = 1 / 2 := by linarith
      rw [hmirror, heq, if_neg (lt_irrefl _), if_neg (lt_irrefl _), if_neg (lt_irrefl _),
        if_neg (lt_irrefl _)]
      split <;> split <;> omega
    · have hmirror : -x - (-(⌊x⌋ : ℚ) - 1) < 1 / 2 := by linarith
      rw [if_pos hmirror, if_neg (lt_asymm hgt), if_pos hgt]
      ring

/-- A multiple, with a sign. -/
def signedInt (neg : Bool) (n : ℕ) : ℤ := if neg then -n else n

theorem signed_zero (neg : Bool) : signed neg 0 = 0 := by
  cases neg <;> simp [signed]

theorem signed_neg (neg : Bool) (m : ℕ) : signed (!neg) m = -signed neg m := by
  cases neg <;> simp [signed]

theorem abs_signed (neg : Bool) (m : ℕ) : |signed neg m| = m / 2 ^ 149 := by
  have hpos : (0 : ℚ) ≤ m / 2 ^ 149 := by positivity
  cases neg with
  | false => exact abs_of_nonneg hpos
  | true => exact (abs_neg _).trans (abs_of_nonneg hpos)

/-- The sign of a zero does not matter. -/
theorem signed_congr {neg neg' : Bool} {m : ℕ} (h : m ≠ 0 → neg = neg') :
    signed neg m = signed neg' m := by
  rcases Nat.eq_zero_or_pos m with rfl | hpos
  · rw [signed_zero, signed_zero]
  · rw [h (by omega)]

theorem signed_lt_zero_iff {neg : Bool} {m : ℕ} : signed neg m < 0 ↔ neg = true ∧ m ≠ 0 := by
  have hpos : (0 : ℚ) ≤ m / 2 ^ 149 := by positivity
  cases neg with
  | false => exact iff_of_false (not_lt.mpr hpos) fun h => by cases h.1
  | true =>
    show -((m : ℚ) / 2 ^ 149) < 0 ↔ _
    rw [neg_lt_zero, div_pos_iff_of_pos_right (by positivity), Nat.cast_pos]
    exact ⟨fun h => ⟨rfl, by omega⟩, fun h => by omega⟩

section entry

variable {v : NpFloat32} {M qmax : ℕ} {nanByte : BitVec 8}

/-- The scale of a tensor whose largest entry has `M` units. -/
def scaleOf (M qmax : ℕ) : PyFloat := .fin (M / 2 ^ 149) / .fin qmax

theorem scaleOf_eq (M : ℕ) (hqmax : 0 < qmax) :
    scaleOf M qmax = .fin (M / qmax / 2 ^ 149) := by
  have hne : (qmax : ℚ) ≠ 0 := by
    have : qmax ≠ 0 := by omega
    exact_mod_cast this
  unfold scaleOf
  rw [PyFloat.fin_div _ hne]
  congr 1
  ring

theorem roundUnits_share_lt (hqmax : 0 < qmax) (hfits : Fits M) (hM : M < tooLarge) :
    roundUnits (M / qmax) < tooLarge := by
  have hle : (M / qmax : ℚ) ≤ M := by
    refine div_le_self (Nat.cast_nonneg _) ?_
    exact_mod_cast hqmax
  have := roundUnits_mono (by positivity) hle
  rw [roundUnits_of_fits hfits] at this
  omega

theorem toFloat_scaleOf (hqmax : 0 < qmax) (hfits : Fits M) (hM : M < tooLarge) :
    (ofFloat (scaleOf M qmax)).toFloat = .fin (signed false (roundUnits (M / qmax))) := by
  have hpos : (0 : ℚ) ≤ M / qmax / 2 ^ 149 := by positivity
  have hunits : unitsOf (M / qmax / 2 ^ 149 : ℚ) = roundUnits (M / qmax) := by
    unfold unitsOf
    rw [abs_of_nonneg hpos, div_mul_cancel₀ _ (by positivity)]
  rw [scaleOf_eq M hqmax]
  show (ofRat _).toFloat = _
  rw [toFloat_ofRat (hunits.trans_lt (roundUnits_share_lt hqmax hfits hM)), hunits,
    decide_eq_false (not_lt.mpr hpos)]

theorem signedInt_eq (neg : Bool) (n : ℕ) :
    ((signedInt neg n : ℤ) : ℚ) = signed neg (n * 2 ^ 149) := by
  have hcancel : ((n * 2 ^ 149 : ℕ) : ℚ) / 2 ^ 149 = n := by
    rw [Nat.cast_mul, Nat.cast_pow, Nat.cast_ofNat]
    exact mul_div_cancel_right₀ _ (by positivity)
  cases neg with
  | false =>
    show ((n : ℤ) : ℚ) = _ / _
    rw [hcancel, Int.cast_natCast]
  | true =>
    show ((-(n : ℤ) : ℤ) : ℚ) = -(_ / _)
    rw [hcancel, Int.cast_neg, Int.cast_natCast]

/-- A small integer is its own `float32`. -/
theorem toFloat_ofRat_signedInt (neg : Bool) {n : ℕ} (hn : n < 2 ^ 24) :
    (ofRat (signedInt neg n : ℤ)).toFloat = .fin (signedInt neg n : ℤ) := by
  have hlt : n * 2 ^ 149 < tooLarge := by
    unfold tooLarge
    exact Nat.mul_lt_mul_of_lt_of_le hn (Nat.pow_le_pow_right (by decide) (by decide)) (by decide)
  rw [signedInt_eq]
  exact toFloat_ofRat_signed ((fits_of_lt hn).mul_two_pow 149) hlt

variable (nanByte) in
/-- The multiple on the grid, with the entry's sign. -/
theorem onInt8Grid_eq (hv : v.isFinite = true) (hqmax : 0 < qmax) (hsmall : qmax < 2 ^ 20)
    (hfits : Fits M) (hM : M < tooLarge) (hstep : roundUnits (M / qmax) ≠ 0) :
    onInt8Grid nanByte qmax (scaleOf M qmax) v
      = signedInt v.signBit (gridNumber qmax v.magnitude (roundUnits (M / qmax))) := by
  set S := roundUnits (M / qmax) with hS
  set A := v.magnitude with hA
  have hSpos : (0 : ℚ) < S := by
    have : 0 < S := by omega
    exact_mod_cast this
  have hSne : signed false S ≠ 0 := by
    show (S : ℚ) / 2 ^ 149 ≠ 0
    positivity
  have hdiv : v / ofFloat (scaleOf M qmax) = ofRat (signed v.signBit A / signed false S) := 
    div_of_fin (toFloat_eq hv) (toFloat_scaleOf hqmax hfits hM) hSne
  have habs : |signed v.signBit A / signed false S| = A / S := by
    rw [abs_div, abs_signed, abs_signed, div_div_div_cancel_right₀ (by positivity)]
  have hunits : unitsOf (signed v.signBit A / signed false S) = roundUnits (A / S * 2 ^ 149) := by
    unfold unitsOf
    rw [habs]
  have hneg : signed v.signBit A / signed false S < 0 ↔ v.signBit = true ∧ A ≠ 0 := by
    have hden : 0 < signed false S := by
      show (0 : ℚ) < S / 2 ^ 149
      positivity
    rw [div_neg_iff]
    constructor
    · rintro (⟨-, hlt⟩ | ⟨hlt, -⟩)
      · exact absurd hden (not_lt.mpr hlt.le)
      · exact signed_lt_zero_iff.mp hlt
    · exact fun h => .inr ⟨signed_lt_zero_iff.mpr h, hden⟩
  have hzero : A = 0 → roundUnits ((A : ℚ) / S * 2 ^ 149) = 0 := by
    intro h
    rw [h, Nat.cast_zero, zero_div, zero_mul]
    exact roundUnits_of_fits (m := 0) (fits_of_lt (by decide))
  unfold onInt8Grid
  rw [hdiv]
  rcases Nat.lt_or_ge (roundUnits ((A : ℚ) / S * 2 ^ 149)) tooLarge with hlt | hge
  · rw [toFloat_ofRat (hunits.trans_lt hlt), hunits]
    dsimp only
    have hvalue : signed (decide (signed v.signBit A / signed false S < 0))
        (roundUnits ((A : ℚ) / S * 2 ^ 149))
        = signed v.signBit (roundUnits ((A : ℚ) / S * 2 ^ 149)) := by
      refine signed_congr fun hne => ?_
      have hA0 : A ≠ 0 := fun h => hne (hzero h)
      rw [Bool.eq_iff_iff, decide_eq_true_eq, hneg]
      exact ⟨fun h => h.1, fun h => ⟨h, hA0⟩⟩
    have hnonneg : 0 ≤ roundHalfEven ((roundUnits ((A : ℚ) / S * 2 ^ 149) : ℚ) / 2 ^ 149) :=
      le_roundHalfEven (by rw [Int.cast_zero]; positivity)
    rw [hvalue]
    unfold gridNumber signedInt signed
    cases v.signBit with
    | false =>
      simp only [Bool.false_eq_true, if_false]
      omega
    | true =>
      simp only [if_true, roundHalfEven_neg]
      omega
  · -- an infinite quotient: the end of the grid
    have hQ : gridNumber qmax A S = qmax := by
      refine Nat.min_eq_left ?_
      have hle : ((qmax : ℤ) : ℚ) ≤ (roundUnits ((A : ℚ) / S * 2 ^ 149) : ℚ) / 2 ^ 149 := by
        rw [le_div_iff₀ (by positivity)]
        have hbound : qmax * 2 ^ 149 ≤ roundUnits ((A : ℚ) / S * 2 ^ 149) := by
          refine le_trans ?_ hge
          unfold tooLarge
          exact Nat.mul_le_mul (by omega) (Nat.pow_le_pow_right (by decide) (by decide))
        exact_mod_cast hbound
      have := le_roundHalfEven hle
      omega
    have hA0 : A ≠ 0 := fun h => by
      rw [hzero h] at hge
      exact absurd hge (by decide)
    rw [toFloat_ofRat_tooLarge (hunits.symm ▸ hge), hQ]
    unfold signedInt
    by_cases hlt : signed v.signBit A / signed false S < 0
    · rw [if_pos hlt, if_pos (hneg.mp hlt).1]
    · have hsign : ¬ v.signBit = true := fun h => hlt (hneg.mpr ⟨h, hA0⟩)
      rw [if_neg hlt, if_neg hsign]

theorem signedInt_natAbs (q : ℤ) : signedInt (decide (q < 0)) q.natAbs = q := by
  unfold signedInt
  split
  · next h =>
    have := of_decide_eq_true h
    omega
  · next h =>
    have : ¬ q < 0 := fun hlt => h (decide_eq_true hlt)
    omega

/-- A multiple of the step. -/
theorem dequantized_eq (hqmax : 0 < qmax) (hfits : Fits M) (hM : M < tooLarge) {q : ℤ}
    (hq : q.natAbs < 2 ^ 24) :
    dequantized (scaleOf M qmax) q = ofRat (q * signed false (roundUnits (M / qmax))) ∧
      unitsOf (q * signed false (roundUnits (M / qmax)))
        = roundUnits (q.natAbs * roundUnits (M / qmax) : ℕ) := by
  have hint := toFloat_ofRat_signedInt (decide (q < 0)) hq
  rw [signedInt_natAbs] at hint
  constructor
  · show ofFloat ((ofRat q).toFloat * (ofFloat (scaleOf M qmax)).toFloat) = _
    rw [hint, toFloat_scaleOf hqmax hfits hM]
    rfl
  · have habs : |(q : ℚ) * signed false (roundUnits (M / qmax))| * 2 ^ 149
        = (q.natAbs * roundUnits (M / qmax) : ℕ) := by
      rw [abs_mul, abs_signed, Nat.cast_mul, Nat.cast_natAbs, Int.cast_abs, mul_assoc,
        div_mul_cancel₀ _ (by positivity)]
    unfold unitsOf
    rw [habs]

theorem toFloat_dequantized (hqmax : 0 < qmax) (hfits : Fits M) (hM : M < tooLarge) {q : ℤ}
    (hq : q.natAbs < 2 ^ 24)
    (hlt : roundUnits (q.natAbs * roundUnits (M / qmax) : ℕ) < tooLarge) :
    (dequantized (scaleOf M qmax) q).toFloat
      = .fin (signed (decide (q < 0)) (roundUnits (q.natAbs * roundUnits (M / qmax) : ℕ))) := by
  obtain ⟨heq, hunits⟩ := dequantized_eq hqmax hfits hM hq
  rw [heq, toFloat_ofRat (hunits.trans_lt hlt), hunits]
  congr 1
  refine signed_congr fun hne => ?_
  have hstep : (0 : ℚ) < signed false (roundUnits (M / qmax)) := by
    have hpos : 0 < roundUnits (M / qmax) := by
      refine Nat.pos_of_ne_zero fun hzero => hne ?_
      rw [hzero, Nat.mul_zero]
      exact roundUnits_of_fits (m := 0) (fits_of_lt (by decide))
    show (0 : ℚ) < (_ : ℕ) / 2 ^ 149
    positivity
  rw [decide_eq_decide, mul_neg_iff]
  constructor
  · rintro (⟨-, hneg⟩ | ⟨hneg, -⟩)
    · exact absurd hstep (lt_asymm hneg)
    · exact_mod_cast hneg
  · exact fun hneg => .inr ⟨by exact_mod_cast hneg, hstep⟩

theorem toFloat_dequantized_tooLarge (hqmax : 0 < qmax) (hfits : Fits M) (hM : M < tooLarge) {q : ℤ}
    (hq : q.natAbs < 2 ^ 24)
    (hge : tooLarge ≤ roundUnits (q.natAbs * roundUnits (M / qmax) : ℕ)) :
    (dequantized (scaleOf M qmax) q).toFloat = .inf ∨
      (dequantized (scaleOf M qmax) q).toFloat = .negInf := by
  obtain ⟨heq, hunits⟩ := dequantized_eq hqmax hfits hM hq
  rw [heq, toFloat_ofRat_tooLarge (hunits.symm ▸ hge)]
  split
  · exact .inr rfl
  · exact .inl rfl

/-- Subtracting what is zero. -/
theorem toFloat_sub_zero {r : NpFloat32} (hv : v.isFinite = true) (hr : r.toFloat = .fin 0) :
    (v - r).toFloat = v.toFloat := by
  show (ofFloat (v.toFloat - r.toFloat)).toFloat = _
  rw [hr, toFloat_eq hv, PyFloat.fin_sub, sub_zero]
  exact toFloat_ofRat_signed (fits_magnitude v) (magnitude_lt hv)

/-- The difference of an entry and a number of its sign, when it can be written. -/
theorem toFloat_sub {r : NpFloat32} {R : ℕ} (hv : v.isFinite = true)
    (hr : r.toFloat = .fin (signed v.signBit R)) (hR : R < tooLarge)
    (hrest : Fits (v.magnitude - R) ∧ Fits (R - v.magnitude)) :
    (v - r).toFloat = .fin (signed v.signBit v.magnitude - signed v.signBit R) := by
  have hM := magnitude_lt hv
  show (ofFloat (v.toFloat - r.toFloat)).toFloat = _
  rw [hr, toFloat_eq hv, PyFloat.fin_sub]
  rcases Nat.le_total R v.magnitude with hle | hge
  · have hdiff : signed v.signBit v.magnitude - signed v.signBit R
        = signed v.signBit (v.magnitude - R) := by
      unfold signed
      rw [Nat.cast_sub hle]
      split <;> ring
    rw [hdiff]
    exact toFloat_ofRat_signed hrest.1 (by omega)
  · have hdiff : signed v.signBit v.magnitude - signed v.signBit R
        = signed (!v.signBit) (R - v.magnitude) := by
      rw [signed_neg]
      unfold signed
      rw [Nat.cast_sub hge]
      split <;> ring
    rw [hdiff]
    exact toFloat_ofRat_signed hrest.2 (by omega)

theorem natAbs_onInt8Grid_lt (hsmall : qmax < 2 ^ 20) (scale : PyFloat) :
    (onInt8Grid nanByte qmax scale v).natAbs < 2 ^ 24 := by
  have hlow := BitVec.le_toInt (x := nanByte)
  have hhigh := BitVec.toInt_lt (x := nanByte)
  unfold onInt8Grid
  cases (v / ofFloat scale).toFloat <;> dsimp only <;> omega

/-- **What is left of an entry and its multiple give the entry**, exactly when no multiple on the way
is infinite. -/
theorem rest_add_dequantized_iff (hv : v.isFinite = true) (hle : v.magnitude ≤ M) (hqmax : 0 < qmax)
    (hsmall : qmax < 2 ^ 10) (hfits : Fits M) (hM : M < tooLarge) :
    let r := dequantized (scaleOf M qmax) (onInt8Grid nanByte qmax (scaleOf M qmax) v)
    (v - r).toFloat + r.toFloat = v.toFloat ↔
      roundUnits (gridNumber qmax v.magnitude (roundUnits (M / qmax)) * roundUnits (M / qmax) : ℕ)
        < tooLarge := by
  intro r
  have hzero : Fits 0 := fits_of_lt (by decide)
  have hbound : (onInt8Grid nanByte qmax (scaleOf M qmax) v).natAbs < 2 ^ 24 :=
    natAbs_onInt8Grid_lt (by omega) (scaleOf M qmax)
  by_cases hstep : roundUnits (M / qmax) = 0
  · -- a step of nothing: every multiple is zero
    rw [hstep, Nat.mul_zero, roundUnits_of_fits hzero]
    refine iff_of_true ?_ (by decide)
    have hr := toFloat_dequantized hqmax hfits hM hbound (by
      rw [hstep, Nat.mul_zero, roundUnits_of_fits hzero]
      decide)
    rw [hstep, Nat.mul_zero, roundUnits_of_fits hzero, signed_zero] at hr
    rw [toFloat_sub_zero hv hr, hr, toFloat_eq hv, PyFloat.fin_add, add_zero]
  · have hgrid := onInt8Grid_eq nanByte hv hqmax (by omega) hfits hM hstep
    set Q := gridNumber qmax v.magnitude (roundUnits (M / qmax)) with hQ
    have habs : (onInt8Grid nanByte qmax (scaleOf M qmax) v).natAbs = Q := by
      rw [hgrid]
      unfold signedInt
      split <;> omega
    rcases Nat.lt_or_ge (roundUnits (Q * roundUnits (M / qmax) : ℕ)) tooLarge with hlt | hge
    · refine iff_of_true ?_ hlt
      have hr := toFloat_dequantized hqmax hfits hM hbound (by rw [habs]; exact hlt)
      have hsign : signed (decide (onInt8Grid nanByte qmax (scaleOf M qmax) v < 0))
          (roundUnits (Q * roundUnits (M / qmax) : ℕ))
          = signed v.signBit (roundUnits (Q * roundUnits (M / qmax) : ℕ)) := by
        refine signed_congr fun hne => ?_
        have hQ0 : Q ≠ 0 := by
          intro h
          rw [h, Nat.zero_mul, roundUnits_of_fits hzero] at hne
          exact hne rfl
        rw [hgrid, Bool.eq_iff_iff, decide_eq_true_eq]
        unfold signedInt
        cases v.signBit <;> simp <;> omega
      rw [habs, hsign] at hr
      rw [toFloat_sub hv hr hlt (fits_rest hqmax hsmall (fits_magnitude v) hle rfl), hr,
        PyFloat.fin_add, sub_add_cancel, toFloat_eq hv]
    · refine iff_of_false ?_ (by omega)
      have hr := toFloat_dequantized_tooLarge hqmax hfits hM hbound (by rw [habs]; exact hge)
      intro hsum
      have hdiff : (v - r).toFloat = (ofFloat (v.toFloat - r.toFloat)).toFloat := rfl
      -- an infinity and its opposite
      rw [hdiff, toFloat_eq hv] at hsum
      rcases hr with hr | hr
      · rw [hr, show PyFloat.fin (signed v.signBit v.magnitude) - .inf = .negInf from rfl,
          show (ofFloat .negInf).toFloat = .negInf by decide] at hsum
        cases hsum
      · rw [hr, show PyFloat.fin (signed v.signBit v.magnitude) - .negInf = .inf from rfl,
          show (ofFloat .inf).toFloat = .inf by decide] at hsum
        cases hsum

end entry

/-! ## The largest number there is -/

/-- The largest finite `float32`, in units. -/
def largest : ℕ := (2 ^ 24 - 1) * 2 ^ 253

section largest

variable {M qmax : ℕ}

/-- What can be written with 24 bits below the first power of two that is too large. -/
theorem le_or_eq_largest (hfits : Fits M) (hM : M < tooLarge) :
    M ≤ (2 ^ 24 - 2) * 2 ^ 253 ∨ M = largest := by
  obtain ⟨d, e, rfl, hd⟩ := hfits
  rcases Nat.lt_or_ge e 253 with hlt | hge
  · refine .inl ?_
    have hpow : 2 ^ e ≤ 2 ^ 252 := Nat.pow_le_pow_right (by decide) (by omega)
    calc d * 2 ^ e ≤ 2 ^ 24 * 2 ^ 252 := Nat.mul_le_mul (by omega) hpow
      _ ≤ (2 ^ 24 - 2) * 2 ^ 253 := by decide
  · -- the mantissa on the coarsest grid
    obtain ⟨k, rfl⟩ := Nat.exists_eq_add_of_le hge
    have hcoarse : d * 2 ^ (253 + k) = d * 2 ^ k * 2 ^ 253 := by
      rw [Nat.add_comm, Nat.pow_add, Nat.mul_assoc]
    rw [hcoarse] at hM ⊢
    have hlt : d * 2 ^ k < 2 ^ 24 := by
      unfold tooLarge at hM
      exact Nat.lt_of_mul_lt_mul_right hM
    rcases Nat.lt_or_ge (d * 2 ^ k) (2 ^ 24 - 1) with h | h
    · exact .inl (Nat.mul_le_mul_right _ (by omega))
    · refine .inr ?_
      unfold largest
      rw [show d * 2 ^ k = 2 ^ 24 - 1 by omega]

/-- The step of a tensor is monotone in its largest entry, and so is the end of its grid. -/
theorem end_mono {N : ℕ} (h : M ≤ N) :
    roundUnits (qmax * roundUnits (M / qmax) : ℕ) ≤ roundUnits (qmax * roundUnits (N / qmax) : ℕ) := by
  have hle : (M / qmax : ℚ) ≤ N / qmax := by
    have hcast : (M : ℚ) ≤ N := by exact_mod_cast h
    gcongr
  have hstep := roundUnits_mono (by positivity) hle
  refine roundUnits_mono (Nat.cast_nonneg _) ?_
  exact_mod_cast Nat.mul_le_mul_left qmax hstep

/-- **The end of the grid is finite**, but for the largest number in units of a 127th. -/
theorem end_lt (hqmax : qmax = 127 ∨ qmax = 7) (hfits : Fits M) (hM : M < tooLarge)
    (h : qmax = 127 → M ≠ largest) :
    roundUnits (qmax * roundUnits (M / qmax) : ℕ) < tooLarge := by
  rcases le_or_eq_largest hfits hM with hle | rfl
  · refine (end_mono hle).trans_lt ?_
    rcases hqmax with rfl | rfl <;> decide +kernel
  · rcases hqmax with rfl | rfl
    · exact absurd rfl (h rfl)
    · decide +kernel

/-- For the largest number the last multiple is taken, and it is infinite. -/
theorem end_largest :
    gridNumber 127 largest (roundUnits (largest / 127)) = 127 ∧
      tooLarge ≤ roundUnits (127 * roundUnits (largest / 127) : ℕ) := by
  decide +kernel

end largest

/-- **The entries of a tensor come back with what is left of them**, for every entry, unless the
grid has 255 numbers and an entry is the largest number there is. -/
theorem rest_add_dequantized_all_iff (nanByte : BitVec 8) {vals : List NpFloat32} {M qmax : ℕ}
    (hqmax : qmax = 127 ∨ qmax = 7) (hfinite : ∀ v ∈ vals, v.isFinite = true)
    (hle : ∀ v ∈ vals, v.magnitude ≤ M) (hM : ∃ v ∈ vals, v.magnitude = M) :
    (∀ v ∈ vals, (v - dequantized (scaleOf M qmax) (onInt8Grid nanByte qmax (scaleOf M qmax) v)).toFloat
        + (dequantized (scaleOf M qmax) (onInt8Grid nanByte qmax (scaleOf M qmax) v)).toFloat
          = v.toFloat) ↔ (qmax = 127 → M ≠ largest) := by
  obtain ⟨w, hw, rfl⟩ := hM
  have hpos : 0 < qmax := by omega
  have hsmall : qmax < 2 ^ 10 := by omega
  have hfits := fits_magnitude w
  have hlt := magnitude_lt (hfinite w hw)
  constructor
  · rintro hall rfl heq
    have hentry := (rest_add_dequantized_iff (hfinite w hw) le_rfl hpos hsmall hfits hlt).mp (hall w hw)
    obtain ⟨hlast, hinfinite⟩ := end_largest
    rw [heq] at hentry
    rw [Nat.cast_ofNat, hlast] at hentry
    omega
  · intro hne v hv
    refine (rest_add_dequantized_iff (hfinite v hv) (hle v hv) hpos hsmall hfits hlt).mpr ?_
    refine lt_of_le_of_lt (roundUnits_mono (Nat.cast_nonneg _) ?_) (end_lt hqmax hfits hlt hne)
    exact_mod_cast Nat.mul_le_mul_right _ (Nat.min_le_left _ _)

end NeuraHash
