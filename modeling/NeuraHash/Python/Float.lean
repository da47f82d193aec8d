import Mathlib

/-!
# Exceptions and numbers — floats, rounding and the operations the ledger uses

A Python `float` is modelled by `PyFloat`: an exact rational, or one of the three
non-finite values `inf`, `-inf`, `nan`. Finite arithmetic is exact (no rounding to 53
bits); the non-finite cases follow IEEE-754, so a comparison with `nan` is false and a
poisoned value stays poisoned.

`FloatOps` collects the operations a piece of code needs from its numbers, so that the
same definition can be run on `PyFloat` (what a node computes from an untrusted JSON
document) and on `ℚ` (exact arithmetic, where the conservation laws are stated).
-/

namespace Py

/-- The exceptions the modelled code can raise. -/
inductive PyErr where
  | keyError
  | typeError
  | valueError
  | overflowError
  | attributeError
  /-- An exception class of a package. -/
  | raised (name : String)
  deriving DecidableEq, Repr

/-- A sequence of two steps returns when both do. -/
theorem bind_eq_ok {ε α β : Type} {x : Except ε α} {f : α → Except ε β} {b : β} :
    (x >>= f) = .ok b ↔ ∃ a, x = .ok a ∧ f a = .ok b := by
  cases x with
  | error e => simp [bind, Except.bind]
  | ok a => simp [bind, Except.bind]

@[simp] theorem ok_bind {ε α β : Type} (a : α) (f : α → Except ε β) :
    (Except.ok a >>= f) = f a := rfl

@[simp] theorem error_bind {ε α β : Type} (e : ε) (f : α → Except ε β) :
    (Except.error e >>= f) = .error e := rfl

/-! ## Floats -/

inductive PyFloat where
  | fin (q : ℚ)
  | inf
  | negInf
  | nan
  deriving DecidableEq

namespace PyFloat

def neg : PyFloat → PyFloat
  | fin q => fin (-q)
  | inf => negInf
  | negInf => inf
  | nan => nan

def add : PyFloat → PyFloat → PyFloat
  | fin a, fin b => fin (a + b)
  | nan, _ => nan
  | _, nan => nan
  | inf, negInf => nan
  | negInf, inf => nan
  | inf, _ => inf
  | _, inf => inf
  | negInf, _ => negInf
  | _, negInf => negInf

/-- `q * inf`: the sign of `q` decides, and `0 * inf` is `nan`. -/
def scaleInf (q : ℚ) : PyFloat :=
  if 0 < q then inf else if q < 0 then negInf else nan

def mul : PyFloat → PyFloat → PyFloat
  | fin a, fin b => fin (a * b)
  | nan, _ => nan
  | _, nan => nan
  | fin a, inf => scaleInf a
  | inf, fin b => scaleInf b
  | fin a, negInf => neg (scaleInf a)
  | negInf, fin b => neg (scaleInf b)
  | inf, inf => inf
  | negInf, negInf => inf
  | inf, negInf => negInf
  | negInf, inf => negInf

/-- Division. A zero divisor raises in Python; every division of the modelled code is
guarded by a positivity test, so that case is never reached and is left as `nan`. -/
def div : PyFloat → PyFloat → PyFloat
  | fin a, fin b => if b = 0 then nan else fin (a / b)
  | nan, _ => nan
  | _, nan => nan
  | fin _, inf => fin 0
  | fin _, negInf => fin 0
  | inf, fin b => if 0 ≤ b then inf else negInf
  | negInf, fin b => if 0 ≤ b then negInf else inf
  | _, _ => nan

/-- `a < b`; false as soon as one side is `nan`. -/
def lt : PyFloat → PyFloat → Bool
  | fin a, fin b => decide (a < b)
  | nan, _ => false
  | _, nan => false
  | negInf, negInf => false
  | negInf, _ => true
  | _, negInf => false
  | inf, _ => false
  | _, inf => true

/-- `a <= b`; false as soon as one side is `nan`. -/
def le : PyFloat → PyFloat → Bool
  | fin a, fin b => decide (a ≤ b)
  | nan, _ => false
  | _, nan => false
  | negInf, _ => true
  | _, negInf => false
  | _, inf => true
  | inf, _ => false

/-- `a == b`; `nan` is equal to nothing. -/
def eq : PyFloat → PyFloat → Bool
  | nan, _ => false
  | a, b => decide (a = b)

/-- `math.isfinite`. -/
def isFinite : PyFloat → Bool
  | fin _ => true
  | _ => false

/-- `abs(x)`. -/
def abs : PyFloat → PyFloat
  | fin q => fin |q|
  | negInf => inf
  | x => x

instance : Zero PyFloat := ⟨fin 0⟩
instance : Add PyFloat := ⟨add⟩
instance : Sub PyFloat := ⟨fun a b => add a (neg b)⟩
instance : Mul PyFloat := ⟨mul⟩
instance : Div PyFloat := ⟨div⟩

@[simp] theorem zero_def : (0 : PyFloat) = fin 0 := rfl
@[simp] theorem fin_add (a b : ℚ) : fin a + fin b = fin (a + b) := rfl
@[simp] theorem fin_sub (a b : ℚ) : fin a - fin b = fin (a - b) := by
  show fin (a + -b) = fin (a - b)
  rw [sub_eq_add_neg]
@[simp] theorem fin_mul (a b : ℚ) : fin a * fin b = fin (a * b) := rfl
@[simp] theorem fin_lt (a b : ℚ) : lt (fin a) (fin b) = decide (a < b) := rfl
@[simp] theorem fin_le (a b : ℚ) : le (fin a) (fin b) = decide (a ≤ b) := rfl

/-- A sum of floats does not depend on the order: a `nan`, or two infinities, poison it wherever
they stand. -/
instance : Std.Commutative (α := PyFloat) (· + ·) where
  comm x y := by
    show x.add y = y.add x
    cases x <;> cases y <;> simp [add, Rat.add_comm]

instance : Std.Associative (α := PyFloat) (· + ·) where
  assoc x y z := by
    show (x.add y).add z = x.add (y.add z)
    cases x <;> cases y <;> cases z <;> simp [add, Rat.add_assoc]

theorem fin_div {b : ℚ} (a : ℚ) (hb : b ≠ 0) : fin a / fin b = fin (a / b) := by
  show (if b = 0 then nan else fin (a / b)) = fin (a / b)
  rw [if_neg hb]

end PyFloat

/-! ## Rounding -/

/-- Round to the nearest integer, ties to even (`round(x)` with one argument). -/
def roundHalfEven (q : ℚ) : ℤ :=
  let f := ⌊q⌋
  let r := q - f
  if r < 1 / 2 then f
  else if 1 / 2 < r then f + 1
  else if f % 2 = 0 then f else f + 1

/-- `round(x, 12)`; the non-finite values are returned unchanged. -/
def PyFloat.round12 : PyFloat → PyFloat
  | .fin q => .fin (roundHalfEven (q * 10 ^ 12) / 10 ^ 12)
  | x => x

/-- `round(x, 6)`; the non-finite values are returned unchanged. -/
def PyFloat.round6 : PyFloat → PyFloat
  | .fin q => .fin (roundHalfEven (q * 10 ^ 6) / 10 ^ 6)
  | x => x

theorem roundHalfEven_intCast (n : ℤ) : roundHalfEven n = n := by
  simp [roundHalfEven]

/-- Rounding to twelve places leaves an integer alone. -/
theorem PyFloat.round12_intCast (n : ℤ) : PyFloat.round12 (.fin n) = .fin n := by
  have h : (n : ℚ) * 10 ^ 12 = ((n * 10 ^ 12 : ℤ) : ℚ) := by push_cast; ring
  have h10 : ((10 : ℚ) ^ 12) ≠ 0 := by norm_num
  rw [PyFloat.round12, h, roundHalfEven_intCast, ← h, mul_div_cancel_right₀ _ h10]

/-- Rounding twice is rounding once. -/
theorem PyFloat.round12_round12 (x : PyFloat) : x.round12.round12 = x.round12 := by
  cases x with
  | fin q =>
    have h10 : ((10 : ℚ) ^ 12) ≠ 0 := by norm_num
    simp only [PyFloat.round12]
    rw [div_mul_cancel₀ _ h10, roundHalfEven_intCast]
  | _ => rfl

theorem PyFloat.round6_round6 (x : PyFloat) : x.round6.round6 = x.round6 := by
  cases x with
  | fin q =>
    have h10 : ((10 : ℚ) ^ 6) ≠ 0 := by norm_num
    simp only [PyFloat.round6]
    rw [div_mul_cancel₀ _ h10, roundHalfEven_intCast]
  | _ => rfl

/-- An integer next to `q` is within a half. -/
theorem abs_sub_roundHalfEven_le (q : ℚ) : |q - roundHalfEven q| ≤ 1 / 2 := by
  have hle := Int.floor_le q
  have hlt := Int.lt_floor_add_one q
  unfold roundHalfEven
  dsimp only
  split
  · rw [abs_le]
    constructor <;> linarith
  · split
    · push_cast
      rw [abs_le]
      constructor <;> linarith
    · split <;> (push_cast; rw [abs_le]; constructor <;> linarith)

/-- Rounding to twelve places moves a value by less than `1e-12`. -/
theorem abs_sub_round12_le (q : ℚ) :
    |q - roundHalfEven (q * 10 ^ 12) / 10 ^ 12| ≤ 1 / 10 ^ 12 := by
  have hpos : (0 : ℚ) < 10 ^ 12 := by norm_num
  have heq : q - roundHalfEven (q * 10 ^ 12) / 10 ^ 12
      = (q * 10 ^ 12 - roundHalfEven (q * 10 ^ 12)) / 10 ^ 12 := by
    field_simp
  rw [heq, abs_div, abs_of_pos hpos]
  exact div_le_div_of_nonneg_right
    ((abs_sub_roundHalfEven_le _).trans (by norm_num)) hpos.le

/-! ## The operations on numbers -/

/-- What the ledger code asks of its number type. -/
class FloatOps (F : Type) extends Zero F, Add F, Sub F, Mul F, Div F where
  lt : F → F → Bool
  le : F → F → Bool
  /-- A float literal of the source. -/
  lit : ℚ → F
  toPyFloat : F → PyFloat

instance : FloatOps PyFloat where
  lt := PyFloat.lt
  le := PyFloat.le
  lit := PyFloat.fin
  toPyFloat := id

instance : FloatOps ℚ where
  lt a b := decide (a < b)
  le a b := decide (a ≤ b)
  lit := id
  toPyFloat := PyFloat.fin

namespace FloatOps

variable {F : Type} [FloatOps F]

/-- `math.isfinite`. -/
def isFinite (x : F) : Bool := (toPyFloat x).isFinite

/-- Python's `max(a, b)`: the first argument unless the second is larger. -/
def max (a b : F) : F := if lt a b then b else a

/-- Python's `min(a, b)`: the first argument unless the second is smaller. -/
def min (a b : F) : F := if lt b a then b else a

/-- Python's `sum`. -/
def sum (xs : List F) : F := xs.foldl (· + ·) 0

/-- `round(x)` to an integer; a non-finite value raises. -/
def round (x : F) : Except PyErr ℤ :=
  match toPyFloat x with
  | .fin q => .ok (roundHalfEven q)
  | .nan => .error .valueError
  | _ => .error .overflowError

@[simp] theorem lt_rat (a b : ℚ) : lt a b = decide (a < b) := rfl
@[simp] theorem le_rat (a b : ℚ) : le a b = decide (a ≤ b) := rfl
@[simp] theorem lit_rat (a : ℚ) : (lit a : ℚ) = a := rfl
@[simp] theorem isFinite_rat (a : ℚ) : isFinite a = true := rfl
@[simp] theorem lt_fin (a b : ℚ) : lt (PyFloat.fin a) (PyFloat.fin b) = decide (a < b) := rfl
@[simp] theorem le_fin (a b : ℚ) : le (PyFloat.fin a) (PyFloat.fin b) = decide (a ≤ b) := rfl
@[simp] theorem lit_pyFloat (a : ℚ) : (lit a : PyFloat) = .fin a := rfl

@[simp] theorem max_rat (a b : ℚ) : max a b = Max.max a b := by
  unfold max
  rw [lt_rat, max_def_lt]
  simp

@[simp] theorem min_rat (a b : ℚ) : min a b = Min.min a b := by
  unfold min
  rw [lt_rat, min_comm, min_def_lt]
  simp

@[simp] theorem sum_rat (xs : List ℚ) : sum xs = xs.sum := by
  rw [List.sum_eq_foldl]
  rfl

@[simp] theorem max_fin (a b : ℚ) : max (PyFloat.fin a) (.fin b) = .fin (Max.max a b) := by
  unfold max
  rw [lt_fin, max_def_lt]
  by_cases h : a < b <;> simp [h]

@[simp] theorem min_fin (a b : ℚ) : min (PyFloat.fin a) (.fin b) = .fin (Min.min a b) := by
  unfold min
  rw [lt_fin, min_comm, min_def_lt]
  by_cases h : b < a <;> simp [h]

end FloatOps

end Py
