import NeuraHash.Python.Tensor

/-!
# Arrays with two dimensions

A `Tensor` of shape `[m, n]` holds the rows of a matrix one after the other. `ofMatrix` writes a
matrix out and `matrix` reads it; `matmul` is `a @ b` of two such arrays.
-/

namespace Py.Tensor

variable {α : Type}

/-- The rows of a matrix, one after the other. -/
def ofMatrix {m n : ℕ} (M : Matrix (Fin m) (Fin n) α) : Tensor α where
  shape := [m, n]
  data := List.ofFn fun k : Fin (m * n) => M k.divNat k.modNat
  length_data := by simp

/-- The matrix an array of shape `[m, n]` holds. -/
def matrix [Inhabited α] (t : Tensor α) (m n : ℕ) : Matrix (Fin m) (Fin n) α :=
  fun i j => t.get (n * i + j)

@[simp] theorem shape_ofMatrix {m n : ℕ} (M : Matrix (Fin m) (Fin n) α) :
    (ofMatrix M).shape = [m, n] := rfl

theorem get_ofMatrix [Inhabited α] {m n : ℕ} (M : Matrix (Fin m) (Fin n) α) (i : Fin m)
    (j : Fin n) : (ofMatrix M).get (n * i + j) = M i j := by
  have hlt : n * i + j < m * n := by
    have hi : n * i + n ≤ n * m := by
      rw [← Nat.mul_succ]
      exact Nat.mul_le_mul_left n i.isLt
    rw [Nat.mul_comm m n]
    omega
  have hn : 0 < n := j.pos
  show (List.ofFn fun k : Fin (m * n) => M k.divNat k.modNat).getD (n * i + j) default = M i j
  rw [List.getD_eq_getElem _ _ (by rwa [List.length_ofFn]), List.getElem_ofFn]
  have hdiv : (n * i + j) / n = i := by
    rw [Nat.mul_add_div hn, Nat.div_eq_of_lt j.isLt, Nat.add_zero]
  have hmod : (n * i + j) % n = j := by
    rw [Nat.mul_add_mod, Nat.mod_eq_of_lt j.isLt]
  exact congrArg₂ M (Fin.ext hdiv) (Fin.ext hmod)

@[simp] theorem matrix_ofMatrix [Inhabited α] {m n : ℕ} (M : Matrix (Fin m) (Fin n) α) :
    (ofMatrix M).matrix m n = M := by
  funext i j
  exact get_ofMatrix M i j

/-- An elementwise operation on a matrix that is written out. -/
theorem map_ofMatrix [Inhabited α] {β : Type} {m n : ℕ} (f : α → β)
    (M : Matrix (Fin m) (Fin n) α) : (ofMatrix M).map f = ofMatrix (M.map f) := by
  refine ext_data rfl ?_
  show (List.range [m, n].prod).map (fun k => f ((ofMatrix M).get k))
    = List.ofFn fun k : Fin (m * n) => f (M k.divNat k.modNat)
  refine List.ext_getElem (by simp) fun k hk hk' => ?_
  rw [List.length_ofFn] at hk'
  rw [List.getElem_map, List.getElem_range, List.getElem_ofFn]
  refine congrArg f ?_
  show (List.ofFn fun k : Fin (m * n) => M k.divNat k.modNat).getD k default = _
  rw [List.getD_eq_getElem _ _ (by rwa [List.length_ofFn]), List.getElem_ofFn]

/-! ## Products -/

/-- `a @ b` of two arrays with two dimensions. -/
def matmul [Inhabited α] [AddCommMonoid α] [Mul α] (a b : Tensor α) : Except PyErr (Tensor α) :=
  match a.shape, b.shape with
  | [m, k], [k', n] =>
    if k = k' then .ok (ofMatrix (a.matrix m k * b.matrix k n)) else .error .valueError
  | _, _ => .error .valueError

theorem matmul_of_shape [Inhabited α] [AddCommMonoid α] [Mul α] {a b : Tensor α} {m k n : ℕ}
    (ha : a.shape = [m, k]) (hb : b.shape = [k, n]) :
    matmul a b = .ok (ofMatrix (a.matrix m k * b.matrix k n)) := by
  unfold matmul
  rw [ha, hb]
  exact if_pos rfl

/-! ## Rows -/

/-- `t[lo:hi]`, for `lo` and `hi` within the rows. -/
def rows [Inhabited α] (t : Tensor α) (lo hi : ℕ) : Tensor α :=
  let n := t.shape.tail.prod
  ofFn ((hi - lo) :: t.shape.tail) fun k => t.get (n * lo + k)

@[simp] theorem shape_rows [Inhabited α] (t : Tensor α) (lo hi : ℕ) :
    (t.rows lo hi).shape = (hi - lo) :: t.shape.tail := rfl

/-- A block of rows of a matrix, as a matrix. -/
theorem matrix_rows [Inhabited α] {t : Tensor α} {m n lo hi c : ℕ} (ht : t.shape = [m, n])
    (hc : hi - lo = c) (i : Fin c) (j : Fin n) (hi' : lo + i < m) :
    (t.rows lo hi).matrix c n i j = t.matrix m n ⟨lo + i, hi'⟩ j := by
  have hlt : n * i + j < c * n := by
    have hle : n * i + n ≤ n * c := by
      rw [← Nat.mul_succ]
      exact Nat.mul_le_mul_left n i.isLt
    rw [Nat.mul_comm c n]
    omega
  show (t.rows lo hi).get (n * i + j) = t.get (n * (lo + i) + j)
  unfold rows
  rw [ht, hc]
  dsimp only [List.tail_cons]
  rw [List.prod_singleton, get_ofFn (by simpa using hlt), Nat.mul_add, Nat.add_assoc]

end Py.Tensor
