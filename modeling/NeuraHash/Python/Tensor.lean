import NeuraHash.Python.Float
import NeuraHash.Python.Dict

/-!
# Arrays

`Tensor α` is an `ndarray`: a shape and the elements in row-major order, as many as the shape
counts. `map2` and `map3` are elementwise operations with broadcasting; on equal shapes they act
element by element (`map2_of_shape`).
-/

namespace Py

/-- A value to read out of range; it is never reached. -/
instance (priority := low) FloatOps.inhabited {F : Type} [FloatOps F] : Inhabited F := ⟨0⟩

structure Tensor (α : Type) where
  shape : List ℕ
  data : List α
  length_data : data.length = shape.prod

namespace Tensor

variable {α β γ : Type} [Inhabited α] [Inhabited β]

/-- The element at a flat index. -/
def get (t : Tensor α) (i : ℕ) : α := t.data.getD i default

def size (t : Tensor α) : ℕ := t.shape.prod

/-- The array with these elements. -/
def ofFn (shape : List ℕ) (f : ℕ → α) : Tensor α :=
  ⟨shape, (List.range shape.prod).map f, by rw [List.length_map, List.length_range]⟩

omit [Inhabited α] in
@[simp] theorem shape_ofFn (shape : List ℕ) (f : ℕ → α) : (ofFn shape f).shape = shape := rfl

theorem get_ofFn {shape : List ℕ} {i : ℕ} (h : i < shape.prod) (f : ℕ → α) :
    (ofFn shape f).get i = f i := by
  simp [get, ofFn, h]

omit [Inhabited α] in
theorem ofFn_congr {shape : List ℕ} {f g : ℕ → α} (h : ∀ i < shape.prod, f i = g i) :
    ofFn shape f = ofFn shape g := by
  unfold ofFn
  congr 1
  exact List.map_congr_left fun i hi => h i (List.mem_range.mp hi)

omit [Inhabited β] in
/-- Elementwise application. -/
def map (f : α → β) (t : Tensor α) : Tensor β := ofFn t.shape (fun i => f (t.get i))

theorem map_map (f : α → β) (g : β → γ) (t : Tensor α) : (t.map f).map g = t.map (g ∘ f) := by
  refine ofFn_congr fun i hi => ?_
  have hi' : i < t.shape.prod := hi
  rw [map, get_ofFn hi']
  rfl

omit [Inhabited α] in
theorem ext_data {t t' : Tensor α} (hshape : t.shape = t'.shape) (hdata : t.data = t'.data) :
    t = t' := by
  cases t
  cases t'
  cases hshape
  cases hdata
  rfl

omit [Inhabited α] in
/-- `np.ascontiguousarray`: the same entries, with at least one dimension. -/
def contiguous (t : Tensor α) : Tensor α where
  shape := if t.shape = [] then [1] else t.shape
  data := t.data
  length_data := by
    rw [t.length_data]
    split
    · next h => rw [h]; rfl
    · rfl

omit [Inhabited α] in
theorem contiguous_of_ne_nil {t : Tensor α} (h : t.shape ≠ []) : t.contiguous = t :=
  ext_data (if_neg h) rfl

theorem map_id (t : Tensor α) : t.map id = t := by
  refine ext_data rfl ?_
  show (List.range t.shape.prod).map (fun i => t.data.getD i default) = t.data
  rw [← t.length_data]
  refine List.ext_getElem (by simp) fun i _ hi => ?_
  rw [List.getElem_map, List.getElem_range, List.getD_eq_getElem _ _ hi]

/-! ## Broadcasting -/

/-- The common shape of two shapes, fastest dimension first: a dimension of one is stretched. -/
def broadcastDims : List ℕ → List ℕ → Option (List ℕ)
  | [], es => some es
  | ds, [] => some ds
  | d :: ds, e :: es => do
    let rest ← broadcastDims ds es
    if d = e then some (d :: rest)
    else if d = 1 then some (e :: rest)
    else if e = 1 then some (d :: rest)
    else none

/-- `np.broadcast_shapes`. -/
def broadcastShapes (s s' : List ℕ) : Except PyErr (List ℕ) :=
  match broadcastDims s.reverse s'.reverse with
  | some dims => .ok dims.reverse
  | none => .error .valueError

/-- The flat index an array is read at, for a flat index of the common shape. -/
def sourceIndex : List ℕ → List ℕ → ℕ → ℕ
  | D :: Ds, d :: ds, i => (if d = 1 then 0 else i % D) + d * sourceIndex Ds ds (i / D)
  | _, _, _ => 0

/-- The element of the stretched array. -/
def stretched (t : Tensor α) (shape : List ℕ) (i : ℕ) : α :=
  t.get (sourceIndex shape.reverse t.shape.reverse i)

/-- An elementwise operation. -/
def map2 (f : α → β → γ) (a : Tensor α) (b : Tensor β) : Except PyErr (Tensor γ) := do
  let shape ← broadcastShapes a.shape b.shape
  return ofFn shape (fun i => f (a.stretched shape i) (b.stretched shape i))

theorem broadcastDims_self (ds : List ℕ) : broadcastDims ds ds = some ds := by
  induction ds with
  | nil => rfl
  | cons d ds ih =>
    rw [broadcastDims, ih]
    simp

theorem broadcastShapes_self (s : List ℕ) : broadcastShapes s s = .ok s := by
  rw [broadcastShapes, broadcastDims_self]
  exact congrArg Except.ok s.reverse_reverse

theorem sourceIndex_self {ds : List ℕ} {i : ℕ} (h : i < ds.prod) : sourceIndex ds ds i = i := by
  induction ds generalizing i with
  | nil =>
    rw [List.prod_nil] at h
    rw [sourceIndex, Nat.lt_one_iff.mp h]
    simp
  | cons d ds ih =>
    rw [List.prod_cons] at h
    have hdiv : i / d < ds.prod := Nat.div_lt_of_lt_mul h
    rw [sourceIndex, ih hdiv]
    by_cases hd : d = 1
    · rw [if_pos hd, hd, Nat.div_one, one_mul, zero_add]
    · rw [if_neg hd, Nat.mod_add_div]

/-- An array is not stretched to its own shape. -/
theorem stretched_self {t : Tensor α} {i : ℕ} (h : i < t.shape.prod) : t.stretched t.shape i = t.get i := by
  rw [stretched, sourceIndex_self (by rwa [List.prod_reverse])]

/-- **On equal shapes the operation is element by element.** -/
theorem map2_of_shape {f : α → β → γ} {a : Tensor α} {b : Tensor β} {shape : List ℕ}
    (ha : a.shape = shape) (hb : b.shape = shape) :
    map2 f a b = .ok (ofFn shape (fun i => f (a.get i) (b.get i))) := by
  subst ha
  unfold map2
  rw [hb, broadcastShapes_self, ok_bind]
  refine congrArg Except.ok (ofFn_congr fun i hi => ?_)
  have hb' : b.stretched a.shape i = b.get i := by
    rw [← hb]
    exact stretched_self (by rwa [hb])
  rw [stretched_self hi, hb']

end Tensor

end Py
