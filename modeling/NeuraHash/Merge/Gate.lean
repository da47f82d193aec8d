import NeuraHash.Python.Tensor
import NeuraHash.Python.Bytes

/-!
# The held-out gate (`neurahash/diloco_merge.py`)

A contributed delta is applied to the trunk when the held-out loss of the merged trunk is strictly
below the loss of the trunk by more than a margin (`applyDeltaGated`). The loss function is the
caller's: it may count what it computes, so it is an operation of a monad; `gate` is the case of a
pure one.

Numbers are generic. Roundings of `float32` arithmetic are not part of the model, except where the
source casts (`Numpy.float32`).
-/

namespace NeuraHash

open Py

/-- `{key: ndarray}`: the parameters of a trunk or of an expert, or a delta of them. -/
abbrev Params (F : Type) := Dict String (Tensor F)

/-- The operations of `numpy` on one element. -/
structure Numpy (F : Type) where
  /-- `np.sqrt`. -/
  sqrt : F → F
  /-- `.astype(np.float32)`. -/
  float32 : F → F
  /-- `.tobytes()` of a `float32`. -/
  tobytes : F → Bytes

/-- Exact operations. -/
def exactNumpy : Numpy PyFloat := ⟨id, id, fun _ => []⟩

section

variable {F : Type} [FloatOps F]

/-! ## Applying a delta -/

/-- The trunk's keys the delta has, with the same shape. -/
def matchedKeys (trunk delta : Params F) : List String :=
  trunk.keys.filter (fun k => match trunk.get? k, delta.get? k with
    | some t, some d => decide (t.shape = d.shape)
    | _, _ => false)

/-- `t + outer * d`, of equal shapes. -/
def stepTensor (outer : F) (t d : Tensor F) : Tensor F :=
  .ofFn t.shape (fun i => t.get i + outer * d.get i)

/-- The trunk with `trunk[k] + outer * delta[k]` at the given keys. -/
def stepKeys (outer : F) (trunk delta : Params F) (keys : List String) : Params F :=
  keys.foldl (fun merged k => match trunk.get? k, delta.get? k with
    | some t, some d => merged.set k (stepTensor outer t d)
    | _, _ => merged) trunk

/-- The norm of the applied part of a delta. -/
def deltaNorm (np : Numpy F) (delta : Params F) (keys : List String) : F :=
  np.sqrt (FloatOps.sum (keys.filterMap (fun k =>
    (delta.get? k).map (fun d => FloatOps.sum (d.data.map (fun x => x * x))))))

/-- What `apply_delta_gated` returns; the values are missing when no key matches. -/
structure GateVerdict (F : Type) where
  accepted : Bool
  keysMatched : ℕ
  keysMissing : ℕ
  baseVal : Option F
  mergedVal : Option F
  deltaNorm : Option F
  reason : Option String

/-- `apply_delta_gated(global_trunk_np, delta_np, eval_fn, outer, margin, apply)`: the verdict and
the trunk after it. -/
def applyDeltaGated {M : Type → Type} [Monad M] (np : Numpy F) (trunk delta : Params F)
    (evalFn : Params F → M F) (outer margin : F) (apply : Bool) : M (GateVerdict F × Params F) :=
  let keys := matchedKeys trunk delta
  let missing := trunk.size - keys.length
  if keys = [] then
    pure (⟨false, 0, missing, none, none, none, some "no matching trunk keys"⟩, trunk)
  else do
    let baseVal ← evalFn trunk
    let merged := stepKeys outer trunk delta keys
    let mergedVal ← evalFn merged
    -- strictly below: a zero delta must not be accepted at margin 0
    let accepted := FloatOps.lt mergedVal (baseVal - margin)
    pure (⟨accepted, keys.length, missing, some baseVal, some mergedVal,
      some (deltaNorm np delta keys), none⟩, if accepted && apply then merged else trunk)

/-- The gate with a pure loss. -/
def gate (np : Numpy F) (trunk delta : Params F) (evalFn : Params F → F) (outer margin : F)
    (apply : Bool) : GateVerdict F × Params F :=
  (applyDeltaGated (M := Id) np trunk delta evalFn outer margin apply).run

/-! ## What the gate decides -/

variable {np : Numpy F} {trunk delta : Params F} {evalFn : Params F → F} {outer margin : F}
  {apply : Bool}

/-- Without a matching key the delta is rejected. -/
theorem gate_of_nil (h : matchedKeys trunk delta = []) :
    gate np trunk delta evalFn outer margin apply
      = (⟨false, 0, trunk.size, none, none, none, some "no matching trunk keys"⟩, trunk) := by
  unfold gate applyDeltaGated
  rw [h]
  rfl

/-- With one, the loss of the merged trunk decides. -/
theorem gate_of_ne_nil (h : matchedKeys trunk delta ≠ []) :
    gate np trunk delta evalFn outer margin apply =
      let keys := matchedKeys trunk delta
      let merged := stepKeys outer trunk delta keys
      let accepted := FloatOps.lt (evalFn merged) (evalFn trunk - margin)
      (⟨accepted, keys.length, trunk.size - keys.length, some (evalFn trunk),
        some (evalFn merged), some (deltaNorm np delta keys), none⟩,
        if accepted && apply then merged else trunk) := by
  unfold gate applyDeltaGated
  dsimp only
  rw [if_neg h]
  rfl

/-- **What an accepted delta says of the trunk after it.** -/
theorem gate_accepted (h : (gate np trunk delta evalFn outer margin apply).1.accepted = true) :
    ∃ merged, (gate np trunk delta evalFn outer margin apply).1.baseVal = some (evalFn trunk)
      ∧ (gate np trunk delta evalFn outer margin apply).1.mergedVal = some (evalFn merged)
      ∧ (gate np trunk delta evalFn outer margin apply).2 = (if apply then merged else trunk)
      ∧ FloatOps.lt (evalFn merged) (evalFn trunk - margin) = true := by
  by_cases hkeys : matchedKeys trunk delta = []
  · rw [gate_of_nil hkeys] at h
    cases h
  · rw [gate_of_ne_nil hkeys] at h ⊢
    dsimp only at h ⊢
    exact ⟨_, rfl, rfl, by rw [h, Bool.true_and], h⟩

/-- **A rejected delta leaves the trunk as it was.** -/
theorem gate_rejected (h : (gate np trunk delta evalFn outer margin apply).1.accepted = false) :
    (gate np trunk delta evalFn outer margin apply).2 = trunk := by
  by_cases hkeys : matchedKeys trunk delta = []
  · rw [gate_of_nil hkeys]
  · rw [gate_of_ne_nil hkeys] at h ⊢
    dsimp only at h ⊢
    rw [h]
    rfl

/-- The probe never touches the trunk. -/
theorem gate_probe : (gate np trunk delta evalFn outer margin false).2 = trunk := by
  by_cases hkeys : matchedKeys trunk delta = []
  · rw [gate_of_nil hkeys]
  · rw [gate_of_ne_nil hkeys]
    simp

end

end NeuraHash
