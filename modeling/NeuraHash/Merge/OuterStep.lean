import NeuraHash.Merge.Gate
import NeuraHash.Python.Mutation

/-!
# The outer optimizer step (`neurahash/training_layer.py`, `neurahash/diloco_merge.py`)

The trunk moves by a heavy-ball step over the contributed deltas: `m = beta * m + mean`, then
`p = p + outer_lr * m`, key by key and in place (`outerAggregate`). The masked step does the same
on the elements of a mask and leaves the others alone (`outerAggregateMasked`).
-/

namespace NeuraHash

open Py

variable {F : Type} [FloatOps F]

/-! ## Arrays -/

/-- `np.mean(present, axis=0)` of a non-empty list; arrays of different shapes raise. -/
def meanTensors (present : List (Tensor F)) : Except PyErr (Tensor F) :=
  match present with
  | [] => .error .valueError
  | t :: rest =>
    if rest.all (fun u => decide (u.shape = t.shape)) then
      .ok (.ofFn t.shape (fun i =>
        FloatOps.sum (present.map (fun u => u.get i)) / FloatOps.lit present.length))
    else .error .valueError

/-- `np.zeros_like`. -/
def zerosLike (t : Tensor F) : Tensor F := .ofFn t.shape (fun _ => 0)

/-- `np.where(mask, a, b)`. -/
def tensorWhere (mask : Tensor Bool) (a b : Tensor F) : Except PyErr (Tensor F) := do
  let shape ← Tensor.broadcastShapes mask.shape a.shape
  let shape ← Tensor.broadcastShapes shape b.shape
  return .ofFn shape (fun i =>
    if mask.stretched shape i then a.stretched shape i else b.stretched shape i)

/-! ## The step -/

/-- The trunk and its momentum buffer. -/
structure OuterState (F : Type) where
  trunk : Params F
  momentum : Params F

/-- The step of one key: `none` moves every element, a mask the elements it selects. -/
def outerStepKey (outerLr beta : F) (deltas : List (Params F)) (mask : Option (Tensor Bool))
    (k : String) : PyM (OuterState F) Unit := do
  let s ← get
  let present := deltas.filterMap (fun d => d.get? k)
  match s.trunk.get? k, present with
  | none, _ => pure ()
  | some _, [] => pure ()
  | some param, _ :: _ =>
    let avg ← PyM.ofExcept (meanTensors present)
    let prev := s.momentum.getD k (zerosLike param)
    let next ← PyM.ofExcept (Tensor.map2 (fun m a => beta * m + a) prev avg)
    let next' ← match mask with
      | none => pure next
      | some sel => PyM.ofExcept (tensorWhere sel next prev)
    modify (fun s => { s with momentum := s.momentum.set k next' })
    let moved ← PyM.ofExcept (Tensor.map2 (fun p m => p + outerLr * m) param next)
    let moved' ← match mask with
      | none => pure moved
      | some sel => PyM.ofExcept (tensorWhere sel moved param)
    modify (fun s => { s with trunk := s.trunk.set k moved' })

/-- `outer_aggregate(global_params, deltas, momentum_buf, outer_lr, beta)`. -/
def outerAggregate (outerLr beta : F) (deltas : List (Params F)) : PyM (OuterState F) Unit := do
  if deltas.isEmpty then pure ()
  else (← get).trunk.keys.forM (outerStepKey outerLr beta deltas none)

/-- `outer_aggregate_masked(global_params, deltas, momentum_buf, masks, outer_lr, beta)`. -/
def outerAggregateMasked (outerLr beta : F) (deltas : List (Params F))
    (masks : Dict String (Tensor Bool)) : PyM (OuterState F) Unit := do
  if deltas.isEmpty then pure ()
  else (← get).trunk.keys.forM (fun k => outerStepKey outerLr beta deltas (masks.get? k) k)

/-! ## What the step does to an element -/

/-- An element of an array; an array that is not there counts as zeros. -/
def elementAt (arrays : Params F) (k : String) (i : ℕ) : F :=
  match arrays.get? k with
  | some t => t.get i
  | none => 0

/-- The arrays of a key that the deltas carry. -/
def presentAt (deltas : List (Params F)) (k : String) : List (Tensor F) :=
  deltas.filterMap fun d => d.get? k

/-- The mean of an element over the deltas that carry its key. -/
def meanAt (deltas : List (Params F)) (k : String) (i : ℕ) : F :=
  FloatOps.sum ((presentAt deltas k).map fun u => u.get i) / FloatOps.lit (presentAt deltas k).length

/-- `beta * m + avg`. -/
def nextMomentum (beta : F) (deltas : List (Params F)) (momentum : Params F) (k : String) (i : ℕ) : F :=
  beta * elementAt momentum k i + meanAt deltas k i

/-- Whether the step moves an element. -/
def selectedAt (mask : Option (Tensor Bool)) (i : ℕ) : Bool :=
  match mask with
  | none => true
  | some sel => sel.get i

/-- The momentum of a key after its step. -/
def stepMomentum (beta : F) (deltas : List (Params F)) (mask : Option (Tensor Bool))
    (momentum : Params F) (k : String) (shape : List ℕ) : Tensor F :=
  .ofFn shape fun i => if selectedAt mask i then nextMomentum beta deltas momentum k i
    else elementAt momentum k i

/-- The parameters of a key after its step. -/
def stepParam (outerLr beta : F) (deltas : List (Params F)) (mask : Option (Tensor Bool))
    (momentum : Params F) (k : String) (param : Tensor F) : Tensor F :=
  .ofFn param.shape fun i =>
    if selectedAt mask i then param.get i + outerLr * nextMomentum beta deltas momentum k i
    else param.get i

/-- The state after the step of one key. -/
def stepState (outerLr beta : F) (deltas : List (Params F)) (maskOf : String → Option (Tensor Bool))
    (s : OuterState F) (k : String) : OuterState F :=
  match s.trunk.get? k with
  | none => s
  | some param =>
    if presentAt deltas k = [] then s
    else
      { trunk := s.trunk.set k (stepParam outerLr beta deltas (maskOf k) s.momentum k param)
        momentum := s.momentum.set k (stepMomentum beta deltas (maskOf k) s.momentum k param.shape) }

/-- Every array has the shape of the trunk's array under its key. -/
structure Fits (deltas : List (Params F)) (maskOf : String → Option (Tensor Bool)) (s : OuterState F) :
    Prop where
  deltas : ∀ k param, s.trunk.get? k = some param → ∀ t ∈ presentAt deltas k, t.shape = param.shape
  momentum : ∀ k param, s.trunk.get? k = some param → ∀ m, s.momentum.get? k = some m →
    m.shape = param.shape
  mask : ∀ k param, s.trunk.get? k = some param → ∀ sel, maskOf k = some sel → sel.shape = param.shape

variable {outerLr beta : F} {deltas : List (Params F)} {maskOf : String → Option (Tensor Bool)}
  {s : OuterState F} {k k' : String} {param : Tensor F}

theorem meanTensors_of_shape {present : List (Tensor F)} {shape : List ℕ} (hne : present ≠ [])
    (hshape : ∀ t ∈ present, t.shape = shape) :
    meanTensors present = .ok (.ofFn shape fun i =>
      FloatOps.sum (present.map fun u => u.get i) / FloatOps.lit present.length) := by
  cases present with
  | nil => exact absurd rfl hne
  | cons t rest =>
    obtain ⟨ht, hrest⟩ := List.forall_mem_cons.mp hshape
    unfold meanTensors
    dsimp only
    rw [if_pos, ht]
    rw [List.all_eq_true]
    intro u hu
    rw [hrest u hu, ht]
    exact decide_eq_true rfl

theorem tensorWhere_of_shape {sel : Tensor Bool} {a b : Tensor F} {shape : List ℕ}
    (hsel : sel.shape = shape) (ha : a.shape = shape) (hb : b.shape = shape) :
    tensorWhere sel a b = .ok (.ofFn shape fun i => if sel.get i then a.get i else b.get i) := by
  subst hsel
  unfold tensorWhere
  rw [ha, Tensor.broadcastShapes_self, ok_bind, hb, Tensor.broadcastShapes_self, ok_bind]
  refine congrArg Except.ok (Tensor.ofFn_congr fun i hi => ?_)
  have ha' : a.stretched sel.shape i = a.get i := by
    rw [← ha]
    exact Tensor.stretched_self (by rwa [ha])
  have hb' : b.stretched sel.shape i = b.get i := by
    rw [← hb]
    exact Tensor.stretched_self (by rwa [hb])
  rw [Tensor.stretched_self hi, ha', hb']

theorem get_getD_momentum (momentum : Params F) {i : ℕ} (hi : i < param.shape.prod) :
    (momentum.getD k (zerosLike param)).get i = elementAt momentum k i := by
  unfold elementAt Dict.getD
  cases momentum.get? k with
  | some m => rfl
  | none => exact Tensor.get_ofFn hi _

/-- **The step of one key**, when every array has the trunk's shape. -/
theorem outerStepKey_fits (hfits : Fits deltas maskOf s) :
    outerStepKey outerLr beta deltas (maskOf k) k s
      = .ok () (stepState outerLr beta deltas maskOf s k) := by
  unfold outerStepKey stepState
  rw [PyM.bind_run_ok (PyM.get_run s)]
  dsimp only
  cases hparam : s.trunk.get? k with
  | none => rfl
  | some param =>
    dsimp only
    by_cases hpresent : presentAt deltas k = []
    · rw [show deltas.filterMap (fun d => d.get? k) = [] from hpresent, if_pos hpresent]
      rfl
    rw [if_neg hpresent]
    obtain ⟨t, rest, hcons⟩ := List.exists_cons_of_ne_nil hpresent
    -- the mean, the next momentum and the moved parameters, all of the trunk's shape
    have hmean := meanTensors_of_shape hpresent (hfits.deltas k param hparam)
    have hprev : (s.momentum.getD k (zerosLike param)).shape = param.shape := by
      unfold Dict.getD
      cases hm : s.momentum.get? k with
      | some m => exact hfits.momentum k param hparam m hm
      | none => rfl
    have hnext : Tensor.map2 (fun m a => beta * m + a) (s.momentum.getD k (zerosLike param))
        (.ofFn param.shape fun i => FloatOps.sum ((presentAt deltas k).map fun u => u.get i)
          / FloatOps.lit (presentAt deltas k).length)
        = .ok (.ofFn param.shape (nextMomentum beta deltas s.momentum k)) := by
      refine (Tensor.map2_of_shape hprev (Tensor.shape_ofFn _ _)).trans ?_
      refine congrArg Except.ok (Tensor.ofFn_congr fun i hi => ?_)
      rw [get_getD_momentum s.momentum hi, Tensor.get_ofFn hi]
      rfl
    have hmoved : Tensor.map2 (fun p m => p + outerLr * m) param
        (.ofFn param.shape (nextMomentum beta deltas s.momentum k))
        = .ok (.ofFn param.shape fun i =>
          param.get i + outerLr * nextMomentum beta deltas s.momentum k i) := by
      refine (Tensor.map2_of_shape rfl (Tensor.shape_ofFn _ _)).trans ?_
      refine congrArg Except.ok (Tensor.ofFn_congr fun i hi => ?_)
      rw [Tensor.get_ofFn hi]
    rw [show deltas.filterMap (fun d => d.get? k) = t :: rest from hcons]
    dsimp only
    rw [← hcons, PyM.bind_run, hmean]
    dsimp only [PyM.ofExcept]
    rw [PyM.bind_run, hnext]
    dsimp only [PyM.ofExcept]
    cases hmask : maskOf k with
    | none =>
      dsimp only
      rw [PyM.bind_run_ok (PyM.pure_run _ _), PyM.bind_run_ok (PyM.modify_run _ _), PyM.bind_run,
        hmoved]
      rfl
    | some sel =>
      have hsel : sel.shape = param.shape := hfits.mask k param hparam sel hmask
      have hnext' := tensorWhere_of_shape hsel
        (Tensor.shape_ofFn param.shape (nextMomentum beta deltas s.momentum k)) hprev
      have hmoved' := tensorWhere_of_shape (b := param) hsel
        (Tensor.shape_ofFn param.shape fun i =>
          param.get i + outerLr * nextMomentum beta deltas s.momentum k i) rfl
      dsimp only
      rw [PyM.bind_run, hnext']
      dsimp only [PyM.ofExcept]
      rw [PyM.bind_run_ok (PyM.modify_run _ _), PyM.bind_run, hmoved]
      dsimp only [PyM.ofExcept]
      rw [PyM.bind_run, hmoved']
      dsimp only [PyM.ofExcept]
      rw [PyM.modify_run]
      refine congrArg (EStateM.Result.ok ()) ?_
      have hmomentum : stepMomentum beta deltas (some sel) s.momentum k param.shape
          = .ofFn param.shape fun i =>
            if sel.get i then (Tensor.ofFn param.shape (nextMomentum beta deltas s.momentum k)).get i
            else (s.momentum.getD k (zerosLike param)).get i := by
        refine Tensor.ofFn_congr fun i hi => ?_
        rw [Tensor.get_ofFn hi, get_getD_momentum s.momentum hi]
        rfl
      have hparam' : stepParam outerLr beta deltas (some sel) s.momentum k param
          = .ofFn param.shape fun i =>
            if sel.get i then (Tensor.ofFn param.shape fun i =>
              param.get i + outerLr * nextMomentum beta deltas s.momentum k i).get i
            else param.get i := by
        refine Tensor.ofFn_congr fun i hi => ?_
        rw [Tensor.get_ofFn hi]
        rfl
      rw [hmomentum, hparam']

/-! ## The step of every key -/

/-- A step writes under its own key. -/
theorem stepState_of_ne (h : k' ≠ k) :
    (stepState outerLr beta deltas maskOf s k').trunk.get? k = s.trunk.get? k ∧
      (stepState outerLr beta deltas maskOf s k').momentum.get? k = s.momentum.get? k := by
  unfold stepState
  cases s.trunk.get? k' with
  | none => exact ⟨rfl, rfl⟩
  | some param =>
    dsimp only
    split_ifs
    · exact ⟨rfl, rfl⟩
    · exact ⟨Dict.get?_set_of_ne _ _ h, Dict.get?_set_of_ne _ _ h⟩

/-- What the step leaves under its key. -/
theorem stepState_self (hparam : s.trunk.get? k = some param) (hpresent : presentAt deltas k ≠ []) :
    (stepState outerLr beta deltas maskOf s k).trunk.get? k
        = some (stepParam outerLr beta deltas (maskOf k) s.momentum k param) ∧
      (stepState outerLr beta deltas maskOf s k).momentum.get? k
        = some (stepMomentum beta deltas (maskOf k) s.momentum k param.shape) := by
  unfold stepState
  rw [hparam]
  dsimp only
  rw [if_neg hpresent]
  constructor
  · rw [Dict.get?_set, if_pos rfl]
  · rw [Dict.get?_set, if_pos rfl]

theorem stepState_absent (hpresent : presentAt deltas k = []) :
    stepState outerLr beta deltas maskOf s k = s := by
  unfold stepState
  cases s.trunk.get? k with
  | none => rfl
  | some param => exact if_pos hpresent

/-- The keys of the trunk stay, and so do the shapes. -/
theorem keys_stepState : (stepState outerLr beta deltas maskOf s k).trunk.keys = s.trunk.keys := by
  unfold stepState
  cases hparam : s.trunk.get? k with
  | none => rfl
  | some param =>
    dsimp only
    split_ifs
    · rfl
    · exact (Dict.keys_set _ _ _).trans (if_pos (Dict.mem_keys_iff.mpr ⟨param, hparam⟩))

theorem shape_stepState (h : (stepState outerLr beta deltas maskOf s k').trunk.get? k = some param) :
    ∃ param', s.trunk.get? k = some param' ∧ param'.shape = param.shape := by
  by_cases hk : k' = k
  · subst hk
    by_cases hpresent : presentAt deltas k' = []
    · rw [stepState_absent hpresent] at h
      exact ⟨param, h, rfl⟩
    cases hparam : s.trunk.get? k' with
    | none =>
      unfold stepState at h
      rw [hparam] at h
      dsimp only at h
      rw [hparam] at h
      cases h
    | some param' =>
      rw [(stepState_self hparam hpresent).1] at h
      exact ⟨param', rfl, by rw [← Option.some.inj h]; rfl⟩
  · rw [(stepState_of_ne hk).1] at h
    exact ⟨param, h, rfl⟩

theorem fits_stepState (h : Fits deltas maskOf s) :
    Fits deltas maskOf (stepState outerLr beta deltas maskOf s k) where
  deltas k' param hparam t ht := by
    obtain ⟨param', hparam', hshape⟩ := shape_stepState hparam
    rw [h.deltas k' param' hparam' t ht, hshape]
  momentum k' param hparam m hm := by
    obtain ⟨param', hparam', hshape⟩ := shape_stepState hparam
    by_cases hk : k = k'
    · subst hk
      by_cases hpresent : presentAt deltas k = []
      · rw [stepState_absent hpresent] at hm
        rw [h.momentum k param' hparam' m hm, hshape]
      · rw [(stepState_self hparam' hpresent).2] at hm
        rw [← Option.some.inj hm, ← hshape]
        rfl
    · rw [(stepState_of_ne hk).2] at hm
      rw [h.momentum k' param' hparam' m hm, hshape]
  mask k' param hparam sel hsel := by
    obtain ⟨param', hparam', hshape⟩ := shape_stepState hparam
    rw [h.mask k' param' hparam' sel hsel, hshape]

/-- The steps of some keys, one after the other. -/
def stepKeysState (outerLr beta : F) (deltas : List (Params F))
    (maskOf : String → Option (Tensor Bool)) (s : OuterState F) (keys : List String) : OuterState F :=
  keys.foldl (stepState outerLr beta deltas maskOf) s

theorem forM_outerStepKey (keys : List String) (hfits : Fits deltas maskOf s) :
    keys.forM (fun k => outerStepKey outerLr beta deltas (maskOf k) k) s
      = .ok () (stepKeysState outerLr beta deltas maskOf s keys) := by
  induction keys generalizing s with
  | nil => rfl
  | cons k keys ih =>
    exact (PyM.bind_run_ok (outerStepKey_fits hfits)).trans (ih (fits_stepState hfits))

theorem stepKeysState_of_not_mem {keys : List String} (h : k ∉ keys) :
    (stepKeysState outerLr beta deltas maskOf s keys).trunk.get? k = s.trunk.get? k ∧
      (stepKeysState outerLr beta deltas maskOf s keys).momentum.get? k = s.momentum.get? k := by
  induction keys generalizing s with
  | nil => exact ⟨rfl, rfl⟩
  | cons k' keys ih =>
    rw [List.mem_cons, not_or] at h
    obtain ⟨htrunk, hmomentum⟩ := @ih (stepState outerLr beta deltas maskOf s k') h.2
    exact ⟨htrunk.trans (stepState_of_ne (Ne.symm h.1)).1,
      hmomentum.trans (stepState_of_ne (Ne.symm h.1)).2⟩

/-- The step under a key reads no other key. -/
theorem stepState_congr {s' : OuterState F} (htrunk : s.trunk.get? k = s'.trunk.get? k)
    (hmomentum : s.momentum.get? k = s'.momentum.get? k) :
    (stepState outerLr beta deltas maskOf s k).trunk.get? k
        = (stepState outerLr beta deltas maskOf s' k).trunk.get? k ∧
      (stepState outerLr beta deltas maskOf s k).momentum.get? k
        = (stepState outerLr beta deltas maskOf s' k).momentum.get? k := by
  by_cases hpresent : presentAt deltas k = []
  · rw [stepState_absent hpresent, stepState_absent hpresent]
    exact ⟨htrunk, hmomentum⟩
  have hat : ∀ i, elementAt s.momentum k i = elementAt s'.momentum k i := by
    intro i
    unfold elementAt
    rw [hmomentum]
  cases hparam : s.trunk.get? k with
  | none =>
    have hparam' := htrunk.symm.trans hparam
    unfold stepState
    rw [hparam, hparam']
    exact ⟨htrunk, hmomentum⟩
  | some param =>
    have hparam' := htrunk.symm.trans hparam
    rw [(stepState_self hparam hpresent).1, (stepState_self hparam hpresent).2,
      (stepState_self hparam' hpresent).1, (stepState_self hparam' hpresent).2]
    unfold stepParam stepMomentum nextMomentum
    constructor
    · simp only [hat]
    · simp only [hat]

/-- **Each key ends where its own step leads.** -/
theorem stepKeysState_of_mem {keys : List String} (hnodup : keys.Nodup) (hk : k ∈ keys) :
    (stepKeysState outerLr beta deltas maskOf s keys).trunk.get? k
        = (stepState outerLr beta deltas maskOf s k).trunk.get? k ∧
      (stepKeysState outerLr beta deltas maskOf s keys).momentum.get? k
        = (stepState outerLr beta deltas maskOf s k).momentum.get? k := by
  induction keys generalizing s with
  | nil => cases hk
  | cons k' keys ih =>
    obtain ⟨hfresh, hnodup⟩ := List.nodup_cons.mp hnodup
    rcases List.mem_cons.mp hk with rfl | hk
    · exact stepKeysState_of_not_mem hfresh
    · have hne : k' ≠ k := fun h => hfresh (h ▸ hk)
      obtain ⟨htrunk, hmomentum⟩ := @ih (stepState outerLr beta deltas maskOf s k') hnodup hk
      obtain ⟨htrunk', hmomentum'⟩ := @stepState_congr F _ outerLr beta deltas maskOf
        (stepState outerLr beta deltas maskOf s k') k s (stepState_of_ne hne).1
        (stepState_of_ne hne).2
      exact ⟨htrunk.trans htrunk', hmomentum.trans hmomentum'⟩

theorem keys_stepKeysState (keys : List String) :
    (stepKeysState outerLr beta deltas maskOf s keys).trunk.keys = s.trunk.keys := by
  induction keys generalizing s with
  | nil => rfl
  | cons k keys ih => exact ih.trans keys_stepState

theorem fits_stepKeysState (keys : List String) (h : Fits deltas maskOf s) :
    Fits deltas maskOf (stepKeysState outerLr beta deltas maskOf s keys) := by
  induction keys generalizing s with
  | nil => exact h
  | cons k keys ih => exact ih (fits_stepState h)

/-- The trunk and the momentum after a step over all keys. -/
def outerState (outerLr beta : F) (deltas : List (Params F)) (maskOf : String → Option (Tensor Bool))
    (s : OuterState F) : OuterState F :=
  stepKeysState outerLr beta deltas maskOf s s.trunk.keys

/-- Without deltas nothing moves. -/
theorem outerState_nil : outerState outerLr beta [] maskOf s = s := by
  unfold outerState stepKeysState
  have hfold : ∀ keys : List String, keys.foldl (stepState outerLr beta [] maskOf) s = s := by
    intro keys
    induction keys with
    | nil => rfl
    | cons k keys ih =>
      rw [List.foldl_cons, stepState_absent rfl]
      exact ih
  exact hfold _

/-- **The full step**, when every array has the trunk's shape. -/
theorem outerAggregate_fits (hfits : Fits deltas (fun _ => none) s) :
    outerAggregate outerLr beta deltas s
      = .ok () (outerState outerLr beta deltas (fun _ => none) s) := by
  unfold outerAggregate
  cases deltas with
  | nil => exact congrArg (EStateM.Result.ok ()) outerState_nil.symm
  | cons d deltas => exact forM_outerStepKey s.trunk.keys hfits

/-- **The masked step**, when every array has the trunk's shape. -/
theorem outerAggregateMasked_fits {masks : Dict String (Tensor Bool)}
    (hfits : Fits deltas masks.get? s) :
    outerAggregateMasked outerLr beta deltas masks s
      = .ok () (outerState outerLr beta deltas masks.get? s) := by
  unfold outerAggregateMasked
  cases deltas with
  | nil => exact congrArg (EStateM.Result.ok ()) outerState_nil.symm
  | cons d deltas => exact forM_outerStepKey s.trunk.keys hfits

theorem outerState_of_mem (hk : k ∈ s.trunk.keys) :
    (outerState outerLr beta deltas maskOf s).trunk.get? k
        = (stepState outerLr beta deltas maskOf s k).trunk.get? k ∧
      (outerState outerLr beta deltas maskOf s).momentum.get? k
        = (stepState outerLr beta deltas maskOf s k).momentum.get? k :=
  stepKeysState_of_mem s.trunk.nodup hk

theorem outerState_of_not_mem (hk : k ∉ s.trunk.keys) :
    (outerState outerLr beta deltas maskOf s).trunk.get? k = s.trunk.get? k ∧
      (outerState outerLr beta deltas maskOf s).momentum.get? k = s.momentum.get? k :=
  stepKeysState_of_not_mem hk

/-- **An element after the step**: it moves when a delta carries its key and the mask selects it. -/
theorem elementAt_outerState (hparam : s.trunk.get? k = some param) {i : ℕ}
    (hi : i < param.shape.prod) :
    elementAt (outerState outerLr beta deltas maskOf s).trunk k i
        = (if presentAt deltas k = [] ∨ selectedAt (maskOf k) i = false then elementAt s.trunk k i
          else elementAt s.trunk k i + outerLr * nextMomentum beta deltas s.momentum k i) ∧
      elementAt (outerState outerLr beta deltas maskOf s).momentum k i
        = if presentAt deltas k = [] ∨ selectedAt (maskOf k) i = false then elementAt s.momentum k i
          else nextMomentum beta deltas s.momentum k i := by
  obtain ⟨htrunk, hmomentum⟩ := @outerState_of_mem F _ outerLr beta deltas maskOf s k
    (Dict.mem_keys_iff.mpr ⟨param, hparam⟩)
  have hread : elementAt s.trunk k i = param.get i := by
    unfold elementAt
    rw [hparam]
  by_cases hpresent : presentAt deltas k = []
  · rw [stepState_absent hpresent] at htrunk hmomentum
    unfold elementAt
    rw [htrunk, hmomentum, if_pos (.inl hpresent), if_pos (.inl hpresent)]
    exact ⟨rfl, rfl⟩
  · rw [(stepState_self hparam hpresent).1] at htrunk
    rw [(stepState_self hparam hpresent).2] at hmomentum
    rw [hread]
    constructor
    · rw [elementAt, htrunk]
      dsimp only [stepParam]
      rw [Tensor.get_ofFn hi]
      cases selectedAt (maskOf k) i <;> simp [hpresent]
    · rw [elementAt, hmomentum]
      dsimp only [stepMomentum]
      rw [Tensor.get_ofFn hi]
      cases selectedAt (maskOf k) i <;> simp [hpresent]

end NeuraHash
