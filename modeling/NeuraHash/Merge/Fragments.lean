import NeuraHash.Merge.OuterStep

/-!
# Streaming fragments of the trunk (`neurahash/diloco_merge.py`)

With streaming on, a round moves one fragment of the trunk: flat element `i` belongs to fragment
`i % n`, and round `r` moves fragment `r % n`. A contributor sends the selected values of its delta
in flat order (`extractTrunkFragment`), the coordinator scatters them back into full arrays of
zeros (`reconstructTrunkFragment`) and takes the masked outer step.

The last section proves what a run of such rounds does to one element: what `outer_aggregate` does
to it alone, over the rounds of its fragment (`streaming_coverage`).
-/

namespace NeuraHash

open Py

variable {F : Type} [FloatOps F]

/-! ## The partition -/

/-- `_fragment_sel`: whether an element belongs to a fragment. -/
def fragmentSel (num : ℕ) (fragment : ℤ) (i : ℕ) : Bool :=
  decide ((i : ℤ) % (num : ℤ) = fragment % (num : ℤ))

/-- `trunk_fragment_mask`. -/
def trunkFragmentMask (shapes : Dict String (List ℕ)) (num : ℕ) (fragment : ℤ) :
    Dict String (Tensor Bool) :=
  shapes.mapWithKey fun _ shape => .ofFn shape (fragmentSel num fragment)

/-- The selected indices below `n`, in order. -/
def selectedBelow (sel : ℕ → Bool) (n : ℕ) : List ℕ := (List.range n).filter sel

/-- The selected values of an array, in flat order. -/
def extractTensor (sel : ℕ → Bool) (t : Tensor F) : Tensor F where
  shape := [(selectedBelow sel t.size).length]
  data := (selectedBelow sel t.size).map t.get
  length_data := by simp

/-- `extract_trunk_fragment`. -/
def extractTrunkFragment (delta : Params F) (num : ℕ) (fragment : ℤ) : Params F :=
  delta.mapWithKey fun _ t => extractTensor (fragmentSel num fragment) t

/-- Zeros, with the values scattered over the selected elements: as many values as there are
elements, or one value for all of them. -/
def scatter (sel : ℕ → Bool) (shape : List ℕ) (vals : Tensor F) : Except PyErr (Tensor F) :=
  if vals.size = (selectedBelow sel shape.prod).length then
    .ok (.ofFn shape fun i => if sel i then vals.get (selectedBelow sel i).length else 0)
  else if vals.size = 1 then .ok (.ofFn shape fun i => if sel i then vals.get 0 else 0)
  else .error .valueError

/-- The array of one key, full-shaped; zeros when the fragment leaves the key out. -/
def reconstructTensor (sel : ℕ → Bool) (shape : List ℕ) (vals : Option (Tensor F)) :
    Except PyErr (Tensor F) :=
  match vals with
  | none => .ok (.ofFn shape fun _ => 0)
  | some v => scatter sel shape v

/-- `reconstruct_trunk_fragment`. -/
def reconstructTrunkFragment (fragmentDelta : Params F) (shapes : Dict String (List ℕ)) (num : ℕ)
    (fragment : ℤ) : Except PyErr (Params F) := do
  let out ← shapes.entries.mapM fun e => do
    let t ← reconstructTensor (fragmentSel num fragment) e.2 (fragmentDelta.get? e.1)
    return (e.1, t)
  return Dict.ofList out

/-- `{k: np.shape(trunk[k]) for k in trunk}`. -/
def trunkShapes (trunk : Params F) : Dict String (List ℕ) := trunk.mapWithKey fun _ t => t.shape

/-- A streaming round of the trunk: the fragments are scattered back, and the masked step moves the
elements of the fragment. -/
def streamTrunk (outerLr beta : F) (num : ℕ) (rnd : ℤ) (fragments : List (Params F)) :
    PyM (OuterState F) Unit := do
  let shapes := trunkShapes (← get).trunk
  let fragment := rnd % (num : ℤ)
  let recon ← PyM.ofExcept (fragments.mapM fun td =>
    reconstructTrunkFragment td shapes num fragment)
  outerAggregateMasked outerLr beta recon (trunkFragmentMask shapes num fragment)

/-! ## What a fragment carries -/

variable {sel : ℕ → Bool}

/-- A selected element is where its rank among the selected ones says. -/
theorem getElem?_selectedBelow {n i : ℕ} (hi : i < n) (hsel : sel i = true) :
    (selectedBelow sel n)[(selectedBelow sel i).length]? = some i := by
  obtain ⟨m, rfl⟩ := Nat.exists_eq_add_of_lt hi
  have hrange : List.range (i + m + 1) = List.range i ++ i :: (List.range m).map (i + 1 + ·) := by
    rw [show i + m + 1 = i + (m + 1) by omega, List.range_add, List.range_succ_eq_map,
      List.map_cons, List.map_map, Nat.add_zero]
    refine congrArg (List.range i ++ i :: ·) (List.map_congr_left fun j _ => ?_)
    show i + (j + 1) = i + 1 + j
    omega
  unfold selectedBelow
  rw [hrange, List.filter_append, List.filter_cons_of_pos hsel, List.getElem?_append_right le_rfl,
    Nat.sub_self, List.getElem?_cons_zero]

theorem get_extractTensor {t : Tensor F} {i : ℕ} (hi : i < t.size) (hsel : sel i = true) :
    (extractTensor sel t).get (selectedBelow sel i).length = t.get i := by
  unfold Tensor.get extractTensor
  dsimp only
  rw [List.getD_eq_getElem?_getD, List.getElem?_map, getElem?_selectedBelow hi hsel]
  rfl

/-- **What is scattered back**: the array on the selected elements, and zero elsewhere. -/
theorem scatter_extractTensor {t : Tensor F} {shape : List ℕ} (hshape : t.shape = shape) :
    scatter sel shape (extractTensor sel t)
      = .ok (.ofFn shape fun i => if sel i then t.get i else 0) := by
  subst hshape
  unfold scatter
  rw [if_pos (by simp [extractTensor, Tensor.size])]
  refine congrArg Except.ok (Tensor.ofFn_congr fun i hi => ?_)
  split_ifs with hsel
  · exact get_extractTensor hi hsel
  · rfl

/-- A dictionary computed entry by entry. -/
theorem mapM_entries {α β γ : Type} [DecidableEq α] {d : Dict α β} {f : α → β → Except PyErr γ}
    {g : α → β → γ} (h : ∀ e ∈ d.entries, f e.1 e.2 = .ok (g e.1 e.2)) :
    (d.entries.mapM fun e => do
      let t ← f e.1 e.2
      return (e.1, t)) = .ok (d.mapWithKey g).entries := by
  have hlist : ∀ l : List (α × β), (∀ e ∈ l, f e.1 e.2 = .ok (g e.1 e.2)) →
      (l.mapM fun e => do
        let t ← f e.1 e.2
        return (e.1, t)) = Except.ok (l.map fun e => (e.1, g e.1 e.2)) := by
    intro l hl
    induction l with
    | nil => rfl
    | cons e l ih =>
      obtain ⟨he, hl⟩ := List.forall_mem_cons.mp hl
      rw [List.mapM_cons, he, ih hl]
      rfl
  exact hlist d.entries h

/-- **What is reconstructed from a cut delta.** -/
theorem reconstruct_extract {delta : Params F} {shapes : Dict String (List ℕ)} {num : ℕ}
    {fragment : ℤ} (hshape : ∀ k t shape, delta.get? k = some t → shapes.get? k = some shape →
      t.shape = shape) :
    reconstructTrunkFragment (extractTrunkFragment delta num fragment) shapes num fragment
      = .ok (shapes.mapWithKey fun k shape => .ofFn shape fun i =>
          if fragmentSel num fragment i then elementAt delta k i else 0) := by
  unfold reconstructTrunkFragment
  have hout := @mapM_entries String (List ℕ) (Tensor F) _ shapes
    (fun k shape => reconstructTensor (fragmentSel num fragment) shape
      ((extractTrunkFragment delta num fragment).get? k))
    (fun k shape => .ofFn shape fun i =>
      if fragmentSel num fragment i then elementAt delta k i else 0) (by
        intro e he
        have hget : shapes.get? e.1 = some e.2 := Dict.mem_entries_iff.mp he
        rw [extractTrunkFragment, Dict.get?_mapWithKey]
        unfold elementAt
        cases hk : delta.get? e.1 with
        | none => simp [reconstructTensor]
        | some t => exact scatter_extractTensor (hshape e.1 t e.2 hk hget))
  rw [hout, ok_bind]
  exact congrArg Except.ok (Dict.ext_entries (Dict.entries_ofList (Dict.nodup _)))

/-! ## A streaming round -/

/-- An array of the trunk and its momentum have one shape. -/
def Shaped (s : OuterState F) : Prop :=
  ∀ k p m, s.trunk.get? k = some p → s.momentum.get? k = some m → m.shape = p.shape

/-- The arrays of a delta have the shapes of the trunk's. -/
def Conforms (trunk delta : Params F) : Prop :=
  ∀ k p t, trunk.get? k = some p → delta.get? k = some t → t.shape = p.shape

/-- What a contributor sends for a round (`stream_publish_trunk`). -/
def published (num : ℕ) (rnd : ℤ) (delta : Params F) : Params F :=
  extractTrunkFragment delta num (rnd % (num : ℤ))

/-- The full arrays the coordinator makes of it. -/
def rebuilt (trunk : Params F) (num : ℕ) (rnd : ℤ) (delta : Params F) : Params F :=
  (trunkShapes trunk).mapWithKey fun k shape => .ofFn shape fun i =>
    if fragmentSel num rnd i then elementAt delta k i else 0

/-- The masks of a round. -/
def roundMasks (trunk : Params F) (num : ℕ) (rnd : ℤ) : Dict String (Tensor Bool) :=
  trunkFragmentMask (trunkShapes trunk) num (rnd % (num : ℤ))

variable {outerLr beta : F} {num : ℕ} {rnd : ℤ} {s : OuterState F} {deltas : List (Params F)}
  {k : String} {param : Tensor F} {i : ℕ}

theorem fragmentSel_emod (num : ℕ) (rnd : ℤ) :
    fragmentSel num (rnd % (num : ℤ)) = fragmentSel num rnd := by
  funext i
  rw [fragmentSel, fragmentSel, Int.emod_emod]

omit [FloatOps F] in
theorem get?_trunkShapes (trunk : Params F) (k : String) :
    (trunkShapes trunk).get? k = (trunk.get? k).map Tensor.shape :=
  Dict.get?_mapWithKey _ _ _

omit [FloatOps F] in
theorem get?_roundMasks (trunk : Params F) (num : ℕ) (rnd : ℤ) (k : String) :
    (roundMasks trunk num rnd).get? k
      = (trunk.get? k).map fun p => Tensor.ofFn p.shape (fragmentSel num rnd) := by
  rw [roundMasks, trunkFragmentMask, Dict.get?_mapWithKey, get?_trunkShapes, Option.map_map,
    fragmentSel_emod]
  rfl

theorem get?_rebuilt (trunk delta : Params F) (num : ℕ) (rnd : ℤ) (k : String) :
    (rebuilt trunk num rnd delta).get? k = (trunk.get? k).map fun p =>
      Tensor.ofFn p.shape fun i => if fragmentSel num rnd i then elementAt delta k i else 0 := by
  rw [rebuilt, Dict.get?_mapWithKey, get?_trunkShapes, Option.map_map]
  rfl

/-- Every delta is there under every key of the trunk. -/
theorem presentAt_rebuilt (hparam : s.trunk.get? k = some param) :
    presentAt (deltas.map (rebuilt s.trunk num rnd)) k = deltas.map fun d =>
      Tensor.ofFn param.shape fun i => if fragmentSel num rnd i then elementAt d k i else 0 := by
  unfold presentAt
  induction deltas with
  | nil => rfl
  | cons d deltas ih =>
    have hget : (rebuilt s.trunk num rnd d).get? k = some (Tensor.ofFn param.shape fun i =>
        if fragmentSel num rnd i then elementAt d k i else 0) := by
      rw [get?_rebuilt, hparam]
      rfl
    rw [List.map_cons, List.filterMap_cons, hget, ih, List.map_cons]

theorem fits_rebuilt (hshaped : Shaped s) :
    Fits (deltas.map (rebuilt s.trunk num rnd)) (roundMasks s.trunk num rnd).get? s where
  deltas k param hparam t ht := by
    rw [presentAt_rebuilt hparam] at ht
    obtain ⟨d, -, rfl⟩ := List.mem_map.mp ht
    rfl
  momentum k param hparam m hm := hshaped k param m hparam hm
  mask k param hparam sel hsel := by
    rw [get?_roundMasks, hparam] at hsel
    rw [← Option.some.inj hsel]
    rfl

/-- What the coordinator makes of a published delta. -/
theorem reconstruct_published {trunk delta : Params F} (hd : Conforms trunk delta) :
    reconstructTrunkFragment (published num rnd delta) (trunkShapes trunk) num (rnd % (num : ℤ))
      = .ok (rebuilt trunk num rnd delta) := by
  rw [published, reconstruct_extract, fragmentSel_emod]
  · rfl
  · intro k t shape ht hshape
    rw [get?_trunkShapes] at hshape
    obtain ⟨p, hp, rfl⟩ := Option.map_eq_some_iff.mp hshape
    exact hd k p t hp ht

/-- **A streaming round** over what the contributors publish. -/
theorem streamTrunk_published (hshaped : Shaped s) (hdeltas : ∀ d ∈ deltas, Conforms s.trunk d) :
    streamTrunk outerLr beta num rnd (deltas.map (published num rnd)) s
      = .ok () (outerState outerLr beta (deltas.map (rebuilt s.trunk num rnd))
          (roundMasks s.trunk num rnd).get? s) := by
  have hrecon : (deltas.map (published num rnd)).mapM (fun td =>
      reconstructTrunkFragment td (trunkShapes s.trunk) num (rnd % (num : ℤ)))
      = .ok (deltas.map (rebuilt s.trunk num rnd)) := by
    induction deltas with
    | nil => rfl
    | cons d deltas ih =>
      obtain ⟨hd, hdeltas⟩ := List.forall_mem_cons.mp hdeltas
      rw [List.map_cons, List.mapM_cons, reconstruct_published hd, ih hdeltas]
      rfl
  unfold streamTrunk
  rw [PyM.bind_run_ok (PyM.get_run s), PyM.bind_run, hrecon]
  dsimp only [PyM.ofExcept]
  exact outerAggregateMasked_fits (fits_rebuilt hshaped)

/-! ## One element of the trunk -/

/-- The mean of an element over all deltas, as a full array of each has it. -/
def meanOf (deltas : List (Params F)) (k : String) (i : ℕ) : F :=
  FloatOps.sum (deltas.map fun d => elementAt d k i) / FloatOps.lit deltas.length

/-- **The outer step of one element**: `m = beta * m + avg; p = p + lr * m`. -/
def elementStep (outerLr beta : F) (deltas : List (Params F)) (k : String) (i : ℕ) (pm : F × F) :
    F × F :=
  if deltas = [] then pm
  else (pm.1 + outerLr * (beta * pm.2 + meanOf deltas k i), beta * pm.2 + meanOf deltas k i)

/-- The value and the momentum of an element. -/
def elementOf (s : OuterState F) (k : String) (i : ℕ) : F × F :=
  (elementAt s.trunk k i, elementAt s.momentum k i)

theorem meanAt_rebuilt (hparam : s.trunk.get? k = some param) (hi : i < param.shape.prod)
    (hsel : fragmentSel num rnd i = true) :
    meanAt (deltas.map (rebuilt s.trunk num rnd)) k i = meanOf deltas k i := by
  unfold meanAt meanOf
  rw [presentAt_rebuilt hparam, List.map_map, List.length_map]
  refine congrArg (fun l => FloatOps.sum l / FloatOps.lit (deltas.length : ℚ))
    (List.map_congr_left fun d _ => ?_)
  rw [Function.comp_apply, Tensor.get_ofFn hi, if_pos hsel]

/-- **An element in a streaming round** takes its own outer step when its fragment has its turn. -/
theorem elementOf_stream (hparam : s.trunk.get? k = some param) (hi : i < param.shape.prod) :
    elementOf (outerState outerLr beta (deltas.map (rebuilt s.trunk num rnd))
        (roundMasks s.trunk num rnd).get? s) k i
      = if fragmentSel num rnd i then elementStep outerLr beta deltas k i (elementOf s k i)
        else elementOf s k i := by
  obtain ⟨htrunk, hmomentum⟩ := @elementAt_outerState F _ outerLr beta
    (deltas.map (rebuilt s.trunk num rnd)) (roundMasks s.trunk num rnd).get? s k param hparam i hi
  have hselected : selectedAt ((roundMasks s.trunk num rnd).get? k) i = fragmentSel num rnd i := by
    rw [get?_roundMasks, hparam]
    exact Tensor.get_ofFn hi _
  have hpresent : presentAt (deltas.map (rebuilt s.trunk num rnd)) k = [] ↔ deltas = [] := by
    rw [presentAt_rebuilt hparam, List.map_eq_nil_iff]
  unfold elementOf elementStep
  rw [htrunk, hmomentum, hselected]
  cases hsel : fragmentSel num rnd i with
  | false => simp
  | true =>
    by_cases hnil : deltas = []
    · have hnone := hpresent.mpr hnil
      rw [if_pos (.inl hnone), if_pos (.inl hnone), if_pos rfl, if_pos hnil]
    · unfold nextMomentum
      rw [meanAt_rebuilt hparam hi hsel]
      simp [hpresent, hnil]

/-! ## A run of streaming rounds -/

/-- A round: its number and the full deltas of its contributors. -/
abbrev StreamRound (F : Type) := ℤ × List (Params F)

/-- The streaming rounds of a run, over what the contributors publish in each. -/
def streamRun (outerLr beta : F) (num : ℕ) : List (StreamRound F) → PyM (OuterState F) Unit
  | [] => pure ()
  | (rnd, deltas) :: rest => do
    streamTrunk outerLr beta num rnd (deltas.map (published num rnd))
    streamRun outerLr beta num rest

/-- `outer_aggregate`, once for each list of deltas. -/
def outerRun (outerLr beta : F) : List (List (Params F)) → PyM (OuterState F) Unit
  | [] => pure ()
  | deltas :: rest => do
    outerAggregate outerLr beta deltas
    outerRun outerLr beta rest

/-- One element of the arrays under a key, as arrays of their own. -/
def onlyElement (k : String) (i : ℕ) (arrays : Params F) : Params F :=
  match arrays.get? k with
  | some t => Dict.ofList [(k, .ofFn [] fun _ => t.get i)]
  | none => ∅

/-- The state of one element alone. -/
def elementState (s : OuterState F) (k : String) (i : ℕ) : OuterState F :=
  ⟨onlyElement k i s.trunk, onlyElement k i s.momentum⟩

/-- The rounds of the element's fragment, with its own element of every delta. -/
def elementRounds (num : ℕ) (k : String) (i : ℕ) (rounds : List (StreamRound F)) :
    List (List (Params F)) :=
  (rounds.filter fun r => decide (r.1 % (num : ℤ) = (i : ℤ) % (num : ℤ))).map fun r =>
    r.2.map (onlyElement k i)

/-- Every delta carries every key of the trunk, in the trunk's shape. -/
def CarriesAll (trunk : Params F) (delta : Params F) : Prop :=
  ∀ k p, trunk.get? k = some p → ∃ t, delta.get? k = some t ∧ t.shape = p.shape

theorem get?_onlyElement (arrays : Params F) :
    (onlyElement k i arrays).get? k
      = (arrays.get? k).map fun t => Tensor.ofFn [] fun _ => t.get i := by
  unfold onlyElement
  cases arrays.get? k with
  | none => rfl
  | some t =>
    dsimp only
    rw [Dict.get?_ofList]
    simp [Dict.lookup]

theorem elementAt_onlyElement (arrays : Params F) :
    elementAt (onlyElement k i arrays) k 0 = elementAt arrays k i := by
  unfold elementAt
  rw [get?_onlyElement]
  cases arrays.get? k with
  | none => rfl
  | some t => exact Tensor.get_ofFn (by simp) _

/-- The shapes of a run do not change. -/
theorem shape_outerState {maskOf : String → Option (Tensor Bool)} {p : Tensor F}
    (h : (outerState outerLr beta deltas maskOf s).trunk.get? k = some p) :
    ∃ p', s.trunk.get? k = some p' ∧ p'.shape = p.shape := by
  have hkeys : (outerState outerLr beta deltas maskOf s).trunk.keys = s.trunk.keys :=
    keys_stepKeysState _
  have hk : k ∈ s.trunk.keys := by
    rw [← hkeys]
    exact Dict.mem_keys_iff.mpr ⟨p, h⟩
  rw [(outerState_of_mem hk).1] at h
  exact shape_stepState h

omit [FloatOps F] in
theorem shaped_of_fits {maskOf : String → Option (Tensor Bool)} (h : Fits deltas maskOf s) :
    Shaped s := fun k p m hp hm => h.momentum k p hp m hm

theorem shaped_outerState {maskOf : String → Option (Tensor Bool)} (h : Fits deltas maskOf s) :
    Shaped (outerState outerLr beta deltas maskOf s) :=
  shaped_of_fits (fits_stepKeysState _ h)

theorem get?_outerState {maskOf : String → Option (Tensor Bool)} (hparam : s.trunk.get? k = some param) :
    ∃ p, (outerState outerLr beta deltas maskOf s).trunk.get? k = some p ∧ p.shape = param.shape := by
  have hkeys : (outerState outerLr beta deltas maskOf s).trunk.keys = s.trunk.keys :=
    keys_stepKeysState _
  obtain ⟨p, hp⟩ := Dict.mem_keys_iff.mp (hkeys ▸ Dict.mem_keys_iff.mpr ⟨param, hparam⟩ :
    k ∈ (outerState outerLr beta deltas maskOf s).trunk.keys)
  obtain ⟨p', hp', hshape⟩ := shape_outerState hp
  rw [hparam] at hp'
  exact ⟨p, hp, by rw [← hshape, Option.some.inj hp']⟩

omit [FloatOps F] in
theorem CarriesAll.conforms {trunk delta : Params F} (h : CarriesAll trunk delta) :
    Conforms trunk delta := by
  intro k p t hp ht
  obtain ⟨t', ht', hshape⟩ := h k p hp
  rw [ht] at ht'
  rw [Option.some.inj ht', hshape]

theorem CarriesAll.outerState {delta : Params F} {maskOf : String → Option (Tensor Bool)}
    (h : CarriesAll s.trunk delta) :
    CarriesAll (outerState outerLr beta deltas maskOf s).trunk delta := by
  intro k p hp
  obtain ⟨p', hp', hshape⟩ := shape_outerState hp
  obtain ⟨t, ht, htp⟩ := h k p' hp'
  exact ⟨t, ht, htp.trans hshape⟩

/-- `e` holds the element alone. -/
structure Alone (s e : OuterState F) (k : String) (i : ℕ) : Prop where
  scalar : ∃ p, e.trunk.get? k = some p ∧ p.shape = []
  same : elementOf e k 0 = elementOf s k i
  shaped : Shaped e

/-- The element alone is a scalar under its key. -/
theorem shape_onlyElement {arrays : Params F} {k' : String} {t : Tensor F}
    (ht : (onlyElement k i arrays).get? k' = some t) : k' = k ∧ t.shape = [] := by
  unfold onlyElement at ht
  cases harrays : arrays.get? k with
  | none =>
    rw [harrays] at ht
    cases ht
  | some u =>
    rw [harrays] at ht
    dsimp only at ht
    rw [Dict.get?_ofList] at ht
    simp only [List.reverse_cons, List.reverse_nil, List.nil_append, Dict.lookup] at ht
    split_ifs at ht with hk
    rw [← Option.some.inj ht]
    exact ⟨hk.symm, rfl⟩

theorem alone_elementState (hparam : s.trunk.get? k = some param) (i : ℕ) :
    Alone s (elementState s k i) k i where
  scalar := by
    refine ⟨.ofFn [] fun _ => param.get i, ?_, rfl⟩
    show (onlyElement k i s.trunk).get? k = _
    rw [get?_onlyElement, hparam]
    rfl
  same := Prod.ext (elementAt_onlyElement s.trunk) (elementAt_onlyElement s.momentum)
  shaped := by
    intro k' p m hp hm
    rw [(shape_onlyElement hm).2, (shape_onlyElement hp).2]

theorem presentAt_onlyElement (hdeltas : ∀ d ∈ deltas, ∃ t, d.get? k = some t) :
    presentAt (deltas.map (onlyElement k i)) k = deltas.map fun d =>
      Tensor.ofFn [] fun _ => elementAt d k i := by
  unfold presentAt
  induction deltas with
  | nil => rfl
  | cons d deltas ih =>
    obtain ⟨⟨t, ht⟩, hdeltas⟩ := List.forall_mem_cons.mp hdeltas
    have hget : (onlyElement k i d).get? k = some (Tensor.ofFn [] fun _ => elementAt d k i) := by
      rw [get?_onlyElement, ht, elementAt, ht]
      rfl
    rw [List.map_cons, List.filterMap_cons, hget, ih hdeltas, List.map_cons]

/-- **The outer step of an element alone.** -/
theorem Alone.step {e : OuterState F} (h : Alone s e k i)
    (hdeltas : ∀ d ∈ deltas, ∃ t, d.get? k = some t) {s' : OuterState F}
    (hs' : elementOf s' k i = elementStep outerLr beta deltas k i (elementOf s k i)) :
    ∃ e', outerAggregate outerLr beta (deltas.map (onlyElement k i)) e = .ok () e' ∧
      Alone s' e' k i := by
  obtain ⟨p, hp, hscalar⟩ := h.scalar
  have hfits : Fits (deltas.map (onlyElement k i)) (fun _ => none) e := by
    refine ⟨fun k' param hparam t ht => ?_, fun k' param hparam m hm => ?_, fun _ _ _ _ => nofun⟩
    · obtain ⟨d', hd', hget⟩ := List.mem_filterMap.mp ht
      obtain ⟨d, -, rfl⟩ := List.mem_map.mp hd'
      obtain ⟨rfl, hshape⟩ := shape_onlyElement hget
      rw [hp] at hparam
      rw [hshape, ← Option.some.inj hparam, hscalar]
    · exact h.shaped k' param m hparam hm
  refine ⟨_, outerAggregate_fits hfits, ?_, ?_, shaped_outerState hfits⟩
  · obtain ⟨p', hp', hshape⟩ := get?_outerState hp
    exact ⟨p', hp', hshape.trans hscalar⟩
  · obtain ⟨htrunk, hmomentum⟩ := @elementAt_outerState F _ outerLr beta
      (deltas.map (onlyElement k i)) (fun _ => none) e k p hp 0 (by rw [hscalar]; exact Nat.one_pos)
    have hpresent := @presentAt_onlyElement F _ deltas k i hdeltas
    have hmean : meanAt (deltas.map (onlyElement k i)) k 0 = meanOf deltas k i := by
      unfold meanAt meanOf
      rw [hpresent, List.map_map, List.length_map]
      refine congrArg (fun l => FloatOps.sum l / FloatOps.lit (deltas.length : ℚ))
        (List.map_congr_left fun d _ => ?_)
      rw [Function.comp_apply, Tensor.get_ofFn (by simp)]
    rw [hs', ← h.same]
    unfold elementOf elementStep
    rw [htrunk, hmomentum, nextMomentum, hmean]
    by_cases hnil : deltas = []
    · have hnone : presentAt (deltas.map (onlyElement k i)) k = [] := by
        rw [hnil]
        rfl
      rw [if_pos (.inl hnone), if_pos (.inl hnone), if_pos hnil]
    · have hsome : ¬ (presentAt (deltas.map (onlyElement k i)) k = [] ∨
          selectedAt none 0 = false) := by
        rw [hpresent, List.map_eq_nil_iff, not_or]
        exact ⟨hnil, by decide⟩
      rw [if_neg hsome, if_neg hsome, if_neg hnil]

/-- **A run of streaming rounds, one element at a time.** -/
theorem streamRun_element {rounds : List (StreamRound F)} (hshaped : Shaped s)
    (hcarries : ∀ r ∈ rounds, ∀ d ∈ r.2, CarriesAll s.trunk d) :
    ∃ s', streamRun outerLr beta num rounds s = .ok () s' ∧
      ∀ k param i, s.trunk.get? k = some param → i < param.shape.prod → ∀ e, Alone s e k i →
        ∃ e', outerRun outerLr beta (elementRounds num k i rounds) e = .ok () e' ∧
          elementOf e' k 0 = elementOf s' k i := by
  induction rounds generalizing s with
  | nil => exact ⟨s, rfl, fun k param i _ _ e he => ⟨e, rfl, he.same⟩⟩
  | cons r rest ih =>
    obtain ⟨rnd, deltas⟩ := r
    obtain ⟨hfirst, hrest⟩ := List.forall_mem_cons.mp hcarries
    have hround := @streamTrunk_published F _ outerLr beta num rnd s deltas hshaped
      fun d hd => (hfirst d hd).conforms
    have hfits := @fits_rebuilt F _ num rnd s deltas hshaped
    obtain ⟨s', hrun, helements⟩ := ih (shaped_outerState hfits) fun r hr d hd =>
      (hrest r hr d hd).outerState
    refine ⟨s', (PyM.bind_run_ok hround).trans hrun, fun k param i hparam hi e he => ?_⟩
    have helement := @elementOf_stream F _ outerLr beta num rnd s deltas k param i hparam hi
    obtain ⟨param', hparam', hshape⟩ := @get?_outerState F _ outerLr beta s
      (deltas.map (rebuilt s.trunk num rnd)) k param (roundMasks s.trunk num rnd).get? hparam
    have hi' : i < param'.shape.prod := by
      rw [hshape]
      exact hi
    have hturn : fragmentSel num rnd i = decide (rnd % (num : ℤ) = (i : ℤ) % (num : ℤ)) := by
      rw [fragmentSel]
      exact decide_eq_decide.mpr eq_comm
    unfold elementRounds
    by_cases hsel : rnd % (num : ℤ) = (i : ℤ) % (num : ℤ)
    · -- the element's own fragment
      rw [hturn, decide_eq_true hsel, if_pos rfl] at helement
      have hdeltas : ∀ d ∈ deltas, ∃ t, d.get? k = some t := by
        intro d hd
        obtain ⟨t, ht, -⟩ := hfirst d hd k param hparam
        exact ⟨t, ht⟩
      obtain ⟨e₁, hstep, he₁⟩ := he.step hdeltas helement
      obtain ⟨e', hrun', hsame⟩ := helements k param' i hparam' hi' e₁ he₁
      refine ⟨e', ?_, hsame⟩
      rw [List.filter_cons_of_pos (by exact decide_eq_true hsel), List.map_cons]
      exact (PyM.bind_run_ok hstep).trans hrun'
    · -- another fragment: the element stays
      rw [hturn, decide_eq_false hsel, if_neg Bool.false_ne_true] at helement
      rw [List.filter_cons_of_neg (by rw [decide_eq_false hsel]; exact Bool.false_ne_true)]
      exact helements k param' i hparam' hi' e ⟨he.scalar, he.same.trans helement.symm, he.shaped⟩

/-! ## Coverage -/

/-- In `num` rounds in a row every residue has its turn once. -/
theorem existsUnique_turn (hnum : 1 ≤ num) (i : ℕ) (first : ℤ) :
    ∃! r, (first ≤ r ∧ r < first + num) ∧ fragmentSel num r i = true := by
  have hpos : (0 : ℤ) < num := by omega
  refine ⟨first + ((i : ℤ) - first) % num, ⟨⟨?_, ?_⟩, ?_⟩, ?_⟩
  · have := Int.emod_nonneg ((i : ℤ) - first) hpos.ne'
    omega
  · have := Int.emod_lt_of_pos ((i : ℤ) - first) hpos
    omega
  · rw [fragmentSel, decide_eq_true_iff, Int.add_emod_emod]
    congr 1
    omega
  · rintro r ⟨⟨hle, hlt⟩, hsel⟩
    rw [fragmentSel, decide_eq_true_iff] at hsel
    have hdiff : ((i : ℤ) - first) % num = (r - first) % num := Int.ModEq.sub_right first hsel
    have hsmall : (r - first) % (num : ℤ) = r - first := Int.emod_eq_of_lt (by omega) (by omega)
    rw [hdiff, hsmall]
    omega

/-- **Staggered coverage.** Every element has its turn once in `num` rounds in a row; what is cut
and scattered back is the delta on the fragment and zero elsewhere; and after a run an element is
where the outer step over the rounds of its fragment leads it alone. -/
theorem streaming_coverage (outerLr beta : F) (num : ℕ) (hnum : 1 ≤ num) (s : OuterState F)
    (hshaped : Shaped s) (rounds : List (StreamRound F))
    (hcarries : ∀ r ∈ rounds, ∀ d ∈ r.2, CarriesAll s.trunk d) :
    (∀ k param i, s.trunk.get? k = some param → i < param.shape.prod → ∀ first : ℤ,
      ∃! r, (first ≤ r ∧ r < first + num) ∧
        selectedAt ((roundMasks s.trunk num r).get? k) i = true) ∧
    (∀ d rnd, Conforms s.trunk d → ∃ full,
      reconstructTrunkFragment (published num rnd d) (trunkShapes s.trunk) num (rnd % (num : ℤ))
        = .ok full ∧
      ∀ k param t, s.trunk.get? k = some param → d.get? k = some t → ∃ u, full.get? k = some u ∧
        u.shape = param.shape ∧ ∀ i < param.shape.prod,
          u.get i = if selectedAt ((roundMasks s.trunk num rnd).get? k) i then t.get i else 0) ∧
    ∃ s', streamRun outerLr beta num rounds s = .ok () s' ∧
      ∀ k param i, s.trunk.get? k = some param → i < param.shape.prod →
        ∃ e', outerRun outerLr beta (elementRounds num k i rounds) (elementState s k i) = .ok () e' ∧
          elementOf e' k 0 = elementOf s' k i := by
  have hselected : ∀ k param i rnd, s.trunk.get? k = some param → i < param.shape.prod →
      selectedAt ((roundMasks s.trunk num rnd).get? k) i = fragmentSel num rnd i := by
    intro k param i rnd hparam hi
    rw [get?_roundMasks, hparam]
    exact Tensor.get_ofFn hi _
  refine ⟨fun k param i hparam hi first => ?_, fun d rnd hd => ?_, ?_⟩
  · simp only [hselected k param i _ hparam hi]
    exact existsUnique_turn hnum i first
  · refine ⟨rebuilt s.trunk num rnd d, reconstruct_published hd, fun k param t hparam ht => ?_⟩
    refine ⟨.ofFn param.shape fun i => if fragmentSel num rnd i then elementAt d k i else 0,
      ?_, rfl, fun i hi => ?_⟩
    · rw [get?_rebuilt, hparam]
      rfl
    · rw [Tensor.get_ofFn hi, hselected k param i rnd hparam hi, elementAt, ht]
  · obtain ⟨s', hrun, helements⟩ := streamRun_element hshaped hcarries
    exact ⟨s', hrun, fun k param i hparam hi =>
      helements k param i hparam hi _ (alone_elementState hparam i)⟩

/-- A trunk of one key, three elements. -/
def smallTrunk : Params ℚ := Dict.ofList [("w", .ofFn [3] fun i => (i : ℚ) + 1)]

theorem streaming_coverage_small :
    ∃ s', streamRun (7 / 10) (9 / 10) 2 [(0, [smallTrunk]), (1, [smallTrunk, smallTrunk])]
        ⟨smallTrunk, ∅⟩ = .ok () s' ∧
      ∃ e', outerRun (7 / 10) (9 / 10)
          (elementRounds 2 "w" 2 [(0, [smallTrunk]), (1, [smallTrunk, smallTrunk])])
          (elementState ⟨smallTrunk, ∅⟩ "w" 2) = .ok () e' ∧
        elementOf e' "w" 0 = elementOf s' "w" 2 := by
  have hcarries : ∀ r ∈ ([(0, [smallTrunk]), (1, [smallTrunk, smallTrunk])] :
      List (StreamRound ℚ)), ∀ d ∈ r.2, CarriesAll smallTrunk d := by
    intro r hr d hd k p hp
    simp only [List.mem_cons, List.not_mem_nil, or_false] at hr
    obtain rfl | rfl := hr <;>
      exact ⟨p, by rw [show d = smallTrunk by simpa using hd]; exact hp, rfl⟩
  obtain ⟨-, -, s', hrun, helements⟩ := streaming_coverage (7 / 10) (9 / 10) 2 (by decide)
    ⟨smallTrunk, ∅⟩ (fun k p m _ hm => nomatch hm) _ hcarries
  exact ⟨s', hrun, helements "w" (.ofFn [3] fun i => (i : ℚ) + 1) 2 rfl (by decide)⟩

end NeuraHash
