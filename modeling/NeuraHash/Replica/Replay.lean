import NeuraHash.Replica.Fold

/-!
# The replica replays the coordinator's merges

The coordinator merges a delta through `apply_delta_gated`, which steps the keys that match; a miner
folds it through `apply_accepted`, which asks for every key of the slot. On a delta that fits the
slot the two agree (`stepKeys_eq_foldParams`), and so do the coordinator that merges a list of such
deltas and the replica that folds the rows it published (`replay_merges`).
-/

namespace NeuraHash

open Py

/-! ## One delta -/

section Delta

variable {outer : PyFloat} {cur d : Params PyFloat}

theorem get?_of_fits (hfits : fits cur d = true) {k : String} {t : Tensor PyFloat}
    (ht : cur.get? k = some t) : ∃ x, d.get? k = some x ∧ x.shape = t.shape := by
  have h := List.all_eq_true.mp hfits (k, t) (Dict.mem_entries_iff.mpr ht)
  dsimp only at h
  split at h
  · next x hx => exact ⟨x, hx, of_decide_eq_true h⟩
  · cases h

/-- Every key of the slot matches. -/
theorem matchedKeys_of_fits (hfits : fits cur d = true) : matchedKeys cur d = cur.keys := by
  refine List.filter_eq_self.mpr fun k hk => ?_
  obtain ⟨t, ht⟩ := Dict.mem_keys_iff.mp hk
  obtain ⟨x, hx, hshape⟩ := get?_of_fits hfits ht
  rw [ht, hx]
  exact decide_eq_true hshape.symm

/-- Setting every key of a dictionary is a comprehension over it. -/
theorem foldl_set_keys {α β : Type} [DecidableEq α] (d : Dict α β) (f : α → β) :
    d.keys.foldl (fun m k => m.set k (f k)) d = d.mapWithKey fun k _ => f k := by
  have hkeys : ∀ (ks : List α) (m : Dict α β), (∀ k ∈ ks, k ∈ d.keys) → m.keys = d.keys →
      (ks.foldl (fun m k => m.set k (f k)) m).keys = d.keys := by
    intro ks
    induction ks with
    | nil => exact fun m _ hm => hm
    | cons k ks ih =>
      intro m hks hm
      refine ih _ (fun k' hk' => hks k' (List.mem_cons_of_mem _ hk')) ?_
      rw [Dict.keys_set, hm, if_pos (hks k (List.mem_cons_self ..))]
  have hget : ∀ (ks : List α) (m : Dict α β) (k : α),
      (ks.foldl (fun m k => m.set k (f k)) m).get? k
        = if k ∈ ks then some (f k) else m.get? k := by
    intro ks
    induction ks with
    | nil => exact fun m k => rfl
    | cons k' ks ih =>
      intro m k
      rw [List.foldl_cons, ih, Dict.get?_set]
      by_cases hk : k' = k
      · simp [hk]
      · simp [hk, Ne.symm hk]
  refine Dict.ext_get? ?_ fun k => ?_
  · rw [hkeys d.keys d (fun k hk => hk) rfl, Dict.keys_mapWithKey]
  · rw [hget, Dict.get?_mapWithKey]
    split
    · next hk =>
      obtain ⟨b, hb⟩ := Dict.mem_keys_iff.mp hk
      rw [hb]
      rfl
    · next hk =>
      rw [Dict.get?_eq_none_iff.mpr hk]
      rfl

/-- **The coordinator's merge is the replica's**, of a delta that fits. -/
theorem stepKeys_eq_foldParams (hfits : fits cur d = true) :
    stepKeys outer cur d (matchedKeys cur d) = foldParams outer cur d := by
  let stepped : String → Tensor PyFloat := fun k =>
    ((foldParams outer cur d).get? k).getD (.ofFn [] fun _ => 0)
  have hstepped : ∀ k t x, cur.get? k = some t → d.get? k = some x →
      stepped k = stepTensor outer t x := by
    intro k t x ht hx
    show ((foldParams outer cur d).get? k).getD _ = _
    unfold foldParams
    rw [Dict.get?_mapWithKey, ht]
    simp [hx]
  have hsteps : stepKeys outer cur d cur.keys
      = cur.keys.foldl (fun m k => m.set k (stepped k)) cur := by
    refine List.foldl_ext _ _ _ fun merged k hk => ?_
    obtain ⟨t, ht⟩ := Dict.mem_keys_iff.mp hk
    obtain ⟨x, hx, -⟩ := get?_of_fits hfits ht
    rw [hstepped k t x ht hx, ht, hx]
  rw [matchedKeys_of_fits hfits, hsteps, foldl_set_keys]
  refine Dict.mapWithKey_congr fun k t ht => ?_
  obtain ⟨x, hx, -⟩ := get?_of_fits hfits ht
  rw [hstepped k t x ht hx, hx]

/-- What the coordinator keeps of an accepted delta that fits. -/
theorem gate_of_fits {np : Numpy PyFloat} {evalFn : Params PyFloat → PyFloat} {margin : PyFloat}
    (hfits : fits cur d = true)
    (haccept : (gate np cur d evalFn outer margin true).1.accepted = true) :
    (gate np cur d evalFn outer margin true).2 = foldParams outer cur d := by
  by_cases hkeys : matchedKeys cur d = []
  · rw [gate_of_nil hkeys] at haccept
    cases haccept
  · rw [gate_of_ne_nil hkeys] at haccept ⊢
    dsimp only at haccept ⊢
    rw [haccept, stepKeys_eq_foldParams hfits]
    rfl

end Delta

/-! ## Rows -/

section Rows

variable {host : LaneHost} {ω : Type} {E : MinerEnv} {bounded : BoundedLane ω} {np : Numpy PyFloat}

/-- A merge: the coordinate, the strength, and the delta. -/
abbrev Merge := Coord × PyFloat × Params PyFloat

/-- The coordinator accepts deltas that fit, one after the other, and writes each merged state
back; an exact dtype keeps it as it is (`Dtype.store_exact`). -/
inductive Merges (np : Numpy PyFloat) : Weights host → List Merge → Weights host → Prop where
  | nil (experts : Weights host) : Merges np experts [] experts
  | cons {experts experts' : Weights host} {c : Coord} {outer margin : PyFloat}
      {d : Params PyFloat} {evalFn : Params PyFloat → PyFloat} {merges : List Merge}
      (hfits : fits (experts c).params d = true)
      (haccept : (gate np (experts c).params d evalFn outer margin true).1.accepted = true)
      (hrest : Merges np (Function.update experts c
        (.of host.dtype (gate np (experts c).params d evalFn outer margin true).2)) merges
        experts') :
      Merges np experts ((c, outer, d) :: merges) experts'

/-- The rows of merges: each is placed at its coordinate, and the lane has its delta. -/
inductive Served (E : MinerEnv) (host : LaneHost) (bounded : BoundedLane ω) :
    List Json → List Merge → ω → ω → Prop where
  | nil (world : ω) : Served E host bounded [] [] world world
  | cons {item : Json} {items : List Json} {slot : ℕ} {outer : PyFloat} {d : Params PyFloat}
      {merges : List Merge} {world world' world'' : ω}
      (hplaced : Placed E.toPyText host item slot)
      (hdelta : rowDelta E bounded item world = .ok (outer, d) world')
      (hrest : Served E host bounded items merges world' world'') :
      Served E host bounded (item :: items) ((host.coordAt slot, outer, d) :: merges) world world''

/-- Two hosts hold the same weights at every slot. -/
def SameSlots (w w' : Weights host) : Prop :=
  ∀ slot < host.slots.length, w (host.coordAt slot) = w' (host.coordAt slot)

variable {item : Json} {slot : ℕ} {outer : PyFloat} {d : Params PyFloat} {world world' : ω}

theorem foldRow_served (hplaced : Placed E.toPyText host item slot)
    (hdelta : rowDelta E bounded item world = .ok (outer, d) world') (w : Weights host) :
    foldRow E bounded (.plain host) (noRegate host) item (w, world)
      = if fits (host.readSlot w slot) d then
          .ok (.folded slot) (host.writeSlot w slot (foldParams outer (host.readSlot w slot) d),
            world')
        else .ok .shapeMismatch (w, world') := by
  unfold foldRow
  rw [show resolveAcceptedSlot E.toPyText host item = .ok (some slot) from hplaced,
    PyM.bind_run_ok (PyM.ofExcept_ok _ _)]
  dsimp only
  rw [PyM.bind_run, onLane_run, hdelta]
  dsimp only
  rw [PyM.bind_run_ok (PyM.get_run _)]
  by_cases hfits : fits (host.readSlot w slot) d = true
  · rw [if_pos hfits]
    exact congrFun (if_pos hfits) (w, world')
  · rw [if_neg hfits]
    exact congrFun (if_neg hfits) (w, world')

/-- The rows of merges are folded, and leave what the coordinator has. -/
theorem loop_served {items : List Json} {merges : List Merge}
    (hserved : Served E host bounded items merges world world') {experts experts' : Weights host}
    (hmerges : Merges np experts merges experts') {w : Weights host} (hsame : SameSlots w experts)
    (before : Applied) :
    ∃ applied w', PyM.loop (rowTurn E bounded (.plain host) (noRegate host)) items before (w, world)
        = .ok (.next (before ++ applied)) (w', world')
      ∧ applied.rejected = [] ∧ applied.n = items.length ∧ SameSlots w' experts' := by
  induction hserved generalizing experts w before with
  | nil world =>
    cases hmerges
    exact ⟨[], w, by rw [List.append_nil]; rfl, rfl, rfl, hsame⟩
  | @cons item items slot outer d merges world world₁ world₂ hplaced hdelta hrest ih =>
    cases hmerges with
    | @cons _ _ _ _ margin _ evalFn _ hfits haccept hmerges =>
      have hread : host.readSlot w slot = (experts (host.coordAt slot)).params :=
        congrArg SlotState.params (hsame slot (placed_lt hplaced))
      have hrow := @foldRow_served host ω E bounded item slot outer d world world₁ hplaced hdelta w
      rw [hread, if_pos hfits] at hrow
      rw [gate_of_fits hfits haccept] at hmerges
      -- both sides now hold the same new state
      have hsame' : SameSlots
          (host.writeSlot w slot (foldParams outer (experts (host.coordAt slot)).params d))
          (Function.update experts (host.coordAt slot)
            (.of host.dtype (foldParams outer (experts (host.coordAt slot)).params d))) := by
        intro slot' hslot'
        unfold LaneHost.writeSlot
        by_cases hc : host.coordAt slot' = host.coordAt slot
        · rw [hc, Function.update_self, Function.update_self]
        · rw [Function.update_of_ne hc, Function.update_of_ne hc]
          exact hsame slot' hslot'
      obtain ⟨applied, w', hrun, hrejected, hn, hsame''⟩ :=
        ih hmerges hsame' (before ++ [(item, .folded slot)])
      have hturn := @rowTurn_run host (Weights host) ω E bounded (.plain host) (noRegate host)
        before item (w, world)
      rw [hrow] at hturn
      refine ⟨(item, .folded slot) :: applied, w', ?_, hrejected, ?_, hsame''⟩
      · rw [PyM.loop_cons_next hturn, hrun, List.append_assoc]
        rfl
      · show Applied.n ((item, .folded slot) :: applied) = items.length + 1
        rw [← hn]
        exact List.countP_cons_of_pos rfl

/-- **The replica replays the coordinator**: rows of accepted deltas that fit leave the
coordinator's slots, and nothing is rejected. A row whose delta does not fit leaves the host. -/
theorem replay_merges {record : Json} {items : List Json} {merges : List Merge}
    {experts w : Weights host} (hrows : acceptedRows record = .ok items)
    (hserved : Served E host bounded items merges world world') (hsame : SameSlots w experts) :
    (∀ experts', Merges np experts merges experts' →
      ∃ applied w', applyAccepted E bounded (.plain host) (noRegate host) record (w, world)
          = .ok applied (w', world')
        ∧ applied.rejected = [] ∧ applied.n = items.length ∧ SameSlots w' experts')
    ∧ ∀ c outer d, merges = [(c, outer, d)] → fits (experts c).params d = false →
      ∃ item, items = [item]
        ∧ applyAccepted E bounded (.plain host) (noRegate host) record (w, world)
          = .ok [(item, .shapeMismatch)] (w, world') := by
  unfold applyAccepted
  rw [hrows, PyM.bind_run_ok (PyM.ofExcept_ok _ _)]
  constructor
  · intro experts' hmerges
    obtain ⟨applied, w', hrun, hrejected, hn, hsame'⟩ := loop_served hserved hmerges hsame []
    refine ⟨applied, w', ?_, hrejected, hn, hsame'⟩
    rw [PyM.bind_run_ok hrun, List.nil_append]
    rfl
  · rintro c outer d rfl hfits
    cases hserved with
    | @cons item items slot _ _ _ _ world₁ _ hplaced hdelta hrest =>
      cases hrest
      have hread : host.readSlot w slot = (experts (host.coordAt slot)).params :=
        congrArg SlotState.params (hsame slot (placed_lt hplaced))
      have hrow := @foldRow_served host ω E bounded item slot outer d world world' hplaced hdelta w
      rw [hread, hfits] at hrow
      have hturn := @rowTurn_run host (Weights host) ω E bounded (.plain host) (noRegate host)
        [] item (w, world)
      rw [hrow] at hturn
      refine ⟨item, rfl, ?_⟩
      rw [PyM.bind_run, PyM.loop_cons_next hturn]
      rfl

end Rows

/-! ## Runs on a small lane -/

section Small

/-- A loss that falls with the weight. -/
def weightLoss (d : Params PyFloat) : PyFloat :=
  match d.get? "w" with
  | some t => (t.get 0).neg
  | none => 0

def smallHost (dtype : Dtype) : LaneHost := ⟨[(1, 0)], none, dtype, false⟩

def recordOf (rows : List Json) : Json := .obj [("accepted", .arr rows)]

theorem replay_merges_oneRow : ∃ applied w',
    applyAccepted .ideal (oneDelta ∅ []) (.plain (smallHost .exact)) (noRegate _)
        (recordOf [deltaRow 0 1]) (zeroWeights _) = .ok applied (w', ())
      ∧ applied.rejected = [] ∧ applied.n = 1
      ∧ SameSlots w' (Function.update (zeroWeights (smallHost .exact)).1 (1, 0)
        (.of _ (gate exactNumpy (oneWeight 0) (oneWeight 1) weightLoss (.fin 1) 0 true).2)) := by
  have hserved : Served .ideal (smallHost .exact) (oneDelta ∅ []) [deltaRow 0 1]
      [((1, 0), .fin 1, oneWeight 1)] () () :=
    .cons (show Placed _ _ _ 0 by rfl) (by rfl) (.nil ())
  have hmerges : Merges exactNumpy (zeroWeights (smallHost .exact)).1
      [((1, 0), .fin 1, oneWeight 1)] (Function.update (zeroWeights (smallHost .exact)).1 (1, 0)
        (.of _ (gate exactNumpy (oneWeight 0) (oneWeight 1) weightLoss (.fin 1) 0 true).2)) :=
    .cons (by decide +kernel) (by decide +kernel) (.nil _)
  exact (replay_merges rfl hserved (fun _ _ => rfl)).1 _ hmerges

/-- A dtype that stores whole numbers. -/
def wholeDtype : Dtype where
  cast
    | .fin q => .fin ⌊q⌋
    | x => x
  cast_cast x := by
    cases x with
    | fin q => simp
    | _ => rfl

/-- The replica leaves the merged state of every accepted delta. -/
def ReplaysOne (E : MinerEnv) (host : LaneHost) (bounded : BoundedLane Unit) : Prop :=
  ∀ (record item : Json) (slot : ℕ) (outer margin : PyFloat) (d : Params PyFloat)
    (evalFn : Params PyFloat → PyFloat) (w : Weights host),
    acceptedRows record = .ok [item] → Placed E.toPyText host item slot →
    rowDelta E bounded item () = .ok (outer, d) () →
    (gate E.np (host.readSlot w slot) d evalFn outer margin true).1.accepted = true →
    ∃ applied w', applyAccepted E bounded (.plain host) (noRegate host) record (w, ())
        = .ok applied (w', ())
      ∧ applied.rejected = []
      ∧ host.readSlot w' slot
        = host.dtype.store (gate E.np (host.readSlot w slot) d evalFn outer margin true).2

/-- The same of a delta accepted twice in one round, which merges in place. -/
def ReplaysTwice (E : MinerEnv) (host : LaneHost) (bounded : BoundedLane Unit) : Prop :=
  ∀ (record item : Json) (slot : ℕ) (outer margin : PyFloat) (d merged : Params PyFloat)
    (evalFn : Params PyFloat → PyFloat) (w : Weights host),
    acceptedRows record = .ok [item, item] → Placed E.toPyText host item slot →
    rowDelta E bounded item () = .ok (outer, d) () → fits (host.readSlot w slot) d = true →
    (gate E.np (host.readSlot w slot) d evalFn outer margin true).1.accepted = true →
    (gate E.np (host.readSlot w slot) d evalFn outer margin true).2 = merged →
    (gate E.np merged d evalFn outer margin true).1.accepted = true →
    ∃ applied w', applyAccepted E bounded (.plain host) (noRegate host) record (w, ())
        = .ok applied (w', ())
      ∧ host.readSlot w' slot = host.dtype.store (gate E.np merged d evalFn outer margin true).2

def smallEnv : MinerEnv := { MinerEnv.ideal with np := exactNumpy }

def smallWeights (dtype : Dtype) (d : Params PyFloat) : Weights (smallHost dtype) :=
  fun _ => .of dtype d

/-- The number of rejected rows, and the weight after the rows. -/
def runRows (dtype : Dtype) (d : Params PyFloat) (rows : List Json) :
    Option (ℕ × Option (List PyFloat)) :=
  match applyAccepted smallEnv (oneDelta ∅ []) (.plain (smallHost dtype)) (noRegate _)
      (recordOf rows) (smallWeights dtype d, ()) with
  | .ok applied s' =>
    some (applied.rejected.length, ((s'.1 (1, 0)).params.get? "w").map Tensor.data)
  | .error _ _ => none

def twoKeys : Params PyFloat := (oneWeight 0).set "v" ⟨[1], [0], rfl⟩

/-- **The coordinator merges a delta that has some keys of the slot, and the replica rejects it;
and two deltas of one round end differently where the dtype rounds.** -/
theorem replay_diverges :
    (¬ ∀ E host bounded, ReplaysOne E host bounded)
      ∧ ¬ ∀ E host bounded, ReplaysTwice E host bounded := by
  constructor
  · intro h
    obtain ⟨applied, w', hrun, hrejected, -⟩ := h smallEnv (smallHost .exact) (oneDelta ∅ [])
      (recordOf [deltaRow 0 1]) (deltaRow 0 1) 0 (.fin 1) 0 (oneWeight 1) weightLoss
      (smallWeights .exact twoKeys) rfl rfl rfl (by decide +kernel)
    have hrows : (runRows .exact twoKeys [deltaRow 0 1]).map Prod.fst = some 1 := by
      decide +kernel
    unfold runRows at hrows
    rw [hrun] at hrows
    dsimp only [Option.map_some] at hrows
    rw [hrejected] at hrows
    cases hrows
  · intro h
    -- a half is stored as zero each time, where the coordinator adds the halves up
    obtain ⟨applied, w', hrun, hread⟩ := h smallEnv (smallHost wholeDtype) (oneDelta ∅ [])
      (recordOf [deltaRow 0 (1 / 2), deltaRow 0 (1 / 2)]) (deltaRow 0 (1 / 2)) 0 (.fin (1 / 2)) 0
      (oneWeight 1) _ weightLoss (smallWeights wholeDtype (oneWeight 0)) rfl rfl rfl
      (by decide +kernel) (by decide +kernel) rfl (by decide +kernel)
    have hrows : (runRows wholeDtype (oneWeight 0)
        [deltaRow 0 (1 / 2), deltaRow 0 (1 / 2)]).map Prod.snd = some (some [.fin 0]) := by
      decide +kernel
    unfold runRows at hrows
    rw [hrun] at hrows
    have hweight : (((smallHost wholeDtype).readSlot w' 0).get? "w").map Tensor.data
        = some [.fin 0] :=
      Option.some.inj hrows
    rw [hread] at hweight
    exact absurd hweight (by decide +kernel)

end Small

end NeuraHash
