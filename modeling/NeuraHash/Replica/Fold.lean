import NeuraHash.Replica.Lane

/-!
# Folding an accepted record (`apply_accepted`, `_fold_accepted_checked`, `replica_root_ok`)

An accepted record lists rows; a row names a slot and a delta, and folding it adds the delta times
its strength to the slot. The miner's own rows may be judged by a held-out loss first and taken back
(`foldRow`). `foldAcceptedChecked` folds a record on a copy-on-write view of the host, compares the
roots the record advertises, and rolls back what does not match or raises.

`foldRow_cases` lists what a row comes to. `applyAccepted_writes` and `applyAccepted_folded` say
which slots a record can write to; the results on checked folds (`Replica.Checked`) rest on these.
-/

namespace NeuraHash

open Py Systems

/-! ## The delta of a row -/

/-- `is_lora_payload`. -/
def isLoraPayload (d : Params PyFloat) : Bool := d.size ≠ 0 && d.contains "lora_B_gu"

/-- `d[k]` of a dictionary of arrays. -/
def Params.item (d : Params PyFloat) (k : String) : Except PyErr (Tensor PyFloat) :=
  match d.get? k with
  | some t => .ok t
  | none => .error .keyError

/-- The elements of one index of the first axis. -/
def rowSize (t : Tensor PyFloat) : ℕ := t.shape.tail.prod

/-- `t[i:j]` along the first axis, for `i ≤ j` within it. -/
def sliceRows (t : Tensor PyFloat) (i j : ℕ) : Tensor PyFloat :=
  .ofFn ((j - i) :: t.shape.tail) fun n => t.get (i * rowSize t + n)

/-- `materialize_from_lora`. -/
def materializeFromLora (E : MinerEnv) (payload : Params PyFloat) :
    Except PyErr (Params PyFloat) := do
  let sc ← match (← Params.item payload "lora_scale").data with
    | [] => .error (.raised "IndexError")
    | sc :: _ => .ok sc
  let gu := (← E.matmul (← Params.item payload "lora_B_gu") (← Params.item payload "lora_A_gu")).map
    (sc * ·)
  let dn := (← E.matmul (← Params.item payload "lora_B_d") (← Params.item payload "lora_A_d")).map
    (sc * ·)
  match gu.shape with
  | [] => .error (.raised "IndexError")
  | rows :: _ =>
    return .ofList [("gate", (sliceRows gu 0 (rows / 2)).map E.np.float32),
      ("up", (sliceRows gu (rows / 2) rows).map E.np.float32), ("down", dn.map E.np.float32)]

/-- The dense delta of what the lane has under a row's cid. -/
def denseDelta (E : MinerEnv) (d : Params PyFloat) : Except PyErr (Params PyFloat) :=
  if isLoraPayload d then materializeFromLora E d else .ok d

/-- `all(k in d and np.shape(d[k]) == np.shape(cur[k]) for k in cur)`. -/
def fits (cur d : Params PyFloat) : Bool :=
  cur.entries.all fun e => match d.get? e.1 with
    | some t => t.shape = e.2.shape
    | none => false

/-- `{k: cur[k] + outer * d[k] for k in cur}`, of a delta that fits. -/
def foldParams (outer : PyFloat) (cur d : Params PyFloat) : Params PyFloat :=
  cur.mapWithKey fun k t => match d.get? k with
    | some x => stepTensor outer t x
    | none => t

/-! ## Rows -/

/-- The local re-gate: none, one that a trunk-free base cannot run, or the held-out loss of the
weights. -/
inductive RegateCe (host : LaneHost) (ω : Type) where
  | off
  | unavailable
  | loss (ce : Weights host → PyM ω PyFloat)

structure Regate (host : LaneHost) (ω : Type) where
  ce : RegateCe host ω
  tol : Option PyFloat
  ownSlot : Option ℤ

/-- `_resolve_accepted_slot(host, item)`. -/
def resolveAcceptedSlot (T : PyText) (host : LaneHost) (item : Json) :
    Except PyErr (Option ℕ) :=
  let layer := (item.get? "layer").getD .null
  let expert := (item.get? "glm_expert").getD .null
  if !item.isObj then .error .attributeError
  else if layer.notNone && expert.notNone then
    match (do return (← layer.toInt T, ← expert.toInt T) : Except PyErr Coord) with
    | .ok c => .ok (indexOf host.slots c)
    | .error .typeError => .ok none
    | .error .valueError => .ok none
    | .error e => .error e
  else
    match (do (← item.item "slot").toInt T : Except PyErr ℤ) with
    | .ok idx => .ok (if 0 ≤ idx ∧ idx < host.slots.length then some idx.toNat else none)
    | .error .keyError => .ok none
    | .error .typeError => .ok none
    | .error .valueError => .ok none
    | .error e => .error e

/-- What became of a row. -/
inductive RowOutcome where
  | skipped
  | shapeMismatch
  | regateTripped (baseCe newCe : PyFloat)
  | folded (slot : ℕ)
  deriving DecidableEq

section Fold

variable {host : LaneHost} {σ ω : Type} (E : MinerEnv) (bounded : BoundedLane ω)
  (view : HostView host σ) (regate : Regate host ω)

/-- Code on the lane. -/
def onLane {α : Type} (x : PyM ω α) : PyM (σ × ω) α :=
  PyM.zoom Prod.snd (fun world s => (s.1, world)) x

/-- The loss a row is judged by: the own slot's, or every slot's where no slot is assigned. -/
def Regate.lossFor (slot : ℕ) : Option (Weights host → PyM ω PyFloat) :=
  match regate.ce with
  | .loss ce => if regate.ownSlot.elim true (slot = ·) then some ce else none
  | _ => none

/-- The loss a delta may add. -/
def Regate.allowed (baseCe : PyFloat) : PyFloat :=
  regate.tol.getD (FloatOps.max (.fin 0.05 * baseCe.abs) (.fin 0.05))

/-- Fold a delta that fits, and take it back when it raises the loss by more than is allowed. -/
def foldDelta (slot : ℕ) (outer : PyFloat) (d : Params PyFloat) : PyM (σ × ω) RowOutcome := do
  let cur := host.readSlot (view.weights (← get).1) slot
  match regate.lossFor slot with
  | none =>
    modify fun s => (view.writeSlot slot (foldParams outer cur d) s.1, s.2)
    return .folded slot
  | some ce =>
    let baseCe ← onLane (ce (view.weights (← get).1))
    modify fun s => (view.writeSlot slot (foldParams outer cur d) s.1, s.2)
    let newCe ← onLane (ce (view.weights (← get).1))
    if FloatOps.lt (baseCe + regate.allowed baseCe) newCe then
      -- views of the weights show what was just written
      modify fun s =>
        (view.writeSlot slot
          (if host.aliases then host.readSlot (view.weights s.1) slot else cur) s.1, s.2)
      return .regateTripped baseCe newCe
    return .folded slot

/-- The delta of a row: its strength, and the arrays the lane has for it. -/
def rowDelta (item : Json) : PyM ω (PyFloat × Params PyFloat) := do
  let outer ← PyM.ofExcept
    (((item.get? "outer").getD (.float (.fin 0.7))).toFloat E.toPyText)
  let cid ← PyM.ofExcept (item.item "cid")
  let d ← bounded.getDelta cid
  let d ← PyM.ofExcept (denseDelta E d)
  return (outer, d)

/-- A row of `apply_accepted`. -/
def foldRow (item : Json) : PyM (σ × ω) RowOutcome := do
  match ← PyM.ofExcept (resolveAcceptedSlot E.toPyText host item) with
  | none => return .skipped
  | some slot =>
    let (outer, d) ← onLane (rowDelta E bounded item)
    if fits (host.readSlot (view.weights (← get).1) slot) d then
      foldDelta view regate slot outer d
    else
      return .shapeMismatch

/-! ## Records -/

/-- `record.get("accepted", [])`, to be iterated over. -/
def acceptedRows (record : Json) : Except PyErr (List Json) :=
  if record.isObj then ((record.get? "accepted").getD (.arr [])).toList
  else .error .attributeError

/-- The rows of a record, with what became of them. -/
abbrev Applied := List (Json × RowOutcome)

namespace Applied

/-- The number of rows folded, which the source returns. -/
def n (applied : Applied) : ℕ :=
  applied.countP fun row => match row.2 with
    | .folded _ => true
    | _ => false

/-- `folded_slots`. -/
def foldedSlots (applied : Applied) : List ℕ :=
  applied.filterMap fun row => match row.2 with
    | .folded slot => some slot
    | _ => none

/-- `dict(item, **fields)`. -/
def withFields (item : Json) (fields : List (String × Json)) : Json :=
  match item with
  | .obj kvs => .obj (kvs ++ fields)
  | _ => .obj fields

/-- `rejected`. -/
def rejected (applied : Applied) : List Json :=
  applied.filterMap fun row => match row.2 with
    | .shapeMismatch => some (withFields row.1 [("reason", .str "shape-mismatch")])
    | .regateTripped baseCe newCe =>
      some (withFields row.1 [("base_ce", .float baseCe), ("new_ce", .float newCe)])
    | _ => none

/-- `skipped`. -/
def skipped (applied : Applied) : List Json :=
  applied.filterMap fun row => match row.2 with
    | .skipped => some (withFields row.1 [("reason", .str "unknown-coordinate")])
    | _ => none

end Applied

/-- A turn of the loop over the rows. -/
def rowTurn (applied : Applied) (item : Json) : PyM (σ × ω) (PyM.Turn Applied Empty) := do
  let outcome ← foldRow E bounded view regate item
  return .next (applied ++ [(item, outcome)])

/-- `apply_accepted(host, lane, record, …)`. -/
def applyAccepted (record : Json) : PyM (σ × ω) Applied := do
  let rows ← PyM.ofExcept (acceptedRows record)
  match ← PyM.loop (rowTurn E bounded view regate) rows [] with
  | .next applied => return applied

/-- The coordinate of a `slot_roots` key: `int(L), int(E)` of `"L_E"`. -/
def advertisedCoord (T : PyText) (key : String) : Option Coord :=
  let (L, rest) := key.toList.span (· ≠ '_')
  match T.parseInt (String.ofList L), T.parseInt (String.ofList (rest.drop 1)) with
  | some layer, some expert => some (layer, expert)
  | _, _ => none

/-- The non-empty `slot_roots` of a record. -/
def slotRoots (record : Json) : Option (Dict String Json) :=
  match record.get? "slot_roots" with
  | some (.obj (kv :: kvs)) => some (Json.dictOf (kv :: kvs))
  | _ => none

/-- The resident slots a record advertises, with the root of each. -/
def advertised (T : PyText) (host : LaneHost) (sr : Dict String Json) : Dict ℕ Json :=
  sr.entries.foldl (fun adv e => match (advertisedCoord T e.1).bind (indexOf host.slots) with
    | some idx => adv.set idx e.2
    | none => adv) ∅

/-- `replica_root_ok(host, rec, folded)`. -/
def replicaRootOk (w : Weights host) (record : Json) (folded : List ℕ) : Bool :=
  match slotRoots record with
  | some sr =>
    let adv := advertised E.toPyText host sr
    adv.entries.all (fun e => slotRoot E w e.1 = e.2.toStr E.toPyText)
      && folded.all fun idx => adv.contains idx
  | none =>
    let want := (record.get? "model_root").getD .null
    !want.notNone || modelRoot E w = want.toStr E.toPyText

/-- What `_fold_accepted_checked` returns. -/
inductive FoldVerdict where
  | ok
  | poison (rejected : List Json)
  | lineage

/-- `_fold_accepted_checked(host, lane, rec, regate_ce, own_slot)`. -/
def foldAcceptedChecked (record : Json) : PyM (Weights host × ω) FoldVerdict := fun s =>
  match applyAccepted E bounded (.cow host) regate record (Journal.start s.1, s.2) with
  | .error e (cow, world) => .error e (cow.rollback host.coordAt, world)
  | .ok applied (cow, world) =>
    if applied.rejected ≠ [] then
      .ok (.poison applied.rejected) (cow.store, world)
    else if replicaRootOk E cow.store record applied.foldedSlots then
      .ok .ok (cow.store, world)
    else
      .ok .lineage (cow.rollback host.coordAt, world)

/-! ## What a row can do -/

/-- The row is placed at a slot of this host. -/
def Placed (T : PyText) (host : LaneHost) (item : Json) (slot : ℕ) : Prop :=
  resolveAcceptedSlot T host item = .ok (some slot)

variable {E bounded view regate}

theorem onLane_run {α : Type} (x : PyM ω α) (h : σ) (world : ω) :
    onLane x (h, world) = match x world with
      | .ok a world' => .ok a (h, world')
      | .error e world' => .error e (h, world') := by
  cases hx : x world with
  | ok a world' => simp only [onLane, PyM.zoom, hx]
  | error e world' => simp only [onLane, PyM.zoom, hx]

theorem placed_lt {T : PyText} {item : Json} {slot : ℕ} (h : Placed T host item slot) :
    slot < host.slots.length := by
  unfold Placed resolveAcceptedSlot at h
  dsimp only at h
  split at h
  · cases h
  · split at h
    · split at h
      · exact (coordAt_of_indexOf (Except.ok.inj h)).1
      all_goals cases h
    · split at h
      · split at h
        · next hrange =>
          have hslot := Option.some.inj (Except.ok.inj h)
          omega
        · cases h
      all_goals cases h

/-- Folding a delta writes it, and what is taken back is written to the same slot. -/
theorem foldDelta_cases (slot : ℕ) (outer : PyFloat) (d : Params PyFloat) (h : σ) (world : ω) :
    let h' := view.writeSlot slot (foldParams outer (host.readSlot (view.weights h) slot) d) h
    (∃ world', foldDelta view regate slot outer d (h, world) = .ok (.folded slot) (h', world'))
      ∨ (∃ b n x world', foldDelta view regate slot outer d (h, world)
          = .ok (.regateTripped b n) (view.writeSlot slot x h', world'))
      ∨ (∃ e world', foldDelta view regate slot outer d (h, world) = .error e (h, world'))
      ∨ (∃ e world', foldDelta view regate slot outer d (h, world) = .error e (h', world')) := by
  intro h'
  unfold foldDelta
  rw [PyM.bind_run_ok (PyM.get_run _)]
  dsimp only
  cases regate.lossFor slot with
  | none => exact Or.inl ⟨world, rfl⟩
  | some ce =>
    dsimp only
    rw [PyM.bind_run_ok (PyM.get_run _), PyM.bind_run, onLane_run]
    dsimp only
    cases ce (view.weights h) world with
    | error e world' => exact Or.inr (Or.inr (Or.inl ⟨e, world', rfl⟩))
    | ok baseCe world' =>
      dsimp only
      rw [PyM.bind_run_ok (PyM.modify_run _ _), PyM.bind_run_ok (PyM.get_run _), PyM.bind_run,
        onLane_run]
      dsimp only
      show _ ∨ _ ∨ _ ∨ _
      cases ce (view.weights h') world' with
      | error e world'' => exact Or.inr (Or.inr (Or.inr ⟨e, world'', rfl⟩))
      | ok newCe world'' =>
        dsimp only
        split
        · exact Or.inr (Or.inl ⟨baseCe, newCe, _, world'', rfl⟩)
        · exact Or.inl ⟨world'', rfl⟩

/-- What a row comes to: it is not placed, its delta is not to be had or does not fit, or it is
folded. -/
theorem foldRow_cases (item : Json) (h : σ) (world : ω) :
    foldRow E bounded view regate item (h, world) = .ok .skipped (h, world)
      ∨ (∃ e world', foldRow E bounded view regate item (h, world) = .error e (h, world'))
      ∨ (∃ world', foldRow E bounded view regate item (h, world) = .ok .shapeMismatch (h, world'))
      ∨ ∃ slot outer d world', Placed E.toPyText host item slot
        ∧ rowDelta E bounded item world = .ok (outer, d) world'
        ∧ fits (host.readSlot (view.weights h) slot) d = true
        ∧ foldRow E bounded view regate item (h, world)
          = foldDelta view regate slot outer d (h, world') := by
  unfold foldRow Placed
  cases resolveAcceptedSlot E.toPyText host item with
  | error e => exact Or.inr (Or.inl ⟨e, world, rfl⟩)
  | ok placed =>
    rw [PyM.bind_run_ok (PyM.ofExcept_ok _ _)]
    cases placed with
    | none => exact Or.inl rfl
    | some slot =>
      dsimp only
      rw [PyM.bind_run, onLane_run]
      cases hdelta : rowDelta E bounded item world with
      | error e world' => exact Or.inr (Or.inl ⟨e, world', rfl⟩)
      | ok delta world' =>
        obtain ⟨outer, d⟩ := delta
        dsimp only
        rw [PyM.bind_run_ok (PyM.get_run _)]
        by_cases hfits : fits (host.readSlot (view.weights h) slot) d = true
        · rw [if_pos hfits]
          exact Or.inr (Or.inr (Or.inr ⟨slot, outer, d, world', rfl, rfl, hfits, rfl⟩))
        · rw [if_neg hfits]
          exact Or.inr (Or.inr (Or.inl ⟨world', rfl⟩))

/-- A row writes to the slot it is placed at only, also when it raises. -/
theorem foldRow_writes (item : Json) (s : σ × ω) :
    view.Writes {slot | Placed E.toPyText host item slot} s.1
      ((foldRow E bounded view regate item).after s).1 := by
  obtain ⟨h, world⟩ := s
  unfold PyM.after
  rcases @foldRow_cases host σ ω E bounded view regate item h world with
    hrow | ⟨e, world', hrow⟩ | ⟨world', hrow⟩ | ⟨slot, outer, d, world', hplaced, -, -, hrow⟩
  · rw [hrow]
    exact .refl
  · rw [hrow]
    exact .refl
  · rw [hrow]
    exact .refl
  · rw [hrow]
    have hplaced' : slot ∈ {slot | Placed E.toPyText host item slot} := hplaced
    have hwrite := (@HostView.Writes.refl host σ view _ h).write hplaced'
      (.of host.dtype (foldParams outer (host.readSlot (view.weights h) slot) d))
    rcases @foldDelta_cases host σ ω view regate slot outer d h world' with
      ⟨_, hfold⟩ | ⟨_, _, x, _, hfold⟩ | ⟨_, _, hfold⟩ | ⟨_, _, hfold⟩
    · rw [hfold]
      exact hwrite
    · rw [hfold]
      exact hwrite.write hplaced' _
    · rw [hfold]
      exact .refl
    · rw [hfold]
      exact hwrite

/-- **A row that is not rejected writes to the slot it folds only.** -/
theorem foldRow_folded {item : Json} {s s' : σ × ω} {outcome : RowOutcome}
    (h : foldRow E bounded view regate item s = .ok outcome s') :
    (s'.1 = s.1 ∧ outcome = .skipped)
      ∨ (∃ slot, view.Writes {slot} s.1 s'.1 ∧ outcome = .folded slot)
      ∨ outcome = .shapeMismatch ∨ ∃ b n, outcome = .regateTripped b n := by
  obtain ⟨w, world⟩ := s
  rcases @foldRow_cases host σ ω E bounded view regate item w world with
    hrow | ⟨e, world', hrow⟩ | ⟨world', hrow⟩ | ⟨slot, outer, d, world', -, -, -, hrow⟩
  · rw [hrow] at h
    cases h
    exact Or.inl ⟨rfl, rfl⟩
  · rw [hrow] at h
    cases h
  · rw [hrow] at h
    cases h
    exact Or.inr (Or.inr (Or.inl rfl))
  · rw [hrow] at h
    rcases @foldDelta_cases host σ ω view regate slot outer d w world' with
      ⟨_, hfold⟩ | ⟨b, n, x, _, hfold⟩ | ⟨_, _, hfold⟩ | ⟨_, _, hfold⟩
    · rw [hfold] at h
      cases h
      exact Or.inr (Or.inl ⟨slot, .write .refl (Set.mem_singleton slot) _, rfl⟩)
    · rw [hfold] at h
      cases h
      exact Or.inr (Or.inr (Or.inr ⟨b, n, rfl⟩))
    · rw [hfold] at h
      cases h
    · rw [hfold] at h
      cases h

/-! ## What a record can do -/

/-- The slots the rows of a record are placed at. -/
def placedSlots (T : PyText) (host : LaneHost) (record : Json) : Set ℕ :=
  {slot | ∃ rows, acceptedRows record = .ok rows ∧ ∃ item ∈ rows, Placed T host item slot}

theorem rowTurn_run (applied : Applied) (item : Json) (s : σ × ω) :
    rowTurn E bounded view regate applied item s = match foldRow E bounded view regate item s with
      | .ok outcome s' => .ok (.next (applied ++ [(item, outcome)])) s'
      | .error e s' => .error e s' := by
  unfold rowTurn
  rw [PyM.bind_run]
  cases foldRow E bounded view regate item s <;> rfl

/-- **A record writes to the slots its rows are placed at only**, also when it raises. -/
theorem applyAccepted_writes (record : Json) (s : σ × ω) :
    view.Writes (placedSlots E.toPyText host record) s.1
      ((applyAccepted E bounded view regate record).after s).1 := by
  unfold PyM.after applyAccepted
  cases hrows : acceptedRows record with
  | error e => exact .refl
  | ok rows =>
    have hturn : ∀ item ∈ rows, ∀ s' : σ × ω,
        view.Writes (placedSlots E.toPyText host record) s.1 s'.1 →
        view.Writes (placedSlots E.toPyText host record) s.1
          ((foldRow E bounded view regate item).after s').1 := by
      intro item hitem s' hs'
      refine hs'.trans (HostView.Writes.mono ?_ (foldRow_writes item s'))
      exact fun slot hplaced => ⟨rows, hrows, item, hitem, hplaced⟩
    have hloop := PyM.loop_invariant
      (fun _ s' => view.Writes (placedSlots E.toPyText host record) s.1 s'.1) (fun c _ => c.elim)
      (fun _ s' => view.Writes (placedSlots E.toPyText host record) s.1 s'.1)
      (rowTurn E bounded view regate) rows [] s .refl ?_ (fun _ _ _ _ c => c.elim) ?_
    · rw [PyM.bind_run_ok (PyM.ofExcept_ok _ _), PyM.bind_run]
      cases hrun : PyM.loop (rowTurn E bounded view regate) rows [] s with
      | error e s' =>
        rw [hrun] at hloop
        exact hloop
      | ok r s' =>
        rw [hrun] at hloop
        cases r with
        | next applied => exact hloop
        | stop c => exact c.elim
    · intro item hitem applied s' applied' s'' hs' h
      have hafter := hturn item hitem s' hs'
      rw [rowTurn_run] at h
      unfold PyM.after at hafter
      cases hrow : foldRow E bounded view regate item s' with
      | error e _ =>
        rw [hrow] at h
        cases h
      | ok outcome _ =>
        rw [hrow] at h hafter
        cases h
        exact hafter
    · intro item hitem applied s' e s'' hs' h
      have hafter := hturn item hitem s' hs'
      rw [rowTurn_run] at h
      unfold PyM.after at hafter
      cases hrow : foldRow E bounded view regate item s' with
      | error e _ =>
        rw [hrow] at h hafter
        cases h
        exact hafter
      | ok outcome _ =>
        rw [hrow] at h
        cases h

/-- **A record none of whose rows is rejected writes to the slots it folds only.** -/
theorem applyAccepted_folded {record : Json} {s s' : σ × ω} {applied : Applied}
    (h : applyAccepted E bounded view regate record s = .ok applied s')
    (hrejected : applied.rejected = []) :
    view.Writes {slot | slot ∈ applied.foldedSlots} s.1 s'.1 := by
  unfold applyAccepted at h
  cases hrows : acceptedRows record with
  | error e =>
    rw [hrows] at h
    cases h
  | ok rows =>
    have hloop := PyM.loop_invariant
      (fun applied s' => Applied.rejected applied = [] →
        view.Writes {slot | slot ∈ Applied.foldedSlots applied} s.1 s'.1)
      (fun c _ => c.elim) (fun _ _ => True) (rowTurn E bounded view regate) rows [] s
      (fun _ => .refl) ?_ (fun _ _ _ _ c => c.elim) (fun _ _ _ _ _ _ _ _ => trivial)
    · rw [hrows, PyM.bind_run_ok (PyM.ofExcept_ok _ _), PyM.bind_run] at h
      cases hrun : PyM.loop (rowTurn E bounded view regate) rows [] s with
      | error e s' =>
        rw [hrun] at h
        cases h
      | ok r s' =>
        rw [hrun] at h hloop
        cases r with
        | next applied =>
          cases h
          exact hloop hrejected
        | stop c => exact c.elim
    · intro item _ before s' applied' s'' hbefore h hrejected
      rw [rowTurn_run] at h
      cases hrow : foldRow E bounded view regate item s' with
      | error e _ =>
        rw [hrow] at h
        cases h
      | ok outcome _ =>
        rw [hrow] at h
        cases h
        have hparts : Applied.rejected before ++ Applied.rejected [(item, outcome)] = [] := by
          rw [← hrejected]
          exact (List.filterMap_append ..).symm
        obtain ⟨hbefore', hrow'⟩ := List.append_eq_nil_iff.mp hparts
        have hslots : Applied.foldedSlots (before ++ [(item, outcome)])
            = Applied.foldedSlots before ++ Applied.foldedSlots [(item, outcome)] :=
          List.filterMap_append ..
        have hs' : view.Writes {slot | slot ∈ Applied.foldedSlots (before ++ [(item, outcome)])}
            s.1 s'.1 :=
          (hbefore hbefore').mono fun slot hslot => by
            show slot ∈ Applied.foldedSlots _
            rw [hslots]
            exact List.mem_append_left _ hslot
        rcases foldRow_folded hrow with ⟨hsame, -⟩ | ⟨slot, hwrites, rfl⟩ | rfl | ⟨b, n, rfl⟩
        · rwa [← hsame] at hs'
        · refine hs'.trans (hwrites.mono fun slot' hslot' => ?_)
          show slot' ∈ Applied.foldedSlots _
          rw [hslots, Set.mem_singleton_iff.mp hslot']
          exact List.mem_append_right _ (List.mem_singleton_self slot)
        · cases hrow'
        · cases hrow'

end Fold

/-! ## A small lane -/

section Small

def oneWeight (x : ℚ) : Params PyFloat := .ofList [("w", ⟨[1], [.fin x], rfl⟩)]

/-- A lane that has one delta. -/
def oneDelta (man : Manifest) (objects : List (String × Json)) : BoundedLane Unit where
  lane := .still man (.ofList objects) (.ofList [("d", oneWeight 1)])
  callTimeout := .fin 90
  deadline := none

/-- No re-gate. -/
def noRegate (host : LaneHost) {ω : Type} : Regate host ω := ⟨.off, none, none⟩

/-- A row that folds the delta of that lane into a slot. -/
def deltaRow (slot : ℤ) (outer : ℚ) : Json :=
  .obj [("slot", .int slot), ("cid", .str "d"), ("outer", .float (.fin outer))]

def zeroWeights (host : LaneHost) : Weights host × Unit := (fun _ => .of _ (oneWeight 0), ())

end Small

end NeuraHash
