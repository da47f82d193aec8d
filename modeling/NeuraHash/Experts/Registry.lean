import NeuraHash.Judge.Rows
import NeuraHash.Python.Mutation
import NeuraHash.Systems.History

/-!
# The slot registry of a lane host (`GlmExpertLaneHost`)

A host gives coordinates slot indices that never change, keeps a bounded set of them active, and
holds a snapshot of each active slot from the beginning of a round. Gating writes a candidate's rows
into the model, evaluates it, and writes the snapshot back.

`Registry` is what every operation keeps; `Ready` says that an index handed out by `register` has
its snapshot in every round, until the slot is evicted.
-/

namespace NeuraHash

open Py Systems

/-- `MissingBaseSnapshot`. -/
def missingBaseSnapshot : PyErr := .raised "MissingBaseSnapshot"

/-- What a host is built with, and the model's weights as `torch` and `numpy` see them. -/
structure GlmExpertLaneHost (σ ν : Type) where
  claimable : Option (List Coord)
  maxActive : Option ℤ
  /-- The place of a coordinate's rows; a layer that was not instantiated and an expert out of range
  raise. -/
  place : Coord → Except PyErr Place
  /-- `.detach().float().cpu().numpy()`. -/
  toNumpy : σ → ν
  /-- `torch.as_tensor(np.asarray(v)).to(dev, dt)`, copied into a row; another shape raises. -/
  toRow : Part → ν → Except PyErr σ
  /-- `heldout_ce(model, pX)`. -/
  heldoutCe : ExpertRows σ → PyFloat

/-- What of a host changes. -/
structure HostState (σ ν : Type) where
  slots : List Coord
  idx : Dict Coord ℕ
  active : Finset ℕ
  baseSlots : Option (List (Option (Dict String ν)))
  rows : ExpertRows σ

namespace GlmExpertLaneHost

variable {σ ν : Type} (H : GlmExpertLaneHost σ ν)

/-- `__init__`. -/
def built (slots : List Coord) (rows : ExpertRows σ) : HostState σ ν where
  slots := slots
  idx := slots.zipIdx.foldl (fun d e => if d.contains e.1 then d else d.set e.1 e.2) ∅
  active := Finset.range slots.length
  baseSlots := none
  rows := rows

/-! ## Rows -/

/-- `slots[idx]`, and the place of its rows. -/
def placeOf (s : HostState σ ν) (i : ℕ) : Except PyErr Place :=
  match s.slots[i]? with
  | none => .error (.raised "IndexError")
  | some c => H.place c

/-- The rows at a place, as `numpy` arrays. -/
def snapshot (row : Part → σ) : Dict String ν :=
  Dict.ofList (Part.all.map fun part => (part.key, H.toNumpy (row part)))

/-- `read_slot(idx)`. -/
def readSlot (i : ℕ) : PyM (HostState σ ν) (Dict String ν) := do
  let spot ← PyM.ofExcept (H.placeOf (← get) i)
  return H.snapshot ((← get).rows spot)

/-- A row of a dictionary, as the model stores it. -/
def rowOf (d : Dict String ν) (part : Part) : Except PyErr σ :=
  match d.get? part.key with
  | none => .error .keyError
  | some v => H.toRow part v

/-- The rows of a dictionary written one after the other. -/
def writeParts (spot : Place) (d : Dict String ν) : List Part → PyM (HostState σ ν) Unit
  | [] => pure ()
  | part :: rest => do
    let x ← PyM.ofExcept (H.rowOf d part)
    modify fun s => { s with
      rows := Function.update s.rows spot (Function.update (s.rows spot) part x) }
    writeParts spot d rest

/-- `write_slot(idx, d)`. -/
def writeSlot (i : ℕ) (d : Dict String ν) : PyM (HostState σ ν) Unit := do
  let spot ← PyM.ofExcept (H.placeOf (← get) i)
  H.writeParts spot d Part.all

/-! ## The registry -/

/-- `is_claimable(L, E)`. -/
def isClaimable (c : Coord) : Bool :=
  match H.claimable with
  | none => true
  | some cs => cs.contains c

/-- Whether `max_active` slots are active. -/
def full (s : HostState σ ν) : Bool :=
  match H.maxActive with
  | none => false
  | some m => m ≤ s.active.card

/-- `_repair_base_slot(i)`. -/
def repairBaseSlot (i : ℕ) : PyM (HostState σ ν) Unit := do
  match (← get).baseSlots with
  | none => pure ()
  | some bs =>
    let n := (← get).slots.length
    modify fun s => { s with baseSlots := some (bs ++ List.replicate (n - bs.length) none) }
    let base ← H.readSlot i
    modify fun s => { s with baseSlots := s.baseSlots.map fun bs => bs.set i (some base) }

/-- `register(L, E)`. -/
def register (c : Coord) : PyM (HostState σ ν) ℕ := do
  if !H.isClaimable c then throw .valueError
  let s ← get
  match s.idx.get? c with
  | none =>
    if H.full s then throw (.raised "RuntimeError")
    let i := s.slots.length
    modify fun s => { s with
      slots := s.slots ++ [c]
      idx := s.idx.set c i
      active := insert i s.active }
    H.repairBaseSlot i
    return i
  | some i =>
    if i ∉ s.active then
      if H.full s then throw (.raised "RuntimeError")
      modify fun s => { s with active := insert i s.active }
    H.repairBaseSlot i
    return i

/-- `evict(idx)`. -/
def evict (i : ℤ) : PyM (HostState σ ν) Bool := fun s =>
  if 0 ≤ i ∧ i.toNat ∈ s.active then
    .ok true { s with
      active := s.active.erase i.toNat
      baseSlots := s.baseSlots.map fun bs => bs.set i.toNat none }
  else .ok false s

/-- `canonical_experts()`. -/
def canonicalExperts (s : HostState σ ν) : Except PyErr (List (Option (Dict String ν))) :=
  (List.range s.slots.length).mapM fun i =>
    if i ∈ s.active then do
      let spot ← H.placeOf s i
      return some (H.snapshot (s.rows spot))
    else return none

/-- `begin_round(canonical_experts())`. -/
def beginRound : PyM (HostState σ ν) Unit := do
  let experts ← PyM.ofExcept (H.canonicalExperts (← get))
  modify fun s => { s with baseSlots := some experts }

/-- `sync_from_canonical(experts)`, from an index. -/
def syncFrom : ℕ → List (Option (Dict String ν)) → PyM (HostState σ ν) Unit
  | _, [] => pure ()
  | i, none :: rest => syncFrom (i + 1) rest
  | i, some d :: rest => do
    H.writeSlot i d
    syncFrom (i + 1) rest

/-! ## Gating -/

/-- The snapshot of a slot, if it has one. -/
def baseOf (s : HostState σ ν) (i : ℤ) : Option (Dict String ν) :=
  match s.baseSlots with
  | none => none
  | some bs => if 0 ≤ i then (bs[i.toNat]?).join else none

/-- `heldout_ce(self.model, pX)`, or what it raises. -/
def evaluate (fault : Option PyErr) : PyM (HostState σ ν) PyFloat := do
  match fault with
  | some e => throw e
  | none => return H.heldoutCe (← get).rows

/-- `eval_expert(e, cand, pX, pY)`, with what the evaluation raises if it does. -/
def evalExpert (i : ℤ) (cand : Dict String ν) (fault : Option PyErr) :
    PyM (HostState σ ν) PyFloat := do
  match baseOf (← get) i with
  | none => throw missingBaseSnapshot
  | some base =>
    H.writeSlot i.toNat cand
    let ce ← H.evaluate fault
    H.writeSlot i.toNat base
    return ce

/-! ## Runs -/

/-- An operation of the host. -/
inductive Operation (ν : Type) where
  | register (c : Coord)
  | evict (i : ℤ)
  | beginRound
  | evalExpert (i : ℤ) (cand : Dict String ν) (fault : Option PyErr)
  | sync (experts : List (Option (Dict String ν)))

/-- What an operation returns. -/
inductive Reply where
  | index (i : ℕ)
  | evicted (b : Bool)
  | ce (x : PyFloat)
  | done
  | raised (e : PyErr)

/-- The operation as code. -/
def run : Operation ν → PyM (HostState σ ν) Reply
  | .register c => do return .index (← H.register c)
  | .evict i => do return .evicted (← evict i)
  | .beginRound => do
    H.beginRound
    return .done
  | .evalExpert i cand fault => do return .ce (← H.evalExpert i cand fault)
  | .sync experts => do
    H.syncFrom 0 experts
    return .done

def step (s : HostState σ ν) (op : Operation ν) : Reply × HostState σ ν :=
  match H.run op s with
  | .ok r s' => (r, s')
  | .error e s' => (.raised e, s')

/-! ## What writing does -/

/-- What of a dictionary is written before a row raises. -/
def putParts (d : Dict String ν) : List Part → (Part → σ) → Part → σ
  | [], row => row
  | part :: rest, row => match H.rowOf d part with
    | .ok x => putParts d rest (Function.update row part x)
    | .error _ => row

/-- What the first row that cannot be written raises. -/
def writeError (d : Dict String ν) : List Part → Option PyErr
  | [] => none
  | part :: rest => match H.rowOf d part with
    | .ok _ => writeError d rest
    | .error e => some e

/-- A state with other rows at a place. -/
def withRow (s : HostState σ ν) (spot : Place) (row : Part → σ) : HostState σ ν :=
  { s with rows := Function.update s.rows spot row }

section Write

variable {H : GlmExpertLaneHost σ ν} {s : HostState σ ν} {spot : Place}

theorem writeParts_run (d : Dict String ν) (parts : List Part) :
    H.writeParts spot d parts s = match H.writeError d parts with
      | none => .ok () (withRow s spot (H.putParts d parts (s.rows spot)))
      | some e => .error e (withRow s spot (H.putParts d parts (s.rows spot))) := by
  induction parts generalizing s with
  | nil =>
    unfold writeParts writeError putParts withRow
    rw [Function.update_eq_self]
    rfl
  | cons part rest ih =>
    cases hrow : H.rowOf d part with
    | error e =>
      simp only [writeParts, writeError, putParts, hrow]
      unfold withRow
      rw [Function.update_eq_self]
      rfl
    | ok x =>
      simp only [writeParts, writeError, putParts, hrow]
      rw [PyM.bind_run_ok (PyM.ofExcept_ok x s), PyM.bind_run_ok (PyM.modify_run _ s), ih]
      unfold withRow
      dsimp only
      rw [Function.update_idem, Function.update_self]

theorem writeSlot_run {i : ℕ} (d : Dict String ν) (hspot : H.placeOf s i = .ok spot) :
    H.writeSlot i d s = match H.writeError d Part.all with
      | none => .ok () (withRow s spot (H.putParts d Part.all (s.rows spot)))
      | some e => .error e (withRow s spot (H.putParts d Part.all (s.rows spot))) := by
  unfold writeSlot
  rw [PyM.bind_run_ok (PyM.get_run s), hspot, PyM.bind_run_ok (PyM.ofExcept_ok spot s),
    writeParts_run]

theorem writeSlot_error {i : ℕ} {e : PyErr} (d : Dict String ν) (h : H.placeOf s i = .error e) :
    H.writeSlot i d s = .error e s := by
  unfold writeSlot
  rw [PyM.bind_run_ok (PyM.get_run s), h]
  exact PyM.bind_run_error (PyM.ofExcept_error e s)

/-- A dictionary that can be written whole is what the row then holds. -/
theorem putParts_of_rowOf {d : Dict String ν} {row : Part → σ}
    (h : ∀ part, H.rowOf d part = .ok (row part)) (row' : Part → σ) :
    H.writeError d Part.all = none ∧ H.putParts d Part.all row' = row := by
  constructor
  · simp only [Part.all, writeError, h]
  · simp only [Part.all, putParts, h]
    funext part
    cases part <;> simp [Function.update]

end Write

/-! ## Gating leaves no trace -/

/-- The slot holds its snapshot: written back, it is what the slot has. -/
def Holds (s : HostState σ ν) (i : ℤ) : Prop :=
  ∃ base spot, baseOf s i = some base ∧ H.placeOf s i.toNat = .ok spot
    ∧ ∀ part, H.rowOf base part = .ok (s.rows spot part)

/-- The gate of a candidate comes back to the snapshot: the candidate can be written and its
evaluation returns, or what was written of it is what the slot has. -/
def ComesBack (s : HostState σ ν) (i : ℤ) (cand : Dict String ν) (fault : Option PyErr) : Prop :=
  (H.writeError cand Part.all = none ∧ fault = none)
    ∨ ∀ spot, H.placeOf s i.toNat = .ok spot →
      H.putParts cand Part.all (s.rows spot) = s.rows spot

section Gate

variable {H : GlmExpertLaneHost σ ν} {s : HostState σ ν} {i : ℤ} {cand : Dict String ν}
  {fault : Option PyErr}

/-- **Gating**: with the snapshot in place, the weights are as before exactly where the candidate
comes back. -/
theorem evalExpert_rows (h : H.Holds s i) :
    ((H.evalExpert i cand fault).after s).rows = s.rows ↔ H.ComesBack s i cand fault := by
  obtain ⟨base, spot, hbase, hspot, hrows⟩ := h
  have hput : ∀ row : Part → σ, Function.update s.rows spot row = s.rows ↔ row = s.rows spot := by
    intro row
    constructor
    · intro heq
      rw [← heq, Function.update_self]
    · intro heq
      rw [heq, Function.update_eq_self]
  have hcomes : H.ComesBack s i cand fault
      ↔ (H.writeError cand Part.all = none ∧ fault = none)
        ∨ H.putParts cand Part.all (s.rows spot) = s.rows spot := by
    unfold ComesBack
    refine or_congr_right ⟨fun hall => hall spot hspot, fun heq spot' hspot' => ?_⟩
    rw [hspot] at hspot'
    cases hspot'
    exact heq
  rw [hcomes]
  have hwrite := writeSlot_run cand hspot
  unfold evalExpert PyM.after
  rw [PyM.bind_run_ok (PyM.get_run s), hbase]
  dsimp only
  cases herror : H.writeError cand Part.all with
  | some e =>
    rw [herror] at hwrite
    rw [PyM.bind_run_error hwrite]
    show Function.update s.rows spot _ = s.rows ↔ _
    rw [hput]
    exact (or_iff_right fun h => nomatch h.1).symm
  | none =>
    rw [herror] at hwrite
    rw [PyM.bind_run_ok hwrite]
    cases fault with
    | some e =>
      show Function.update s.rows spot _ = s.rows ↔ _
      rw [hput]
      exact (or_iff_right fun h => nomatch h.2).symm
    | none =>
      obtain ⟨hnone, hback⟩ := putParts_of_rowOf hrows (H.putParts cand Part.all (s.rows spot))
      have hspot' : H.placeOf (withRow s spot (H.putParts cand Part.all (s.rows spot))) i.toNat
          = .ok spot := hspot
      have hrestore := writeSlot_run base hspot'
      rw [hnone] at hrestore
      have hrow : (withRow s spot (H.putParts cand Part.all (s.rows spot))).rows spot
          = H.putParts cand Part.all (s.rows spot) := Function.update_self ..
      rw [hrow, hback] at hrestore
      refine iff_of_true ?_ (Or.inl ⟨rfl, rfl⟩)
      rw [PyM.bind_run_ok (show H.evaluate none _ = _ from rfl), PyM.bind_run_ok hrestore]
      show Function.update (Function.update s.rows spot _) spot (s.rows spot) = s.rows
      rw [Function.update_idem, Function.update_eq_self]

end Gate

/-! ## What registering does -/

/-- A slot has a snapshot, if there is a round. -/
def HasBase (b : Option (List (Option (Dict String ν)))) (i : ℕ) : Prop :=
  ∀ bs, b = some bs → ∃ d, bs[i]? = some (some d)

/-- The state with a coordinate let in at an index: a new slot, or a known one made active. -/
def Admits (s : HostState σ ν) (c : Coord) (i : ℕ) (s' : HostState σ ν) : Prop :=
  (s.idx.get? c = none ∧ H.full s = false ∧ i = s.slots.length
    ∧ s' = { s with
        slots := s.slots ++ [c]
        idx := s.idx.set c i
        active := insert i s.active })
  ∨ (s.idx.get? c = some i ∧ (i ∈ s.active ∨ H.full s = false)
    ∧ s' = { s with active := insert i s.active })

section Register

variable {H : GlmExpertLaneHost σ ν} {s : HostState σ ν}

theorem readSlot_run (i : ℕ) : H.readSlot i s = match H.placeOf s i with
    | .ok spot => .ok (H.snapshot (s.rows spot)) s
    | .error e => .error e s := by
  unfold readSlot
  rw [PyM.bind_run_ok (PyM.get_run s)]
  cases H.placeOf s i <;> rfl

/-- **A repair** keeps the snapshots there are, and where it returns the slot has one. -/
theorem repairBaseSlot_run (i : ℕ) :
    ∃ b, (∀ j, HasBase s.baseSlots j → HasBase b j)
      ∧ ((H.repairBaseSlot i s = .ok () { s with baseSlots := b }
          ∧ (i < s.slots.length → HasBase b i))
        ∨ ∃ e, H.repairBaseSlot i s = .error e { s with baseSlots := b }) := by
  unfold repairBaseSlot
  rw [PyM.bind_run_ok (PyM.get_run s)]
  cases hbase : s.baseSlots with
  | none =>
    refine ⟨none, fun _ h => h, Or.inl ⟨?_, fun _ _ h => nomatch h⟩⟩
    show EStateM.Result.ok () s = .ok () { s with baseSlots := none }
    rw [← hbase]
  | some bs =>
    have hkeep : ∀ j, HasBase (some bs) j →
        HasBase (some (bs ++ List.replicate (s.slots.length - bs.length) none)) j := by
      intro j hj bs' hbs'
      cases hbs'
      obtain ⟨d, hd⟩ := hj bs rfl
      exact ⟨d, List.getElem?_append_left (List.getElem?_eq_some_iff.mp hd).1 ▸ hd⟩
    dsimp only
    rw [PyM.bind_run_ok (PyM.get_run s), PyM.bind_run_ok (PyM.modify_run _ s)]
    have hplace : ∀ b, H.placeOf { s with baseSlots := b } i = H.placeOf s i := fun _ => rfl
    cases hspot : H.placeOf s i with
    | error e =>
      refine ⟨some (bs ++ List.replicate (s.slots.length - bs.length) none), hkeep,
        Or.inr ⟨e, PyM.bind_run_error ?_⟩⟩
      rw [readSlot_run, hplace, hspot]
    | ok spot =>
      refine ⟨some ((bs ++ List.replicate (s.slots.length - bs.length) none).set i
        (some (H.snapshot (s.rows spot)))), fun j hj bs' hbs' => ?_, Or.inl ⟨?_, ?_⟩⟩
      · cases hbs'
        obtain ⟨d, hd⟩ := hkeep j hj _ rfl
        by_cases hij : i = j
        · subst hij
          exact ⟨_, List.getElem?_set_self (List.getElem?_eq_some_iff.mp hd).1⟩
        · exact ⟨d, (List.getElem?_set_ne hij).trans hd⟩
      · have hread := readSlot_run (H := H) (s := { s with
          baseSlots := some (bs ++ List.replicate (s.slots.length - bs.length) none) }) i
        rw [hplace, hspot] at hread
        rw [PyM.bind_run_ok hread]
        rfl
      · intro hi bs' hbs'
        cases hbs'
        refine ⟨_, List.getElem?_set_self ?_⟩
        rw [List.length_append, List.length_replicate]
        omega

/-- The end of either branch of `register`. -/
def repaired (i : ℕ) : PyM (HostState σ ν) ℕ := do
  H.repairBaseSlot i
  return i

/-- The branches of `register`. -/
theorem register_run (s : HostState σ ν) (c : Coord) :
    H.register c s = if H.isClaimable c = false then .error .valueError s
      else match s.idx.get? c with
        | none => if H.full s then .error (.raised "RuntimeError") s
          else H.repaired s.slots.length { s with
            slots := s.slots ++ [c]
            idx := s.idx.set c s.slots.length
            active := insert s.slots.length s.active }
        | some i => if i ∈ s.active then H.repaired i s
          else if H.full s then .error (.raised "RuntimeError") s
          else H.repaired i { s with active := insert i s.active } := by
  unfold register
  cases hclaim : H.isClaimable c with
  | false => rfl
  | true =>
    rw [if_neg (by decide), if_neg (by decide)]
    dsimp only
    rw [PyM.bind_run_ok (PyM.get_run s)]
    cases s.idx.get? c with
    | none =>
      dsimp only
      cases hfull : H.full s with
      | true => rfl
      | false => rfl
    | some i =>
      dsimp only
      by_cases hin : i ∈ s.active
      · rw [if_neg (not_not.mpr hin), if_pos hin]
        rfl
      · rw [if_pos hin, if_neg hin]
        cases hfull : H.full s with
        | true => rfl
        | false => rfl

/-- **What `register` does.** -/
theorem register_step (s : HostState σ ν) (c : Coord) :
    (∃ e, H.step s (.register c) = (.raised e, s))
    ∨ ∃ i s' b r, H.Admits s c i s' ∧ (∀ j, HasBase s.baseSlots j → HasBase b j)
      ∧ H.step s (.register c) = (r, { s' with baseSlots := b })
      ∧ ((r = .index i ∧ (i < s'.slots.length → HasBase b i)) ∨ ∃ e, r = .raised e) := by
  have hstep : H.step s (.register c) = match H.register c s with
      | .ok i s' => (.index i, s')
      | .error e s' => (.raised e, s') := by
    unfold step run
    dsimp only
    rw [PyM.bind_run]
    cases H.register c s <;> rfl
  -- where the coordinate is let in, the repair is what is left to do
  have hend : ∀ i s', H.Admits s c i s' → s'.baseSlots = s.baseSlots →
      H.register c s = H.repaired i s' → ∃ i s' b r, H.Admits s c i s'
        ∧ (∀ j, HasBase s.baseSlots j → HasBase b j)
        ∧ H.step s (.register c) = (r, { s' with baseSlots := b })
        ∧ ((r = .index i ∧ (i < s'.slots.length → HasBase b i)) ∨ ∃ e, r = .raised e) := by
    intro i s' hadmits hs' hrun
    obtain ⟨b, hkeep, hrepair⟩ := @repairBaseSlot_run σ ν H s' i
    rw [hs'] at hkeep
    rw [hstep, hrun]
    unfold repaired
    rcases hrepair with ⟨hrepair, hbase⟩ | ⟨e, hrepair⟩
    · refine ⟨i, s', b, .index i, hadmits, hkeep, ?_, Or.inl ⟨rfl, hbase⟩⟩
      rw [PyM.bind_run_ok hrepair]
      rfl
    · refine ⟨i, s', b, .raised e, hadmits, hkeep, ?_, Or.inr ⟨e, rfl⟩⟩
      rw [PyM.bind_run_error hrepair]
  have hrun := register_run (H := H) s c
  split at hrun
  · exact Or.inl ⟨_, by rw [hstep, hrun]⟩
  cases hidx : s.idx.get? c with
  | none =>
    rw [hidx] at hrun
    dsimp only at hrun
    split at hrun
    · exact Or.inl ⟨_, by rw [hstep, hrun]⟩
    · next hfull =>
      exact Or.inr (hend _ _ (Or.inl ⟨hidx, (Bool.not_eq_true _).mp hfull, rfl, rfl⟩) rfl hrun)
  | some i =>
    rw [hidx] at hrun
    dsimp only at hrun
    split at hrun
    · next hin =>
      refine Or.inr (hend i s (Or.inr ⟨hidx, Or.inl hin, ?_⟩) rfl hrun)
      rw [Finset.insert_eq_of_mem hin]
    split at hrun
    · exact Or.inl ⟨_, by rw [hstep, hrun]⟩
    · next hfull =>
      exact Or.inr (hend _ _ (Or.inr ⟨hidx, Or.inr ((Bool.not_eq_true _).mp hfull), rfl⟩) rfl hrun)

end Register

/-! ## What the other operations do -/

section Others

variable {H : GlmExpertLaneHost σ ν} {s : HostState σ ν}

theorem writeSlot_after (i : ℕ) (d : Dict String ν) (s : HostState σ ν) :
    ∃ rows, (H.writeSlot i d).after s = { s with rows := rows } := by
  unfold PyM.after
  cases hspot : H.placeOf s i with
  | error e =>
    rw [writeSlot_error d hspot]
    exact ⟨s.rows, rfl⟩
  | ok spot =>
    rw [writeSlot_run d hspot]
    cases H.writeError d Part.all with
    | none => exact ⟨_, rfl⟩
    | some e => exact ⟨_, rfl⟩

theorem syncFrom_after (i : ℕ) (experts : List (Option (Dict String ν))) (s : HostState σ ν) :
    ∃ rows, (H.syncFrom i experts).after s = { s with rows := rows } := by
  induction experts generalizing i s with
  | nil => exact ⟨s.rows, rfl⟩
  | cons d experts ih =>
    cases d with
    | none => exact ih (i + 1) s
    | some d =>
      refine PyM.after_bind (p := fun s' => ∃ rows, s' = { s with rows := rows })
        (writeSlot_after i d s) fun _ s' hs' => ?_
      obtain ⟨rows, rfl⟩ := hs'
      obtain ⟨rows', h⟩ := ih (i + 1) { s with rows := rows }
      exact ⟨rows', h⟩

theorem evalExpert_after (i : ℤ) (cand : Dict String ν) (fault : Option PyErr)
    (s : HostState σ ν) :
    ∃ rows, (H.evalExpert i cand fault).after s = { s with rows := rows } := by
  have hwrite : ∀ d s', (∃ rows, s' = { s with rows := rows }) →
      ∃ rows, (H.writeSlot i.toNat d).after s' = { s with rows := rows } := by
    intro d s' hs'
    obtain ⟨rows, rfl⟩ := hs'
    exact writeSlot_after i.toNat d { s with rows := rows }
  unfold evalExpert
  refine PyM.after_bind (p := fun s' => ∃ rows, s' = { s with rows := rows }) ?_
    fun s₀ s₁ h₁ => ?_
  · exact ⟨s.rows, rfl⟩
  cases baseOf s₀ i with
  | none => exact h₁
  | some base =>
    refine PyM.after_bind (p := fun s' => ∃ rows, s' = { s with rows := rows }) (hwrite cand s₁ h₁)
      fun _ s₂ h₂ => ?_
    refine PyM.after_bind (p := fun s' => ∃ rows, s' = { s with rows := rows }) ?_
      fun _ s₃ h₃ => ?_
    · cases fault with
      | none => exact h₂
      | some e => exact h₂
    · refine PyM.after_bind (p := fun s' => ∃ rows, s' = { s with rows := rows })
        (hwrite base s₃ h₃) fun _ s₄ h₄ => ?_
      exact h₄

theorem step_after (s : HostState σ ν) (op : Operation ν) :
    (H.step s op).2 = (H.run op).after s := by
  unfold step PyM.after
  cases H.run op s <;> rfl

/-- Gating and syncing change the weights only. -/
theorem step_rows {op : Operation ν} (hop : (∃ i cand fault, op = .evalExpert i cand fault)
      ∨ ∃ experts, op = .sync experts) :
    ∃ rows, (H.step s op).2 = { s with rows := rows } := by
  rw [step_after]
  rcases hop with ⟨i, cand, fault, rfl⟩ | ⟨experts, rfl⟩
  · refine PyM.after_bind (p := fun s' => ∃ rows, s' = { s with rows := rows }) ?_ fun _ _ h => ?_
    · exact evalExpert_after i cand fault s
    · exact h
  · refine PyM.after_bind (p := fun s' => ∃ rows, s' = { s with rows := rows }) ?_ fun _ _ h => ?_
    · exact syncFrom_after 0 experts s
    · exact h

theorem evict_step (s : HostState σ ν) (i : ℤ) :
    H.step s (.evict i) = if 0 ≤ i ∧ i.toNat ∈ s.active then
        (.evicted true, { s with
          active := s.active.erase i.toNat
          baseSlots := s.baseSlots.map fun bs => bs.set i.toNat none })
      else (.evicted false, s) := by
  unfold step run
  dsimp only
  by_cases hin : 0 ≤ i ∧ i.toNat ∈ s.active
  · have hrun : evict i s = .ok true _ := if_pos hin
    rw [PyM.bind_run_ok hrun, if_pos hin]
    rfl
  · have hrun : evict i s = .ok false s := if_neg hin
    rw [PyM.bind_run_ok hrun, if_neg hin]
    rfl

theorem beginRound_step (s : HostState σ ν) :
    H.step s .beginRound = match H.canonicalExperts s with
      | .ok experts => (.done, { s with baseSlots := some experts })
      | .error e => (.raised e, s) := by
  have hbegin : H.beginRound s = match H.canonicalExperts s with
      | .ok experts => .ok () { s with baseSlots := some experts }
      | .error e => .error e s := by
    unfold beginRound
    rw [PyM.bind_run_ok (PyM.get_run s)]
    cases H.canonicalExperts s <;> rfl
  unfold step run
  dsimp only
  rw [PyM.bind_run, hbegin]
  cases H.canonicalExperts s <;> rfl

/-- The canonical experts of active slots are there. -/
theorem canonicalExperts_active {experts : List (Option (Dict String ν))}
    (h : H.canonicalExperts s = .ok experts) {i : ℕ} (hi : i < s.slots.length)
    (hact : i ∈ s.active) : ∃ d, experts[i]? = some (some d) := by
  have hall := forall₂_of_mapM h
  have hlen := hall.length_eq
  rw [List.length_range] at hlen
  have hget := (List.forall₂_iff_get.mp hall).2 i (by rw [List.length_range]; exact hi) (by omega)
  simp only [List.get_eq_getElem, List.getElem_range, if_pos hact] at hget
  obtain ⟨spot, -, hspot⟩ := bind_eq_ok.mp hget
  exact ⟨_, (List.getElem?_eq_getElem (by omega)).trans (congrArg some (Except.ok.inj hspot).symm)⟩

end Others

/-! ## What every operation keeps -/

/-- The registry: each index is the index of its coordinate, and the active slots are few. -/
structure Registry (s : HostState σ ν) : Prop where
  nodup : s.slots.Nodup
  idx : ∀ c i, s.idx.get? c = some i ↔ s.slots[i]? = some c
  active_le : ∀ m, H.maxActive = some m → (s.active.card : ℤ) ≤ m

/-- A slot that was let in and not evicted: it is active, and has its snapshot in a round. -/
structure Ready (s : HostState σ ν) (i : ℕ) : Prop where
  lt : i < s.slots.length
  active : i ∈ s.active
  base : HasBase s.baseSlots i

section Registry

variable {H : GlmExpertLaneHost σ ν} {s s' : HostState σ ν} {c : Coord} {i j : ℕ}

theorem get?_setdefault (slots : List Coord) (hnodup : slots.Nodup) (c : Coord) (i : ℕ) :
    (slots.zipIdx.foldl (fun d e => if d.contains e.1 then d else d.set e.1 e.2)
      (∅ : Dict Coord ℕ)).get? c = some i ↔ slots[i]? = some c := by
  induction slots using List.reverseRecOn generalizing c i with
  | nil => exact iff_of_false nofun nofun
  | append_singleton slots a ih =>
    rw [List.nodup_append] at hnodup
    obtain ⟨hslots, -, hdisj⟩ := hnodup
    have hnew : a ∉ slots := fun hin => hdisj a hin a (List.mem_singleton_self a) rfl
    rw [List.zipIdx_append, List.foldl_append]
    show ((if Dict.contains _ a then _ else Dict.set _ a _ : Dict Coord ℕ).get? c = some i) ↔ _
    rw [if_neg, Dict.get?_set]
    · by_cases hac : a = c
      · subst hac
        rw [if_pos rfl, Nat.zero_add, Option.some.injEq]
        constructor
        · intro hi
          subst hi
          exact List.getElem?_concat_length
        · intro hi
          by_contra hne
          rw [List.getElem?_append] at hi
          split at hi
          · exact hnew (List.mem_of_getElem? hi)
          · rw [List.getElem?_singleton] at hi
            split at hi
            · omega
            · cases hi
      · rw [if_neg hac, ih hslots, List.getElem?_append]
        split
        · rfl
        · next hlt =>
          rw [List.getElem?_eq_none (by omega)]
          refine iff_of_false nofun fun hi => ?_
          rw [List.getElem?_singleton] at hi
          split at hi
          · exact hac (Option.some.inj hi)
          · cases hi
    · intro hin
      obtain ⟨k, hk⟩ := Dict.contains_iff.mp hin
      exact hnew (List.mem_of_getElem? ((ih hslots a k).mp hk))

theorem registry_built {slots : List Coord} (hnodup : slots.Nodup)
    (hmax : ∀ m, H.maxActive = some m → (slots.length : ℤ) ≤ m) (rows : ExpertRows σ) :
    H.Registry (built slots rows : HostState σ ν) where
  nodup := hnodup
  idx := get?_setdefault slots hnodup
  active_le m hm := by
    show ((Finset.range slots.length).card : ℤ) ≤ m
    rw [Finset.card_range]
    exact hmax m hm

/-- Letting a coordinate in keeps the registry, and the index is the coordinate's. -/
theorem Registry.admits (h : H.Registry s) (hadmits : H.Admits s c i s') :
    H.Registry s' ∧ s.slots <+: s'.slots ∧ s'.slots[i]? = some c ∧ i ∈ s'.active
      ∧ s.active ⊆ s'.active := by
  have hcard : ∀ n, H.full s = false → ∀ m, H.maxActive = some m →
      ((insert n s.active).card : ℤ) ≤ m := by
    intro n hfull m hm
    unfold full at hfull
    rw [hm] at hfull
    have hlt : (s.active.card : ℤ) < m := not_le.mp (of_decide_eq_false hfull)
    have hinsert := Finset.card_insert_le n s.active
    omega
  rcases hadmits with ⟨hnone, hfull, rfl, rfl⟩ | ⟨hsome, hroom, rfl⟩
  · have hnew : c ∉ s.slots := by
      intro hin
      obtain ⟨k, hk⟩ := List.mem_iff_getElem?.mp hin
      rw [(h.idx c k).mpr hk] at hnone
      cases hnone
    refine ⟨⟨?_, fun c' k => ?_, hcard _ hfull⟩, List.prefix_append _ _, List.getElem?_concat_length,
      Finset.mem_insert_self .., Finset.subset_insert ..⟩
    · exact List.Nodup.append h.nodup (List.nodup_singleton c) (List.disjoint_singleton.mpr hnew)
    · rw [Dict.get?_set, List.getElem?_append]
      by_cases hc : c = c'
      · subst hc
        rw [if_pos rfl, Option.some.injEq]
        split
        · exact iff_of_false (by omega) fun hk => hnew (List.mem_of_getElem? hk)
        · next hge =>
          rw [List.getElem?_singleton]
          split
          · exact iff_of_true (by omega) rfl
          · exact iff_of_false (by omega) nofun
      · rw [if_neg hc]
        split
        · exact h.idx c' k
        · next hge =>
          refine iff_of_false (fun hk => ?_) fun hk => ?_
          · exact hge (List.getElem?_eq_some_iff.mp ((h.idx c' k).mp hk)).1
          · rw [List.getElem?_singleton] at hk
            split at hk
            · exact hc (Option.some.inj hk)
            · cases hk
  · refine ⟨⟨h.nodup, h.idx, fun m hm => ?_⟩, List.prefix_rfl, (h.idx c i).mp hsome,
      Finset.mem_insert_self .., Finset.subset_insert ..⟩
    rcases hroom with hin | hfull
    · show ((insert i s.active).card : ℤ) ≤ m
      rw [Finset.insert_eq_of_mem hin]
      exact h.active_le m hm
    · exact hcard i hfull m hm

/-- **Every operation keeps the registry**, and the slots there are. -/
theorem Registry.step (h : H.Registry s) (op : Operation ν) :
    H.Registry (H.step s op).2 ∧ s.slots <+: (H.step s op).2.slots := by
  have hsame : ∀ s' : HostState σ ν, s'.slots = s.slots → s'.idx = s.idx → s'.active ⊆ s.active →
      H.Registry s' ∧ s.slots <+: s'.slots := by
    intro s' hslots hidx hactive
    refine ⟨⟨hslots ▸ h.nodup, fun c i => by rw [hslots, hidx]; exact h.idx c i, fun m hm => ?_⟩,
      hslots ▸ List.prefix_rfl⟩
    exact (Int.ofNat_le.mpr (Finset.card_le_card hactive)).trans (h.active_le m hm)
  cases op with
  | register c =>
    rcases H.register_step s c with ⟨e, heq⟩ | ⟨i, s', b, r, hadmits, -, heq, -⟩
    · rw [heq]
      exact ⟨h, List.prefix_rfl⟩
    · rw [heq]
      obtain ⟨hreg, hstarts, -⟩ := h.admits hadmits
      exact ⟨⟨hreg.nodup, hreg.idx, hreg.active_le⟩, hstarts⟩
  | evict i =>
    rw [evict_step]
    split
    · exact hsame _ rfl rfl (Finset.erase_subset ..)
    · exact ⟨h, List.prefix_rfl⟩
  | beginRound =>
    rw [beginRound_step]
    cases H.canonicalExperts s with
    | error e => exact ⟨h, List.prefix_rfl⟩
    | ok experts => exact hsame _ rfl rfl (Finset.Subset.refl _)
  | evalExpert j cand fault =>
    obtain ⟨rows, heq⟩ := step_rows (H := H) (s := s) (Or.inl ⟨j, cand, fault, rfl⟩)
    rw [heq]
    exact hsame _ rfl rfl (Finset.Subset.refl _)
  | sync experts =>
    obtain ⟨rows, heq⟩ := step_rows (H := H) (s := s) (Or.inr ⟨experts, rfl⟩)
    rw [heq]
    exact hsame _ rfl rfl (Finset.Subset.refl _)

/-- **An index that is handed out is ready.** -/
theorem Registry.ready (h : H.Registry s) (hout : (H.step s (.register c)).1 = .index i) :
    (H.step s (.register c)).2.slots[i]? = some c ∧ Ready (H.step s (.register c)).2 i := by
  rcases H.register_step s c with ⟨e, heq⟩ | ⟨k, s', b, r, hadmits, -, heq, hr⟩
  · rw [heq] at hout
    cases hout
  · rw [heq] at hout ⊢
    dsimp only at hout
    rcases hr with ⟨hr, hbase⟩ | ⟨e, hr⟩
    · obtain rfl : k = i := by
        rw [hr] at hout
        cases hout
        rfl
      obtain ⟨-, -, hslot, hactive, -⟩ := h.admits hadmits
      have hlt := (List.getElem?_eq_some_iff.mp hslot).1
      exact ⟨hslot, hlt, hactive, hbase hlt⟩
    · rw [hr] at hout
      cases hout

/-- **A ready slot stays ready** until it is evicted. -/
theorem Ready.step (h : Ready s i) (hreg : H.Registry s) {op : Operation ν}
    (hop : op ≠ .evict i) : Ready (H.step s op).2 i := by
  cases op with
  | register c =>
    rcases H.register_step s c with ⟨e, heq⟩ | ⟨k, s', b, r, hadmits, hkeep, heq, -⟩
    · rw [heq]
      exact h
    · rw [heq]
      obtain ⟨-, hstarts, -, -, hactive⟩ := hreg.admits hadmits
      exact ⟨h.lt.trans_le hstarts.length_le, hactive h.active, hkeep i h.base⟩
  | evict j =>
    rw [evict_step]
    split
    · next hin =>
      have hne : j.toNat ≠ i := by
        intro hj
        exact hop (congrArg Operation.evict (by omega))
      refine ⟨h.lt, Finset.mem_erase.mpr ⟨hne.symm, h.active⟩, fun bs hbs => ?_⟩
      obtain ⟨bs', hbs', rfl⟩ := Option.map_eq_some_iff.mp hbs
      obtain ⟨d, hd⟩ := h.base bs' hbs'
      exact ⟨d, (List.getElem?_set_ne hne).trans hd⟩
    · exact h
  | beginRound =>
    rw [beginRound_step]
    cases hexperts : H.canonicalExperts s with
    | error e => exact h
    | ok experts =>
      refine ⟨h.lt, h.active, fun bs hbs => ?_⟩
      cases hbs
      exact canonicalExperts_active hexperts h.lt h.active
  | evalExpert j cand fault =>
    obtain ⟨rows, heq⟩ := step_rows (H := H) (s := s) (Or.inl ⟨j, cand, fault, rfl⟩)
    rw [heq]
    exact ⟨h.lt, h.active, h.base⟩
  | sync experts =>
    obtain ⟨rows, heq⟩ := step_rows (H := H) (s := s) (Or.inr ⟨experts, rfl⟩)
    rw [heq]
    exact ⟨h.lt, h.active, h.base⟩

theorem Registry.run (h : H.Registry s) (ops : List (Operation ν)) :
    H.Registry (final H.step s ops) ∧ s.slots <+: (final H.step s ops).slots := by
  induction ops generalizing s with
  | nil => exact ⟨h, List.prefix_rfl⟩
  | cons op ops ih =>
    obtain ⟨hreg, hstarts⟩ := h.step op
    obtain ⟨hreg', hstarts'⟩ := ih hreg
    exact ⟨hreg', hstarts.trans hstarts'⟩

theorem Ready.run (h : Ready s i) (hreg : H.Registry s) (ops : List (Operation ν))
    (hops : ∀ op ∈ ops, op ≠ .evict i) : Ready (final H.step s ops) i := by
  induction ops generalizing s with
  | nil => exact h
  | cons op ops ih =>
    exact ih (h.step hreg (hops op (List.mem_cons_self ..))) (hreg.step op).1
      fun op' hop' => hops op' (List.mem_cons_of_mem _ hop')

/-- What holds at every event of a run. -/
theorem Registry.event (h : H.Registry s) {ops : List (Operation ν)}
    {e : Event (HostState σ ν) (Operation ν) Reply} (he : e ∈ history H.step s ops) :
    H.Registry e.before ∧ e.before.slots <+: e.after.slots
      ∧ e.after.slots <+: (final H.step s ops).slots := by
  induction ops generalizing s with
  | nil => cases he
  | cons op ops ih =>
    rcases List.mem_cons.mp he with rfl | he
    · exact ⟨h, (h.step op).2, ((h.step op).1.run ops).2⟩
    · exact ih (h.step op).1 he

end Registry

/-- **The registry is stable, and gating leaves no trace where the candidate comes back.** In every
run of a host built with few enough, different slots: no operation changes the coordinate of an
index; `register` gives each coordinate one index of its own; at most `max_active` slots are active;
an index handed out since the last eviction of the slot has its snapshot once there is a round; and
a gate on a slot that holds its snapshot leaves the weights as they were exactly where its
candidate comes back. -/
theorem registry_stable (slots : List Coord) (hnodup : slots.Nodup)
    (hmax : ∀ m, H.maxActive = some m → (slots.length : ℤ) ≤ m) (rows : ExpertRows σ)
    (ops : List (Operation ν)) :
    let h := history H.step (built slots rows) ops
    let s := final H.step (built slots rows) ops
    (∀ e ∈ h, e.before.slots <+: e.after.slots)
    ∧ (∀ e ∈ h, ∀ c i, e.input = .register c → e.output = .index i → s.slots[i]? = some c)
    ∧ (∀ e ∈ h, ∀ e' ∈ h, ∀ c i c' i', e.input = .register c → e.output = .index i →
        e'.input = .register c' → e'.output = .index i' → (c = c' ↔ i = i'))
    ∧ (∀ m, H.maxActive = some m → (s.active.card : ℤ) ≤ m)
    ∧ (∀ pre c i post, ops = pre ++ .register c :: post →
        (H.step (final H.step (built slots rows) pre) (.register c)).1 = .index i →
        (∀ op ∈ post, op ≠ .evict i) → s.baseSlots ≠ none → ∃ d, baseOf s i = some d)
    ∧ ∀ e ∈ h, ∀ i cand fault, e.input = .evalExpert i cand fault → H.Holds e.before i →
        (e.after.rows = e.before.rows ↔ H.ComesBack e.before i cand fault) := by
  intro h s
  have hbuilt : H.Registry (built slots rows : HostState σ ν) := registry_built hnodup hmax rows
  have hreg : H.Registry s := (hbuilt.run ops).1
  have hindex : ∀ e ∈ h, ∀ c i, e.input = .register c → e.output = .index i →
      s.slots[i]? = some c := by
    intro e he c i hin hout
    obtain ⟨hbefore, -, hstarts⟩ := hbuilt.event he
    rw [of_mem_history he] at hout hstarts
    simp only [Systems.event, hin] at hout hstarts
    have hslot := (hbefore.ready hout).1
    obtain ⟨more, hmore⟩ := hstarts
    show (final H.step (built slots rows) ops).slots[i]? = some c
    rw [← hmore, List.getElem?_append_left (List.getElem?_eq_some_iff.mp hslot).1]
    exact hslot
  refine ⟨fun e he => (hbuilt.event he).2.1, hindex, ?_, hreg.active_le, ?_, ?_⟩
  · intro e he e' he' c i c' i' hin hout hin' hout'
    have hc := hindex e he c i hin hout
    have hc' := hindex e' he' c' i' hin' hout'
    constructor
    · intro hcc
      rw [← hcc, ← hreg.idx] at hc'
      rw [← hreg.idx] at hc
      exact Option.some.inj (hc.symm.trans hc')
    · intro hii
      rw [← hii] at hc'
      exact Option.some.inj (hc.symm.trans hc')
  · intro pre c i post hops hout hpost hround
    have hs : s = final H.step (H.step (final H.step (built slots rows) pre) (.register c)).2
        post := by
      show final H.step _ ops = _
      rw [hops, final_append]
      rfl
    have hpre := (hbuilt.run pre).1
    have hready := (hpre.ready hout).2.run (hpre.step (.register c)).1 post hpost
    rw [← hs] at hready
    unfold baseOf
    cases hbase : s.baseSlots with
    | none => exact absurd hbase hround
    | some bs =>
      obtain ⟨d, hd⟩ := hready.base bs hbase
      refine ⟨d, ?_⟩
      dsimp only
      rw [if_pos (Int.natCast_nonneg i), Int.toNat_natCast, hd]
      rfl
  · intro e he i cand fault hin hholds
    have hafter : e.after = (H.evalExpert i cand fault).after e.before := by
      rw [of_mem_history he]
      simp only [Systems.event, hin]
      rw [step_after]
      show PyM.after (H.evalExpert i cand fault >>= fun x => pure (Reply.ce x)) e.before = _
      unfold PyM.after
      rw [PyM.bind_run]
      cases H.evalExpert i cand fault e.before <;> rfl
    rw [hafter]
    exact evalExpert_rows hholds

/-! ## A host of two slots -/

/-- A model of numbers, in which every coordinate of the first layer has a row. -/
def smallHost : GlmExpertLaneHost ℤ ℤ where
  claimable := none
  maxActive := some 2
  place c := if c.1 = 1 ∧ 0 ≤ c.2 then .ok (c.1, c.2.toNat) else .error (.raised "IndexError")
  toNumpy := id
  toRow _ := .ok
  heldoutCe _ := 0

/-- A candidate of one number. -/
def numbers (x : ℤ) : Dict String ℤ := Dict.ofList (Part.all.map fun part => (part.key, x))

/-- A round in which one candidate is gated and an expert is claimed. -/
theorem registry_stable_small :
    let ops : List (Operation ℤ) :=
      [.beginRound, .evalExpert 0 (numbers 5) none, .evict 1, .register (1, 7)]
    (history smallHost.step (built [(1, 0), (1, 1)] fun _ _ => 3) ops).length = 4
      ∧ ∃ d, baseOf (final smallHost.step (built [(1, 0), (1, 1)] fun _ _ => 3) ops) 2 = some d :=
  ⟨rfl, (smallHost.registry_stable [(1, 0), (1, 1)] (by decide)
    (fun m hm => by cases hm; decide) (fun _ _ => 3)
    [.beginRound, .evalExpert 0 (numbers 5) none, .evict 1, .register (1, 7)]).2.2.2.2.1
    [.beginRound, .evalExpert 0 (numbers 5) none, .evict 1] (1, 7) 2 [] rfl rfl
    (fun _ h => absurd h List.not_mem_nil) nofun⟩

/-- Where the evaluation raises, the candidate stays in the model. -/
theorem gating_leaves_candidate :
    ¬ ∀ (ops : List (Operation ℤ)) (i : ℤ) (cand : Dict String ℤ) (fault : Option PyErr),
        smallHost.Holds (final smallHost.step (built [(1, 0), (1, 1)] fun _ _ => 3) ops) i →
        (smallHost.step (final smallHost.step (built [(1, 0), (1, 1)] fun _ _ => 3) ops)
            (.evalExpert i cand fault)).2.rows
          = (final smallHost.step (built [(1, 0), (1, 1)] fun _ _ => 3) ops).rows := by
  intro hall
  have hholds : smallHost.Holds
      (final smallHost.step (built [(1, 0), (1, 1)] fun _ _ => 3) [.beginRound]) 0 :=
    ⟨_, (1, 0), rfl, rfl, fun part => by cases part <;> rfl⟩
  have hsame := hall [.beginRound] 0 (numbers 5) (some (.raised "OutOfMemoryError")) hholds
  exact absurd (congrFun (congrFun hsame (1, 0)) .gate) (by decide)

end GlmExpertLaneHost

end NeuraHash
