import NeuraHash.Merge.Gate
import NeuraHash.Miner.Publish
import NeuraHash.Platform
import NeuraHash.Systems.Journal

/-!
# The lane host of a miner (`GlmExpertLaneHost`, `_CowSlots`)

A host maps slot indices to coordinates and keeps the weights of each coordinate; two indices may
name one coordinate. What is written is cast to the dtype of the model, so a slot's state is a
dictionary of arrays the cast leaves alone (`SlotState`).

`_CowSlots` puts a copy-on-write journal in front of the weights (`Systems.Journal`), and
`HostView` is what the folding code uses of either.
-/

namespace NeuraHash

open Py Systems

/-- What a miner computes with: the platform, and the operations of `numpy`. -/
structure MinerEnv extends Platform where
  np : Numpy PyFloat
  /-- `a @ b`. -/
  matmul : Tensor PyFloat → Tensor PyFloat → Except PyErr (Tensor PyFloat)
  /-- `str.isdigit`. -/
  isDigit : String → Bool

/-! ## Slots -/

/-- What becomes of a float that is stored in the model. -/
structure Dtype where
  cast : PyFloat → PyFloat
  cast_cast : ∀ x, cast (cast x) = cast x

namespace Dtype

def store (dtype : Dtype) (d : Params PyFloat) : Params PyFloat :=
  d.mapWithKey fun _ t => t.map dtype.cast

theorem store_store (dtype : Dtype) (d : Params PyFloat) :
    dtype.store (dtype.store d) = dtype.store d := by
  unfold store
  rw [Dict.mapWithKey_mapWithKey]
  refine Dict.mapWithKey_congr fun k t _ => ?_
  rw [Tensor.map_map]
  congr 1
  funext x
  exact dtype.cast_cast x

/-- `float32`, where the arrays have it already. -/
def exact : Dtype := ⟨id, fun _ => rfl⟩

theorem store_exact (d : Params PyFloat) : exact.store d = d := by
  refine Dict.ext_entries (List.map_id'' (fun e => ?_) _)
  dsimp only [exact]
  rw [Tensor.map_id]

end Dtype

/-- The weights of a coordinate. -/
structure SlotState (dtype : Dtype) where
  params : Params PyFloat
  stored : dtype.store params = params

namespace SlotState

variable {dtype : Dtype}

def of (dtype : Dtype) (d : Params PyFloat) : SlotState dtype := ⟨dtype.store d, dtype.store_store d⟩

@[simp] theorem of_params (x : SlotState dtype) : of dtype x.params = x := by
  cases x with
  | mk params stored =>
    unfold of
    congr

theorem ext_params {x y : SlotState dtype} (h : x.params = y.params) : x = y := by
  rw [← of_params x, h, of_params]

end SlotState

/-- What of a host does not change while records are folded. -/
structure LaneHost where
  slots : List Coord
  campaign : Option CampaignId
  dtype : Dtype
  /-- `read_slot` returns views of the weights, as it does for a `float32` model on the CPU. -/
  aliases : Bool

abbrev Weights (host : LaneHost) := Coord → SlotState host.dtype

namespace LaneHost

variable (host : LaneHost)

/-- `slots[j]`; no index outside the list is used. -/
def coordAt (j : ℕ) : Coord := host.slots.getD j (0, 0)

def readSlot (w : Weights host) (j : ℕ) : Params PyFloat := (w (host.coordAt j)).params

def writeSlot (w : Weights host) (j : ℕ) (d : Params PyFloat) : Weights host :=
  Function.update w (host.coordAt j) (.of host.dtype d)

end LaneHost

theorem coordAt_of_indexOf {host : LaneHost} {c : Coord} {j : ℕ}
    (h : indexOf host.slots c = some j) : j < host.slots.length ∧ host.coordAt j = c := by
  obtain ⟨hlt, heq, -⟩ := List.findIdx?_eq_some_iff_getElem.mp h
  refine ⟨hlt, ?_⟩
  rw [LaneHost.coordAt, List.getD_eq_getElem _ _ hlt]
  exact of_decide_eq_true heq

theorem indexOf_coordAt {host : LaneHost} {j : ℕ} (h : j < host.slots.length) :
    ∃ i, indexOf host.slots (host.coordAt j) = some i := by
  rw [← Option.isSome_iff_exists, indexOf, List.findIdx?_isSome, List.any_eq_true]
  refine ⟨host.slots[j], List.getElem_mem h, ?_⟩
  rw [LaneHost.coordAt, List.getD_eq_getElem _ _ h]
  exact decide_eq_true rfl

/-! ## Copy on write -/

/-- `_CowSlots`: the weights, and the slots saved before their first write. -/
abbrev CowSlots (host : LaneHost) := Journal ℕ Coord (SlotState host.dtype)

/-- The host the folding code sees: its weights, and what a write does. -/
structure HostView (host : LaneHost) (σ : Type) where
  weights : σ → Weights host
  write : ℕ → SlotState host.dtype → σ → σ
  weights_write : ∀ j x s,
    weights (write j x s) = Function.update (weights s) (host.coordAt j) x

namespace HostView

variable {host : LaneHost} {σ : Type}

def plain (host : LaneHost) : HostView host (Weights host) where
  weights w := w
  write j x w := Function.update w (host.coordAt j) x
  weights_write _ _ _ := rfl

def cow (host : LaneHost) : HostView host (CowSlots host) where
  weights c := c.store
  write j x c := c.write host.coordAt j x
  weights_write _ _ _ := rfl

/-- `host.write_slot(j, d)`. -/
def writeSlot (view : HostView host σ) (j : ℕ) (d : Params PyFloat) (s : σ) : σ :=
  view.write j (.of host.dtype d) s

/-- What writes to the slots of a set lead to. -/
inductive Writes (view : HostView host σ) (K : Set ℕ) (s : σ) : σ → Prop where
  | refl : Writes view K s s
  | write {s' : σ} {j : ℕ} (h : Writes view K s s') (hj : j ∈ K) (x : SlotState host.dtype) :
      Writes view K s (view.write j x s')

theorem Writes.trans {view : HostView host σ} {K : Set ℕ} {s s' s'' : σ}
    (h : Writes view K s s') (h' : Writes view K s' s'') : Writes view K s s'' := by
  induction h' with
  | refl => exact h
  | write _ hj x ih => exact ih.write hj x

theorem Writes.mono {view : HostView host σ} {K K' : Set ℕ} (hsub : K ⊆ K') {s s' : σ}
    (h : Writes view K s s') : Writes view K' s s' := by
  induction h with
  | refl => exact .refl
  | write _ hj x ih => exact ih.write (hsub hj) x

theorem Writes.journal {K : Set ℕ} {c c' : CowSlots host} (h : (cow host).Writes K c c') :
    Journal.Writes host.coordAt K c c' := by
  induction h with
  | refl => exact .refl
  | write _ hj x ih => exact ih.write hj x

end HostView

/-! ## Roots -/

section Roots

variable (E : MinerEnv) {host : LaneHost} (w : Weights host)

/-- `_campaign_seed_into`. -/
def campaignSeed : Option CampaignId → Bytes
  | none => []
  | some cid => utf8 ("campaign:" ++ cid.text ++ "|")

/-- `_slot_digest_into`: the coordinate, and the weights as `float32`. -/
def slotDigest (np : Numpy PyFloat) (c : Coord) (d : Params PyFloat) : Bytes :=
  utf8 ("L" ++ c.1.repr ++ "E" ++ c.2.repr ++ "|")
    ++ d.sortedItems.flatMap fun e =>
      utf8 e.1 ++ e.2.data.flatMap fun x => np.tobytes (np.float32 x)

/-- `slot_root(host, idx)`. -/
def slotRoot (j : ℕ) : String :=
  E.sha256 (campaignSeed host.campaign ++ slotDigest E.np (host.coordAt j) (host.readSlot w j))

/-- `model_root(host)`. -/
def modelRoot : String :=
  E.sha256 (campaignSeed host.campaign
    ++ (List.range host.slots.length).flatMap fun j =>
      slotDigest E.np (host.coordAt j) (host.readSlot w j))

end Roots

end NeuraHash
