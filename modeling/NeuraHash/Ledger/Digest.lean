import NeuraHash.Ledger.State
import NeuraHash.Python.Keys

/-!
# The digest of a state (`State.state_hash`)

Two nodes compare their states by a digest over a canonical text: the dictionaries in key order, the
sets as sorted lists, the floats in seventeen digits. `digestObj` is the object that is printed, its
members in the order `sort_keys=True` prints them; `stateHash` is its digest.

Numbers among the addresses are printed by a parameter `number`, since a `Key` does not tell `1`,
`1.0` and `True` apart.
-/

namespace NeuraHash.State

open Py

variable {F : Type} [FloatOps F]

/-- `_canon(x)`. -/
def canonJson (T : PyText) (x : F) : Except PyErr Json := do
  return .str (← canon T (FloatOps.toPyFloat x))

/-- `{a: f(v) for a, v in sorted(d.items())}`. -/
def sortedMembers {β : Type} (T : PyText) (number : PyFloat → Json) (f : β → Except PyErr Json)
    (d : Dict Key β) : Except PyErr (List (String × Json)) := do
  let items ← sortedBy Prod.fst d.entries
  items.mapM fun e => do return (e.1.text T number, ← f e.2)

/-- The unbonding entries of an address, by release height and then by amount. -/
def unbondingJson (T : PyText) (entries : List (F × ℤ)) : Except PyErr Json := do
  return .arr (← (entries.insertionSort seizeOrder).mapM fun e => do
    return .arr [← canonJson T e.1, .int e.2])

/-- The retarget members, on a chain that retargets. -/
def retargetMembers (s : State F) : List (String × Json) :=
  if s.retargetEnabled then
    [("retarget", .obj [
      ("last_block_ts", .int s.lastBlockTs),
      ("retarget_anchor_h", .int s.retargetAnchorH),
      ("retarget_anchor_ts", .int s.retargetAnchorTs),
      ("ts_ring", .arr (s.tsRing.map Json.int)),
      ("work_ewma_q", .int s.workEwmaQ),
      ("work_floor_q", .int s.workFloorQ)])]
  else []

/-- What `state_hash` prints. -/
def digestObj (T : PyText) (number : PyFloat → Json) (s : State F) : Except PyErr Json := do
  let bal ← sortedMembers T number (canonJson T) s.bal
  let staked ← sortedMembers T number (canonJson T) s.staked
  let treasury ← canonJson T s.treasury
  let minted ← canonJson T s.minted
  let nonces ← sortedMembers T number (fun n => .ok (.int n)) s.nonces
  let keys ← sortedMembers T number (fun address => .ok (.str address)) s.keys
  let unbonding ← sortedMembers T number (unbondingJson T) s.unbonding
  let upgradeSignals ← sortedBy id s.upgradeSignals.keys
  return .obj ([
      ("bal", .obj bal),
      ("keys", .obj keys),
      ("minted", minted),
      ("model_checkpoint", s.modelCheckpoint.sortKeys),
      ("nonces", .obj nonces),
      ("pending_activation", s.pendingActivation.elim .null Json.int),
      ("protocol_version", .int s.protocolVersion)]
    ++ s.retargetMembers ++ [
      ("slashed_faults", .arr ((sortedSet s.slashedFaults.keys).map Json.str)),
      ("staked", .obj staked),
      ("treasury", treasury),
      ("unbonding", .obj unbonding),
      ("upgrade_signals", .arr (upgradeSignals.map (Key.toJson number))),
      ("upgrade_streak", .int s.upgradeStreak)])

/-- `state_hash()`. -/
def stateHash (P : Platform) (number : PyFloat → Json) (s : State F) : Except PyErr String := do
  let obj ← s.digestObj P.toPyText number
  if obj.allFinite then
    return P.sha256 (utf8 (String.ofList (Json.render P.toPyText [' '] obj)))
  else throw .valueError

end NeuraHash.State
