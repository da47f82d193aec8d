import NeuraHash.Ledger.Block

/-!
# The account state (`neura_l1/block_state.py`, `State`)

Liquid balances, bonded stake, the unbonding queue, the treasury and the amount minted so far,
next to the bookkeeping of the chain: nonces, registered keys, slashed faults, protocol
upgrades and the difficulty retarget. The primitives of this file move value between the
containers; `Ledger.Transition` composes them into `applyTx` and `applyBlock`.

An address is a dictionary key. In a transaction it is an arbitrary JSON value, so using it may
raise; from there on it is a `Key`.
-/

namespace NeuraHash

open Py

/-! ## Constants -/

def maxSupply : ℚ := 2100000000
def equivocationBountyFrac : ℚ := 1 / 10
def unbondingPeriod : ℤ := 5

def targetBlockTime : ℤ := 60
def retargetWindow : ℤ := 2016
def targetTimespan : ℤ := retargetWindow * targetBlockTime
def retargetClampNum : ℤ := 4
def workFloorScale : ℚ := 1000000000
def genesisWorkFloorUnits : ℤ := 1000000
def workFloorMinUnits : ℤ := 1
def workFloorMaxUnits : ℤ := 1000000000000
def observedWorkCeilNum : ℤ := 3
def observedWorkCeilDen : ℤ := 4
def workEwmaNum : ℤ := 1
def workEwmaDen : ℤ := 16
def mtpWindow : ℕ := 11
def retargetActivationHeight : ℤ := 0

def upgradeThresholdNum : ℚ := 2
def upgradeThresholdDen : ℚ := 3
def upgradeWindow : ℤ := 3
def upgradeActivationDelay : ℤ := 3

/-! ## The state -/

structure State (F : Type) where
  requireTxSignatures : Bool
  retargetEnabled : Bool
  bal : Dict Key F
  staked : Dict Key F
  treasury : F
  minted : F
  nonces : Dict Key ℤ
  /-- Validator name to registered address. -/
  keys : Dict Key String
  slashedFaults : PySet String
  /-- Withdrawing stake: amounts with their release heights. -/
  unbonding : Dict Key (List (F × ℤ))
  modelCheckpoint : Json
  protocolVersion : ℤ
  upgradeSignals : PySet Key
  upgradeStreak : ℤ
  pendingActivation : Option ℤ
  workFloorQ : ℤ
  retargetAnchorTs : ℤ
  retargetAnchorH : ℤ
  lastBlockTs : ℤ
  workEwmaQ : ℤ
  /-- The last committed timestamps, at most `mtpWindow` of them. -/
  tsRing : List ℤ

namespace State

variable {F : Type} [FloatOps F]

/-- `State(model_checkpoint)`, with both policies off. -/
def genesis (modelCheckpoint : Json) : State F where
  requireTxSignatures := false
  retargetEnabled := false
  bal := ∅
  staked := ∅
  treasury := 0
  minted := 0
  nonces := ∅
  keys := ∅
  slashedFaults := ∅
  unbonding := ∅
  modelCheckpoint := modelCheckpoint
  protocolVersion := genesisVersion
  upgradeSignals := ∅
  upgradeStreak := 0
  pendingActivation := none
  workFloorQ := genesisWorkFloorUnits
  retargetAnchorTs := 0
  retargetAnchorH := 0
  lastBlockTs := 0
  workEwmaQ := genesisWorkFloorUnits
  tsRing := []

/-! ## Reads -/

def balance (s : State F) (addr : Key) : F := s.bal.getD addr 0

/-- The active bond. -/
def stakeOf (s : State F) (addr : Key) : F := s.staked.getD addr 0

/-- The live bond behind the pending upgrade signals. -/
def upgradeSignaledStake (s : State F) : F :=
  FloatOps.sum (s.upgradeSignals.keys.map (fun a => s.staked.getD a 0))

/-! ## Moving value -/

/-- `_credit`. -/
def credit (s : State F) (addr : Key) (amt : F) : State F :=
  { s with bal := s.bal.set addr (s.bal.getD addr 0 + amt) }

/-- `_debit`. -/
def debit (s : State F) (addr : Key) (amt : F) : State F :=
  { s with bal := s.bal.set addr (s.bal.getD addr 0 - amt) }

/-- `credit_reward`: mint to a contributor; nothing for a non-positive amount. -/
def creditReward (s : State F) (contributor : Key) (amount : F) : State F :=
  if FloatOps.le amount 0 then s
  else
    let s := s.credit contributor amount
    { s with minted := s.minted + amount }

/-- Unbonding entries in the order they are seized: by release height, then by amount. -/
def seizeOrder (a b : F × ℤ) : Prop :=
  (decide (a.2 < b.2) || (decide (a.2 = b.2) && FloatOps.le a.1 b.1)) = true

instance : DecidableRel (seizeOrder (F := F)) := fun _ _ => inferInstanceAs (Decidable (_ = true))

/-- The loop of `_seize` over the unbonding entries: what is seized in all and what is kept. -/
def seizeEntries (remaining : Option F) (seized : F) : List (F × ℤ) → F × List (F × ℤ)
  | [] => (seized, [])
  | (amt, rel) :: entries =>
    match remaining with
    | none =>
      let rest := seizeEntries none (seized + amt) entries
      (rest.1, if FloatOps.lt 0 (amt - amt) then (amt - amt, rel) :: rest.2 else rest.2)
    | some r =>
      if FloatOps.le r 0 then
        let rest := seizeEntries (some r) seized entries
        (rest.1, (amt, rel) :: rest.2)
      else
        let t := FloatOps.min amt r
        let rest := seizeEntries (some (r - t)) (seized + t) entries
        (rest.1, if FloatOps.lt 0 (amt - t) then (amt - t, rel) :: rest.2 else rest.2)

/-- `self.unbonding[addr] = kept`, or no entry at all when nothing is kept. -/
def setUnbonding (s : State F) (addr : Key) (kept : List (F × ℤ)) : State F :=
  { s with unbonding := if kept.isEmpty then s.unbonding.erase addr
                        else s.unbonding.set addr kept }

/-- Step (1) of `_seize`: how much of the active bond is taken. -/
def seizeTake (s : State F) (addr : Key) : Option F → F
  | none => s.stakeOf addr
  | some r => FloatOps.min (s.stakeOf addr) r

/-- The bond after step (1). -/
def seizeStake (s : State F) (addr : Key) (remaining : Option F) : State F :=
  let take := s.seizeTake addr remaining
  if FloatOps.lt 0 take then { s with staked := s.staked.set addr (s.stakeOf addr - take) } else s

/-- Step (2) of `_seize`: the unbonding entries, unless nothing is left to take. -/
def seizeUnbonding (s : State F) (addr : Key) (remaining : Option F) (seized : F) :
    State F × F :=
  match s.unbonding.get? addr with
  | none => (s, seized)
  | some entries =>
    if !entries.isEmpty && remaining.all (FloatOps.lt 0) then
      let rest := seizeEntries remaining seized (entries.insertionSort seizeOrder)
      (s.setUnbonding addr rest.2, rest.1)
    else (s, seized)

/-- `_seize(addr, amount)`: take up to `amount` (everything for `none`) of the slashable
balance, the active bond first, then the unbonding entries. Returns the state and the amount
seized. -/
def seize (s : State F) (addr : Key) (amount : Option F) : State F × F :=
  let remaining := amount.map (FloatOps.max 0)
  let take := s.seizeTake addr remaining
  let s' := s.seizeStake addr remaining
  if FloatOps.lt 0 take then s'.seizeUnbonding addr (remaining.map (· - take)) (0 + take)
  else s'.seizeUnbonding addr remaining 0

/-- `_mature_unbonding` for one address: released entries become liquid, the others stay. -/
def matureOne (height : ℤ) (s : State F) (addr : Key) : State F :=
  match s.unbonding.get? addr with
  | none => s
  | some entries =>
    let released := entries.filter (fun e => e.2 ≤ height)
    let kept := entries.filter (fun e => ¬ e.2 ≤ height)
    (released.foldl (fun s e => s.credit addr e.1) s).setUnbonding addr kept

/-- `_mature_unbonding(height)`. -/
def matureUnbonding (s : State F) (height : ℤ) : State F :=
  s.unbonding.keys.foldl (matureOne height) s

end State

end NeuraHash
