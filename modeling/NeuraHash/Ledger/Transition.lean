import NeuraHash.Ledger.State

/-!
# The state transition (`State.apply_tx`, `State.apply_block`)

`applyTx` works in place, so it returns the state next to its outcome: a call that raises may
have changed the state before it did. The outcome is the source's pair `(ok, reason)`, or the
exception. `applyBlock` works on a copy and either returns the new state or raises.

The votes of the finality layer come from the platform.
-/

namespace NeuraHash

open Py

/-- Why a transaction was applied or rejected. -/
inductive TxReason (F : Type) where
  /-- `non-finite amount` -/
  | nonFiniteAmount
  /-- `negative amount` -/
  | negativeAmount
  /-- `bad nonce {tx.nonce} (expected {expected})` -/
  | badNonce (nonce expected : ℤ)
  /-- `sender is not a registered account` -/
  | senderNotRegistered
  /-- `unsupported tx signature scheme: {e}` -/
  | unsupportedScheme
  /-- `invalid or missing tx signature` -/
  | invalidSignature
  /-- `tx signature does not match sender's registered key` -/
  | signatureMismatch
  /-- `transfer missing recipient` -/
  | missingRecipient
  /-- `insufficient balance for transfer` -/
  | insufficientForTransfer
  /-- `transfer applied` -/
  | transferApplied
  /-- `insufficient balance to stake` -/
  | insufficientForStake
  /-- `stake applied` -/
  | stakeApplied
  /-- `upgrade_signal missing/malformed version` -/
  | malformedVersion
  /-- `can only signal for version {expected} (got {version})` -/
  | wrongVersion (expected version : ℤ)
  /-- `upgrade_signal requires active stake` -/
  | signalNeedsStake
  /-- `upgrade signal recorded for version {version}` -/
  | signalRecorded (version : ℤ)
  /-- `insufficient stake to unstake` -/
  | insufficientForUnstake
  /-- `unstake queued (unbonding until height {release})` -/
  | unstakeQueued (release : ℤ)
  /-- `vote-fault slash tx missing validator` -/
  | missingValidator
  /-- `malformed vote-fault proof: {e}` -/
  | malformedVoteFault (e : PyErr)
  /-- `validator {validator!r} has no registered key` -/
  | validatorNotRegistered (validator : Json)
  /-- `not a slashable vote fault: {kind}` -/
  | notVoteFault (kind : String)
  /-- `vote fault already slashed (idempotent)` -/
  | voteFaultAlreadySlashed
  /-- `slashed {bond:.4f} from {validator} for FFG {kind} (bounty {bounty:.4f} -> {tx.sender})` -/
  | voteFaultSlashed (bond : F) (validator : Json) (kind : String) (bounty : F) (sender : Json)
  /-- `slash tx missing equivocation proof / proposer` -/
  | missingEquivocation
  /-- `malformed equivocation proof: {e}` -/
  | malformedEquivocation (e : PyErr)
  /-- `invalid equivocation proof: {signer}` -/
  | invalidEquivocation (r : EquivocationReason)
  /-- `equivocation signer != registered key for named proposer` -/
  | equivocationSignerMismatch
  /-- `equivocation already slashed (idempotent)` -/
  | equivocationAlreadySlashed
  /-- `slashed {bond:.4f} from {proposer} for equivocation at height {height}
  (bounty {bounty:.4f} -> {tx.sender})` -/
  | equivocationSlashed (bond : F) (proposer : Json) (height : ℤ) (bounty : F) (sender : Json)

/-- `(ok, reason)`, or the exception. -/
abbrev TxOutcome (F : Type) := Except PyErr (Bool × TxReason F)

namespace State

variable {F : Type} [FloatOps F]

/-- `return False, reason`, with the state as it is. -/
def reject (s : State F) (r : TxReason F) : State F × TxOutcome F := (s, .ok (false, r))

/-- `return True, reason`, with the state as it is. -/
def done (s : State F) (r : TxReason F) : State F × TxOutcome F := (s, .ok (true, r))

/-- Leave with an exception, the state being as it is. -/
def raise (s : State F) (e : PyErr) : State F × TxOutcome F := (s, .error e)

/-- Go on with the value of a step, or leave with its exception. -/
def andThen {α : Type} (s : State F) (x : Except PyErr α) (f : α → State F × TxOutcome F) :
    State F × TxOutcome F :=
  match x with
  | .ok a => f a
  | .error e => s.raise e

/-! ## Slashing -/

/-- `_reporter_bounty_ok(tx)`: the reporter signed the slash with its registered key. -/
def reporterBountyOk (P : Platform) (s : State F) (tx : Tx F) : Except PyErr Bool := do
  match s.keys.get? (← Key.ofJson tx.sender) with
  | none => return false
  | some reg =>
    match tx.recoverTxSigner P with
    | .ok a => return decide (P.lower a = P.lower reg)
    | .error _ => return false

/-- Pay the reporter its bounty, send the rest of the bond to the treasury and remember the
fault. -/
def payBond (s : State F) (sender : Key) (bond bounty : F) (fault : String) : State F :=
  let s := if FloatOps.lt 0 bounty then s.credit sender bounty else s
  { s with treasury := s.treasury + (bond - bounty),
           slashedFaults := s.slashedFaults.add fault }

/-- The tail both slash paths share: seize everything at risk and pay it out. -/
def burnBond (P : Platform) (s : State F) (tx : Tx F) (addr : Key) (fault : String)
    (reason : F → F → TxReason F) : State F × TxOutcome F :=
  let (s, bond) := s.seize addr none
  s.andThen (s.reporterBountyOk P tx) fun ok =>
    let bounty := if ok then bond * FloatOps.lit equivocationBountyFrac else 0
    s.andThen (Key.ofJson tx.sender) fun sender =>
      (s.payBond sender bond bounty fault).done (reason bond bounty)

/-- The identifier of a vote fault: the two vote ids in order. -/
def voteFaultId (a b : String) : String :=
  if b < a then "ffg:" ++ b ++ ":" ++ a else "ffg:" ++ a ++ ":" ++ b

/-- `_apply_vote_fault_slash(tx)`. -/
def applyVoteFaultSlash (P : Platform) (s : State F) (tx : Tx F) :
    State F × TxOutcome F :=
  let data := tx.data.orElse (.obj [])
  s.andThen (do (((← data.getD "vote_fault" .null).orElse (.obj [])).getD "validator" .null))
    fun validator =>
  match validator with
  | .null => s.reject .missingValidator
  | _ =>
    let votes : Except PyErr (P.finality.Vote × P.finality.Vote) := do
      let vf := (← data.getD "vote_fault" .null).orElse (.obj [])
      let voteA ← P.finality.fromDict (← vf.item "vote_a")
      let voteB ← P.finality.fromDict (← vf.item "vote_b")
      return (voteA, voteB)
    match votes with
    | .error e => s.reject (.malformedVoteFault e)
    | .ok (voteA, voteB) =>
      s.andThen (Key.ofJson validator) fun addr =>
      match s.keys.get? addr with
      | none => s.reject (.validatorNotRegistered validator)
      | some registered =>
        s.andThen (P.finality.verifyVoteFault validator voteA voteB registered) fun (isFault, kind) =>
        if !isFault then s.reject (.notVoteFault kind)
        else
          let fault := voteFaultId (P.finality.voteId voteA) (P.finality.voteId voteB)
          if s.slashedFaults.contains fault then s.done .voteFaultAlreadySlashed
          else s.burnBond P tx addr fault
            (fun bond bounty => .voteFaultSlashed bond validator kind bounty tx.sender)

/-- `_apply_equivocation_slash(tx)`. -/
def applyEquivocationSlash (P : Platform) (s : State F) (tx : Tx F) : State F × TxOutcome F :=
  let data := tx.data.orElse (.obj [])
  s.andThen (data.getD "equivocation" .null) fun proofD =>
  s.andThen (data.getD "proposer" .null) fun proposer =>
  if !proofD.truthy || Json.pyEq proposer .null then s.reject .missingEquivocation
  else
    match EquivocationProof.fromDict proofD with
    | .error e => s.reject (.malformedEquivocation e)
    | .ok proof =>
      s.andThen (verifyEquivocation P proof none) fun verdict =>
      match verdict with
      | .error r => s.reject (.invalidEquivocation r)
      | .ok signer =>
        s.andThen (Key.ofJson proposer) fun addr =>
        match s.keys.get? addr with
        | none => s.reject .equivocationSignerMismatch
        | some registered =>
          if P.lower registered ≠ P.lower signer then s.reject .equivocationSignerMismatch
          else
            s.andThen (do Commitment.fromDict P.toPyText (← proof.a.item "commitment")) fun ca =>
            let fault := P.lower signer ++ ":" ++ ca.height.repr
            if s.slashedFaults.contains fault then s.done .equivocationAlreadySlashed
            else s.burnBond P tx addr fault
              (fun bond bounty => .equivocationSlashed bond proposer ca.height bounty tx.sender)

/-- `_apply_slash(tx)`: dispatch on the kind of proof. -/
def applySlash (P : Platform) (s : State F) (tx : Tx F) :
    State F × TxOutcome F :=
  s.andThen ((tx.data.orElse (.obj [])).hasKey "vote_fault") fun voteFault =>
  if voteFault then s.applyVoteFaultSlash P tx else s.applyEquivocationSlash P tx

/-! ## Transactions -/

/-- `self.nonces[tx.sender] = tx.nonce + 1`. -/
def bumpNonce (s : State F) (sender : Key) (tx : Tx F) : State F :=
  { s with nonces := s.nonces.set sender (tx.nonce + 1) }

def applyTransfer (s : State F) (sender : Key) (tx : Tx F) : State F × TxOutcome F :=
  if Json.pyEq tx.toAddr .null then s.reject .missingRecipient
  else if FloatOps.lt (s.balance sender) tx.amount then s.reject .insufficientForTransfer
  else
    let s := s.debit sender tx.amount
    s.andThen (Key.ofJson tx.toAddr) fun recipient =>
    ((s.credit recipient tx.amount).bumpNonce sender tx).done .transferApplied

def applyStake (s : State F) (sender : Key) (tx : Tx F) : State F × TxOutcome F :=
  if FloatOps.lt (s.balance sender) tx.amount then s.reject .insufficientForStake
  else
    let s := s.debit sender tx.amount
    let s := { s with staked := s.staked.set sender (s.staked.getD sender 0 + tx.amount) }
    (s.bumpNonce sender tx).done .stakeApplied

def applyUpgradeSignal (T : PyText) (s : State F) (sender : Key) (tx : Tx F) :
    State F × TxOutcome F :=
  match (do (← (tx.data.orElse (.obj [])).item "version").toInt T) with
  | .error _ => s.reject .malformedVersion
  | .ok version =>
    if version ≠ s.protocolVersion + 1 then
      s.reject (.wrongVersion (s.protocolVersion + 1) version)
    else if FloatOps.le (s.stakeOf sender) 0 then s.reject .signalNeedsStake
    else
      let s := { s with upgradeSignals := s.upgradeSignals.add sender }
      (s.bumpNonce sender tx).done (.signalRecorded version)

def applyUnstake (s : State F) (sender : Key) (tx : Tx F) (height : Option ℤ) :
    State F × TxOutcome F :=
  let cur := s.stakeOf sender
  if FloatOps.lt cur tx.amount then s.reject .insufficientForUnstake
  else
    let release := height.getD 0 + unbondingPeriod
    let s := { s with
      staked := s.staked.set sender (cur - tx.amount)
      unbonding := s.unbonding.set sender (s.unbonding.getD sender [] ++ [(tx.amount, release)]) }
    (s.bumpNonce sender tx).done (.unstakeQueued release)

/-- The authentication of a transaction on a chain that requires signatures; `none` lets it
through. -/
def checkSignature (P : Platform) (s : State F) (sender : Key) (tx : Tx F) :
    Option (TxReason F) :=
  if s.requireTxSignatures then
    match s.keys.get? sender with
    | none => some .senderNotRegistered
    | some reg =>
      match tx.recoverTxSigner P with
      | .error (.raised "UnsupportedSchemeError") => some .unsupportedScheme
      | .error _ => some .invalidSignature
      | .ok signer => if P.lower reg ≠ P.lower signer then some .signatureMismatch else none
  else none

/-- `apply_tx(tx, height)`. -/
def applyTx (P : Platform) (s : State F) (tx : Tx F) (height : Option ℤ) :
    State F × TxOutcome F :=
  if !FloatOps.isFinite tx.amount then s.reject .nonFiniteAmount
  else if FloatOps.lt tx.amount 0 then s.reject .negativeAmount
  else if tx.kind = .slash then s.applySlash P tx
  else
    s.andThen (Key.ofJson tx.sender) fun sender =>
    if tx.nonce ≠ s.nonces.getD sender 0 then
      s.reject (.badNonce tx.nonce (s.nonces.getD sender 0))
    else
      match s.checkSignature P sender tx with
      | some r => s.reject r
      | none =>
        match tx.kind with
        | .transfer => s.applyTransfer sender tx
        | .stake => s.applyStake sender tx
        | .upgradeSignal => s.applyUpgradeSignal P.toPyText sender tx
        | .unstake => s.applyUnstake sender tx height
        | .slash => s.applySlash P tx

/-- The loop of `apply_block` over the transactions; one that does not apply raises. -/
def applyTxs (P : Platform) (height : ℤ) :
    State F → List (Tx F) → Except PyErr (State F)
  | s, [] => .ok s
  | s, tx :: txs =>
    match s.applyTx P tx (some height) with
    | (_, .error e) => .error e
    | (_, .ok (false, _)) => .error .valueError
    | (s, .ok (true, _)) => applyTxs P height s txs

/-! ## Protocol upgrades -/

/-- Step (a2): activate the version the header carries, or tally the signals. -/
def upgradeStep (s : State F) (headerVersion height : ℤ) : State F :=
  if s.protocolVersion < headerVersion then
    { s with protocolVersion := headerVersion, upgradeSignals := ∅, upgradeStreak := 0,
             pendingActivation := none }
  else if s.pendingActivation.isNone && !s.upgradeSignals.entries.isEmpty then
    let total := FloatOps.sum s.staked.values
    let signaled := s.upgradeSignaledStake
    let held := FloatOps.lt 0 total &&
      FloatOps.le (total * FloatOps.lit upgradeThresholdNum)
        (signaled * FloatOps.lit upgradeThresholdDen)
    let streak := if held then s.upgradeStreak + 1 else 0
    { s with upgradeStreak := streak,
             pendingActivation :=
               if upgradeWindow ≤ streak then some (height + upgradeActivationDelay) else none }
  else s

/-! ## The reward -/

/-- The positive weights; `toWeight` is `float(w)`, and a negative weight raises. -/
def aggregate {W : Type} (toWeight : W → Except PyErr F) :
    Dict String F → List (String × W) → Except PyErr (Dict String F)
  | agg, [] => .ok agg
  | agg, (addr, w) :: t => do
    let w ← toWeight w
    if FloatOps.lt w 0 then throw .valueError
    aggregate toWeight
      (if FloatOps.lt 0 w then agg.set addr (agg.getD addr 0 + w) else agg) t

def totalWeight (agg : Dict String F) : F := FloatOps.sum agg.values

/-- The header reward, clamped to what the cap leaves. -/
def clampReward (s : State F) (reward : F) : F :=
  FloatOps.max 0 (FloatOps.min reward (FloatOps.lit maxSupply - s.minted))

/-- What each contributor is credited, in address order. -/
def rewardShares (agg : Dict String F) (reward : F) : List (String × F) :=
  agg.sortedItems.map (fun (addr, w) => (addr, reward * (w / totalWeight agg)))

/-- What a block credits, and to whom; nothing without weight or without a reward. -/
def credits (s : State F) (headerReward : F) (agg : Dict String F) : List (String × F) :=
  if FloatOps.lt 0 (totalWeight agg) && FloatOps.lt 0 (s.clampReward headerReward) then
    rewardShares agg (s.clampReward headerReward)
  else []

/-- Step (b): mint what the block credits. -/
def mintReward (s : State F) (headerReward : F) (agg : Dict String F) : State F :=
  (s.credits headerReward agg).foldl (fun s p => s.creditReward (.str p.1) p.2) s

/-! ## The difficulty retarget -/

/-- `_fold_retarget`: `parent` is the state before the block, `s` its child so far. -/
def foldRetarget (parent s : State F) (height headerTs : ℤ) (workScore : F) :
    Except PyErr (State F) :=
  if !parent.retargetEnabled || height < retargetActivationHeight then .ok s
  else do
    let ring := parent.tsRing ++ [headerTs]
    let ring := ring.drop (ring.length - mtpWindow)
    let mtp := (ring.insertionSort (· ≤ ·)).getD (ring.length / 2) 0
    let sample ← FloatOps.round (FloatOps.max 0 workScore * FloatOps.lit workFloorScale)
    let sampleQ := max workFloorMinUnits sample
    let ewma := parent.workEwmaQ + (sampleQ - parent.workEwmaQ) * workEwmaNum / workEwmaDen
    let s := { s with tsRing := ring, workEwmaQ := ewma, lastBlockTs := headerTs }
    if height % retargetWindow = 0 then
      let raw := mtp - parent.retargetAnchorTs
      let lo := targetTimespan / retargetClampNum
      let hi := targetTimespan * retargetClampNum
      let clamped := min hi (max lo (if 0 < raw then raw else lo))
      let newQ := min workFloorMaxUnits
        (max workFloorMinUnits (parent.workFloorQ * targetTimespan / clamped))
      let ceilQ := max workFloorMinUnits (ewma * observedWorkCeilNum / observedWorkCeilDen)
      return { s with workFloorQ := min newQ ceilQ, retargetAnchorTs := mtp,
                      retargetAnchorH := height }
    else return s

/-! ## Blocks -/

/-- `apply_block(block, contributors)`: the state after the block, or the exception. -/
def applyBlock {W : Type} (P : Platform) (toWeight : W → Except PyErr F)
    (s : State F) (block : Block F) (contributors : Dict String W) : Except PyErr (State F) := do
  let height := block.header.height
  if !Json.pyEq block.header.txRoot (.str (← txRoot P block.txs)) then
    throw .valueError
  -- (a0) matured stake, (a) transactions, (a2) upgrades
  let ns ← applyTxs P height (s.matureUnbonding height) block.txs
  let ns := ns.upgradeStep block.header.protocolVersion height
  -- (b) the reward
  let agg ← aggregate toWeight ∅ contributors.entries
  let ns := ns.mintReward block.header.reward agg
  -- (c) the checkpoint, (d) the retarget
  let ns := { ns with modelCheckpoint := block.header.newCheckpoint }
  foldRetarget s ns height block.header.timestamp (FloatOps.max 0 block.header.workScore)

/-! ## What the steps can do -/

/-- One contributor: a readable, nonnegative weight, counted when it is positive. -/
theorem aggregate_cons_eq_ok {W : Type} {toWeight : W → Except PyErr F} {agg agg' : Dict String F}
    {addr : String} {w : W} {l : List (String × W)} :
    aggregate toWeight agg ((addr, w) :: l) = .ok agg' ↔
      ∃ x, toWeight w = .ok x ∧ FloatOps.lt x 0 = false
        ∧ aggregate toWeight
            (if FloatOps.lt 0 x then agg.set addr (agg.getD addr 0 + x) else agg) l = .ok agg' := by
  constructor
  · intro h
    rw [aggregate] at h
    obtain ⟨x, hx, h⟩ := bind_eq_ok.mp h
    refine ⟨x, hx, ?_⟩
    by_cases hneg : FloatOps.lt x 0 = true
    · simp only [hneg, if_true] at h
      cases h
    · simp only [hneg, Bool.false_eq_true, if_false] at h
      exact ⟨Bool.not_eq_true _ ▸ hneg, h⟩
  · rintro ⟨x, hx, hneg, h⟩
    simp only [aggregate, hx, ok_bind, hneg, Bool.false_eq_true, if_false]
    exact h

/-- One contributor of positive weight. -/
theorem aggregate_single {W : Type} {toWeight : W → Except PyErr F} {x : W} {w : F}
    (addr : String) (hx : toWeight x = .ok w) (hneg : FloatOps.lt w 0 = false)
    (hpos : FloatOps.lt 0 w = true) :
    aggregate toWeight ∅ [(addr, x)] = .ok ((∅ : Dict String F).set addr (0 + w)) := by
  simp only [aggregate, hx, ok_bind, hneg, hpos, Bool.false_eq_true, if_false, if_true]
  rfl

theorem rewardShares_single (addr : String) (w reward : F) :
    rewardShares ((∅ : Dict String F).set addr w) reward = [(addr, reward * (w / (0 + w)))] := rfl

/-- **A block applies exactly when its root is the one of its transactions, they all apply, the
weights are read and the retarget is folded**; the result is then the composition. -/
theorem applyBlock_eq_ok {W : Type} {P : Platform}
    {toWeight : W → Except PyErr F} {s s' : State F} {block : Block F}
    {contributors : Dict String W} :
    s.applyBlock P toWeight block contributors = .ok s' ↔
      ∃ root ns agg, txRoot P block.txs = .ok root
        ∧ block.header.txRoot = .str root
        ∧ applyTxs P block.header.height (s.matureUnbonding block.header.height) block.txs
            = .ok ns
        ∧ aggregate toWeight ∅ contributors.entries = .ok agg
        ∧ foldRetarget s
            { (ns.upgradeStep block.header.protocolVersion block.header.height).mintReward
                block.header.reward agg with modelCheckpoint := block.header.newCheckpoint }
            block.header.height block.header.timestamp (FloatOps.max 0 block.header.workScore)
            = .ok s' := by
  unfold applyBlock
  constructor
  · intro h
    obtain ⟨root, hroot, h⟩ := bind_eq_ok.mp h
    by_cases heq : Json.pyEq block.header.txRoot (.str root) = true
    · simp only [heq, Bool.not_true, Bool.false_eq_true, if_false] at h
      obtain ⟨ns, hns, h⟩ := bind_eq_ok.mp h
      obtain ⟨agg, hagg, h⟩ := bind_eq_ok.mp h
      exact ⟨root, ns, agg, hroot, Json.pyEq_str_right.mp heq, hns, hagg, h⟩
    · rw [Bool.not_eq_true] at heq
      simp only [heq, Bool.not_false, if_true] at h
      cases h
  · rintro ⟨root, ns, agg, hroot, heq, hns, hagg, h⟩
    rw [hroot, ok_bind, Json.pyEq_str_right.mpr heq]
    simp only [Bool.not_true, Bool.false_eq_true, if_false, hns, hagg, ok_bind, h]

end State

end NeuraHash
