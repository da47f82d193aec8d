import NeuraHash.Ledger.Minting
import NeuraHash.Ledger.Outcomes

/-!
# Runs of blocks

What each part of `applyBlock` can touch, and from it what a block can touch beside its
transactions and the upgrade bookkeeping (`applyBlock_parts`). Then the runs: blocks applied one
after the other (`BlockRun`), and the states between two transactions of the block that extends such
a run (`Within`). A block that raises is no part of a run, as `apply_block` works on a copy.
-/

namespace NeuraHash.State

open Py

variable {F : Type} [FloatOps F]

/-! ## What the parts of a block touch -/

theorem matureOne_eq (height : ℤ) (s : State F) (addr : Key) :
    matureOne height s addr = { s with
      bal := (matureOne height s addr).bal
      unbonding := (matureOne height s addr).unbonding } := by
  have hcredits : ∀ (entries : List (F × ℤ)) (s : State F),
      entries.foldl (fun s e => s.credit addr e.1) s
        = { s with bal := (entries.foldl (fun s e => s.credit addr e.1) s).bal } := by
    intro entries
    induction entries with
    | nil => exact fun _ => rfl
    | cons e entries ih =>
      intro s
      rw [List.foldl_cons, ih]
      rfl
  unfold matureOne
  cases s.unbonding.get? addr with
  | none => rfl
  | some entries =>
    dsimp only
    rw [hcredits]
    rfl

/-- Maturing stake touches the balances and the queue only. -/
theorem matureUnbonding_eq (s : State F) (height : ℤ) :
    s.matureUnbonding height = { s with
      bal := (s.matureUnbonding height).bal
      unbonding := (s.matureUnbonding height).unbonding } := by
  have hfold : ∀ (addrs : List Key) (s : State F), addrs.foldl (matureOne height) s = { s with
      bal := (addrs.foldl (matureOne height) s).bal
      unbonding := (addrs.foldl (matureOne height) s).unbonding } := by
    intro addrs
    induction addrs with
    | nil => exact fun _ => rfl
    | cons addr addrs ih =>
      intro s
      rw [List.foldl_cons, ih, matureOne_eq]
  exact hfold _ s

/-- A seizure touches the bonds and the queue only. -/
theorem seize_eq (s : State F) (addr : Key) (amount : Option F) :
    (s.seize addr amount).1 = { s with
      staked := (s.seize addr amount).1.staked
      unbonding := (s.seize addr amount).1.unbonding } := by
  have hstake : ∀ remaining, s.seizeStake addr remaining
      = { s with staked := (s.seizeStake addr remaining).staked } := by
    intro remaining
    unfold seizeStake
    dsimp only
    split
    · rfl
    · rfl
  have hunbonding : ∀ (t : State F) remaining seized,
      (t.seizeUnbonding addr remaining seized).1
        = { t with unbonding := (t.seizeUnbonding addr remaining seized).1.unbonding } := by
    intro t remaining seized
    unfold seizeUnbonding
    cases t.unbonding.get? addr with
    | none => rfl
    | some entries =>
      dsimp only
      split
      · rfl
      · rfl
  unfold seize
  dsimp only
  split
  · rw [hunbonding, hstake]
  · rw [hunbonding, hstake]

theorem payBond_eq (s : State F) (sender : Key) (bond bounty : F) (fault : String) :
    s.payBond sender bond bounty fault = { s with
      bal := (s.payBond sender bond bounty fault).bal
      treasury := s.treasury + (bond - bounty)
      slashedFaults := s.slashedFaults.add fault } := by
  unfold payBond
  dsimp only
  split
  · rfl
  · rfl

/-- The bookkeeping of the upgrades touches nothing else. -/
theorem upgradeStep_eq (s : State F) (headerVersion height : ℤ) :
    s.upgradeStep headerVersion height = { s with
      protocolVersion := (s.upgradeStep headerVersion height).protocolVersion
      upgradeSignals := (s.upgradeStep headerVersion height).upgradeSignals
      upgradeStreak := (s.upgradeStep headerVersion height).upgradeStreak
      pendingActivation := (s.upgradeStep headerVersion height).pendingActivation } := by
  unfold upgradeStep
  split
  · rfl
  · split
    · rfl
    · rfl

/-- The last steps of a block, minting, the checkpoint and the retarget, keep the rest. -/
structure Settles (s s' : State F) : Prop where
  nonces : s'.nonces = s.nonces
  keys : s'.keys = s.keys
  slashedFaults : s'.slashedFaults = s.slashedFaults
  staked : s'.staked = s.staked
  unbonding : s'.unbonding = s.unbonding
  treasury : s'.treasury = s.treasury
  protocolVersion : s'.protocolVersion = s.protocolVersion
  upgradeSignals : s'.upgradeSignals = s.upgradeSignals
  upgradeStreak : s'.upgradeStreak = s.upgradeStreak
  pendingActivation : s'.pendingActivation = s.pendingActivation

theorem settles_foldRetarget {parent s t : State F} {height headerTs : ℤ} {workScore : F}
    (h : foldRetarget parent s height headerTs workScore = .ok t) : Settles s t := by
  unfold foldRetarget at h
  split at h
  · cases h
    exact ⟨rfl, rfl, rfl, rfl, rfl, rfl, rfl, rfl, rfl, rfl⟩
  · obtain ⟨sample, -, h⟩ := bind_eq_ok.mp h
    dsimp only at h
    split at h
    · cases h
      exact ⟨rfl, rfl, rfl, rfl, rfl, rfl, rfl, rfl, rfl, rfl⟩
    · cases h
      exact ⟨rfl, rfl, rfl, rfl, rfl, rfl, rfl, rfl, rfl, rfl⟩

/-- **A block is its transactions, the upgrade bookkeeping, and steps that keep the rest.** -/
theorem applyBlock_parts {W : Type} {P : Platform} {toWeight : W → Except PyErr F}
    {s s' : State F} {block : Block F} {contributors : Dict String W}
    (h : s.applyBlock P toWeight block contributors = .ok s') :
    ∃ ns, applyTxs P block.header.height (s.matureUnbonding block.header.height) block.txs = .ok ns
      ∧ Settles (ns.upgradeStep block.header.protocolVersion block.header.height) s' := by
  obtain ⟨root, ns, agg, -, -, htxs, -, hfold⟩ := applyBlock_eq_ok.mp h
  refine ⟨ns, htxs, ?_⟩
  have hsettles := settles_foldRetarget hfold
  rw [mintReward_eq] at hsettles
  exact ⟨hsettles.nonces, hsettles.keys, hsettles.slashedFaults, hsettles.staked,
    hsettles.unbonding, hsettles.treasury, hsettles.protocolVersion, hsettles.upgradeSignals,
    hsettles.upgradeStreak, hsettles.pendingActivation⟩

/-! ## Runs -/

/-- Blocks that apply one after the other, each with contributors of its own. -/
inductive BlockRun (P : Platform) : State F → List (Block F) → State F → Prop where
  | nil (s : State F) : BlockRun P s [] s
  | cons {W : Type} {toWeight : W → Except PyErr F} {contributors : Dict String W}
      {s s₁ s' : State F} {block : Block F} {blocks : List (Block F)}
      (happly : s.applyBlock P toWeight block contributors = .ok s₁)
      (hrun : BlockRun P s₁ blocks s') : BlockRun P s (block :: blocks) s'

/-- The transactions of a run, in the order in which they are applied. -/
def txsOf (blocks : List (Block F)) : List (Tx F) := blocks.flatMap (·.txs)

/-- `m` is met after the blocks of a run from `s`, or inside a block that extends one: the
transactions `txs`, those of the run and the first ones of the block, are applied by then. -/
inductive Within (P : Platform) (s : State F) : List (Tx F) → State F → Prop where
  | between {m : State F} {blocks : List (Block F)} (hrun : BlockRun P s blocks m) :
      Within P s (txsOf blocks) m
  | inside {s₁ m : State F} {blocks : List (Block F)} {first : List (Tx F)} (height : ℤ)
      (hrun : BlockRun P s blocks s₁)
      (hfirst : applyTxs P height (s₁.matureUnbonding height) first = .ok m) :
      Within P s (txsOf blocks ++ first) m

/-- One transaction that applies, at the head of the list. -/
theorem applyTxs_cons_eq_ok {P : Platform} {height : ℤ} {s s' : State F} {tx : Tx F}
    {txs : List (Tx F)} :
    applyTxs P height s (tx :: txs) = .ok s' ↔
      ∃ s₁ reason, s.applyTx P tx (some height) = (s₁, .ok (true, reason))
        ∧ applyTxs P height s₁ txs = .ok s' := by
  rw [applyTxs]
  constructor
  · intro h
    split at h
    · cases h
    · cases h
    · next s₁ reason hcall => exact ⟨s₁, reason, hcall, h⟩
  · intro ⟨s₁, reason, hcall, h⟩
    rw [hcall]
    exact h

/-- `R` relates what is applied to the state it led to, whatever a block does. -/
structure RunInvariant (P : Platform) (R : List (Tx F) → State F → Prop) : Prop where
  mature : ∀ txs s height, R txs s → R txs (s.matureUnbonding height)
  tx : ∀ txs s tx height s' reason, R txs s →
    s.applyTx P tx (some height) = (s', .ok (true, reason)) → R (txs ++ [tx]) s'
  settle : ∀ txs s version height s', R txs s → Settles (s.upgradeStep version height) s' → R txs s'

namespace RunInvariant

variable {P : Platform} {R : List (Tx F) → State F → Prop}

theorem applyTxs (hR : RunInvariant P R) {height : ℤ} {later txs : List (Tx F)} {s s' : State F}
    (h : R txs s) (happly : State.applyTxs P height s later = .ok s') : R (txs ++ later) s' := by
  induction later generalizing txs s with
  | nil =>
    cases happly
    rwa [List.append_nil]
  | cons tx later ih =>
    obtain ⟨s₁, reason, hcall, happly⟩ := applyTxs_cons_eq_ok.mp happly
    have hnext := ih (hR.tx _ _ _ _ _ _ h hcall) happly
    rwa [List.append_assoc] at hnext

/-- Every run keeps an invariant. -/
theorem run (hR : RunInvariant P R) {s s' : State F} {blocks : List (Block F)}
    (hrun : BlockRun P s blocks s') {txs : List (Tx F)} (h : R txs s) :
    R (txs ++ txsOf blocks) s' := by
  induction hrun generalizing txs with
  | nil => rwa [txsOf, List.flatMap_nil, List.append_nil]
  | cons happly _ ih =>
    obtain ⟨ns, happlied, hsettles⟩ := applyBlock_parts happly
    have hnext := ih (hR.settle _ _ _ _ _ (hR.applyTxs (hR.mature _ _ _ h) happlied) hsettles)
    rwa [List.append_assoc] at hnext

/-- An invariant holds wherever a run stands. -/
theorem within (hR : RunInvariant P R) {s m : State F} {txs : List (Tx F)} (h : R [] s)
    (hwithin : Within P s txs m) : R txs m := by
  cases hwithin with
  | between hrun => exact hR.run hrun h
  | inside height hrun hfirst =>
    have hblocks := hR.run hrun h
    exact hR.applyTxs (hR.mature _ _ _ hblocks) hfirst

end RunInvariant

/-! ## A root to commit to -/

theorem exists_txRoot_ideal {tx : Tx F} {b : Bytes}
    (h : tx.canonicalBytes Platform.ideal.toPyText = .ok b) :
    ∃ root, txRoot Platform.ideal [tx] = .ok root := by
  refine ⟨Platform.ideal.sha256 [(255 :: b)].flatten, ?_⟩
  have htxid : tx.txid Platform.ideal = .ok (Platform.ideal.sha256 b) := by
    unfold Tx.txid
    rw [h]
    rfl
  unfold txRoot
  rw [if_neg (by simp), List.mapM_cons, htxid]
  rw [ok_bind, Platform.fromHex_ideal]
  rfl

end NeuraHash.State
