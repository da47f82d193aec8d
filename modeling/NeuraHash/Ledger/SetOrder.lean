import NeuraHash.Ledger.Outcomes
import NeuraHash.Ledger.Serial

/-!
# What the order of the sets can change

The transition reads the slashed faults by membership only, and the signallers by membership and in
one sum of floats. So two states that differ in the order of their sets (`Reordered`) go through the
transactions of a block alike (`applyTxs_reordered`) and come out of the block equal as Python
compares them (`SameState`), unless the sums of the bonds decide differently on the supermajority
(`applyBlock_reordered`).
-/

namespace NeuraHash.State

open Py

variable {F : Type} [FloatOps F]

/-- Two states that differ in the order of their sets, the lists of their signallers being
related by `R`. -/
structure EqualBut (R : List Key → List Key → Prop) (s s' : State F) : Prop where
  rest : s' = s.withSets s'.slashedFaults s'.upgradeSignals
  faults : ∀ fault, s'.slashedFaults.contains fault = s.slashedFaults.contains fault
  signals : R s.upgradeSignals.keys s'.upgradeSignals.keys

/-- Equal as Python compares states: the sets by their members. -/
abbrev SameState (s s' : State F) : Prop := EqualBut List.Perm s s'

/-- The signallers that were there first are listed as `l` and as `l'`, later ones alike. -/
abbrev Reordered (l l' : List Key) (s s' : State F) : Prop :=
  EqualBut (fun keys keys' => ∃ later, keys = l ++ later ∧ keys' = l' ++ later) s s'

/-- The same outcome, and states that differ in the order of their sets. -/
structure Alike (l l' : List Key) (p p' : State F × TxOutcome F) : Prop where
  state : Reordered l l' p.1 p'.1
  outcome : p'.2 = p.2

/-! ## Steps that do not look at the sets -/

/-- A step that neither reads nor changes the sets. -/
def SetFree (f : State F → State F) : Prop :=
  ∀ s faults signals, f (s.withSets faults signals) = (f s).withSets faults signals

section SetFree

omit [FloatOps F] in
theorem SetFree.keeps {f : State F → State F} (hf : SetFree f) (s : State F) :
    (f s).slashedFaults = s.slashedFaults ∧ (f s).upgradeSignals = s.upgradeSignals := by
  have hsame : f s = (f s).withSets s.slashedFaults s.upgradeSignals :=
    hf s s.slashedFaults s.upgradeSignals
  exact ⟨(congrArg State.slashedFaults hsame).trans rfl,
    (congrArg State.upgradeSignals hsame).trans rfl⟩

omit [FloatOps F] in
/-- Such a step keeps two states equal but for their sets. -/
theorem SetFree.equalBut {f : State F → State F} (hf : SetFree f)
    {R : List Key → List Key → Prop} {s s' : State F} (h : EqualBut R s s') :
    EqualBut R (f s) (f s') := by
  have hkeeps := hf.keeps
  refine ⟨?_, fun fault => ?_, ?_⟩
  · rw [(hkeeps s').1, (hkeeps s').2, ← hf]
    exact congrArg f h.rest
  · rw [(hkeeps s').1, (hkeeps s).1]
    exact h.faults fault
  · rw [(hkeeps s').2, (hkeeps s).2]
    exact h.signals

omit [FloatOps F] in
theorem SetFree.comp {f g : State F → State F} (hf : SetFree f) (hg : SetFree g) :
    SetFree fun s => f (g s) :=
  fun s faults signals => (congrArg f (hg s faults signals)).trans (hf (g s) faults signals)

theorem setFree_credit (addr : Key) (amt : F) : SetFree fun s => s.credit addr amt :=
  fun _ _ _ => rfl

theorem setFree_foldl_credit (addr : Key) (entries : List (F × ℤ)) :
    SetFree fun s : State F => entries.foldl (fun s e => s.credit addr e.1) s := by
  induction entries with
  | nil => exact fun _ _ _ => rfl
  | cons e entries ih => exact ih.comp (setFree_credit addr e.1)

theorem setFree_matureOne (height : ℤ) (addr : Key) :
    SetFree fun s : State F => matureOne height s addr := by
  intro s faults signals
  show matureOne height (s.withSets faults signals) addr
    = (matureOne height s addr).withSets faults signals
  unfold matureOne
  rw [show (s.withSets faults signals).unbonding.get? addr = s.unbonding.get? addr from rfl]
  cases s.unbonding.get? addr with
  | none => rfl
  | some entries =>
    exact congrArg (fun t : State F => t.setUnbonding addr _)
      (setFree_foldl_credit addr _ s faults signals)

theorem setFree_matureUnbonding (height : ℤ) :
    SetFree fun s : State F => s.matureUnbonding height := by
  have hfold : ∀ addrs : List Key,
      SetFree fun s : State F => addrs.foldl (matureOne height) s := by
    intro addrs
    induction addrs with
    | nil => exact fun _ _ _ => rfl
    | cons addr addrs ih => exact ih.comp (setFree_matureOne height addr)
  intro s faults signals
  exact hfold s.unbonding.keys s faults signals

theorem seize_withSets (s : State F) (addr : Key) (amount : Option F) (faults : PySet String)
    (signals : PySet Key) :
    (s.withSets faults signals).seize addr amount
      = ((s.seize addr amount).1.withSets faults signals, (s.seize addr amount).2) := by
  have hstake : ∀ remaining, (s.withSets faults signals).seizeStake addr remaining
      = (s.seizeStake addr remaining).withSets faults signals := by
    intro remaining
    unfold seizeStake
    dsimp only
    split
    · next h => rw [if_pos (by exact h)]; rfl
    · next h => rw [if_neg (by exact h)]
  have hunbonding : ∀ (t : State F) remaining seized,
      (t.withSets faults signals).seizeUnbonding addr remaining seized
        = ((t.seizeUnbonding addr remaining seized).1.withSets faults signals,
          (t.seizeUnbonding addr remaining seized).2) := by
    intro t remaining seized
    unfold seizeUnbonding
    rw [show (t.withSets faults signals).unbonding.get? addr = t.unbonding.get? addr from rfl]
    cases t.unbonding.get? addr with
    | none => rfl
    | some entries =>
      dsimp only
      split
      · rfl
      · rfl
  unfold seize
  dsimp only
  rw [hstake]
  show (if FloatOps.lt 0 (s.seizeTake addr _) = true then _ else _) = _
  split
  · rw [hunbonding]
    rfl
  · rw [hunbonding]

theorem setFree_creditReward (contributor : Key) (amount : F) :
    SetFree fun s : State F => s.creditReward contributor amount := by
  intro s faults signals
  show (s.withSets faults signals).creditReward contributor amount
    = (s.creditReward contributor amount).withSets faults signals
  unfold creditReward
  split
  · rfl
  · rfl

theorem setFree_mintReward (headerReward : F) (agg : Dict String F) :
    SetFree fun s : State F => s.mintReward headerReward agg := by
  have hfold : ∀ shares : List (String × F), SetFree fun s : State F =>
      shares.foldl (fun s p => s.creditReward (.str p.1) p.2) s := by
    intro shares
    induction shares with
    | nil => exact fun _ _ _ => rfl
    | cons share shares ih => exact ih.comp (setFree_creditReward (.str share.1) share.2)
  intro s faults signals
  exact hfold (s.credits headerReward agg) s faults signals

end SetFree

/-! ## Transactions -/

section Transactions

variable {P : Platform} {l l' : List Key} {s s' : State F}

omit [FloatOps F] in
theorem Reordered.exists_withSets (h : Reordered l l' s s') :
    ∃ faults signals, s' = s.withSets faults signals :=
  ⟨_, _, h.rest⟩

omit [FloatOps F] in
theorem Alike.ite {c : Prop} [Decidable c] {p p' q q' : State F × TxOutcome F}
    (h : Alike l l' p p') (h' : Alike l l' q q') :
    Alike l l' (if c then p else q) (if c then p' else q') := by
  split
  · exact h
  · exact h'

omit [FloatOps F] in
theorem Reordered.andThen (h : Reordered l l' s s') {α : Type} (x : Except PyErr α)
    {f f' : α → State F × TxOutcome F} (hf : ∀ a, Alike l l' (f a) (f' a)) :
    Alike l l' (s.andThen x f) (s'.andThen x f') := by
  cases x with
  | error e => exact ⟨h, rfl⟩
  | ok a => exact hf a

omit [FloatOps F] in
theorem Reordered.addFault (h : Reordered l l' s s') (fault : String) :
    Reordered l l' { s with slashedFaults := s.slashedFaults.add fault }
      { s' with slashedFaults := s'.slashedFaults.add fault } := by
  refine ⟨congrArg (fun t : State F => { t with slashedFaults := s'.slashedFaults.add fault })
    h.rest, fun other => ?_, h.signals⟩
  have hother := h.faults other
  unfold Dict.contains at hother ⊢
  show ((s'.slashedFaults.set fault ()).get? other).isSome
    = ((s.slashedFaults.set fault ()).get? other).isSome
  rw [Dict.get?_set, Dict.get?_set]
  split
  · rfl
  · exact hother

omit [FloatOps F] in
theorem Reordered.addSignal (h : Reordered l l' s s') (hperm : l.Perm l') (addr : Key) :
    Reordered l l' { s with upgradeSignals := s.upgradeSignals.add addr }
      { s' with upgradeSignals := s'.upgradeSignals.add addr } := by
  refine ⟨congrArg (fun t : State F => { t with upgradeSignals := s'.upgradeSignals.add addr })
    h.rest, h.faults, ?_⟩
  obtain ⟨later, hkeys, hkeys'⟩ := h.signals
  show ∃ later, (s.upgradeSignals.set addr ()).keys = l ++ later
    ∧ (s'.upgradeSignals.set addr ()).keys = l' ++ later
  rw [Dict.keys_set, Dict.keys_set, hkeys, hkeys']
  have hmem : addr ∈ l' ++ later ↔ addr ∈ l ++ later := by
    rw [List.mem_append, List.mem_append, hperm.mem_iff]
  by_cases hold : addr ∈ l ++ later
  · rw [if_pos hold, if_pos (hmem.mpr hold)]
    exact ⟨later, rfl, rfl⟩
  · rw [if_neg hold, if_neg (fun h => hold (hmem.mp h))]
    exact ⟨later ++ [addr], List.append_assoc .., List.append_assoc ..⟩

theorem Reordered.payBond (h : Reordered l l' s s') (sender : Key) (bond bounty : F)
    (fault : String) :
    Reordered l l' (s.payBond sender bond bounty fault) (s'.payBond sender bond bounty fault) := by
  have hpaid : SetFree fun s : State F =>
      let s := if FloatOps.lt 0 bounty then s.credit sender bounty else s
      { s with treasury := s.treasury + (bond - bounty) } := by
    intro s faults signals
    dsimp only
    split
    · rfl
    · rfl
  have hcredited : Reordered l l' _ _ := hpaid.equalBut h
  exact hcredited.addFault fault

theorem Reordered.seize (h : Reordered l l' s s') (addr : Key) (amount : Option F) :
    Reordered l l' (s.seize addr amount).1 (s'.seize addr amount).1
      ∧ (s'.seize addr amount).2 = (s.seize addr amount).2 := by
  have hfree : SetFree fun s : State F => (s.seize addr amount).1 :=
    fun s faults signals => congrArg Prod.fst (seize_withSets s addr amount faults signals)
  refine ⟨hfree.equalBut h, ?_⟩
  obtain ⟨faults, signals, rfl⟩ := h.exists_withSets
  rw [seize_withSets]

theorem Reordered.burnBond (h : Reordered l l' s s') (tx : Tx F) (addr : Key) (fault : String)
    (reason : F → F → TxReason F) :
    Alike l l' (s.burnBond P tx addr fault reason) (s'.burnBond P tx addr fault reason) := by
  obtain ⟨hseized, hbond⟩ := h.seize addr none
  unfold State.burnBond
  dsimp only
  rw [hbond]
  have hkeys : (s'.seize addr none).1.keys = (s.seize addr none).1.keys := by
    rw [hseized.rest]
    rfl
  have hreporter : (s'.seize addr none).1.reporterBountyOk P tx
      = (s.seize addr none).1.reporterBountyOk P tx := by
    unfold reporterBountyOk
    rw [hkeys]
  rw [hreporter]
  refine hseized.andThen _ fun ok => hseized.andThen _ fun sender => ?_
  exact ⟨hseized.payBond sender _ _ fault, rfl⟩

theorem Reordered.applyVoteFaultSlash (h : Reordered l l' s s') (tx : Tx F) :
    Alike l l' (s.applyVoteFaultSlash P tx) (s'.applyVoteFaultSlash P tx) := by
  have hkeys : s'.keys = s.keys := by
    rw [h.rest]
    rfl
  unfold State.applyVoteFaultSlash
  refine h.andThen _ fun validator => ?_
  split
  · exact ⟨h, rfl⟩
  · dsimp only
    split
    · exact ⟨h, rfl⟩
    · refine h.andThen _ fun addr => ?_
      rw [hkeys]
      split
      · exact ⟨h, rfl⟩
      · refine h.andThen _ fun verdict => ?_
        refine Alike.ite ⟨h, rfl⟩ ?_
        rw [h.faults]
        exact Alike.ite ⟨h, rfl⟩ (h.burnBond tx addr _ _)

theorem Reordered.applyEquivocationSlash (h : Reordered l l' s s') (tx : Tx F) :
    Alike l l' (s.applyEquivocationSlash P tx) (s'.applyEquivocationSlash P tx) := by
  have hkeys : s'.keys = s.keys := by
    rw [h.rest]
    rfl
  unfold State.applyEquivocationSlash
  refine h.andThen _ fun proofD => h.andThen _ fun proposer => Alike.ite ⟨h, rfl⟩ ?_
  split
  · exact ⟨h, rfl⟩
  · refine h.andThen _ fun verdict => ?_
    split
    · exact ⟨h, rfl⟩
    · refine h.andThen _ fun addr => ?_
      rw [hkeys]
      split
      · exact ⟨h, rfl⟩
      · refine Alike.ite ⟨h, rfl⟩ (h.andThen _ fun ca => ?_)
        dsimp only
        rw [h.faults]
        exact Alike.ite ⟨h, rfl⟩ (h.burnBond tx addr _ _)

theorem Reordered.applySlash (h : Reordered l l' s s') (tx : Tx F) :
    Alike l l' (s.applySlash P tx) (s'.applySlash P tx) := by
  unfold State.applySlash
  exact h.andThen _ fun _ => Alike.ite (h.applyVoteFaultSlash tx) (h.applyEquivocationSlash tx)

theorem Reordered.applyTransfer (h : Reordered l l' s s') (sender : Key) (tx : Tx F) :
    Alike l l' (s.applyTransfer sender tx) (s'.applyTransfer sender tx) := by
  have hdebit : SetFree fun s : State F => s.debit sender tx.amount := fun _ _ _ => rfl
  have hpaid : ∀ recipient, SetFree fun s : State F =>
      (s.credit recipient tx.amount).bumpNonce sender tx := fun _ _ _ _ => rfl
  have hbalance : s'.balance sender = s.balance sender := by
    rw [h.rest]
    rfl
  unfold State.applyTransfer
  rw [hbalance]
  refine Alike.ite ⟨h, rfl⟩ (Alike.ite ⟨h, rfl⟩ ?_)
  have hdebited : Reordered l l' _ _ := hdebit.equalBut h
  exact hdebited.andThen _ fun recipient => ⟨(hpaid recipient).equalBut hdebited, rfl⟩

theorem Reordered.applyStake (h : Reordered l l' s s') (sender : Key) (tx : Tx F) :
    Alike l l' (s.applyStake sender tx) (s'.applyStake sender tx) := by
  have hbonded : SetFree fun s : State F =>
      let s := s.debit sender tx.amount
      let s := { s with staked := s.staked.set sender (s.staked.getD sender 0 + tx.amount) }
      s.bumpNonce sender tx := fun _ _ _ => rfl
  have hbalance : s'.balance sender = s.balance sender := by
    rw [h.rest]
    rfl
  unfold State.applyStake
  rw [hbalance]
  exact Alike.ite ⟨h, rfl⟩ ⟨hbonded.equalBut h, rfl⟩

theorem Reordered.applyUnstake (h : Reordered l l' s s') (sender : Key) (tx : Tx F)
    (height : Option ℤ) :
    Alike l l' (s.applyUnstake sender tx height) (s'.applyUnstake sender tx height) := by
  have hqueued : SetFree fun s : State F =>
      let s := { s with
        staked := s.staked.set sender (s.stakeOf sender - tx.amount)
        unbonding := s.unbonding.set sender
          (s.unbonding.getD sender [] ++ [(tx.amount, height.getD 0 + unbondingPeriod)]) }
      s.bumpNonce sender tx := fun _ _ _ => rfl
  have hstake : s'.stakeOf sender = s.stakeOf sender := by
    rw [h.rest]
    rfl
  unfold State.applyUnstake
  dsimp only
  rw [hstake]
  refine Alike.ite ⟨h, rfl⟩ ⟨?_, rfl⟩
  have hreordered := hqueued.equalBut h
  rw [hstake] at hreordered
  exact hreordered

theorem Reordered.applyUpgradeSignal (h : Reordered l l' s s') (hperm : l.Perm l') (T : PyText)
    (sender : Key) (tx : Tx F) :
    Alike l l' (s.applyUpgradeSignal T sender tx) (s'.applyUpgradeSignal T sender tx) := by
  have hbump : SetFree fun s : State F => s.bumpNonce sender tx := fun _ _ _ => rfl
  have hversion : s'.protocolVersion = s.protocolVersion := by
    rw [h.rest]
    rfl
  have hstake : s'.stakeOf sender = s.stakeOf sender := by
    rw [h.rest]
    rfl
  unfold State.applyUpgradeSignal
  split
  · exact ⟨h, rfl⟩
  · rw [hversion, hstake]
    have hsignal := h.addSignal hperm sender
    rw [hversion] at hsignal
    exact Alike.ite ⟨h, rfl⟩ (Alike.ite ⟨h, rfl⟩ ⟨hbump.equalBut hsignal, rfl⟩)

/-- **A transaction does the same to both states**, and keeps them alike. -/
theorem Reordered.applyTx (h : Reordered l l' s s') (hperm : l.Perm l') (tx : Tx F)
    (height : Option ℤ) : Alike l l' (s.applyTx P tx height) (s'.applyTx P tx height) := by
  unfold State.applyTx
  refine Alike.ite ⟨h, rfl⟩ (Alike.ite ⟨h, rfl⟩ (Alike.ite (h.applySlash tx) ?_))
  refine h.andThen _ fun sender => ?_
  have hnonce : s'.nonces = s.nonces := by
    rw [h.rest]
    rfl
  have hsigned : s'.checkSignature P sender tx = s.checkSignature P sender tx := by
    rw [h.rest]
    rfl
  rw [hnonce, hsigned]
  refine Alike.ite ⟨h, rfl⟩ ?_
  split
  · exact ⟨h, rfl⟩
  · cases tx.kind with
    | transfer => exact h.applyTransfer sender tx
    | stake => exact h.applyStake sender tx
    | upgradeSignal => exact h.applyUpgradeSignal hperm P.toPyText sender tx
    | unstake => exact h.applyUnstake sender tx height
    | slash => exact h.applySlash tx

/-- The transactions of a block raise the same, or lead to states that are alike. -/
theorem Reordered.applyTxs (h : Reordered l l' s s') (hperm : l.Perm l') (height : ℤ)
    (txs : List (Tx F)) :
    (∃ e, State.applyTxs P height s txs = .error e ∧ State.applyTxs P height s' txs = .error e)
      ∨ ∃ t t', State.applyTxs P height s txs = .ok t ∧ State.applyTxs P height s' txs = .ok t'
        ∧ Reordered l l' t t' := by
  induction txs generalizing s s' with
  | nil => exact .inr ⟨s, s', rfl, rfl, h⟩
  | cons tx txs ih =>
    obtain ⟨hstate, houtcome⟩ := h.applyTx (P := P) hperm tx (some height)
    unfold State.applyTxs
    generalize s.applyTx P tx (some height) = p at hstate houtcome
    generalize s'.applyTx P tx (some height) = p' at hstate houtcome
    obtain ⟨t, outcome⟩ := p
    obtain ⟨t', outcome'⟩ := p'
    cases houtcome
    cases outcome with
    | error e => exact .inl ⟨e, rfl, rfl⟩
    | ok verdict =>
      obtain ⟨applied, reason⟩ := verdict
      cases applied with
      | false => exact .inl ⟨_, rfl, rfl⟩
      | true => exact ih hstate

end Transactions

/-! ## The supermajority -/

/-- The two thirds of step (a2), with the bonds of the signallers summed in this order. -/
def supermajority (s : State F) (signallers : List Key) : Bool :=
  let total := FloatOps.sum s.staked.values
  FloatOps.lt 0 total &&
    FloatOps.le (total * FloatOps.lit upgradeThresholdNum)
      (FloatOps.sum (signallers.map fun a => s.staked.getD a 0) * FloatOps.lit upgradeThresholdDen)

/-- The streak after a block that tallies the signals. -/
def nextStreak (s : State F) (signallers : List Key) : ℤ :=
  if s.supermajority signallers then s.upgradeStreak + 1 else 0

/-- A block of this version tallies the signals. -/
def Tallies (s : State F) (headerVersion : ℤ) : Prop :=
  ¬ s.protocolVersion < headerVersion ∧ s.pendingActivation = none ∧ s.upgradeSignals.keys ≠ []

/-- The same exception, or equal states. -/
def SameResult : Except PyErr (State F) → Except PyErr (State F) → Prop
  | .ok s, .ok s' => SameState s s'
  | .error e, .error e' => e = e'
  | _, _ => False

section Block

variable {P : Platform} {l l' : List Key} {s s' : State F}

theorem upgradeStep_tallies {headerVersion : ℤ} (h : s.Tallies headerVersion) (height : ℤ) :
    s.upgradeStep headerVersion height = { s with
      upgradeStreak := s.nextStreak s.upgradeSignals.keys
      pendingActivation :=
        if upgradeWindow ≤ s.nextStreak s.upgradeSignals.keys then
          some (height + upgradeActivationDelay) else none } := by
  obtain ⟨hversion, hpending, hsignals⟩ := h
  have hnonempty : s.upgradeSignals.entries.isEmpty = false := by
    cases hentries : s.upgradeSignals.entries with
    | nil => exact absurd (congrArg (List.map Prod.fst) hentries) hsignals
    | cons e entries => rfl
  unfold upgradeStep
  rw [if_neg hversion, hpending, hnonempty]
  rfl

theorem upgradeStep_of_not_tallies {headerVersion : ℤ} (h : ¬ s.Tallies headerVersion)
    (height : ℤ) :
    s.upgradeStep headerVersion height = if s.protocolVersion < headerVersion then
        { s with protocolVersion := headerVersion, upgradeSignals := ∅, upgradeStreak := 0,
                 pendingActivation := none }
      else s := by
  unfold upgradeStep
  split
  · rfl
  · next hversion =>
    rw [if_neg]
    intro htally
    rw [Bool.and_eq_true, Bool.not_eq_true', Option.isNone_iff_eq_none] at htally
    refine h ⟨hversion, htally.1, fun hkeys => ?_⟩
    rw [List.map_eq_nil_iff.mp hkeys] at htally
    cases htally.2

/-- The steps after the upgrade bookkeeping keep the streak. -/
theorem upgradeStreak_mintReward (headerReward : F) (agg : Dict String F) :
    (s.mintReward headerReward agg).upgradeStreak = s.upgradeStreak := by
  have hfold : ∀ (shares : List (String × F)) (s : State F),
      (shares.foldl (fun s p => s.creditReward (.str p.1) p.2) s).upgradeStreak
        = s.upgradeStreak := by
    intro shares
    induction shares with
    | nil => exact fun _ => rfl
    | cons share shares ih =>
      intro s
      refine (ih _).trans ?_
      show (s.creditReward _ _).upgradeStreak = _
      unfold creditReward
      split
      · rfl
      · rfl
  exact hfold _ s

/-- The fold of the retarget does not look at the sets. -/
theorem foldRetarget_withSets (parent : State F) (faults faults' : PySet String)
    (signals signals' : PySet Key) (height headerTs : ℤ) (workScore : F) :
    foldRetarget (parent.withSets faults signals) (s.withSets faults' signals') height headerTs
        workScore
      = (foldRetarget parent s height headerTs workScore).map
          fun t => t.withSets faults' signals' := by
  unfold foldRetarget
  show (if (!parent.retargetEnabled || decide (height < retargetActivationHeight)) = true then _
    else _) = _
  split
  · rfl
  · cases FloatOps.round (FloatOps.max 0 workScore * FloatOps.lit workFloorScale) with
    | error e => rfl
    | ok sample =>
      rw [ok_bind, ok_bind]
      dsimp only
      split
      · rfl
      · rfl

theorem foldRetarget_keeps {parent t : State F} {height headerTs : ℤ} {workScore : F}
    (h : foldRetarget parent s height headerTs workScore = .ok t) :
    t.slashedFaults = s.slashedFaults ∧ t.upgradeSignals = s.upgradeSignals
      ∧ t.upgradeStreak = s.upgradeStreak := by
  unfold foldRetarget at h
  split at h
  · cases h
    exact ⟨rfl, rfl, rfl⟩
  · obtain ⟨sample, _, h⟩ := bind_eq_ok.mp h
    dsimp only at h
    split at h
    · cases h
      exact ⟨rfl, rfl, rfl⟩
    · cases h
      exact ⟨rfl, rfl, rfl⟩

/-- The fold fails on the work score, whatever the child is. -/
theorem foldRetarget_eq_error {parent : State F} {height headerTs : ℤ} {workScore : F}
    {e : PyErr} :
    foldRetarget parent s height headerTs workScore = .error e ↔
      (!parent.retargetEnabled || decide (height < retargetActivationHeight)) = false
        ∧ FloatOps.round (FloatOps.max 0 workScore * FloatOps.lit workFloorScale) = .error e := by
  unfold foldRetarget
  split
  · next h => exact iff_of_false (fun h' => by cases h') (fun h' => by rw [h] at h'; cases h'.1)
  · next h =>
    rw [Bool.not_eq_true] at h
    rw [and_iff_right h]
    cases FloatOps.round (FloatOps.max 0 workScore * FloatOps.lit workFloorScale) with
    | error e' => simp only [error_bind, Except.error.injEq]
    | ok sample =>
      refine iff_of_false (fun h' => ?_) (fun h' => by cases h')
      rw [ok_bind] at h'
      dsimp only at h'
      split at h'
      · cases h'
      · cases h'

omit [FloatOps F] in
theorem Reordered.perm (h : Reordered l l' s s') (hperm : l.Perm l') :
    s.upgradeSignals.keys.Perm s'.upgradeSignals.keys := by
  obtain ⟨later, hkeys, hkeys'⟩ := h.signals
  rw [hkeys, hkeys']
  exact hperm.append_right later

omit [FloatOps F] in
theorem Reordered.tallies (h : Reordered l l' s s') (hperm : l.Perm l') (headerVersion : ℤ) :
    s'.Tallies headerVersion ↔ s.Tallies headerVersion := by
  have hkeys := h.perm hperm
  obtain ⟨faults, signals, rfl⟩ := h.exists_withSets
  have hnil : signals.keys ≠ [] ↔ s.upgradeSignals.keys ≠ [] :=
    not_congr ⟨fun h => (h ▸ hkeys).eq_nil, fun h => (h ▸ hkeys).symm.eq_nil⟩
  exact and_congr Iff.rfl (and_congr Iff.rfl hnil)

theorem Reordered.nextStreak (h : Reordered l l' s s') (signallers : List Key) :
    s'.nextStreak signallers = s.nextStreak signallers := by
  rw [h.rest]
  rfl

/-- The upgrade bookkeeping tells reordered states apart by the streak alone. -/
theorem upgradeStep_sameState (h : Reordered l l' s s') (hperm : l.Perm l')
    (headerVersion height : ℤ) :
    SameState (s.upgradeStep headerVersion height) (s'.upgradeStep headerVersion height) ↔
      (s.Tallies headerVersion →
        s.nextStreak s'.upgradeSignals.keys = s.nextStreak s.upgradeSignals.keys) := by
  have hkeys := h.perm hperm
  have htallies := h.tallies hperm headerVersion
  by_cases htally : s.Tallies headerVersion
  · rw [upgradeStep_tallies htally, upgradeStep_tallies (htallies.mpr htally), h.nextStreak]
    refine ⟨fun hsame _ => ?_, fun hagree => ?_⟩
    · exact congrArg State.upgradeStreak hsame.rest
    · rw [hagree htally]
      have hrecorded : ∀ streak pending, SetFree fun s : State F => { s with
          upgradeStreak := streak
          pendingActivation := pending } := fun _ _ _ _ _ => rfl
      exact (hrecorded _ _).equalBut ⟨h.rest, h.faults, hkeys⟩
  · rw [upgradeStep_of_not_tallies htally, upgradeStep_of_not_tallies (mt htallies.mp htally)]
    refine ⟨fun _ h => absurd h htally, fun _ => ?_⟩
    have hfaults := h.faults
    obtain ⟨faults, signals, rfl⟩ := h.exists_withSets
    show SameState (if s.protocolVersion < headerVersion then _ else _)
      (if s.protocolVersion < headerVersion then _ else _)
    split
    · exact ⟨rfl, hfaults, List.Perm.refl _⟩
    · exact ⟨rfl, hfaults, hkeys⟩

/-! ## Blocks -/

/-- The signallers of `s` summed in the order `l` come to the decision of the order they are held
in, in the block that tallies them; those who signal in the block follow. -/
def TallyAgrees (P : Platform) (s : State F) (l : List Key) (block : Block F) : Prop :=
  ∀ ns, State.applyTxs P block.header.height (s.matureUnbonding block.header.height) block.txs
      = .ok ns →
    ns.Tallies block.header.protocolVersion →
      ns.nextStreak (l ++ ns.upgradeSignals.keys.drop s.upgradeSignals.keys.length)
        = ns.nextStreak ns.upgradeSignals.keys

/-- Steps (b) and (c) of a block, after the tally. -/
def payOut (block : Block F) (agg : Dict String F) (ns : State F) : State F :=
  { ns.mintReward block.header.reward agg with modelCheckpoint := block.header.newCheckpoint }

theorem setFree_payOut (block : Block F) (agg : Dict String F) : SetFree (payOut block agg) :=
  fun ns faults signals =>
    congrArg (fun t : State F => { t with modelCheckpoint := block.header.newCheckpoint })
      (setFree_mintReward block.header.reward agg ns faults signals)

/-- What comes after the tally keeps the streak. -/
theorem upgradeStreak_of_fold {parent ns t : State F} {block : Block F} {agg : Dict String F}
    {height headerTs : ℤ} {workScore : F}
    (h : foldRetarget parent (payOut block agg ns) height headerTs workScore = .ok t) :
    t.upgradeStreak = ns.upgradeStreak :=
  (foldRetarget_keeps h).2.2.trans (upgradeStreak_mintReward block.header.reward agg)

variable {W : Type} {toWeight : W → Except PyErr F} {contributors : Dict String W}

/-- **A block that applies does the same to both states exactly when its tally does not depend on
the order of the signallers**; a block that raises raises the same. -/
theorem applyBlock_reordered (h : Reordered s.upgradeSignals.keys l' s s')
    (hperm : s.upgradeSignals.keys.Perm l') (block : Block F) :
    SameResult (s.applyBlock P toWeight block contributors)
        (s'.applyBlock P toWeight block contributors)
      ↔ ((∃ t, s.applyBlock P toWeight block contributors = .ok t) → TallyAgrees P s l' block) := by
  have hmatured : Reordered s.upgradeSignals.keys l'
      (s.matureUnbonding block.header.height) (s'.matureUnbonding block.header.height) :=
    (setFree_matureUnbonding block.header.height).equalBut h
  unfold applyBlock
  cases txRoot P block.txs with
  | error e => exact iff_of_true rfl (fun ⟨_, h⟩ => by cases h)
  | ok root =>
  rw [ok_bind, ok_bind]
  split
  · exact iff_of_true rfl (fun ⟨_, h⟩ => by cases h)
  rcases hmatured.applyTxs (P := P) hperm block.header.height block.txs with
    ⟨e, he, he'⟩ | ⟨t, t', ht, ht', htxs⟩
  · rw [he, he']
    exact iff_of_true rfl (fun ⟨_, h⟩ => by cases h)
  rw [ht, ht', ok_bind, ok_bind]
  cases aggregate toWeight ∅ contributors.entries with
  | error e => exact iff_of_true rfl (fun ⟨_, h⟩ => by cases h)
  | ok agg =>
  rw [ok_bind, ok_bind]
  have htally : TallyAgrees P s l' block ↔ (t.Tallies block.header.protocolVersion →
      t.nextStreak t'.upgradeSignals.keys = t.nextStreak t.upgradeSignals.keys) := by
    obtain ⟨later, hkeys, hkeys'⟩ := htxs.signals
    unfold TallyAgrees
    rw [ht]
    constructor
    · intro hagree htallies
      have hstreak := hagree t rfl htallies
      rwa [hkeys, List.drop_left, ← hkeys', ← hkeys] at hstreak
    · intro hagree ns hns htallies
      cases hns
      rw [hkeys, List.drop_left, ← hkeys', ← hkeys]
      exact hagree htallies
  rw [htally, ← upgradeStep_sameState htxs hperm _ block.header.height]
  show SameResult
      (foldRetarget s (payOut block agg (t.upgradeStep _ _)) _ _ _)
      (foldRetarget s' (payOut block agg (t'.upgradeStep _ _)) _ _ _)
    ↔ ((∃ x, foldRetarget s (payOut block agg (t.upgradeStep _ _)) _ _ _ = .ok x) → _)
  have henabled : s'.retargetEnabled = s.retargetEnabled := by
    rw [h.rest]
    rfl
  cases hfold : foldRetarget s (payOut block agg (t.upgradeStep block.header.protocolVersion
      block.header.height)) block.header.height block.header.timestamp
      (FloatOps.max 0 block.header.workScore) with
  | error e =>
    have hcause := foldRetarget_eq_error.mp hfold
    rw [← henabled] at hcause
    rw [foldRetarget_eq_error.mpr hcause]
    exact iff_of_true rfl (fun ⟨_, h⟩ => by cases h)
  | ok x =>
  constructor
  · intro hsame _
    refine (upgradeStep_sameState htxs hperm _ _).mpr fun htallies => ?_
    cases hfold' : foldRetarget s' (payOut block agg (t'.upgradeStep block.header.protocolVersion
        block.header.height)) block.header.height block.header.timestamp
        (FloatOps.max 0 block.header.workScore) with
    | error e =>
      rw [hfold'] at hsame
      exact hsame.elim
    | ok x' =>
      rw [hfold'] at hsame
      have hstreak : x'.upgradeStreak = x.upgradeStreak := by
        rw [EqualBut.rest hsame]
        rfl
      rw [upgradeStreak_of_fold hfold, upgradeStreak_of_fold hfold', upgradeStep_tallies htallies,
        upgradeStep_tallies ((htxs.tallies hperm _).mpr htallies)] at hstreak
      exact (htxs.nextStreak _).symm.trans hstreak
  · intro hagree
    have hchild := (setFree_payOut block agg).equalBut (hagree ⟨x, rfl⟩)
    obtain ⟨faults, signals, rfl⟩ := h.exists_withSets
    obtain ⟨hfaults, hsignals, _⟩ := foldRetarget_keeps hfold
    rw [hchild.rest, foldRetarget_withSets, hfold]
    refine ⟨rfl, fun fault => ?_, ?_⟩
    · rw [hfaults]
      exact hchild.faults fault
    · rw [hsignals]
      exact hchild.signals

end Block

end NeuraHash.State
