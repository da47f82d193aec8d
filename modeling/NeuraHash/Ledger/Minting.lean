import NeuraHash.Ledger.Transition

/-!
# What a block mints

Minting touches the balances and the minted amount only (`mintReward_eq`) and depends on nothing
else (`mintReward_congr`). A state without an unbonding queue and with the retarget off is
`Plain`; a block without transactions leaves such a state plain and only mints
(`applyBlock_plain`, `applyBlock_plain_inv`).
-/

namespace NeuraHash

open Py

namespace State

/-! ## Minting touches the balances and the minted amount only -/

section Frame

variable {F : Type} [FloatOps F]

theorem creditReward_eq (s : State F) (addr : Key) (amount : F) :
    s.creditReward addr amount = { s with
      bal := (s.creditReward addr amount).bal, minted := (s.creditReward addr amount).minted } := by
  unfold creditReward
  split <;> rfl

theorem mintReward_eq (s : State F) (reward : F) (agg : Dict String F) :
    s.mintReward reward agg = { s with
      bal := (s.mintReward reward agg).bal, minted := (s.mintReward reward agg).minted } := by
  have hfold : ∀ (shares : List (String × F)) (s : State F),
      shares.foldl (fun s p => s.creditReward (.str p.1) p.2) s = { s with
        bal := (shares.foldl (fun s p => s.creditReward (.str p.1) p.2) s).bal
        minted := (shares.foldl (fun s p => s.creditReward (.str p.1) p.2) s).minted } := by
    intro shares
    induction shares with
    | nil => intro s; rfl
    | cons p shares ih =>
      intro s
      rw [List.foldl_cons, ih, creditReward_eq s]
  exact hfold _ s

/-- What is minted depends on the balances and the minted amount only. -/
theorem mintReward_congr {s t : State F} (hbal : s.bal = t.bal) (hminted : s.minted = t.minted)
    (reward : F) (agg : Dict String F) :
    (s.mintReward reward agg).bal = (t.mintReward reward agg).bal
      ∧ (s.mintReward reward agg).minted = (t.mintReward reward agg).minted := by
  have hcredit : ∀ (s t : State F) (addr : Key) (amount : F), s.bal = t.bal → s.minted = t.minted →
      (s.creditReward addr amount).bal = (t.creditReward addr amount).bal
        ∧ (s.creditReward addr amount).minted = (t.creditReward addr amount).minted := by
    intro s t addr amount hb hm
    unfold creditReward credit
    split
    · exact ⟨hb, hm⟩
    · exact ⟨by simp only [hb], by simp only [hm]⟩
  have hfold : ∀ (shares : List (String × F)) (s t : State F), s.bal = t.bal →
      s.minted = t.minted →
      (shares.foldl (fun s p => s.creditReward (.str p.1) p.2) s).bal
          = (shares.foldl (fun s p => s.creditReward (.str p.1) p.2) t).bal
        ∧ (shares.foldl (fun s p => s.creditReward (.str p.1) p.2) s).minted
          = (shares.foldl (fun s p => s.creditReward (.str p.1) p.2) t).minted := by
    intro shares
    induction shares with
    | nil => exact fun s t hb hm => ⟨hb, hm⟩
    | cons p shares ih =>
      intro s t hb hm
      obtain ⟨hb', hm'⟩ := hcredit s t (.str p.1) p.2 hb hm
      exact ih _ _ hb' hm'
  have hcredits : s.credits reward agg = t.credits reward agg := by
    unfold credits clampReward
    rw [hminted]
  unfold mintReward
  rw [hcredits]
  exact hfold _ s t hbal hminted

theorem upgradeStep_frame (s : State F) (version height : ℤ) :
    (s.upgradeStep version height).bal = s.bal
      ∧ (s.upgradeStep version height).minted = s.minted
      ∧ (s.upgradeStep version height).unbonding = s.unbonding
      ∧ (s.upgradeStep version height).retargetEnabled = s.retargetEnabled := by
  unfold upgradeStep
  split
  · exact ⟨rfl, rfl, rfl, rfl⟩
  · split <;> exact ⟨rfl, rfl, rfl, rfl⟩

end Frame

/-- Only the addresses of the weights are credited. -/
theorem mem_keys_of_mem_credits {F : Type} [FloatOps F] {s : State F} {reward : F}
    {agg : Dict String F} {p : String × F} (hp : p ∈ s.credits reward agg) : p.1 ∈ agg.keys := by
  unfold credits at hp
  split at hp
  · obtain ⟨q, hq, rfl⟩ := List.mem_map.mp hp
    exact List.mem_map.mpr ⟨q, agg.sortedItems_perm.mem_iff.mp hq, rfl⟩
  · cases hp

/-- An address without a weight keeps its balance. -/
theorem get?_mintReward {F : Type} [FloatOps F] (s : State F) (reward : F) {agg : Dict String F}
    {k : Key} (hk : ∀ addr ∈ agg.keys, k ≠ .str addr) :
    (s.mintReward reward agg).bal.get? k = s.bal.get? k := by
  have hfold : ∀ (shares : List (String × F)) (s : State F), (∀ p ∈ shares, k ≠ .str p.1) →
      (shares.foldl (fun s p => s.creditReward (.str p.1) p.2) s).bal.get? k = s.bal.get? k := by
    intro shares
    induction shares with
    | nil => exact fun s _ => rfl
    | cons p shares ih =>
      intro s hne
      rw [List.foldl_cons, ih _ (fun q hq => hne q (by simp [hq]))]
      unfold creditReward
      split
      · rfl
      · exact Dict.get?_set_of_ne _ _ (Ne.symm (hne p (by simp)))
  refine hfold _ s fun p hp => ?_
  exact hk p.1 (mem_keys_of_mem_credits hp)

/-- A key that has a balance keeps one. -/
theorem isSome_mintReward {F : Type} [FloatOps F] (s : State F) (reward : F)
    (agg : Dict String F) {k : Key} (hk : (s.bal.get? k).isSome) :
    ((s.mintReward reward agg).bal.get? k).isSome := by
  have hfold : ∀ (shares : List (String × F)) (s : State F), (s.bal.get? k).isSome →
      ((shares.foldl (fun s p => s.creditReward (.str p.1) p.2) s).bal.get? k).isSome := by
    intro shares
    induction shares with
    | nil => exact fun s h => h
    | cons p shares ih =>
      intro s h
      refine ih _ ?_
      show ((s.creditReward (.str p.1) p.2).bal.get? k).isSome
      unfold creditReward
      split
      · exact h
      · simp only [credit, Dict.get?_set]
        split
        · rfl
        · exact h
  exact hfold _ s hk

/-! ## Rewards -/

/-- A reward that is not positive mints nothing. -/
theorem mintReward_nonpos (s : State PyFloat) {q : ℚ} (hq : q ≤ 0) (agg : Dict String PyFloat) :
    s.mintReward (.fin q) agg = s := by
  have hclamp : FloatOps.lt 0 (s.clampReward (.fin q)) = false := by
    have hmin : ∀ x : PyFloat, FloatOps.max 0 (FloatOps.min (.fin q) x) = .fin 0 := by
      intro x
      cases x with
      | fin y =>
        rw [FloatOps.min_fin, PyFloat.zero_def, FloatOps.max_fin,
          max_eq_left (le_trans (min_le_left q y) hq)]
      | inf => simp [FloatOps.min, FloatOps.lt, PyFloat.lt, FloatOps.max, not_lt.mpr hq]
      | negInf => simp [FloatOps.min, FloatOps.lt, PyFloat.lt, FloatOps.max]
      | nan => simp [FloatOps.min, FloatOps.lt, PyFloat.lt, FloatOps.max, not_lt.mpr hq]
    unfold clampReward
    rw [hmin]
    simp
  unfold mintReward credits
  rw [hclamp, Bool.and_false]
  rfl

/-- A sole contributor of weight one gets the whole reward, up to the cap. -/
theorem mintReward_sole {s : State PyFloat} {q m : ℚ} (hminted : s.minted = .fin m)
    (hq : 0 < q) (hcap : m < maxSupply) (addr : String) :
    (s.mintReward (.fin q) ((∅ : Dict String PyFloat).set addr (0 + .fin 1))).bal
        = s.bal.set (.str addr) (s.balance (.str addr) + .fin (min q (maxSupply - m))) := by
  have hclamp : s.clampReward (.fin q) = .fin (min q (maxSupply - m)) := by
    unfold clampReward
    rw [hminted, FloatOps.lit_pyFloat, PyFloat.fin_sub, FloatOps.min_fin, PyFloat.zero_def,
      FloatOps.max_fin, max_eq_right (le_min hq.le (sub_nonneg.mpr hcap.le))]
  have hpos : 0 < min q (maxSupply - m) := lt_min hq (sub_pos.mpr hcap)
  have hweight : (0 : PyFloat) + .fin 1 = .fin 1 := by simp
  have htotal : totalWeight ((∅ : Dict String PyFloat).set addr (.fin 1)) = .fin 1 := hweight
  unfold mintReward credits
  rw [hclamp, hweight, htotal, rewardShares_single]
  simp [hpos, creditReward, credit, balance, PyFloat.fin_div, hpos.not_ge]

/-! ## Settlement states -/

/-- Nothing is unbonding and the retarget is off. -/
structure Plain (s : State PyFloat) : Prop where
  unbonding : s.unbonding = ∅
  retarget : s.retargetEnabled = false

theorem plain_genesis (checkpoint : Json) : (genesis checkpoint).Plain := ⟨rfl, rfl⟩

/-- What a block of a settlement chain leaves behind. -/
structure Minted (s : State PyFloat) (hdr : BlockHeader PyFloat) (agg : Dict String PyFloat)
    (s' : State PyFloat) : Prop where
  bal : s'.bal = (s.mintReward hdr.reward agg).bal
  minted : s'.minted = (s.mintReward hdr.reward agg).minted
  checkpoint : s'.modelCheckpoint = hdr.newCheckpoint
  plain : s'.Plain

/-- Without transactions, a block on a plain state mints and does nothing else. -/
theorem applyBlock_plain {W : Type} {P : Platform} {toWeight : W → Except PyErr PyFloat}
    {s : State PyFloat} (hs : s.Plain) {hdr : BlockHeader PyFloat} {contributors : Dict String W}
    {agg : Dict String PyFloat} (hroot : hdr.txRoot = .str zeroHash)
    (hagg : aggregate toWeight ∅ contributors.entries = .ok agg) :
    ∃ s', s.applyBlock P toWeight ⟨hdr, []⟩ contributors = .ok s' ∧ Minted s hdr agg s' := by
  have hmature : s.matureUnbonding hdr.height = s := by
    unfold matureUnbonding
    rw [hs.unbonding]
    rfl
  obtain ⟨hbal, hminted, hunb, hret⟩ := s.upgradeStep_frame hdr.protocolVersion hdr.height
  obtain ⟨hbal', hminted'⟩ := mintReward_congr hbal hminted hdr.reward agg
  refine ⟨{ (s.upgradeStep hdr.protocolVersion hdr.height).mintReward hdr.reward agg with
      modelCheckpoint := hdr.newCheckpoint },
    applyBlock_eq_ok.mpr ⟨zeroHash, s, agg, rfl, hroot, ?_, hagg, ?_⟩, hbal', hminted', rfl, ?_⟩
  · show applyTxs P hdr.height (s.matureUnbonding hdr.height) [] = .ok s
    rw [hmature]
    rfl
  · unfold foldRetarget
    rw [hs.retarget]
    rfl
  · constructor
    · show ((s.upgradeStep hdr.protocolVersion hdr.height).mintReward hdr.reward agg).unbonding = ∅
      rw [mintReward_eq]
      exact hunb.trans hs.unbonding
    · show ((s.upgradeStep hdr.protocolVersion hdr.height).mintReward hdr.reward agg).retargetEnabled
        = false
      rw [mintReward_eq]
      exact hret.trans hs.retarget

/-- A block without transactions applies only with the zero root and readable weights. -/
theorem applyBlock_plain_inv {W : Type} {P : Platform} {toWeight : W → Except PyErr PyFloat}
    {s s' : State PyFloat} (hs : s.Plain) {hdr : BlockHeader PyFloat}
    {contributors : Dict String W}
    (h : s.applyBlock P toWeight ⟨hdr, []⟩ contributors = .ok s') :
    hdr.txRoot = .str zeroHash
      ∧ ∃ agg, aggregate toWeight ∅ contributors.entries = .ok agg ∧ Minted s hdr agg s' := by
  obtain ⟨root, ns, agg, hroot, heq, _, hagg, _⟩ := applyBlock_eq_ok.mp h
  have hzero : zeroHash = root := Except.ok.inj hroot
  have heq' : hdr.txRoot = .str zeroHash := by rw [hzero]; exact heq
  obtain ⟨s₁, h₁, hmint⟩ := applyBlock_plain (P := P) hs heq' hagg
  rw [h₁] at h
  cases h
  exact ⟨heq', agg, hagg, hmint⟩

end State

end NeuraHash
