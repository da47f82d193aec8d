import NeuraHash.Ledger.Minting
import NeuraHash.Settlement.Chain

/-!
# What an accepted replay says

`Replays P coord policy st head blocks st' head'` holds when every block of the list passes the
checks of the replay, starting from state `st` and head `head` and ending in `st'` and `head'`.
`replayBlocks_eq_ok` connects it with the loop of the source, so that facts about accepted chains
are inductions over the relation.

The states of a settlement chain stay `Plain`, so a record only mints (`applyRecord_eq_ok`).
-/

namespace NeuraHash

open Py

/-! ## The replay relation -/

/-- The record's header reads as `hdr`. -/
def HeaderOf (T : PyText) (rec : Json) (hdr : BlockHeader PyFloat) : Prop :=
  ∃ j, rec.item "header" = .ok j ∧ BlockHeader.fromDict T j = .ok hdr

theorem HeaderOf.unique {T : PyText} {rec : Json} {hdr hdr' : BlockHeader PyFloat}
    (h : HeaderOf T rec hdr) (h' : HeaderOf T rec hdr') : hdr = hdr' := by
  obtain ⟨j, hj, hread⟩ := h
  obtain ⟨j', hj', hread'⟩ := h'
  rw [hj] at hj'
  cases hj'
  rw [hread] at hread'
  exact Except.ok.inj hread'

/-- One block passes: what the replay checks of it. -/
structure BlockReplayed (P : Platform) (coord : Json) (policy : QuorumPolicy)
    (st : State PyFloat) (head : String) (rec : Json) (hdr : BlockHeader PyFloat)
    (st' : State PyFloat) (head' : String) : Prop where
  header : HeaderOf P.toPyText rec hdr
  link : hdr.prevHash = .str head
  hash : hdr.hash P = .ok head'
  signed : ∃ sig signer, rec.item "sig" = .ok sig ∧ recoverBytes P (utf8 head') sig = some signer
    ∧ P.lower signer = P.lower (coord.toStr P.toPyText)
  quorum : checkQuorum P policy rec hdr = .ok (.ok ())
  applied : applyRecord P st hdr rec = .ok st'

theorem recoverBlock_eq_ok {P : Platform} {hdr : BlockHeader PyFloat} {rec : Json}
    {h signer : String} :
    recoverBlock P hdr rec = .ok (h, signer) ↔
      hdr.hash P = .ok h ∧ ∃ sig, rec.item "sig" = .ok sig
        ∧ recoverBytes P (utf8 h) sig = some signer := by
  unfold recoverBlock
  constructor
  · intro heq
    obtain ⟨h', hhash, heq⟩ := bind_eq_ok.mp heq
    obtain ⟨sig, hsig, heq⟩ := bind_eq_ok.mp heq
    split at heq
    · next who hrec =>
      simp only [Except.ok.injEq, Prod.mk.injEq] at heq
      obtain ⟨rfl, rfl⟩ := heq
      exact ⟨hhash, sig, hsig, hrec⟩
    · cases heq
  · rintro ⟨hhash, sig, hsig, hrec⟩
    simp only [hhash, hsig, hrec, ok_bind]

/-- **The body of the replay loop accepts exactly the blocks that pass its checks.** -/
theorem replayBlock_eq_ok {P : Platform} {coord : Json} {policy : QuorumPolicy}
    {st st' : State PyFloat} {head head' : String} {rec : Json} :
    replayBlock P coord policy st head rec = .ok (.ok (st', head')) ↔
      ∃ hdr, BlockReplayed P coord policy st head rec hdr st' head' := by
  constructor
  · intro h
    unfold replayBlock at h
    obtain ⟨j, hj, h⟩ := bind_eq_ok.mp h
    obtain ⟨hdr, hhdr, h⟩ := bind_eq_ok.mp h
    refine ⟨hdr, ?_⟩
    by_cases hlink : Json.pyEq hdr.prevHash (.str head) = true
    swap
    · rw [Bool.not_eq_true] at hlink
      simp only [hlink, Bool.not_false, if_true] at h
      cases h
    simp only [hlink, Bool.not_true, Bool.false_eq_true, if_false] at h
    split at h
    · cases h
    · next hash signer hrecover =>
      obtain ⟨hhash, sig, hsig, hrec⟩ := recoverBlock_eq_ok.mp hrecover
      by_cases hlow : P.lower signer = P.lower (coord.toStr P.toPyText)
      swap
      · simp only [ne_eq, hlow, not_false_eq_true, if_true] at h
        cases h
      simp only [ne_eq, hlow, not_true, if_false] at h
      obtain ⟨verdict, hquorum, h⟩ := bind_eq_ok.mp h
      split at h
      · cases h
      · split at h
        · cases h
        · next st₁ happly =>
          simp only [pure, Except.pure, Except.ok.injEq, Prod.mk.injEq] at h
          obtain ⟨rfl, rfl⟩ := h
          exact ⟨⟨j, hj, hhdr⟩, Json.pyEq_str_right.mp hlink, hhash, ⟨sig, signer, hsig, hrec, hlow⟩,
            hquorum, happly⟩
  · rintro ⟨hdr, ⟨j, hj, hhdr⟩, hlink, hhash, ⟨sig, signer, hsig, hrec, hlow⟩, hquorum, happly⟩
    have hrecover : recoverBlock P hdr rec = .ok (head', signer) :=
      recoverBlock_eq_ok.mpr ⟨hhash, sig, hsig, hrec⟩
    unfold replayBlock
    simp only [hj, hhdr, ok_bind, Json.pyEq_str_right.mpr hlink, Bool.not_true,
      Bool.false_eq_true, if_false, hrecover, hlow, ne_eq, not_true, hquorum, happly]
    rfl

/-- The blocks pass one after the other. -/
inductive Replays (P : Platform) (coord : Json) (policy : QuorumPolicy) :
    State PyFloat → String → List Json → State PyFloat → String → Prop
  | nil (st : State PyFloat) (head : String) : Replays P coord policy st head [] st head
  | cons {st st₁ st' : State PyFloat} {head head₁ head' : String} {rec : Json} {recs : List Json}
      {hdr : BlockHeader PyFloat}
      (hblock : BlockReplayed P coord policy st head rec hdr st₁ head₁)
      (hrest : Replays P coord policy st₁ head₁ recs st' head') :
      Replays P coord policy st head (rec :: recs) st' head'

/-- **The replay succeeds exactly when every block passes.** -/
theorem replayBlocks_eq_ok {P : Platform} {coord : Json} {policy : QuorumPolicy} {i : ℕ}
    {st st' : State PyFloat} {head : String} {recs : List Json} :
    replayBlocks P coord policy i st head recs = .ok (st', .ok ()) ↔
      ∃ head', Replays P coord policy st head recs st' head' := by
  induction recs generalizing i st head with
  | nil =>
    constructor
    · intro h
      cases h
      exact ⟨head, .nil _ _⟩
    · rintro ⟨_, h⟩
      cases h
      rfl
  | cons rec recs ih =>
    constructor
    · intro h
      unfold replayBlocks at h
      obtain ⟨verdict, hblock, h⟩ := bind_eq_ok.mp h
      split at h
      · cases h
      · obtain ⟨hdr, hblock⟩ := replayBlock_eq_ok.mp hblock
        obtain ⟨head', hrest⟩ := ih.mp h
        exact ⟨head', .cons hblock hrest⟩
    · rintro ⟨head', h⟩
      cases h with
      | cons hblock hrest =>
        unfold replayBlocks
        rw [replayBlock_eq_ok.mpr ⟨_, hblock⟩, ok_bind]
        exact ih.mpr ⟨head', hrest⟩

namespace Replays

variable {P : Platform} {coord : Json} {policy : QuorumPolicy}

/-- A block that passes at the end extends the replay. -/
theorem snoc {st st₁ st' : State PyFloat} {head head₁ head' : String} {recs : List Json}
    {rec : Json} {hdr : BlockHeader PyFloat} (h : Replays P coord policy st head recs st₁ head₁)
    (hblock : BlockReplayed P coord policy st₁ head₁ rec hdr st' head') :
    Replays P coord policy st head (recs ++ [rec]) st' head' := by
  induction h with
  | nil st head => exact .cons hblock (.nil _ _)
  | cons hfirst _ ih => exact .cons hfirst (ih hblock)

/-- A replay, cut at one of its blocks. -/
theorem split {st st' : State PyFloat} {head head' : String} {pre : List Json} {rec : Json}
    {post : List Json} (h : Replays P coord policy st head (pre ++ rec :: post) st' head') :
    ∃ st₁ head₁ hdr st₂ head₂, Replays P coord policy st head pre st₁ head₁
      ∧ BlockReplayed P coord policy st₁ head₁ rec hdr st₂ head₂
      ∧ Replays P coord policy st₂ head₂ post st' head' := by
  induction pre generalizing st head with
  | nil =>
    cases h with
    | cons hblock hrest => exact ⟨_, _, _, _, _, .nil _ _, hblock, hrest⟩
  | cons first pre ih =>
    cases h with
    | cons hfirst hrest =>
      obtain ⟨st₁, head₁, hdr, st₂, head₂, hpre, hblock, hpost⟩ := ih hrest
      exact ⟨st₁, head₁, hdr, st₂, head₂, .cons hfirst hpre, hblock, hpost⟩

/-- Every block of a replay passed, at some state and head. -/
theorem mem {st st' : State PyFloat} {head head' : String} {recs : List Json}
    (h : Replays P coord policy st head recs st' head') {rec : Json} (hrec : rec ∈ recs) :
    ∃ hdr st₁ head₁ st₂ head₂, BlockReplayed P coord policy st₁ head₁ rec hdr st₂ head₂ := by
  induction h with
  | nil => cases hrec
  | cons hblock _ ih =>
    rcases List.mem_cons.mp hrec with rfl | hrec
    · exact ⟨_, _, _, _, _, hblock⟩
    · exact ih hrec

end Replays

/-- What a record contributes on a plain state. -/
theorem applyRecord_eq_ok {P : Platform} {st st' : State PyFloat} (hst : st.Plain)
    {hdr : BlockHeader PyFloat} {rec : Json} (h : applyRecord P st hdr rec = .ok st') :
    hdr.txRoot = .str zeroHash ∧ ∃ kvs agg, rec.item "contributors" = .ok (.obj kvs)
      ∧ State.aggregate (Json.toFloat P.toPyText) ∅ (Json.dictOf kvs).entries = .ok agg
      ∧ st.Minted hdr agg st' := by
  unfold applyRecord at h
  obtain ⟨contributors, hitem, h⟩ := bind_eq_ok.mp h
  split at h
  · next kvs =>
    obtain ⟨hroot, agg, hagg, hmint⟩ := State.applyBlock_plain_inv hst h
    exact ⟨hroot, kvs, agg, hitem, hagg, hmint⟩
  · cases h

/-- With the zero root and readable weights, the record applies. -/
theorem applyRecord_of_aggregate {P : Platform} {st : State PyFloat} (hst : st.Plain)
    {hdr : BlockHeader PyFloat} {rec : Json} {kvs : List (String × Json)}
    {agg : Dict String PyFloat} (hroot : hdr.txRoot = .str zeroHash)
    (hitem : rec.item "contributors" = .ok (.obj kvs))
    (hagg : State.aggregate (Json.toFloat P.toPyText) ∅ (Json.dictOf kvs).entries = .ok agg) :
    ∃ st', applyRecord P st hdr rec = .ok st' ∧ st.Minted hdr agg st' := by
  obtain ⟨st', happly, hmint⟩ := State.applyBlock_plain (P := P) hst hroot hagg
  refine ⟨st', ?_, hmint⟩
  unfold applyRecord
  rw [hitem, ok_bind]
  exact happly

namespace BlockReplayed

variable {P : Platform} {coord : Json} {policy : QuorumPolicy} {st st' : State PyFloat}
  {head head' : String} {rec : Json} {hdr : BlockHeader PyFloat}

theorem reward_finite (h : BlockReplayed P coord policy st head rec hdr st' head') :
    ∃ q, hdr.reward = .fin q := by
  obtain ⟨j, _, hj⟩ := h.header
  exact (BlockHeader.fromDict_spec hj).2.2

theorem plain (h : BlockReplayed P coord policy st head rec hdr st' head') (hst : st.Plain) :
    st'.Plain := by
  obtain ⟨_, _, _, _, _, hmint⟩ := applyRecord_eq_ok hst h.applied
  exact hmint.plain

end BlockReplayed

theorem Replays.plain {P : Platform} {coord : Json} {policy : QuorumPolicy}
    {st st' : State PyFloat} {head head' : String} {recs : List Json}
    (h : Replays P coord policy st head recs st' head') (hst : st.Plain) : st'.Plain := by
  induction h with
  | nil => exact hst
  | cons hblock _ ih => exact ih (hblock.plain hst)

/-! ## Accepted exports -/

/-- The export is accepted under the pinned address, with this result. -/
def Accepted (P : Platform) (exported : Json) (addr : String) (policy : QuorumPolicy)
    (r : PublicChain) : Prop :=
  verifyPublicChain P exported (some addr) policy = .ok (.ok r)

/-- The block records of an export. -/
def exportBlocks (exported : Json) : List Json :=
  match exported.get? "blocks" with
  | some (.arr blocks) => blocks
  | _ => []

/-- The genesis checkpoint of an export. -/
def exportGenesis (exported : Json) : Json :=
  (exported.get? "genesis_checkpoint").getD (.str "pool-genesis")

theorem getD_genesis {exported : Json} (hobj : exported.isObj = true) :
    exported.getD "genesis_checkpoint" (.str "pool-genesis") = .ok (exportGenesis exported) := by
  cases exported with
  | obj kvs => rfl
  | _ => cases hobj

/-- The height read off the last record of a replayed list. -/
theorem Replays.exists_lastHeight {P : Platform} {coord : Json} {policy : QuorumPolicy}
    {st st' : State PyFloat} {head head' : String} {recs : List Json}
    (h : Replays P coord policy st head recs st' head') :
    ∃ n, lastHeight P.toPyText recs = .ok n := by
  unfold lastHeight
  cases hlast : recs.getLast? with
  | none => exact ⟨0, rfl⟩
  | some rec =>
    obtain ⟨hdr, _, _, _, _, hblock⟩ := h.mem (List.mem_of_getLast? hlast)
    obtain ⟨j, hj, hhdr⟩ := hblock.header
    obtain ⟨⟨v, hv, hheight⟩, _⟩ := BlockHeader.fromDict_spec hhdr
    refine ⟨hdr.height, ?_⟩
    simp only [hj, hv, hheight, ok_bind]

/-- The pinned replay of an export that has a block list. -/
theorem verifyPublicChain_blocks {P : Platform} {exported : Json} {addr : String}
    {policy : QuorumPolicy} (haddr : addr ≠ "") {blocks : List Json}
    (hblocks : exported.get? "blocks" = some (.arr blocks)) :
    verifyPublicChain P exported (some addr) policy = (do
      let (st, verdict) ← replayBlocks P (.str addr) policy 0
        (State.genesis (exportGenesis exported)) zeroHash blocks
      match verdict with
      | .error (i, r) => return .error (.block i r)
      | .ok () =>
        let height ← lastHeight P.toPyText blocks
        return .ok {
          trust := if policy.requireQuorum then .quorumEnforced else .pinned
          balances := st.bal, minted := st.minted, height := height }) := by
  have hobj : exported.isObj = true := by
    cases exported with
    | obj kvs => rfl
    | _ => cases hblocks
  have htruthy : (Json.str addr).truthy = true := by simp [Json.truthy, haddr]
  unfold verifyPublicChain
  rw [hobj, hblocks]
  simp only [Bool.not_true, Bool.false_eq_true, if_false, getD_genesis hobj, ok_bind]
  rw [htruthy]
  rfl

/-- **An accepted export's blocks replay from the genesis state**, and its result is the state
reached. -/
theorem Accepted.replays {P : Platform} {exported : Json} {addr : String} {policy : QuorumPolicy}
    {r : PublicChain} (h : Accepted P exported addr policy r) :
    addr ≠ "" ∧ exported.get? "blocks" = some (.arr (exportBlocks exported))
      ∧ ∃ st head, Replays P (.str addr) policy (State.genesis (exportGenesis exported)) zeroHash
          (exportBlocks exported) st head
        ∧ r.balances = st.bal ∧ r.minted = st.minted := by
  unfold Accepted at h
  have hblocks : exported.get? "blocks" = some (.arr (exportBlocks exported)) := by
    unfold exportBlocks
    unfold verifyPublicChain at h
    split at h
    · cases h
    · split at h
      · next blocks hget => rw [hget]
      · cases h
  have haddr : addr ≠ "" := by
    rintro rfl
    have hobj : exported.isObj = true := by
      cases exported with
      | obj kvs => rfl
      | _ => cases hblocks
    unfold verifyPublicChain at h
    simp only [hobj, Bool.not_true, Bool.false_eq_true, if_false, hblocks, getD_genesis hobj,
      ok_bind] at h
    cases h
  refine ⟨haddr, hblocks, ?_⟩
  rw [verifyPublicChain_blocks haddr hblocks] at h
  obtain ⟨⟨st, verdict⟩, hreplay, h⟩ := bind_eq_ok.mp h
  cases verdict with
  | error e => cases h
  | ok u =>
    obtain ⟨head, hreplays⟩ := replayBlocks_eq_ok.mp hreplay
    obtain ⟨n, hn⟩ := hreplays.exists_lastHeight
    simp only [hn, ok_bind] at h
    cases h
    exact ⟨st, head, hreplays, rfl, rfl⟩

/-- **Blocks that replay make an accepted export.** -/
theorem accepted_of_replays {P : Platform} {exported : Json} {addr : String}
    {policy : QuorumPolicy} (haddr : addr ≠ "") {blocks : List Json}
    (hblocks : exported.get? "blocks" = some (.arr blocks)) {st : State PyFloat} {head : String}
    (h : Replays P (.str addr) policy (State.genesis (exportGenesis exported)) zeroHash blocks st
      head) :
    ∃ r, Accepted P exported addr policy r ∧ r.balances = st.bal ∧ r.minted = st.minted := by
  obtain ⟨n, hn⟩ := h.exists_lastHeight
  unfold Accepted
  rw [verifyPublicChain_blocks haddr hblocks, replayBlocks_eq_ok.mpr ⟨head, h⟩]
  simp only [hn, ok_bind]
  exact ⟨_, rfl, rfl, rfl⟩

end NeuraHash
