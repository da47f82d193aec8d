import NeuraHash.Settlement.Settle

/-!
# What the coordinator's signature covers

The signature of a block is over the hash of its header. The contributors, which say who is
credited, are in the record next to the header and are covered by nothing: whoever serves an
export can replace them in every block (`withSole`) and the replay still accepts it.

The balances of an accepted export are therefore determined by its signed content exactly when
none of its headers carries a positive reward (`balances_determined_iff`).
-/

namespace NeuraHash

open Py

/-! ## Rewards that mint nothing -/

/-- No header of the records carries a positive reward. -/
def NoPositiveReward (T : PyText) (recs : List Json) : Prop :=
  ∀ rec ∈ recs, ∀ hdr, HeaderOf T rec hdr → FloatOps.le hdr.reward 0 = true

section Replayed

variable {P : Platform} {coord : Json} {policy : QuorumPolicy}

/-- Blocks without a positive reward leave the balances and the minted amount alone. -/
theorem Replays.bal_of_noPositiveReward {st st' : State PyFloat} {head head' : String}
    {recs : List Json} (h : Replays P coord policy st head recs st' head') (hst : st.Plain)
    (hno : NoPositiveReward P.toPyText recs) : st'.bal = st.bal ∧ st'.minted = st.minted := by
  induction h with
  | nil => exact ⟨rfl, rfl⟩
  | cons hblock _ ih =>
    obtain ⟨_, _, _, _, _, hmint⟩ := applyRecord_eq_ok hst hblock.applied
    obtain ⟨q, hq⟩ := hblock.reward_finite
    have hle : q ≤ 0 := by
      have := hno _ (List.mem_cons_self ..) _ hblock.header
      rw [hq] at this
      simpa using this
    obtain ⟨hbal, hminted⟩ := ih (hblock.plain hst) (fun rec hrec => hno rec (by simp [hrec]))
    rw [hbal, hminted, hmint.bal, hmint.minted, hq, State.mintReward_nonpos _ hle]
    exact ⟨rfl, rfl⟩

/-! ## Replacing the contributors -/

/-- The record with one contributor of weight one. -/
def withSole (addr : String) (rec : Json) : Json :=
  rec.withMember "contributors" (.obj [(addr, .int 1)])

theorem item_withSole {addr : String} {rec j : Json} {k : String} (hk : k ≠ "contributors")
    (h : rec.item k = .ok j) : (withSole addr rec).item k = .ok j := by
  obtain ⟨kvs, rfl⟩ := Json.isObj_of_item h
  rw [Json.item_eq_ok] at h ⊢
  rw [withSole, Json.get?_withMember, if_neg (Ne.symm hk), h]

theorem item_contributors_withSole {addr : String} {rec j : Json} {k : String}
    (h : rec.item k = .ok j) :
    (withSole addr rec).item "contributors" = .ok (.obj [(addr, .int 1)]) := by
  obtain ⟨kvs, rfl⟩ := Json.isObj_of_item h
  rw [Json.item_eq_ok, withSole, Json.get?_withMember, if_pos rfl]

/-- Replacing contributors leaves the headers' rewards. -/
theorem NoPositiveReward.of_withSole {T : PyText} {addr : String} {recs : List Json}
    (h : NoPositiveReward T (recs.map (NeuraHash.withSole addr))) : NoPositiveReward T recs := by
  rintro rec hrec hdr ⟨j, hj, hread⟩
  exact h _ (List.mem_map_of_mem hrec) hdr ⟨j, item_withSole (by decide) hj, hread⟩

/-- The weights of a sole contributor. -/
def soleWeights (addr : String) : Dict String PyFloat := (∅ : Dict String PyFloat).set addr (0 + .fin 1)

theorem aggregate_sole (T : PyText) (addr : String) :
    State.aggregate (Json.toFloat T) ∅ (Json.dictOf [(addr, .int 1)]).entries
      = .ok (soleWeights addr) :=
  State.aggregate_single addr (Json.toFloat_one T) (by simp) (by simp)

/-- The edited block passes wherever the block did, from any plain state. -/
theorem BlockReplayed.withSole {st st' t : State PyFloat} {head head' : String} {rec : Json}
    {hdr : BlockHeader PyFloat}
    (h : BlockReplayed P coord .coordinatorOnly st head rec hdr st' head') (hst : st.Plain)
    (ht : t.Plain) (addr : String) :
    ∃ t', BlockReplayed P coord .coordinatorOnly t head (withSole addr rec) hdr t' head' := by
  obtain ⟨j, hj, hhdr⟩ := h.header
  obtain ⟨sig, signer, hsig, hsigned⟩ := h.signed
  obtain ⟨hroot, _⟩ := applyRecord_eq_ok hst h.applied
  obtain ⟨t', happly, _⟩ := applyRecord_of_aggregate ht hroot (item_contributors_withSole hj)
    (aggregate_sole P.toPyText addr)
  exact ⟨t', ⟨j, item_withSole (by decide) hj, hhdr⟩, h.link, h.hash,
    ⟨sig, signer, item_withSole (by decide) hsig, hsigned⟩, rfl, happly⟩

theorem Replays.withSole {st st' : State PyFloat} {head head' : String} {recs : List Json}
    (h : Replays P coord .coordinatorOnly st head recs st' head') (hst : st.Plain)
    {t : State PyFloat} (ht : t.Plain) (addr : String) :
    ∃ t', Replays P coord .coordinatorOnly t head (recs.map (NeuraHash.withSole addr)) t' head' := by
  induction h generalizing t with
  | nil => exact ⟨t, .nil _ _⟩
  | cons hblock _ ih =>
    obtain ⟨t₁, hblock'⟩ := hblock.withSole hst ht addr
    obtain ⟨t', hrest⟩ := ih (hblock.plain hst) (hblock'.plain ht)
    exact ⟨t', .cons hblock' hrest⟩

/-- What an edited block mints. -/
theorem BlockReplayed.minted_withSole {st st' : State PyFloat} {head head' : String} {rec : Json}
    {hdr : BlockHeader PyFloat} {addr : String}
    (h : BlockReplayed P coord policy st head (NeuraHash.withSole addr rec) hdr st' head')
    (hst : st.Plain) : st.Minted hdr (soleWeights addr) st' := by
  obtain ⟨_, kvs, agg, hitem, hagg, hmint⟩ := applyRecord_eq_ok hst h.applied
  obtain ⟨j, hj, _⟩ := h.header
  obtain ⟨kvs', hrec⟩ := Json.isObj_of_item hj
  have hobj : (NeuraHash.withSole addr rec).item "contributors"
      = .ok (.obj [(addr, .int 1)]) := by
    cases rec with
    | obj m => rw [Json.item_eq_ok, NeuraHash.withSole, Json.get?_withMember, if_pos rfl]
    | _ => cases hrec
  rw [hobj] at hitem
  cases hitem
  rw [aggregate_sole] at hagg
  cases hagg
  exact hmint

/-- Every other address keeps its balance. -/
theorem Replays.get?_withSole {t t' : State PyFloat} {head head' : String} {addr : String}
    {recs : List Json}
    (h : Replays P coord policy t head (recs.map (NeuraHash.withSole addr)) t' head')
    (ht : t.Plain) {k : Key} (hk : k ≠ .str addr) : t'.bal.get? k = t.bal.get? k := by
  generalize hrecs : recs.map (NeuraHash.withSole addr) = recs' at h
  induction h generalizing recs with
  | nil => rfl
  | cons hblock _ ih =>
    obtain ⟨rec, recs₁, rfl, rfl, hrest⟩ := List.map_eq_cons_iff.mp hrecs
    have hmint := hblock.minted_withSole ht
    rw [ih hmint.plain hrest, hmint.bal]
    refine State.get?_mintReward _ _ ?_
    intro a ha
    have : a = addr := by simpa [soleWeights, Dict.keys_set] using ha
    rw [this]
    exact hk

/-- The new contributor has a balance as soon as one header carries a positive reward. -/
theorem Replays.isSome_withSole {t t' : State PyFloat} {head head' : String} {addr : String}
    {recs : List Json}
    (h : Replays P coord policy t head (recs.map (NeuraHash.withSole addr)) t' head')
    (ht : t.Plain)
    (hpos : (t.bal.get? (.str addr)).isSome ∨
      t.minted = .fin 0 ∧ ¬ NoPositiveReward P.toPyText (recs.map (NeuraHash.withSole addr))) :
    (t'.bal.get? (.str addr)).isSome := by
  generalize hrecs : recs.map (NeuraHash.withSole addr) = recs' at h hpos
  induction h generalizing recs with
  | nil =>
    rcases hpos with hpos | ⟨_, hpos⟩
    · exact hpos
    · exact absurd (fun rec hrec => by cases hrec) hpos
  | cons hblock _ ih =>
    obtain ⟨rec, recs₁, rfl, rfl, hrest⟩ := List.map_eq_cons_iff.mp hrecs
    have hmint := hblock.minted_withSole ht
    obtain ⟨q, hq⟩ := hblock.reward_finite
    refine ih hmint.plain hrest ?_
    rcases hpos with hpos | ⟨hzero, hpos⟩
    · left
      rw [hmint.bal]
      exact State.isSome_mintReward _ _ _ hpos
    · by_cases hle : q ≤ 0
      · -- this block mints nothing, so the positive reward comes later
        right
        refine ⟨by rw [hmint.minted, hq, State.mintReward_nonpos _ hle, hzero], ?_⟩
        intro hno
        refine hpos ?_
        intro rec' hrec' hdr' hhdr'
        rcases List.mem_cons.mp hrec' with rfl | hrec'
        · obtain ⟨j, hj, hhdr⟩ := hblock.header
          obtain ⟨j', hj', hhdr'⟩ := hhdr'
          rw [hj] at hj'
          cases hj'
          rw [hhdr] at hhdr'
          cases hhdr'
          simp [hq, hle]
        · exact hno rec' hrec' hdr' hhdr'
      · left
        have hbal := State.mintReward_sole hzero (not_le.mp hle)
          (by norm_num [maxSupply] : (0 : ℚ) < maxSupply) addr
        rw [hmint.bal, hq, soleWeights, hbal, Dict.get?_set_self]
        rfl

end Replayed

/-! ## Edited exports -/

/-- The two exports carry, position by position, the same header and the same signature. -/
def SameSigned (a b : Json) : Prop :=
  List.Forall₂ (fun x y => x.get? "header" = y.get? "header" ∧ x.get? "sig" = y.get? "sig")
    (exportBlocks a) (exportBlocks b)

/-- The export with every block's contributors replaced. -/
def editContributors (addr : String) (exported : Json) : Json :=
  exported.withMember "blocks" (.arr ((exportBlocks exported).map (withSole addr)))

theorem SameSigned.symm {a b : Json} (h : SameSigned a b) : SameSigned b a :=
  h.flip.imp fun _ _ hxy => ⟨hxy.1.symm, hxy.2.symm⟩

theorem exportBlocks_edit (addr : String) {exported : Json} {blocks : List Json}
    (h : exported.get? "blocks" = some (.arr blocks)) :
    (editContributors addr exported).get? "blocks"
        = some (.arr ((exportBlocks exported).map (withSole addr)))
      ∧ exportGenesis (editContributors addr exported) = exportGenesis exported := by
  cases exported with
  | obj kvs =>
    unfold exportGenesis editContributors
    rw [Json.get?_withMember, if_pos rfl, Json.get?_withMember, if_neg (by decide)]
    exact ⟨rfl, rfl⟩
  | _ => cases h

/-- The edited export is accepted and carries the same signed content. -/
theorem Accepted.edit {P : Platform} {addr : String} {exported : Json} {r : PublicChain}
    (h : Accepted P exported addr .coordinatorOnly r) (a : String) :
    SameSigned exported (editContributors a exported) ∧
      ∃ ra, Accepted P (editContributors a exported) addr .coordinatorOnly ra
        ∧ (∀ k, k ≠ .str a → ra.balances.get? k = none)
        ∧ (¬ NoPositiveReward P.toPyText (exportBlocks exported) →
            (ra.balances.get? (.str a)).isSome) := by
  obtain ⟨haddr, hblocks, st, head, hreplays, _, _⟩ := h.replays
  have hplain : (State.genesis (exportGenesis exported)).Plain := State.plain_genesis _
  obtain ⟨hedit, hgenesis⟩ := exportBlocks_edit a hblocks
  have hheaders : ∀ rec ∈ exportBlocks exported, ∃ j, rec.item "header" = .ok j := by
    intro rec hrec
    obtain ⟨_, _, _, _, _, hblock⟩ := hreplays.mem hrec
    obtain ⟨j, hj, _⟩ := hblock.header
    exact ⟨j, hj⟩
  have hsame : ∀ rec ∈ exportBlocks exported, ∀ k, k ≠ "contributors" →
      (withSole a rec).get? k = rec.get? k := by
    intro rec hrec k hk
    obtain ⟨j, hj⟩ := hheaders rec hrec
    obtain ⟨kvs, rfl⟩ := Json.isObj_of_item hj
    rw [withSole, Json.get?_withMember, if_neg (Ne.symm hk)]
  have hblocks' : exportBlocks (editContributors a exported)
      = (exportBlocks exported).map (withSole a) := by
    rw [exportBlocks, hedit]
  refine ⟨?_, ?_⟩
  · unfold SameSigned
    rw [hblocks', List.forall₂_map_right_iff]
    refine List.forall₂_same.mpr fun rec hrec => ?_
    exact ⟨(hsame rec hrec _ (by decide)).symm, (hsame rec hrec _ (by decide)).symm⟩
  · obtain ⟨t', hreplays'⟩ := hreplays.withSole hplain hplain a
    rw [← hgenesis] at hreplays'
    obtain ⟨ra, hra, hbal, _⟩ := accepted_of_replays haddr hedit hreplays'
    rw [hgenesis] at hreplays'
    refine ⟨ra, hra, fun k hk => ?_, fun hpos => ?_⟩
    · rw [hbal, hreplays'.get?_withSole hplain hk]
      rfl
    · rw [hbal]
      exact hreplays'.isSome_withSole hplain (Or.inr ⟨rfl, fun hno => hpos hno.of_withSole⟩)

/-- Signed content without a positive reward leaves every balance empty. -/
theorem Accepted.balances_of_noPositiveReward {P : Platform} {addr : String} {exported : Json}
    {r : PublicChain} (h : Accepted P exported addr .coordinatorOnly r)
    (hno : NoPositiveReward P.toPyText (exportBlocks exported)) : r.balances = ∅ := by
  obtain ⟨_, _, st, head, hreplays, hbal, _⟩ := h.replays
  rw [hbal, (hreplays.bal_of_noPositiveReward (State.plain_genesis _) hno).1]
  rfl

theorem NoPositiveReward.of_sameSigned {T : PyText} {a b : Json} (h : SameSigned a b)
    (hno : NoPositiveReward T (exportBlocks a)) : NoPositiveReward T (exportBlocks b) := by
  intro rec hrec hdr hhdr
  obtain ⟨i, hi, rfl⟩ := List.getElem_of_mem hrec
  have hi' : i < (exportBlocks a).length := h.length_eq ▸ hi
  have hget := h.get hi' hi
  obtain ⟨j, hj, hread⟩ := hhdr
  refine hno _ (List.getElem_mem hi') hdr ⟨j, ?_, hread⟩
  rw [Json.item_eq_ok] at hj ⊢
  exact hget.1.trans hj

/-- **The signed content determines the balances exactly when no header of it carries a positive
reward**: whatever the contributors of the accepted exports are. -/
theorem balances_determined_iff {P : Platform} {addr : String} {exported : Json} {r : PublicChain}
    (h : Accepted P exported addr .coordinatorOnly r) :
    (∀ a b ra rb, SameSigned exported a → SameSigned exported b →
        Accepted P a addr .coordinatorOnly ra → Accepted P b addr .coordinatorOnly rb →
        ∀ k, ra.balances.get? k = rb.balances.get? k)
      ↔ NoPositiveReward P.toPyText (exportBlocks exported) := by
  constructor
  · intro hdet
    by_contra hpos
    obtain ⟨hsa, ra, hra, _, hsome⟩ := h.edit "a"
    obtain ⟨hsb, rb, hrb, hnone, _⟩ := h.edit "b"
    have heq := hdet _ _ ra rb hsa hsb hra hrb (.str "a")
    rw [hnone (.str "a") (by decide)] at heq
    have := hsome hpos
    rw [heq] at this
    cases this
  · intro hno a b ra rb hsa hsb hra hrb k
    rw [hra.balances_of_noPositiveReward (hno.of_sameSigned hsa),
      hrb.balances_of_noPositiveReward (hno.of_sameSigned hsb)]

/-- A coordinator that can sign has an accepted export with a positive reward: one settled
height. -/
theorem exists_settled_export {P : Platform} {coord : String} (hsign : CanSign P coord)
    (hcoord : coord ≠ "") :
    ∃ exported r, Accepted P exported coord .coordinatorOnly r
      ∧ ¬ NoPositiveReward P.toPyText (exportBlocks exported) := by
  obtain ⟨c', credited, hsettle, hcoord', hgenesis, _, _⟩ :=
    (ChainSettlement.init coord (.str "pool-genesis")).exists_settle P (State.plain_genesis _) rfl
      1 5 "alice" 0 none
  have hreplays : Replays P (.str coord) .coordinatorOnly (State.genesis (.str "pool-genesis"))
      zeroHash c'.blocks c'.state c'.head :=
    ChainSettlement.settle_replays hsign (.nil _ _) hsettle (fun _ _ => rfl)
  have hcoord₁ : c'.coord = coord := hcoord'
  have hgenesis₁ : c'.genesisCheckpoint = .str "pool-genesis" := hgenesis
  rw [← hcoord₁, ← hgenesis₁] at hreplays
  obtain ⟨r, hr, _, _⟩ := ChainSettlement.accepted_publicState (hcoord₁ ▸ hcoord) hreplays
  rw [hcoord₁] at hr
  refine ⟨_, r, hr, fun hno => ?_⟩
  obtain ⟨rec, j, hblocks, hj, hread⟩ := ChainSettlement.header_of_settle hsettle
  have hmem : rec ∈ exportBlocks c'.publicState := by
    show rec ∈ c'.blocks
    rw [hblocks]
    simp
  have hle := hno rec hmem _ ⟨j, hj, hread⟩
  have hreward : FloatOps.le (FloatOps.max 0 (PyFloat.fin 5)) 0 = true := hle
  simp at hreward
  norm_num at hreward

/-- The coordinator's export is accepted, and its balances are not determined. -/
theorem balances_not_determined_of_settled :
    ∃ exported r, Accepted Platform.ideal exported "coordinator" .coordinatorOnly r ∧
      ¬ ∀ a b ra rb, SameSigned exported a → SameSigned exported b →
        Accepted Platform.ideal a "coordinator" .coordinatorOnly ra →
        Accepted Platform.ideal b "coordinator" .coordinatorOnly rb →
        ∀ k, ra.balances.get? k = rb.balances.get? k := by
  have hmem : "coordinator" ∈ Platform.idealKeys := by simp [Platform.idealKeys]
  obtain ⟨exported, r, haccepted, hpos⟩ :=
    exists_settled_export (Platform.ideal_idealSigs.canSign hmem) (by decide)
  exact ⟨exported, r, haccepted, (balances_determined_iff haccepted).not.mpr hpos⟩

/-- The signature does not determine the balances: whoever serves the coordinator's export can
credit its rewards to anyone. -/
theorem not_signed_content_determines_balances :
    ¬ ∀ (P : Platform) (keys : Set String) (addr : String) (a b : Json) (ra rb : PublicChain),
      CollisionFree P → IdealSigs P keys → addr ∈ keys → SameSigned a b →
      Accepted P a addr .coordinatorOnly ra → Accepted P b addr .coordinatorOnly rb →
      ∀ k, ra.balances.get? k = rb.balances.get? k := by
  intro hclaim
  have hmem : "coordinator" ∈ Platform.idealKeys := by simp [Platform.idealKeys]
  obtain ⟨exported, r, haccepted, hpos⟩ :=
    exists_settled_export (Platform.ideal_idealSigs.canSign hmem) (by decide)
  obtain ⟨hsame, ra, hra, hnone, _⟩ := haccepted.edit "alice"
  have hposa : ¬ NoPositiveReward Platform.ideal.toPyText
      (exportBlocks (editContributors "alice" exported)) :=
    fun hno => hpos (hno.of_sameSigned hsame.symm)
  obtain ⟨hsame', rb, hrb, _, hsome⟩ := hra.edit "mallory"
  have heq := hclaim Platform.ideal Platform.idealKeys "coordinator" _ _ ra rb
    Platform.ideal_collisionFree Platform.ideal_idealSigs hmem hsame' hra hrb (.str "mallory")
  have hmallory := hsome hposa
  rw [← heq, hnone (.str "mallory") (by decide)] at hmallory
  cases hmallory

end NeuraHash
