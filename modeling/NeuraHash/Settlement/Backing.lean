import NeuraHash.Ledger.Shares
import NeuraHash.Settlement.Decisions

/-!
# What a quorum backs

The enforcing replay checks the quorum against the sole contributor of a block. A block with
several contributors (or none) is not refused: its recipient is `None`, and a quorum over the text
`None` authorises it, whoever the contributors are.

`Backed` says that a strict majority of the roster signed every credit of an export. It holds of
all accepted exports over the same contributors exactly when every contributors map with a share
for an address is that address alone (`credits_backed_iff`).
-/

namespace NeuraHash

open Py

/-! ## Credits and signatures -/

/-- The replay of the export credits `amount` to `a` in the block `rec`. -/
def Credited (P : Platform) (coord : Json) (policy : QuorumPolicy) (exported rec : Json)
    (hdr : BlockHeader PyFloat) (a : String) (amount : PyFloat) : Prop :=
  ∃ pre post st head st' head' kvs agg, exportBlocks exported = pre ++ rec :: post
    ∧ Replays P coord policy (State.genesis (exportGenesis exported)) zeroHash pre st head
    ∧ BlockReplayed P coord policy st head rec hdr st' head'
    ∧ rec.item "contributors" = .ok (.obj kvs)
    ∧ State.aggregate (Json.toFloat P.toPyText) ∅ (Json.dictOf kvs).entries = .ok agg
    ∧ (a, amount) ∈ st.credits hdr.reward agg

/-- A strict majority of the distinct members signed the payload; `signed` says who signed
what. -/
def MajoritySigned (T : PyText) (members : List Json) (signed : String → Bytes → Prop)
    (payload : Bytes) : Prop :=
  ∃ S : List String, S.Nodup ∧ S ⊆ GuardianSet.normalize T members
    ∧ rosterSize T members < 2 * S.length ∧ ∀ s ∈ S, signed s payload

/-- A signature in one of the export's bundles recovers to the member `s` over the payload. -/
def Recovered (P : Platform) (exported : Json) (s : String) (payload : Bytes) : Prop :=
  ∃ rec ∈ exportBlocks exported, ∃ q sigs atts, rec.getD "quorum" .null = .ok q
    ∧ q.getD "sigs" (.arr []) = .ok sigs ∧ (sigs.orElse (.arr [])).toList = .ok atts
    ∧ ∃ sig ∈ sigsOf atts, ∃ who, recoverBytes P payload sig = some who ∧ P.lower who = s

/-- Nobody forges a member: what recovers to a member was signed by it. -/
def Unforged (P : Platform) (members : List Json) (signed : String → Bytes → Prop)
    (exported : Json) : Prop :=
  ∀ s ∈ GuardianSet.normalize P.toPyText members, ∀ payload,
    Recovered P exported s payload → signed s payload

/-- **Every positive credit is at most the header reward, and a strict majority of the roster
signed it.** -/
def Backed (P : Platform) (coord : Json) (policy : QuorumPolicy) (members : List Json)
    (signed : String → Bytes → Prop) (exported : Json) : Prop :=
  ∀ rec hdr a amount, Credited P coord policy exported rec hdr a amount →
    FloatOps.lt 0 amount = true →
    FloatOps.le amount hdr.reward = true ∧
      ∃ q deltaCid, rec.getD "quorum" .null = .ok q ∧ q.getD "delta_cid" (.str "") = .ok deltaCid
        ∧ MajoritySigned P.toPyText members signed
            (settlementPayload P.toPyText (.str a) hdr.reward hdr.height deltaCid)

/-- The address has a positive share of the map's total weight. -/
def PositiveShare (T : PyText) (kvs : List (String × Json)) (a : String) : Prop :=
  ∃ agg w, State.aggregate (Json.toFloat T) ∅ (Json.dictOf kvs).entries = .ok agg
    ∧ (a, w) ∈ agg.entries ∧ FloatOps.lt 0 (State.totalWeight agg) = true
    ∧ FloatOps.lt 0 (w / State.totalWeight agg) = true

/-- The map has one contributor, or shares with nobody; the text `None` is the exception. -/
def SoleShares (T : PyText) (kvs : List (String × Json)) : Prop :=
  (Json.dictOf kvs).size = 1 ∨ ∀ a, PositiveShare T kvs a → a = "None"

theorem soleRecipient_of_size_ne {kvs : List (String × Json)} (h : (Json.dictOf kvs).size ≠ 1) :
    soleRecipient kvs = .null := by
  unfold soleRecipient
  unfold Dict.size at h
  split
  · next e he =>
    rw [he] at h
    exact absurd rfl h
  · rfl

theorem soleRecipient_of_size {kvs : List (String × Json)} (h : (Json.dictOf kvs).size = 1) :
    ∃ e, (Json.dictOf kvs).entries = [e] ∧ soleRecipient kvs = .str e.1 := by
  unfold Dict.size at h
  obtain ⟨e, he⟩ := List.length_eq_one_iff.mp h
  refine ⟨e, he, ?_⟩
  unfold soleRecipient
  rw [he]

/-- With one contributor the recipient of the decision is whoever is credited. -/
theorem soleRecipient_of_share {T : PyText} {kvs : List (String × Json)} (hsole : SoleShares T kvs)
    {agg : Dict String PyFloat}
    (hagg : State.aggregate (Json.toFloat T) ∅ (Json.dictOf kvs).entries = .ok agg) {a : String}
    {w : PyFloat} (hw : (a, w) ∈ agg.entries)
    (htotal : FloatOps.lt 0 (State.totalWeight agg) = true)
    (hpos : FloatOps.lt 0 (w / State.totalWeight agg) = true) :
    (soleRecipient kvs).toStr T = a := by
  by_cases hsize : (Json.dictOf kvs).size = 1
  · obtain ⟨e, he, hrecipient⟩ := soleRecipient_of_size hsize
    have hmem : a ∈ agg.keys := List.mem_map_of_mem hw
    rcases State.mem_keys_of_aggregate hagg hmem with h | h
    · cases h
    · rw [he] at h
      rw [hrecipient, Json.toStr_str]
      exact (List.mem_singleton.mp h).symm
  · have hnone := hsole.resolve_left hsize a ⟨agg, w, hagg, hw, htotal, hpos⟩
    rw [soleRecipient_of_size_ne hsize, hnone]
    rfl

/-! ## Blocks with one contributor -/

section Sound

variable {P : Platform} {coord : Json} {policy : QuorumPolicy} {members : List Json}

theorem rosterArg_list (hroster : policy.roster = .arr members) :
    policy.rosterArg = .ok (.arr members) := by
  rw [QuorumPolicy.rosterArg, hroster]
  rfl

/-- An accepted block of a list roster counted a majority threshold of signers over its
decision. -/
theorem BlockReplayed.counted (hroster : policy.roster = .arr members)
    (hreq : policy.requireQuorum = true) {st st' : State PyFloat} {head head' : String} {rec : Json}
    {hdr : BlockHeader PyFloat} (h : BlockReplayed P coord policy st head rec hdr st' head')
    {kvs : List (String × Json)} (hkvs : rec.item "contributors" = .ok (.obj kvs)) :
    ∃ gs q deltaCid sigs atts, CountThreshold P.toPyText members policy.m gs
      ∧ rec.getD "quorum" .null = .ok q ∧ q.getD "delta_cid" (.str "") = .ok deltaCid
      ∧ q.getD "sigs" (.arr []) = .ok sigs ∧ (sigs.orElse (.arr [])).toList = .ok atts
      ∧ gs.threshold ≤ (gs.distinctSigners P (settlementPayload P.toPyText (soleRecipient kvs)
          hdr.reward hdr.height deltaCid) (sigsOf atts)).length := by
  obtain ⟨recipient, deltaCid, sigs, roster, v, hver⟩ := h.quorumVerified hreq
  obtain ⟨q, hq, _, _, _, hcid, hsigs⟩ := hver.bundle
  obtain ⟨contribs, hcontribs, hrecipient⟩ := hver.sole
  have hroster' := hver.rosterArg
  rw [rosterArg_list hroster] at hroster'
  cases hroster'
  rw [Json.getD_of_item hkvs] at hcontribs
  cases hcontribs
  rw [Json.orElse_obj, soleContributor_obj] at hrecipient
  cases hrecipient
  obtain ⟨gs, atts, hthr, hatts, hcount⟩ := collect_list_approved.mp ⟨v, hver.verdict, hver.approved⟩
  exact ⟨gs, q, deltaCid, sigs, atts, hthr, hq, hcid, hsigs, hatts, hcount⟩

/-- **Contributors that are alone are backed.** -/
theorem backed_of_sole (hroster : policy.roster = .arr members)
    (hreq : policy.requireQuorum = true) {exported : Json} {signed : String → Bytes → Prop}
    (hunforged : Unforged P members signed exported)
    (hsole : ∀ rec ∈ exportBlocks exported, ∀ kvs,
      rec.get? "contributors" = some (.obj kvs) → SoleShares P.toPyText kvs) :
    Backed P coord policy members signed exported := by
  rintro rec hdr a amount ⟨pre, post, st, head, st', head', kvs, agg, hblocks, _, hblock, hkvs,
    hagg, hcredit⟩ hpos
  have hmem : rec ∈ exportBlocks exported := by simp [hblocks]
  obtain ⟨q, hq⟩ := hblock.reward_finite
  rw [hq] at hcredit
  obtain ⟨hle, w, hw, htotal, hshare⟩ :=
    State.credit_le_reward (State.aggregate_positive hagg Dict.all_empty) hcredit hpos
  refine ⟨hq ▸ hle, ?_⟩
  have hrecipient := soleRecipient_of_share
    (hsole rec hmem kvs (Json.item_eq_ok.mp hkvs)) hagg hw htotal hshare
  obtain ⟨gs, bundle, deltaCid, sigs, atts, hthr, hbundle, hcid, hsigs, hatts, hcount⟩ :=
    hblock.counted hroster hreq hkvs
  have hpayload : settlementPayload P.toPyText (soleRecipient kvs) hdr.reward hdr.height deltaCid
      = settlementPayload P.toPyText (.str a) hdr.reward hdr.height deltaCid :=
    settlementPayload_inj.mpr ⟨hrecipient, rfl, rfl, rfl⟩
  rw [hpayload] at hcount
  refine ⟨bundle, deltaCid, hbundle, hcid, gs.distinctSigners P
    (settlementPayload P.toPyText (.str a) hdr.reward hdr.height deltaCid) (sigsOf atts),
    gs.nodup_distinctSigners P _ _, hthr.normalized ▸ gs.distinctSigners_subset P _ _, ?_, ?_⟩
  · have hmajority := hthr.majority
    omega
  · intro s hs
    obtain ⟨hmember, sig, hsig, who, hrec, hlow⟩ := GuardianSet.mem_distinctSigners.mp hs
    rw [hthr.normalized] at hmember
    exact hunforged s hmember _
      ⟨rec, hmem, bundle, sigs, atts, hbundle, hsigs, hatts, sig, hsig, who, hrec, hlow⟩

end Sound

/-! ## Blocks that share -/

/-- The block at position `i` of a chain that rewards position `j` only, signed by everybody. -/
def rewardingPlan (P : Platform) (signers : List String) (j i : ℕ) (kvs : List (String × Json)) :
    PlannedBlock where
  contributors := kvs
  height := i
  reward := if i = j then 1 else 0
  deltaCid := "cid"
  sigs := signatures P signers (soleRecipient kvs) (.fin (if i = j then 1 else 0)) i "cid"

section Unsound

variable {P : Platform} {coord : String} {policy : QuorumPolicy} {members : List Json}
  {keys : Set String} {signers : List String} {j : ℕ} {cs : List (List (String × Json))}
  {exported : Json}

/-- The member signed only the decisions of the plan. -/
theorem recovered_of_follows (hkeys : IdealSigs P keys) (hroster : RosterKeys P members keys)
    (hsigners : ∀ a ∈ signers, a ∈ keys)
    (hfollows : List.Forall₂ (PlannedBlock.Follows P.toPyText)
      (cs.mapIdx (rewardingPlan P signers j)) (exportBlocks exported))
    {s : String} (hs : s ∈ GuardianSet.normalize P.toPyText members) {payload : Bytes}
    (h : Recovered P exported s payload) :
    ∃ i kvs, cs[i]? = some kvs ∧ payload = settlementPayload P.toPyText (soleRecipient kvs)
      (.fin (if i = j then 1 else 0)) i (.str "cid") := by
  obtain ⟨rec, hrec, q, sigs, atts, hq, hsigs, hatts, sig, hsig, who, hrecovered, hlow⟩ := h
  obtain ⟨b, hb, hbrec⟩ := exists_left_of_forall₂ hfollows hrec
  obtain ⟨i, hi, rfl⟩ := List.mem_mapIdx.mp hb
  refine ⟨i, cs[i], List.getElem?_eq_getElem hi, ?_⟩
  rw [hbrec.quorum] at hq
  cases hq
  rw [show (rewardingPlan P signers j i cs[i]).bundle.getD "sigs" (.arr [])
    = .ok (.arr (rewardingPlan P signers j i cs[i]).sigs) from rfl] at hsigs
  cases hsigs
  rw [Json.toList_orElse_arr] at hatts
  cases hatts
  simp only [rewardingPlan, signatures, sigsOf_str, List.mem_map] at hsig
  obtain ⟨_, ⟨a, ha, rfl⟩, rfl⟩ := hsig
  have hwho := hroster.only _ _ _ hrecovered (hlow ▸ hs)
  exact (hkeys.of_recoverBytes (hsigners a ha) hwho hrecovered).2

/-- The headers before position `j` carry no reward. -/
theorem noPositiveReward_take
    (hfollows : List.Forall₂ (PlannedBlock.Follows P.toPyText)
      (cs.mapIdx (rewardingPlan P signers j)) (exportBlocks exported)) :
    NoPositiveReward P.toPyText ((exportBlocks exported).take j) := by
  intro rec hrec hdr hhdr
  obtain ⟨i, hi, rfl⟩ := List.mem_take_iff_getElem.mp hrec
  have hij : i < j := lt_of_lt_of_le hi (min_le_left _ _)
  have hlen := hfollows.length_eq
  have hlt : i < (exportBlocks exported).length := lt_of_lt_of_le hi (min_le_right _ _)
  obtain ⟨hdr', hhdr', _, hreward⟩ := (hfollows.get (hlen ▸ hlt) hlt).header
  rw [hhdr.unique hhdr', hreward]
  simp [rewardingPlan, hij.ne]

/-- **Contributors that share get a credit nobody signed**: the validators sign the decision of a
block without a recipient, and its contributors are paid. -/
theorem exists_unbacked (hroster : policy.roster = .arr members)
    (hreq : policy.requireQuorum = true) (hsign : CanSign P coord) (hcoord : coord ≠ "")
    (hkeys : IdealSigs P keys) (hmembers : RosterKeys P members keys) {gs : GuardianSet}
    (hthr : CountThreshold P.toPyText members policy.m gs)
    (cs : List (List (String × Json))) (hweights : ∀ kvs ∈ cs, ∃ agg,
      State.aggregate (Json.toFloat P.toPyText) ∅ (Json.dictOf kvs).entries = .ok agg)
    {kvs : List (String × Json)} (hkvs : kvs ∈ cs) (hshared : ¬ SoleShares P.toPyText kvs) :
    ∃ exported r, Accepted P exported coord policy r
      ∧ List.Forall₂ (fun kvs rec => rec.get? "contributors" = some (.obj kvs)) cs
          (exportBlocks exported)
      ∧ Unforged P members (Recovered P exported) exported
      ∧ ¬ Backed P (.str coord) policy members (Recovered P exported) exported := by
  obtain ⟨signers, hlower, hsigners⟩ := hmembers.exists_signers
  obtain ⟨j, hj, rfl⟩ := List.getElem_of_mem hkvs
  have hready : ∀ b ∈ cs.mapIdx (rewardingPlan P signers j), b.Ready P policy := by
    intro b hb
    obtain ⟨i, hi, rfl⟩ := List.mem_mapIdx.mp hb
    refine ⟨hweights _ (List.getElem_mem hi), authorises_of_signers hroster hkeys hthr signers ?_ ?_ ?_
      _ _ _ _⟩
    · intro a ha
      exact ⟨hsigners a ha, hlower ▸ List.mem_map_of_mem ha⟩
    · rw [hlower]
      exact List.nodup_dedup _
    · have hlength := congrArg List.length hlower
      rw [List.length_map, ← hthr.normalized] at hlength
      rw [hlength]
      exact gs.le_length
  obtain ⟨exported, r, hr, hfollows⟩ := PlannedBlock.exists_accepted hsign hcoord hreq _ hready
  have hlen : cs.length = (exportBlocks exported).length := by
    rw [← hfollows.length_eq, List.length_mapIdx]
  refine ⟨exported, r, hr, ?_, fun s hs payload h => h, ?_⟩
  · refine List.forall₂_iff_get.mpr ⟨hlen, fun i hi hi' => ?_⟩
    have hrec := (hfollows.get (by rw [List.length_mapIdx]; exact hi) hi').contributors
    rw [Json.item_eq_ok] at hrec
    simpa [rewardingPlan] using hrec
  · intro hbacked
    unfold SoleShares at hshared
    push Not at hshared
    obtain ⟨hsize, a, ⟨agg, w, hagg, hw, htotal, hshare⟩, hnone⟩ := hshared
    have hj' : j < (exportBlocks exported).length := hlen ▸ hj
    have hplan := hfollows.get (by rw [List.length_mapIdx]; exact hj) hj'
    -- the replay reaches position `j` with nothing minted
    obtain ⟨_, _, st', head', hreplays, _⟩ := hr.replays
    have hcut : exportBlocks exported = (exportBlocks exported).take j
        ++ (exportBlocks exported)[j] :: (exportBlocks exported).drop (j + 1) := by
      rw [← List.drop_eq_getElem_cons, List.take_append_drop]
    rw [hcut] at hreplays
    obtain ⟨st, head, hdr, st₂, head₂, hpre, hblock, _⟩ := hreplays.split
    have hplain := State.plain_genesis (exportGenesis exported)
    have hminted := (hpre.bal_of_noPositiveReward hplain (noPositiveReward_take hfollows)).2
    obtain ⟨hdr', hhdr', hheight, hreward⟩ := hplan.header
    have hsame := HeaderOf.unique hblock.header hhdr'
    have hone : hdr.reward = .fin 1 := by
      rw [hsame, hreward]
      simp [rewardingPlan]
    obtain ⟨amount, hamount, hpos⟩ := State.mem_credits (s := st) hminted
      (by norm_num : (0 : ℚ) < 1) (by norm_num [maxSupply]) hw htotal hshare
    have hkvs : (exportBlocks exported)[j].item "contributors" = .ok (.obj cs[j]) := by
      have := hplan.contributors
      simpa [rewardingPlan] using this
    obtain ⟨_, q, deltaCid, _, _, S, _, hS, hmajority, hsigned⟩ := hbacked _ hdr a amount
      ⟨_, _, st, head, st₂, head₂, cs[j], agg, hcut, hpre, hblock, hkvs, hagg, hone ▸ hamount⟩ hpos
    -- a member of that majority signed a decision of the plan, and none names `a`
    obtain ⟨s, hs⟩ : ∃ s, s ∈ S := List.exists_mem_of_length_pos (by omega)
    obtain ⟨i, kvs, hi, hpayload⟩ :=
      recovered_of_follows hkeys hmembers hsigners hfollows (hS hs) (hsigned s hs)
    obtain ⟨hrecipient, _, hij, _⟩ := settlementPayload_inj.mp hpayload
    have hij' : j = i := by
      rw [hsame, hheight] at hij
      simpa [rewardingPlan] using hij
    rw [← hij', List.getElem?_eq_getElem hj] at hi
    cases hi
    rw [soleRecipient_of_size_ne hsize] at hrecipient
    exact hnone hrecipient

end Unsound

/-! ## When enforcement is sound -/

/-- The two exports carry, position by position, the same contributors. -/
def SameContributors (a b : Json) : Prop :=
  List.Forall₂ (fun x y => x.get? "contributors" = y.get? "contributors")
    (exportBlocks a) (exportBlocks b)

/-- **Every accepted export over these contributors is backed, exactly when each contributors map
is one address alone** (or has a share for nobody). -/
theorem credits_backed_iff {P : Platform} {coord : String} {policy : QuorumPolicy}
    {members : List Json} {keys : Set String} (hroster : policy.roster = .arr members)
    (hreq : policy.requireQuorum = true) (hsign : CanSign P coord) (hkeys : IdealSigs P keys)
    (hmembers : RosterKeys P members keys) {exported : Json} {r : PublicChain}
    (h : Accepted P exported coord policy r) :
    (∀ exported' r' signed, Accepted P exported' coord policy r' →
        SameContributors exported exported' → Unforged P members signed exported' →
        Backed P (.str coord) policy members signed exported')
      ↔ ∀ rec ∈ exportBlocks exported, ∀ kvs, rec.get? "contributors" = some (.obj kvs) →
          SoleShares P.toPyText kvs := by
  constructor
  · intro hall rec hrec kvs hkvs
    by_contra hshared
    obtain ⟨hcoord, _, st, head, hreplays, _⟩ := h.replays
    have hread : ∀ rec ∈ exportBlocks exported, ∃ kvs,
        rec.get? "contributors" = some (.obj kvs) ∧ ∃ agg, State.aggregate
          (Json.toFloat P.toPyText) ∅ (Json.dictOf kvs).entries = .ok agg := by
      intro rec hrec
      obtain ⟨pre, post, hcut⟩ := List.append_of_mem hrec
      rw [hcut] at hreplays
      obtain ⟨st, head, hdr, st₂, head₂, hpre, hblock, _⟩ := hreplays.split
      obtain ⟨_, kvs, agg, hkvs, hagg, _⟩ :=
        applyRecord_eq_ok (hpre.plain (State.plain_genesis _)) hblock.applied
      exact ⟨kvs, Json.item_eq_ok.mp hkvs, agg, hagg⟩
    obtain ⟨_, _, _, _, _, hblock⟩ := hreplays.mem hrec
    obtain ⟨gs, _, _, _, _, hthr, _⟩ :=
      hblock.counted hroster hreq (Json.item_eq_ok.mpr hkvs)
    choose! contributors hcontributors hweights using hread
    obtain ⟨exported', r', hr', hsame, hunforged, hnot⟩ := exists_unbacked hroster hreq hsign hcoord
      hkeys hmembers hthr ((exportBlocks exported).map contributors)
      (fun kvs hkvs => by
        obtain ⟨rec, hrec, rfl⟩ := List.mem_map.mp hkvs
        exact hweights rec hrec)
      (show kvs ∈ _ by
        have := hcontributors rec hrec
        rw [hkvs] at this
        cases this
        exact List.mem_map_of_mem hrec)
      hshared
    rw [List.forall₂_map_left_iff] at hsame
    refine hnot (hall exported' r' _ hr' ?_ hunforged)
    refine List.forall₂_iff_get.mpr ⟨hsame.length_eq, fun i hi hi' => ?_⟩
    rw [hsame.get hi hi']
    exact hcontributors _ (List.getElem_mem hi)
  · intro hsole exported' r' signed hr' hsame hunforged
    refine backed_of_sole hroster hreq hunforged fun rec hrec kvs hkvs => ?_
    obtain ⟨rec', hrec', heq⟩ := exists_left_of_forall₂ hsame hrec
    exact hsole rec' hrec' kvs (heq.trans hkvs)

/-- The keys of the three validators. -/
def threeKeys : Set String := Platform.idealRosterKeys [.str "v1", .str "v2", .str "v3"]

theorem threeKeys_subset : threeKeys ⊆ Platform.idealKeys :=
  Platform.idealRosterKeys_subset (by decide)

theorem rosterKeys_threeValidators :
    RosterKeys Platform.ideal [.str "v1", .str "v2", .str "v3"] threeKeys :=
  Platform.ideal_rosterKeys (by decide)

/-- A chain that pays one miner is backed, with any signatures. -/
theorem credits_backed_threeValidators :
    ∃ exported r, Accepted Platform.ideal exported "coordinator" threeValidators r
      ∧ ∀ exported' r' signed, Accepted Platform.ideal exported' "coordinator" threeValidators r' →
          SameContributors exported exported' →
          Unforged Platform.ideal [.str "v1", .str "v2", .str "v3"] signed exported' →
          Backed Platform.ideal (.str "coordinator") threeValidators
            [.str "v1", .str "v2", .str "v3"] signed exported' := by
  have hsign : CanSign Platform.ideal "coordinator" :=
    Platform.ideal_idealSigs.canSign (by simp [Platform.idealKeys])
  obtain ⟨recipient, amount, deltaCid, sigs, _, hauth⟩ := payable_threeValidators 1
  obtain ⟨exported, r, hr, hfollows⟩ := PlannedBlock.exists_accepted hsign (by decide) rfl
    [⟨[(recipient, .int 1)], 1, amount, deltaCid, sigs⟩]
    (fun b hb => by
      rw [List.mem_singleton.mp hb]
      exact ⟨⟨_, aggregate_sole _ recipient⟩, hauth⟩)
  refine ⟨exported, r, hr, (credits_backed_iff rfl rfl hsign
    (Platform.ideal_idealSigs.mono threeKeys_subset) rosterKeys_threeValidators hr).mpr ?_⟩
  intro rec hrec kvs hkvs
  obtain ⟨b, hb, hbrec⟩ := exists_left_of_forall₂ hfollows hrec
  have hcontributors := Json.item_eq_ok.mp hbrec.contributors
  rw [hkvs, List.mem_singleton.mp hb] at hcontributors
  cases hcontributors
  exact Or.inl rfl

/-- Two contributors, one quorum over the recipient `None`: alice is paid and nobody signed it. -/
theorem not_enforced_replay_backed :
    ¬ ∀ (P : Platform) (keys : Set String) (coord : String) (policy : QuorumPolicy)
        (members : List Json) (exported : Json) (r : PublicChain) (signed : String → Bytes → Prop),
      CollisionFree P → IdealSigs P keys → RosterKeys P members keys → CanSign P coord →
      policy.requireQuorum = true → policy.roster = .arr members →
      Accepted P exported coord policy r → Unforged P members signed exported →
      Backed P (.str coord) policy members signed exported := by
  intro hclaim
  have hsign : CanSign Platform.ideal "coordinator" :=
    Platform.ideal_idealSigs.canSign (by simp [Platform.idealKeys])
  have hkeys := Platform.ideal_idealSigs.mono threeKeys_subset
  obtain ⟨gs, hgs, _⟩ := threeValidators_threshold
  have hagg : State.aggregate (Json.toFloat Platform.ideal.toPyText) ∅
      (Json.dictOf [("alice", .int 1), ("mallory", .int 1)]).entries
        = .ok (((∅ : Dict String PyFloat).set "alice" (.fin 1)).set "mallory" (.fin 1)) := by
    have hone := Json.toFloat_one Platform.ideal.toPyText
    have hzero : (0 : PyFloat) + .fin 1 = .fin 1 := by simp
    refine State.aggregate_cons_eq_ok.mpr ⟨.fin 1, hone, by simp, ?_⟩
    rw [if_pos (by simp)]
    refine State.aggregate_cons_eq_ok.mpr ⟨.fin 1, hone, by simp, ?_⟩
    rw [if_pos (by simp), show (∅ : Dict String PyFloat).getD "alice" 0 = 0 from rfl, hzero,
      show ((∅ : Dict String PyFloat).set "alice" (.fin 1)).getD "mallory" 0 = 0 from rfl, hzero]
    rfl
  have hshared : ¬ SoleShares Platform.ideal.toPyText [("alice", .int 1), ("mallory", .int 1)] := by
    rintro (hsize | hnobody)
    · exact absurd hsize (by decide)
    · refine absurd (hnobody "alice" ⟨_, .fin 1, hagg, ?_, ?_, ?_⟩) (by decide)
      · decide +kernel
      · decide +kernel
      · decide +kernel
  obtain ⟨exported, r, hr, _, hunforged, hnot⟩ := exists_unbacked
    (show threeValidators.roster = .arr _ from rfl) rfl hsign (by decide) hkeys
    rosterKeys_threeValidators hgs [[("alice", .int 1), ("mallory", .int 1)]]
    (fun kvs hkvs => by
      rw [List.mem_singleton.mp hkvs]
      exact ⟨_, hagg⟩)
    (List.mem_singleton_self _) hshared
  exact hnot (hclaim Platform.ideal threeKeys "coordinator" threeValidators _ exported r _
    Platform.ideal_collisionFree hkeys rosterKeys_threeValidators hsign rfl rfl hr hunforged)

end NeuraHash
