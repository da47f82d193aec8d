import NeuraHash.Settlement.SignedContent

/-!
# Blocks a quorum authorised

`QuorumVerified` lists what the enforcing replay checks of one block: the attached bundle, its
hash, and the verdict over the decision the block stands for. A roster that is a list authorises
when a strict majority of its members signed (`collect_list_eq_ok`).

The other direction builds blocks: a `PlannedBlock` whose decision is `Authorised` becomes a record
the coordinator can sign, and a list of them replays (`exists_planned_replay`).
-/

namespace NeuraHash

open Py

/-! ## The recipient -/

/-- The recipient the quorum check reads off a contributors map. -/
def soleRecipient (kvs : List (String × Json)) : Json :=
  match (Json.dictOf kvs).entries with
  | [e] => .str e.1
  | _ => .null

theorem soleContributor_obj (kvs : List (String × Json)) :
    soleContributor (.obj kvs) = .ok (soleRecipient kvs) := by
  unfold soleContributor soleRecipient
  simp only [Json.len, Json.toList, Dict.size, Dict.keys, ok_bind]
  rcases (Json.dictOf kvs).entries with _ | ⟨e, _ | ⟨e', l⟩⟩ <;> simp <;> rfl

/-! ## What the quorum check accepts -/

/-- The block's bundle authorises its decision. -/
structure QuorumVerified (P : Platform) (policy : QuorumPolicy) (rec : Json)
    (hdr : BlockHeader PyFloat) (recipient deltaCid sigs roster : Json) (v : SettlementVerdict) :
    Prop where
  bundle : ∃ q, rec.getD "quorum" .null = .ok q ∧ q.isObj = true ∧ q.truthy = true
    ∧ (hdr.quorumHash = "" ∨ quorumHash P q = hdr.quorumHash)
    ∧ q.getD "delta_cid" (.str "") = .ok deltaCid ∧ q.getD "sigs" (.arr []) = .ok sigs
  pinned : Json.pyEq policy.roster .null = false
  sole : ∃ contribs, rec.getD "contributors" (.obj []) = .ok contribs
    ∧ soleContributor (contribs.orElse (.obj [])) = .ok recipient
  rosterArg : policy.rosterArg = .ok roster
  verdict : collectSettlementSignatures P recipient hdr.reward hdr.height deltaCid roster sigs
    policy.m = .ok v
  approved : v.approved = true

/-- **The quorum check accepts exactly the blocks whose bundle authorises their decision.** -/
theorem verifyBlockQuorum_eq_ok {P : Platform} {policy : QuorumPolicy} {rec : Json}
    {hdr : BlockHeader PyFloat} :
    verifyBlockQuorum P rec hdr policy = .ok (.ok ()) ↔
      ∃ recipient deltaCid sigs roster v,
        QuorumVerified P policy rec hdr recipient deltaCid sigs roster v := by
  constructor
  · intro h
    unfold verifyBlockQuorum at h
    obtain ⟨q, hq, h⟩ := bind_eq_ok.mp h
    by_cases hobj : q.isObj = true ∧ q.truthy = true
    swap
    · rw [if_pos (by simpa [imp_iff_not_or] using hobj)] at h
      cases h
    rw [if_neg (by simp [hobj.1, hobj.2])] at h
    by_cases hhash : hdr.quorumHash ≠ "" ∧ quorumHash P q ≠ hdr.quorumHash
    · rw [if_pos hhash] at h
      cases h
    rw [if_neg hhash] at h
    cases hpin : Json.pyEq policy.roster .null with
    | true =>
      rw [if_pos hpin] at h
      cases h
    | false =>
      rw [if_neg (by simp [hpin])] at h
      obtain ⟨contribs, hcontribs, h⟩ := bind_eq_ok.mp h
      obtain ⟨recipient, hrecipient, h⟩ := bind_eq_ok.mp h
      obtain ⟨roster, hroster, h⟩ := bind_eq_ok.mp h
      dsimp only at h
      split at h
      · cases h
      · next v hv =>
        obtain ⟨deltaCid, hcid, hv⟩ := bind_eq_ok.mp hv
        obtain ⟨sigs, hsigs, hv⟩ := bind_eq_ok.mp hv
        refine ⟨recipient, deltaCid, sigs, roster, v, ⟨q, hq, hobj.1, hobj.2, ?_, hcid, hsigs⟩,
          hpin, ⟨contribs, hcontribs, hrecipient⟩, hroster, hv, ?_⟩
        · by_cases hempty : hdr.quorumHash = ""
          · exact Or.inl hempty
          · exact Or.inr (not_not.mp fun hne => hhash ⟨hempty, hne⟩)
        · by_contra happroved
          rw [if_neg happroved] at h
          cases h
  · rintro ⟨recipient, deltaCid, sigs, roster, v, hver⟩
    obtain ⟨q, hq, hobj, htruthy, hhash, hcid, hsigs⟩ := hver.bundle
    obtain ⟨contribs, hcontribs, hrecipient⟩ := hver.sole
    have hbound : ¬ (hdr.quorumHash ≠ "" ∧ quorumHash P q ≠ hdr.quorumHash) := by
      rintro ⟨hne, hne'⟩
      exact hhash.elim hne hne'
    unfold verifyBlockQuorum
    simp only [hq, hobj, htruthy, ok_bind, Bool.not_true, Bool.or_self, Bool.false_eq_true,
      ↓reduceIte, hbound, hver.pinned, hcontribs, hrecipient, hver.rosterArg, hcid, hsigs,
      hver.verdict, hver.approved]
    rfl

/-- Under an enforcing policy a replayed block carries an authorised decision. -/
theorem BlockReplayed.quorumVerified {P : Platform} {coord : Json} {policy : QuorumPolicy}
    {st st' : State PyFloat} {head head' : String} {rec : Json} {hdr : BlockHeader PyFloat}
    (h : BlockReplayed P coord policy st head rec hdr st' head')
    (hreq : policy.requireQuorum = true) :
    ∃ recipient deltaCid sigs roster v,
      QuorumVerified P policy rec hdr recipient deltaCid sigs roster v := by
  have hquorum := h.quorum
  rw [checkQuorum, if_pos hreq] at hquorum
  exact verifyBlockQuorum_eq_ok.mp hquorum

/-! ## Count rosters -/

/-- The threshold of a list roster is a strict majority of it. -/
structure CountThreshold (T : PyText) (members : List Json) (m : Option ℤ) (gs : GuardianSet) :
    Prop where
  normalized : gs.members = GuardianSet.normalize T members
  threshold : gs.threshold = m.getD ((rosterSize T members / 2 : ℕ) + 1)
  nonempty : rosterSize T members ≠ 0
  le_size : gs.threshold ≤ rosterSize T members
  majority : (rosterSize T members : ℤ) < gs.threshold * 2

/-- **A list roster approves when as many members signed as a majority threshold asks.** -/
theorem collect_list_approved {P : Platform} {recipient deltaCid sigs : Json} {amount : PyFloat}
    {height : ℤ} {members : List Json} {m : Option ℤ} :
    (∃ v, collectSettlementSignatures P recipient amount height deltaCid (.arr members) sigs m
        = .ok v ∧ v.approved = true) ↔
      ∃ gs atts, CountThreshold P.toPyText members m gs
        ∧ (sigs.orElse (.arr [])).toList = .ok atts
        ∧ gs.threshold ≤ (gs.distinctSigners P
            (settlementPayload P.toPyText recipient amount height deltaCid) (sigsOf atts)).length := by
  have hroster : rosterMembersAndStakes P.toPyText (.arr members) = .ok (members,
      Dict.ofList (members.map (fun a => (a.toStr P.toPyText, .fin 1)))) := by
    cases members <;> rfl
  unfold collectSettlementSignatures
  rw [hroster, ok_bind]
  dsimp only
  generalize hm : m.getD ((rosterSize P.toPyText members / 2 : ℕ) + 1) = k
  constructor
  · rintro ⟨v, h, happroved⟩
    split at h
    · cases h
    · next hn =>
      split at h
      · cases h
      · next hk =>
        obtain ⟨atts, hatts, h⟩ := bind_eq_ok.mp h
        obtain ⟨gs, hgs, h⟩ := bind_eq_ok.mp h
        obtain ⟨hmembers, hthreshold⟩ := GuardianSet.make_eq_ok.mp hgs
        cases h
        push Not at hk
        refine ⟨gs, atts, ⟨hmembers, by rw [hthreshold, hm], hn, by omega, by omega⟩, hatts, ?_⟩
        rw [hthreshold]
        simpa [Json.isObj] using happroved
  · rintro ⟨gs, atts, hthr, hatts, hsigned⟩
    have hk : gs.threshold = k := hthr.threshold.trans hm
    have hone := gs.one_le
    have hle := hthr.le_size
    have hmaj := hthr.majority
    rw [if_neg hthr.nonempty, if_neg (by push Not; omega)]
    simp only [hatts, ok_bind, GuardianSet.make_eq_ok.mpr ⟨hthr.normalized, hk⟩]
    refine ⟨_, rfl, ?_⟩
    simpa [Json.isObj, ← hk] using hsigned

/-! ## Planned blocks -/

/-- The signatures authorise the decision under the pinned roster. -/
def Authorises (P : Platform) (policy : QuorumPolicy) (recipient : Json) (amount : PyFloat)
    (height : ℤ) (deltaCid : String) (sigs : List Json) : Prop :=
  Json.pyEq policy.roster .null = false ∧ ∃ roster v, policy.rosterArg = .ok roster
    ∧ collectSettlementSignatures P recipient amount height (.str deltaCid) roster (.arr sigs)
        policy.m = .ok v
    ∧ v.approved = true

/-- A signature as text is its own attestation. -/
theorem sigsOf_str (sigs : List String) :
    sigsOf (sigs.map Json.str) = sigs.map Json.str := by
  unfold sigsOf
  induction sigs with
  | nil => rfl
  | cons s sigs ih =>
    simp only [List.map_cons, sigOf, Json.getD, Json.pyEq, Json.number?, Bool.not_false,
      List.filter_cons_of_pos, List.cons.injEq, true_and]
    exact ih

/-- The signatures of these keys over a decision. -/
def signatures (P : Platform) (signers : List String) (recipient : Json) (amount : PyFloat)
    (height : ℤ) (deltaCid : String) : List Json :=
  (signers.map (fun a => signBytes P a
    (settlementPayload P.toPyText recipient amount height (.str deltaCid)))).map Json.str

/-- **Enough members of a list roster authorise what they sign.** -/
theorem authorises_of_signers {P : Platform} {policy : QuorumPolicy} {members : List Json}
    {keys : Set String} (hroster : policy.roster = .arr members) (hkeys : IdealSigs P keys)
    {gs : GuardianSet} (hthr : CountThreshold P.toPyText members policy.m gs)
    (signers : List String)
    (hsigners : ∀ a ∈ signers, a ∈ keys ∧ P.lower a ∈ GuardianSet.normalize P.toPyText members)
    (hnodup : (signers.map P.lower).Nodup) (hcount : gs.threshold ≤ signers.length)
    (recipient : Json) (amount : PyFloat) (height : ℤ) (deltaCid : String) :
    Authorises P policy recipient amount height deltaCid
      (signatures P signers recipient amount height deltaCid) := by
  have hpinned : Json.pyEq policy.roster .null = false := by
    rw [hroster]
    simp [Json.pyEq, Json.number?]
  have harg : policy.rosterArg = .ok (.arr members) := by
    rw [QuorumPolicy.rosterArg, hroster]
    rfl
  have hsubset : signers.map P.lower ⊆ gs.distinctSigners P
      (settlementPayload P.toPyText recipient amount height (.str deltaCid))
      (sigsOf (signatures P signers recipient amount height deltaCid)) := by
    intro s hs
    obtain ⟨a, ha, rfl⟩ := List.mem_map.mp hs
    obtain ⟨hkey, hmem⟩ := hsigners a ha
    rw [GuardianSet.mem_distinctSigners, hthr.normalized, signatures, sigsOf_str]
    exact ⟨hmem, _, List.mem_map_of_mem (List.mem_map_of_mem ha), a,
      hkeys.recoverBytes_signBytes hkey _, rfl⟩
  have hlength := (hnodup.subperm hsubset).length_le
  rw [List.length_map] at hlength
  obtain ⟨v, hv, happroved⟩ := collect_list_approved.mpr
    ⟨gs, _, hthr, Json.toList_orElse_arr _, hcount.trans (Int.ofNat_le.mpr hlength)⟩
  exact ⟨hpinned, _, v, harg, hv, happroved⟩

/-- What a coordinator decides to put into a block. -/
structure PlannedBlock where
  contributors : List (String × Json)
  height : ℤ
  reward : ℚ
  deltaCid : String
  sigs : List Json

namespace PlannedBlock

def bundle (b : PlannedBlock) : Json :=
  .obj [("delta_cid", .str b.deltaCid), ("sigs", .arr b.sigs)]

def header (P : Platform) (coord head : String) (b : PlannedBlock) : BlockHeader PyFloat where
  height := b.height
  prevHash := .str head
  beacon := .str (beacon P head)
  parentCheckpoint := .null
  newCheckpoint := .null
  workScore := .fin 0
  proposer := .str coord
  reward := .fin b.reward
  txRoot := .str zeroHash
  timestamp := 0
  protocolVersion := genesisVersion
  quorumHash := quorumHash P b.bundle

/-- The weights are readable and the bundle authorises the decision. -/
structure Ready (P : Platform) (policy : QuorumPolicy) (b : PlannedBlock) : Prop where
  weights : ∃ agg, State.aggregate (Json.toFloat P.toPyText) ∅ (Json.dictOf b.contributors).entries
    = .ok agg
  authorised : Authorises P policy (soleRecipient b.contributors) (.fin b.reward) b.height
    b.deltaCid b.sigs

/-- The record carries what was planned. -/
structure Follows (T : PyText) (b : PlannedBlock) (rec : Json) : Prop where
  header : ∃ hdr, HeaderOf T rec hdr ∧ hdr.height = b.height ∧ hdr.reward = .fin b.reward
  contributors : rec.item "contributors" = .ok (.obj b.contributors)
  quorum : rec.getD "quorum" .null = .ok b.bundle

variable {P : Platform} {coord : String} {policy : QuorumPolicy} {b : PlannedBlock}

theorem finite_header (P : Platform) (coord head : String) (b : PlannedBlock) :
    (b.header P coord head).Finite where
  workScore := ⟨0, rfl⟩
  reward := ⟨b.reward, rfl⟩
  prevHash := rfl
  beacon := rfl
  parentCheckpoint := rfl
  newCheckpoint := rfl
  proposer := rfl
  txRoot := rfl

/-- **A planned block whose decision is authorised can be appended** to any plain state. -/
theorem exists_block (hsign : CanSign P coord) (hreq : policy.requireQuorum = true)
    (hready : b.Ready P policy) {st : State PyFloat} (hst : st.Plain) (head : String) :
    ∃ rec st' head',
      BlockReplayed P (.str coord) policy st head rec (b.header P coord head) st' head'
        ∧ b.Follows P.toPyText rec := by
  obtain ⟨d, h, hh, hd⟩ := (b.finite_header P coord head).exists_hash P
  obtain ⟨rec, hrec⟩ : ∃ rec, signRecord P coord (b.header P coord head) (.obj b.contributors)
      (some b.bundle) = .ok rec :=
    ⟨_, signRecord_eq_ok.mpr ⟨h, d, hd, hh, rfl⟩⟩
  obtain ⟨hash, j, _, hj, hheader, hcontributors, _, hquorum⟩ := item_signRecord hrec
  obtain ⟨agg, hagg⟩ := hready.weights
  obtain ⟨st', happly, _⟩ := applyRecord_of_aggregate hst
    (show (b.header P coord head).txRoot = .str zeroHash from rfl) hcontributors hagg
  obtain ⟨hpinned, roster, v, hroster, hv, happroved⟩ := hready.authorised
  have hverified : QuorumVerified P policy rec (b.header P coord head)
      (soleRecipient b.contributors) (.str b.deltaCid) (.arr b.sigs) roster v :=
    ⟨⟨b.bundle, hquorum, rfl, rfl, Or.inr rfl, rfl, rfl⟩, hpinned,
      ⟨_, Json.getD_of_item hcontributors, by rw [Json.orElse_obj, soleContributor_obj]⟩, hroster, hv, happroved⟩
  have hcheck : checkQuorum P policy rec (b.header P coord head) = .ok (.ok ()) := by
    rw [checkQuorum, if_pos hreq]
    exact verifyBlockQuorum_eq_ok.mpr ⟨_, _, _, _, _, hverified⟩
  obtain ⟨head', _, hblock⟩ := blockReplayed_of_signRecord hsign hrec rfl hcheck happly
  exact ⟨_, st', head', hblock,
    ⟨⟨_, hblock.header, rfl, rfl⟩, hcontributors, hquorum⟩⟩

/-- Planned blocks replay one after the other. -/
theorem exists_replay (hsign : CanSign P coord) (hreq : policy.requireQuorum = true)
    {plan : List PlannedBlock} (hready : ∀ b ∈ plan, b.Ready P policy) {st : State PyFloat}
    (hst : st.Plain) (head : String) :
    ∃ recs st' head', Replays P (.str coord) policy st head recs st' head'
      ∧ List.Forall₂ (Follows P.toPyText) plan recs := by
  induction plan generalizing st head with
  | nil => exact ⟨[], st, head, .nil _ _, .nil⟩
  | cons b plan ih =>
    obtain ⟨rec, st₁, head₁, hblock, hfollows⟩ :=
      exists_block hsign hreq (hready b (by simp)) hst head
    obtain ⟨recs, st', head', hrest, hall⟩ :=
      ih (fun b' hb' => hready b' (by simp [hb'])) (hblock.plain hst) head₁
    exact ⟨rec :: recs, st', head', .cons hblock hrest, .cons hfollows hall⟩

/-- **Authorised plans make accepted exports.** -/
theorem exists_accepted (hsign : CanSign P coord) (hcoord : coord ≠ "")
    (hreq : policy.requireQuorum = true) (plan : List PlannedBlock)
    (hready : ∀ b ∈ plan, b.Ready P policy) :
    ∃ exported r, Accepted P exported coord policy r
      ∧ List.Forall₂ (Follows P.toPyText) plan (exportBlocks exported) := by
  obtain ⟨recs, st, head, hreplays, hfollows⟩ := exists_replay hsign hreq hready
    (State.plain_genesis (.str "pool-genesis")) zeroHash
  obtain ⟨r, hr, _⟩ := accepted_of_replays hcoord
    (show (Json.obj [("blocks", .arr recs)]).get? "blocks" = some (.arr recs) from rfl) hreplays
  exact ⟨_, r, hr, hfollows⟩

end PlannedBlock

end NeuraHash
