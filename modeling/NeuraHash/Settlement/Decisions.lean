import NeuraHash.Python.Lists
import NeuraHash.Settlement.Authorisation

/-!
# Each decision once

A block of an enforced chain is authorised by one reward decision: a recipient, an amount, a
height and a contribution (`blockDecision`). The replay checks that the decision of each block was
signed, and nothing across blocks: the height of a header need not grow, so a coordinator can
append a second block over the same decision with the same signatures.

The decisions of every accepted chain are distinct exactly when the heights of its headers are
(`decisions_distinct_iff`).
-/

namespace NeuraHash

open Py

/-! ## Decisions -/

/-- A reward decision, as the validators sign it. -/
structure Decision where
  recipient : String
  /-- Rounded to twelve places. -/
  amount : PyFloat
  height : ℤ
  deltaCid : String

/-- The decision the arguments of `settlement_payload` name. -/
def Decision.of (T : PyText) (recipient : Json) (amount : PyFloat) (height : ℤ)
    (deltaCid : Json) : Decision where
  recipient := recipient.toStr T
  amount := amount.round12
  height := height
  deltaCid := (deltaCid.orElse (.str "")).toStr T

/-- Signatures are over the same text exactly when the decisions are the same. -/
theorem settlementPayload_eq_iff {T : PyText} {r r' : Json} {a a' : PyFloat} {h h' : ℤ}
    {d d' : Json} :
    settlementPayload T r a h d = settlementPayload T r' a' h' d' ↔
      Decision.of T r a h d = Decision.of T r' a' h' d' := by
  rw [settlementPayload_inj, Decision.of, Decision.of, Decision.mk.injEq]

/-- The decision the quorum of a block is checked against. -/
def blockDecision (T : PyText) (rec : Json) (hdr : BlockHeader PyFloat) :
    Except PyErr Decision := do
  let q ← rec.getD "quorum" .null
  let recipient ← soleContributor ((← rec.getD "contributors" (.obj [])).orElse (.obj []))
  return .of T recipient hdr.reward hdr.height (← q.getD "delta_cid" (.str ""))

/-- The record is a block over the decision. -/
def AuthorisedBy (T : PyText) (rec : Json) (d : Decision) : Prop :=
  ∃ hdr, HeaderOf T rec hdr ∧ blockDecision T rec hdr = .ok d

/-- No two of the records are over one decision. -/
def DecisionsDistinct (T : PyText) (recs : List Json) : Prop :=
  recs.Pairwise (fun x y => ∀ d, AuthorisedBy T x d → ¬ AuthorisedBy T y d)

/-- The heights of the records' headers. -/
def Heights (T : PyText) (recs : List Json) (heights : List ℤ) : Prop :=
  List.Forall₂ (fun rec h => ∃ hdr, HeaderOf T rec hdr ∧ hdr.height = h) recs heights

theorem blockDecision_height {T : PyText} {rec : Json} {hdr : BlockHeader PyFloat} {d : Decision}
    (h : blockDecision T rec hdr = .ok d) : d.height = hdr.height := by
  unfold blockDecision at h
  obtain ⟨q, _, h⟩ := bind_eq_ok.mp h
  obtain ⟨contribs, _, h⟩ := bind_eq_ok.mp h
  obtain ⟨recipient, _, h⟩ := bind_eq_ok.mp h
  obtain ⟨deltaCid, _, h⟩ := bind_eq_ok.mp h
  cases h
  rfl

/-- What the enforcing replay accepted is authorised by a decision, and the counted signatures
are over it. -/
theorem BlockReplayed.authorisedBy {P : Platform} {coord : Json} {policy : QuorumPolicy}
    {st st' : State PyFloat} {head head' : String} {rec : Json} {hdr : BlockHeader PyFloat}
    (h : BlockReplayed P coord policy st head rec hdr st' head')
    (hreq : policy.requireQuorum = true) :
    ∃ recipient deltaCid sigs roster v,
      QuorumVerified P policy rec hdr recipient deltaCid sigs roster v
        ∧ AuthorisedBy P.toPyText rec (.of P.toPyText recipient hdr.reward hdr.height deltaCid) := by
  obtain ⟨recipient, deltaCid, sigs, roster, v, hver⟩ := h.quorumVerified hreq
  obtain ⟨q, hq, _, _, _, hcid, _⟩ := hver.bundle
  obtain ⟨contribs, hcontribs, hrecipient⟩ := hver.sole
  refine ⟨recipient, deltaCid, sigs, roster, v, hver, hdr, h.header, ?_⟩
  unfold blockDecision
  simp only [hq, hcontribs, hrecipient, hcid, ok_bind]
  rfl

/-! ## Distinct heights -/

/-- Blocks of distinct heights are over distinct decisions. -/
theorem DecisionsDistinct.of_nodup {T : PyText} {recs : List Json} {heights : List ℤ}
    (h : Heights T recs heights) (hnodup : heights.Nodup) : DecisionsDistinct T recs := by
  refine pairwise_of_forall₂ ?_ h.flip hnodup
  rintro a b x y ⟨hdrx, hx, rfl⟩ ⟨hdry, hy, rfl⟩ hne d ⟨hdr, hhdr, hd⟩ ⟨hdr', hhdr', hd'⟩
  refine hne ?_
  rw [hx.unique hhdr, hy.unique hhdr', ← blockDecision_height hd, ← blockDecision_height hd']

/-! ## Reusing a quorum -/

/-- The validators authorise some payment at this height. -/
def Payable (P : Platform) (policy : QuorumPolicy) (h : ℤ) : Prop :=
  ∃ recipient amount deltaCid sigs, 0 < amount
    ∧ Authorises P policy (.str recipient) (.fin amount) h deltaCid sigs

theorem PlannedBlock.Follows.authorisedBy {T : PyText} {b : PlannedBlock} {rec : Json}
    (h : b.Follows T rec) :
    AuthorisedBy T rec (.of T (soleRecipient b.contributors) (.fin b.reward) b.height
      (.str b.deltaCid)) := by
  obtain ⟨hdr, hhdr, hheight, hreward⟩ := h.header
  refine ⟨hdr, hhdr, ?_⟩
  unfold blockDecision
  rw [h.quorum, ok_bind, Json.getD_of_item h.contributors, ok_bind, Json.orElse_obj, soleContributor_obj, ok_bind,
    hheight, hreward]
  rfl

/-- Whatever the heights, an adversarial coordinator reuses the quorum of each. -/
theorem exists_reusing_export {P : Platform} {coord : String} {policy : QuorumPolicy}
    (hsign : CanSign P coord) (hcoord : coord ≠ "") (hreq : policy.requireQuorum = true)
    (heights : List ℤ) (hpay : ∀ h ∈ heights, Payable P policy h) :
    ∃ exported r, Accepted P exported coord policy r
      ∧ Heights P.toPyText (exportBlocks exported) heights
      ∧ (DecisionsDistinct P.toPyText (exportBlocks exported) → heights.Nodup) := by
  choose! recipient amount deltaCid sigs hpos hauth using hpay
  let plan : ℤ → PlannedBlock := fun h =>
    ⟨[(recipient h, .int 1)], h, amount h, deltaCid h, sigs h⟩
  have hready : ∀ b ∈ heights.map plan, b.Ready P policy := by
    intro b hb
    obtain ⟨h, hh, rfl⟩ := List.mem_map.mp hb
    exact ⟨⟨_, aggregate_sole P.toPyText (recipient h)⟩, hauth h hh⟩
  obtain ⟨exported, r, hr, hfollows⟩ := PlannedBlock.exists_accepted hsign hcoord hreq _ hready
  rw [List.forall₂_map_left_iff] at hfollows
  refine ⟨exported, r, hr, hfollows.flip.imp fun rec h hrec => hrec.header.imp fun hdr hhdr =>
    ⟨hhdr.1, hhdr.2.1⟩, fun hdistinct => ?_⟩
  refine pairwise_of_forall₂ ?_ hfollows.flip hdistinct
  rintro x y h h' hx hy hne rfl
  exact hne _ hx.authorisedBy hy.authorisedBy

/-- **Every accepted chain over these heights pays each decision once, exactly when no height
occurs twice.** -/
theorem decisions_distinct_iff {P : Platform} {coord : String} {policy : QuorumPolicy}
    (hsign : CanSign P coord) (hcoord : coord ≠ "") (hreq : policy.requireQuorum = true)
    {heights : List ℤ} (hpay : ∀ h ∈ heights, Payable P policy h) :
    (∀ exported r, Accepted P exported coord policy r →
        Heights P.toPyText (exportBlocks exported) heights →
        DecisionsDistinct P.toPyText (exportBlocks exported))
      ↔ heights.Nodup := by
  constructor
  · intro hall
    obtain ⟨exported, r, hr, hheights, hnodup⟩ := exists_reusing_export hsign hcoord hreq heights hpay
    exact hnodup (hall exported r hr hheights)
  · intro hnodup exported r _ hheights
    exact .of_nodup hheights hnodup

/-! ## Three validators -/

/-- An enforcing policy with three validators. -/
def threeValidators : QuorumPolicy := ⟨true, .arr [.str "v1", .str "v2", .str "v3"], none⟩

theorem threeValidators_threshold :
    ∃ gs, CountThreshold Platform.ideal.toPyText [.str "v1", .str "v2", .str "v3"] none gs
      ∧ gs.threshold = 2 := by
  have hnormal : GuardianSet.normalize Platform.ideal.toPyText [.str "v1", .str "v2", .str "v3"]
      = ["v1", "v2", "v3"] := by decide
  have hsize : rosterSize Platform.ideal.toPyText [.str "v1", .str "v2", .str "v3"] = 3 := by decide
  refine ⟨⟨["v1", "v2", "v3"], 2, by decide, by decide, by decide⟩, ⟨hnormal.symm, ?_, ?_, ?_, ?_⟩,
    rfl⟩ <;> rw [hsize] <;> decide

/-- Two of the three authorise what they sign. -/
theorem authorises_threeValidators (signers : List String)
    (hmem : ∀ a ∈ signers, a ∈ ["v1", "v2", "v3"]) (hnodup : signers.Nodup)
    (htwo : 2 ≤ signers.length) (recipient : Json) (amount : PyFloat) (height : ℤ)
    (deltaCid : String) :
    Authorises Platform.ideal threeValidators recipient amount height deltaCid
      (signatures Platform.ideal signers recipient amount height deltaCid) := by
  obtain ⟨gs, hgs, hthreshold⟩ := threeValidators_threshold
  have hmembers : ∀ a ∈ ["v1", "v2", "v3"], '|' ∉ a.toList ∧ Platform.ideal.lower a = a
      ∧ a ∈ GuardianSet.normalize Platform.ideal.toPyText [.str "v1", .str "v2", .str "v3"] := by
    decide
  have hlower : signers.map Platform.ideal.lower = signers :=
    (List.map_congr_left fun a ha => (hmembers a (hmem a ha)).2.1).trans (List.map_id _)
  refine authorises_of_signers rfl Platform.ideal_idealSigs hgs signers ?_ ?_ ?_ _ _ _ _
  · intro a ha
    obtain ⟨hbar, hfold, hin⟩ := hmembers a (hmem a ha)
    exact ⟨hbar, by rwa [hfold]⟩
  · rwa [hlower]
  · rw [hthreshold]
    exact_mod_cast htwo

/-- Two of the three authorise any payment. -/
theorem payable_threeValidators (h : ℤ) : Payable Platform.ideal threeValidators h :=
  ⟨"miner", 10, "cid", _, by norm_num,
    authorises_threeValidators ["v1", "v2"] (by decide) (by decide) (by decide) _ _ _ _⟩

/-- Two heights, two decisions. -/
theorem decisions_distinct_threeValidators :
    [(1 : ℤ), 2].Nodup ∧ ∀ exported r,
      Accepted Platform.ideal exported "coordinator" threeValidators r →
      Heights Platform.ideal.toPyText (exportBlocks exported) [1, 2] →
      DecisionsDistinct Platform.ideal.toPyText (exportBlocks exported) :=
  ⟨by decide, (decisions_distinct_iff
    (Platform.ideal_idealSigs.canSign (by simp [Platform.idealKeys])) (by decide) rfl
    (fun h _ => payable_threeValidators h)).mpr (by decide)⟩

/-- One quorum, two blocks: the coordinator appends the decision of height 1 again. -/
theorem not_each_decision_once :
    ¬ ∀ (P : Platform) (keys : Set String) (coord : String) (policy : QuorumPolicy)
        (exported : Json) (r : PublicChain),
      CollisionFree P → IdealSigs P keys → coord ∈ keys → policy.requireQuorum = true →
      Json.pyEq policy.roster .null = false → Accepted P exported coord policy r →
      DecisionsDistinct P.toPyText (exportBlocks exported) := by
  intro hclaim
  have hmem : "coordinator" ∈ Platform.idealKeys := by simp [Platform.idealKeys]
  obtain ⟨exported, r, hr, _, hnodup⟩ := exists_reusing_export
    (Platform.ideal_idealSigs.canSign hmem) (by decide) rfl [1, 1]
    (fun h _ => payable_threeValidators h)
  have hdistinct := hclaim Platform.ideal Platform.idealKeys "coordinator" threeValidators exported r
    Platform.ideal_collisionFree Platform.ideal_idealSigs hmem rfl
    (by simp [threeValidators, Json.pyEq, Json.number?]) hr
  exact absurd (hnodup hdistinct) (by decide)

end NeuraHash
