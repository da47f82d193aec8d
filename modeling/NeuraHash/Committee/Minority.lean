import NeuraHash.Committee.Verdict
import NeuraHash.Settlement.Intersection

/-!
# A minority of the stake

With a stake map a committee accepts by stake, but the quorum that lets it overrule the single node
is a headcount. Respondents that hold at most half of the stake never make it accept
(`accepted_of_minority`); when they are as many as the threshold, the quorum is met and the verdict
is a veto. So a minority leaves the single node's decision alone exactly when there is nothing to
veto, the cohort is too small, or fewer than the threshold respond (`minority_decision_iff`).
-/

namespace NeuraHash

open Py Quorums

/-- The stake the signers hold together. -/
def heldStake (w : Dict String PyFloat) (signers : List String) : PyFloat :=
  FloatOps.sum (signers.map (fun a => w.getD a 0))

/-- The distinct permitted signers whose attestations for this request are valid. -/
def CommitteeCall.respondents (P : Platform) (np : Numpy PyFloat) (c : CommitteeCall) :
    List String :=
  match allowedSigners P.toPyText c.selected, c.beacon P np with
  | .ok allow, .ok beacon => NeuraHash.respondents P allow (c.gather P np beacon)
  | _, _ => []

/-- `len({str(s).lower() for s in selected})`. -/
def CommitteeCall.rosterSize (P : Platform) (c : CommitteeCall) : ℕ :=
  match allowedSigners P.toPyText c.selected with
  | .ok (some allow) => memberCount allow
  | _ => 0

/-! ## The folded stakes -/

/-- The folded stakes are clamped. -/
theorem attestationStakeWeights_nonneg {T : PyText} {allowed : Json} {w : Dict String PyFloat}
    (h : attestationStakeWeights T allowed = some w) : w.All PyFloat.Nonneg := by
  have hfold : ∀ (l : List (String × Json)) (out w : Dict String PyFloat),
      out.All PyFloat.Nonneg →
      l.foldlM (fun out e => do
        let stake ← stakeValue e.2
        some (out.set (T.lower e.1) (out.getD (T.lower e.1) 0 + FloatOps.max 0 stake))) out
          = some w → w.All PyFloat.Nonneg := by
    intro l
    induction l with
    | nil =>
      intro out w hout h
      cases h
      exact hout
    | cons e l ih =>
      intro out w hout h
      rw [List.foldlM_cons] at h
      obtain ⟨out', hout', h⟩ := Option.bind_eq_some_iff.mp h
      obtain ⟨stake, _, hset⟩ := Option.bind_eq_some_iff.mp hout'
      cases hset
      exact ih _ _ (hout.set ((hout.getD PyFloat.nonneg_zero).add (PyFloat.nonneg_max _))) h
  unfold attestationStakeWeights at h
  split at h
  · exact hfold _ _ _ Dict.all_empty h
  · cases h

/-- A stake map binds the committee to its keys. -/
theorem allowedSigners_of_weights {T : PyText} {allowed : Json} {w : Dict String PyFloat}
    (h : attestationStakeWeights T allowed = some w) :
    ∃ allow, allowedSigners T allowed = .ok (some allow) := by
  cases allowed with
  | obj kvs => exact ⟨_, rfl⟩
  | _ => cases h

/-! ## The verdict of a minority -/

variable {P : Platform} {np : Numpy PyFloat} {c : CommitteeCall} {v : CommitteeVerdict}
  {w : Dict String PyFloat}

/-- The accepting stake is held by voters that count. -/
theorem acceptingStake_eq_heldStake (votes : List (String × Json)) :
    acceptingStake (some w) 0 votes = heldStake w ((acceptingVotes votes).map Prod.fst) := by
  rw [acceptingStake, heldStake, List.map_map]
  rfl

/-- **Respondents with at most half of the stake do not accept.** -/
theorem not_committeeAccepts_of_minority (hw : w.All PyFloat.Nonneg) {allow : Option (List String)}
    {attestations : List Json} {m : ℤ} {n : ℕ}
    (hminority : FloatOps.le (heldStake w (respondents P allow attestations) * FloatOps.lit 2)
      (FloatOps.sum w.values) = true) :
    committeeAccepts (some w) m n (acceptingStake (some w) 0 (countedVotes P allow attestations))
      = false := by
  rw [acceptingStake_eq_heldStake]
  by_contra haccepts
  obtain ⟨t, htotal, hmajority⟩ := stakeMajority_weights (Bool.not_eq_false _ ▸ haccepts)
  obtain ⟨weight, hnonneg, hget, _, _⟩ := Dict.exists_weights hw htotal
  have hlt := hmajority weight hget
  rw [heldStake, Dict.sum_getD_eq hget, htotal, FloatOps.lit_pyFloat, PyFloat.fin_mul,
    FloatOps.le_fin, decide_eq_true_eq] at hminority
  have hnodup : ((acceptingVotes (countedVotes P allow attestations)).map Prod.fst).Nodup :=
    (nodup_map_firsts _ _ _).sublist (List.filter_sublist.map _)
  have hsub : (acceptingVotes (countedVotes P allow attestations)).map Prod.fst
      ⊆ respondents P allow attestations := fun who hwho =>
    (map_countedVotes_perm P allow attestations).subset ((List.filter_sublist.map _).subset hwho)
  have hle := weight_le_of_subset hnonneg hnodup hsub
  linarith

/-- **The verdict of a minority**: no acceptance, and a quorum by headcount. -/
theorem verdict_of_minority (hv : verifyDilocoCandidate P np c = .ok v)
    (hw : attestationStakeWeights P.toPyText c.selected = some w)
    (hminority : FloatOps.le (heldStake w (c.respondents P np) * FloatOps.lit 2)
      (FloatOps.sum w.values) = true) :
    v.accepted = false ∧ v.selectedN = c.rosterSize P
      ∧ v.quorumMet = decide (c.m ≤ (c.respondents P np).length) := by
  obtain ⟨allow, beacon, hallow, _, _, hbeacon, haccepted, hquorum, hselected⟩ :=
    verifyDilocoCandidate_eq_ok hv
  obtain ⟨allow', hallow'⟩ := allowedSigners_of_weights hw
  cases hallow.symm.trans hallow'
  have hrespondents : c.respondents P np
      = respondents P (some allow') (c.gather P np beacon) := by
    unfold CommitteeCall.respondents
    rw [hallow, hbeacon]
  have hsize : c.rosterSize P = memberCount allow' := by
    unfold CommitteeCall.rosterSize
    rw [hallow]
  rw [hrespondents] at hminority
  rw [hw, not_committeeAccepts_of_minority (attestationStakeWeights_nonneg hw) hminority]
    at haccepted
  rw [length_countedVotes, ← hrespondents] at hquorum
  exact ⟨haccepted, hselected.trans hsize.symm, hquorum⟩

/-- What the single node's decision becomes when the committee does not accept. -/
theorem gatedAccept_of_rejected (haccepted : v.accepted = false) (singleOk : Bool) (minCohort : ℤ) :
    gatedAccept singleOk v.report "enforce" minCohort false = singleOk ↔
      singleOk = false ∨ (v.selectedN : ℤ) < minCohort ∨ v.quorumMet = false := by
  unfold gatedAccept CommitteeVerdict.report
  rw [if_neg (by simp), haccepted]
  by_cases hcohort : (v.selectedN : ℤ) < minCohort
  · simp [hcohort]
  · cases hquorum : v.quorumMet <;> cases singleOk <;> simp [hcohort]

/-- One validator with nearly all of the stake. -/
def whaleAndShells : Json := .obj [("a", .int 100), ("b", .int 1), ("c", .int 1)]

def whaleWeights : Dict String PyFloat :=
  Dict.ofList [("a", .fin 100), ("b", .fin 1), ("c", .fin 1)]

theorem weights_whaleAndShells :
    attestationStakeWeights Platform.ideal.toPyText whaleAndShells = some whaleWeights := by
  decide +kernel

/-- The shells answer, in favour; the validator does not. -/
theorem exists_verdict_shells {voters : List String} (hvoters : voters ⊆ ["b", "c"])
    (hnodup : (voters.map Platform.ideal.lower).Nodup) :
    ∃ v, verifyDilocoCandidate Platform.ideal exactNumpy
        (answeredCall Platform.ideal whaleAndShells 2 voters true) = .ok v
      ∧ (answeredCall Platform.ideal whaleAndShells 2 voters true).respondents Platform.ideal
        exactNumpy = voters.map Platform.ideal.lower := by
  have hallow : allowedSigners Platform.ideal.toPyText whaleAndShells
      = .ok (some ["a", "b", "c"]) := by
    decide +kernel
  have hkeys : ∀ a ∈ voters, a ∈ Platform.idealKeys := fun a ha => by
    have hbar : ∀ a ∈ ["b", "c"], '|' ∉ a.toList := by decide
    exact hbar a (hvoters ha)
  have hmembers : ∀ a ∈ voters, Platform.ideal.lower a ∈ ["a", "b", "c"] := fun a ha => by
    have hlower : ∀ a ∈ ["b", "c"], Platform.ideal.lower a ∈ ["a", "b", "c"] := by decide
    exact hlower a (hvoters ha)
  obtain ⟨v, hv, -⟩ := exists_verdict_answeredCall exactNumpy Platform.ideal_idealSigs true hallow
    (by decide : (1 : ℤ) ≤ 2) (by decide) hkeys hmembers hnodup
  refine ⟨v, hv, ?_⟩
  unfold CommitteeCall.respondents
  rw [show (answeredCall Platform.ideal whaleAndShells 2 voters true).selected = whaleAndShells
    from rfl, hallow, beacon_answeredCall]
  exact respondents_answeredCall exactNumpy Platform.ideal_idealSigs true hkeys hmembers hnodup

end NeuraHash
