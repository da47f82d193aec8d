import NeuraHash.Committee.Aggregate

/-!
# The committee's verdict on a candidate (`neurahash/diloco_committee.py`)

`verifyDilocoCandidate` gathers the attestations of a committee, run in the process
(`verifierAccounts`) or replied by peers (`verifierFns`), binds them to this candidate by the
beacon and counts them. `gatedAccept` combines the verdict with the single node's own gate.
-/

namespace NeuraHash

open Py

/-! ## The call -/

/-- The keyword arguments of `verify_diloco_candidate`. A verifier's function either returns a
value or raises. -/
structure CommitteeCall where
  delta : Params PyFloat
  baseRound : ℤ
  roundBeacon : String
  baseTrunk : Params PyFloat
  evalFn : Params PyFloat → PyFloat
  m : ℤ
  verifierAccounts : Option (List String) := none
  verifierFns : Option (List (Except PyErr Json)) := none
  selected : Json := .null
  outer : PyFloat := .fin (7 / 10)
  margin : PyFloat := 0
  dishonest : List String := []
  deltaHash : Option String := none
  slashTolerance : PyFloat := 0

/-- The verdict `verify_diloco_candidate` returns. -/
structure CommitteeVerdict where
  accepted : Bool
  nAccept : ℕ
  nTotal : ℕ
  quorum : ℤ
  quorumMet : Bool
  selectedN : ℕ
  perVerifier : List Json
  slashable : List String
  beacon : String
  deltaHash : String

/-- A reply that is a dict bound to this request; an exception counts as no reply. -/
def boundReply (beacon : String) : Except PyErr Json → Option Json
  | .ok a => if a.isObj && ((a.get? "beacon").getD .null).pyEq (.str beacon) then some a else none
  | .error _ => none

namespace CommitteeCall

variable (P : Platform) (np : Numpy PyFloat) (c : CommitteeCall)

/-- The candidate's name: the given hash, or the hash of the delta. -/
def candidateHash : String := c.deltaHash.getD (deltaHashNp P np c.delta)

def beacon : Except PyErr String :=
  dilocoCommitteeBeacon P c.baseRound c.roundBeacon (c.candidateHash P np)

/-- The attestations gathered under a beacon: computed in the process, or replied. -/
def gather (beacon : String) : List Json :=
  match c.verifierAccounts with
  | some accounts => accounts.map (fun acct =>
      buildDilocoAttestation P np acct (c.candidateHash P np) c.baseRound beacon c.baseTrunk c.delta
        c.evalFn c.outer c.margin (decide (P.lower acct ∈ c.dishonest.map P.lower)))
  | none => (c.verifierFns.getD []).filterMap (boundReply beacon)

end CommitteeCall

/-- `len({str(s).lower() for s in selected})`. -/
def memberCount (allow : List String) : ℕ := allow.dedup.length

/-- A committee bound to a roster needs a threshold above half of it. -/
def admittedThreshold (m : ℤ) : Option (List String) → Bool
  | some allow => decide (1 ≤ m ∧ (memberCount allow : ℤ) < m * 2)
  | none => true

/-- The line of a valid attestation in the verdict. -/
def verifierLine (att : Json) : Json :=
  .obj [
    ("address", .str (attAddress att)),
    ("accepted", .bool (attAccepted att)),
    ("gain", (att.get? "gain").getD .null),
    ("sig", (att.get? "sig").getD .null)]

/-- `verify_diloco_candidate`. -/
def verifyDilocoCandidate (P : Platform) (np : Numpy PyFloat) (c : CommitteeCall) :
    Except PyErr CommitteeVerdict := do
  if c.verifierAccounts.isNone = c.verifierFns.isNone then throw .valueError
  let allow ← allowedSigners P.toPyText c.selected
  if admittedThreshold c.m allow = false then throw .valueError
  let beacon ← c.beacon P np
  let r ← aggregateDilocoAttestations P (c.gather P np beacon) c.m c.selected c.margin
    c.slashTolerance
  return {
    accepted := r.accepted
    nAccept := r.nAccept
    nTotal := r.valid.length
    quorum := c.m
    quorumMet := decide (c.m ≤ r.valid.length)
    selectedN := (allow.map memberCount).getD r.valid.length
    perVerifier := r.valid.map verifierLine
    slashable := r.slashable
    beacon := beacon
    deltaHash := c.candidateHash P np }

/-! ## The decision -/

/-- What `gated_accept` reads of a verdict; a key that is absent is `none`, or false. -/
structure CommitteeReport where
  selectedN : Option ℤ
  quorumMet : Bool
  accepted : Bool

def CommitteeVerdict.report (v : CommitteeVerdict) : CommitteeReport :=
  ⟨some v.selectedN, v.quorumMet, v.accepted⟩

/-- `gated_accept(single_ok, committee_v, mode, min_cohort, strict)`. -/
def gatedAccept (singleOk : Bool) (v : CommitteeReport) (mode : String) (minCohort : ℤ)
    (strict : Bool) : Bool :=
  if mode ≠ "enforce" then singleOk
  else
    let fallback := if strict then false else singleOk
    -- a cohort too small to be a real quorum
    if v.selectedN.getD minCohort < minCohort then fallback
    else if v.quorumMet && !v.accepted then false
    else if !v.quorumMet then fallback
    else singleOk

/-! ## What a verdict says -/

/-- **What a returned verdict says**, in terms of the votes that count. -/
theorem verifyDilocoCandidate_eq_ok {P : Platform} {np : Numpy PyFloat} {c : CommitteeCall}
    {v : CommitteeVerdict} (h : verifyDilocoCandidate P np c = .ok v) :
    ∃ allow beacon, allowedSigners P.toPyText c.selected = .ok allow ∧ 1 ≤ c.m
      ∧ admittedThreshold c.m allow = true ∧ c.beacon P np = .ok beacon
      ∧ let weights := attestationStakeWeights P.toPyText c.selected
        let votes := countedVotes P allow (c.gather P np beacon)
        v.accepted = committeeAccepts weights c.m (acceptingVotes votes).length
            (acceptingStake weights 0 votes)
          ∧ v.quorumMet = decide (c.m ≤ votes.length)
          ∧ v.selectedN = (allow.map memberCount).getD votes.length := by
  unfold verifyDilocoCandidate at h
  by_cases hmode : c.verifierAccounts.isNone = c.verifierFns.isNone
  · rw [if_pos hmode] at h
    cases h
  rw [if_neg hmode] at h
  obtain ⟨allow, hallow, h⟩ := bind_eq_ok.mp h
  by_cases hadmitted : admittedThreshold c.m allow = false
  · rw [if_pos hadmitted] at h
    cases h
  rw [if_neg hadmitted] at h
  obtain ⟨beacon, hbeacon, h⟩ := bind_eq_ok.mp h
  obtain ⟨r, hr, h⟩ := bind_eq_ok.mp h
  rw [aggregateDilocoAttestations_eq] at hr
  by_cases hm : c.m < 1
  · rw [if_pos hm] at hr
    cases hr
  rw [if_neg hm, hallow] at hr
  cases hr
  cases h
  refine ⟨allow, beacon, hallow, not_lt.mp hm, by simpa using hadmitted, hbeacon, ?_⟩
  simp only [committeeResult, List.length_map, true_and]

/-- A signed attestation for this request is kept. -/
theorem boundReply_sign (P : Platform) (account deltaHash : String) (baseRound : ℤ)
    (beacon : String) (accepted : Bool) (gain : PyFloat) :
    boundReply beacon
        (.ok (signDilocoAttestation P account deltaHash baseRound beacon accepted gain))
      = some (signDilocoAttestation P account deltaHash baseRound beacon accepted gain) := by
  have hbeacon : (signDilocoAttestation P account deltaHash baseRound beacon accepted gain).get?
      "beacon" = some (.str beacon) := rfl
  rw [boundReply, hbeacon]
  simp [signDilocoAttestation, Json.isObj]

/-- **A well-formed call returns a verdict.** -/
theorem exists_verifyDilocoCandidate {P : Platform} {np : Numpy PyFloat} {c : CommitteeCall}
    (hmode : c.verifierAccounts.isNone ≠ c.verifierFns.isNone) (hm : 1 ≤ c.m)
    {allow : Option (List String)} (hallow : allowedSigners P.toPyText c.selected = .ok allow)
    (hadmitted : admittedThreshold c.m allow = true) {beacon : String}
    (hbeacon : c.beacon P np = .ok beacon) : ∃ v, verifyDilocoCandidate P np c = .ok v := by
  unfold verifyDilocoCandidate
  rw [if_neg hmode, hallow, hbeacon]
  simp only [aggregateDilocoAttestations_eq, ok_bind, hadmitted, Bool.true_eq_false, if_false,
    if_neg (not_lt.mpr hm), hallow]
  exact ⟨_, rfl⟩

/-- With the replies given, the committee did not run in the process. -/
theorem verifierAccounts_eq_none {P : Platform} {np : Numpy PyFloat} {c : CommitteeCall}
    {v : CommitteeVerdict} (h : verifyDilocoCandidate P np c = .ok v)
    {replies : List (Except PyErr Json)} (hfns : c.verifierFns = some replies) :
    c.verifierAccounts = none := by
  unfold verifyDilocoCandidate at h
  by_cases hmode : c.verifierAccounts.isNone = c.verifierFns.isNone
  · rw [if_pos hmode] at h
    cases h
  · rw [hfns] at hmode
    cases haccounts : c.verifierAccounts with
    | none => rfl
    | some accounts => exact absurd (by rw [haccounts]; rfl) hmode

/-! ## A committee that answers -/

/-- The beacon of round 0 and a delta of hash `delta`. -/
def answeredBeacon (P : Platform) : String :=
  P.sha256 (List.replicate 8 0 ++ utf8 "round" ++ utf8 "delta")

/-- A call in round 0 that the given verifiers answer by the same vote. -/
def answeredCall (P : Platform) (selected : Json) (m : ℤ) (voters : List String) (accepted : Bool) :
    CommitteeCall where
  delta := ∅
  baseRound := 0
  roundBeacon := "round"
  baseTrunk := ∅
  evalFn _ := 0
  m := m
  verifierFns := some (voters.map (fun a =>
    .ok (signDilocoAttestation P a "delta" 0 (answeredBeacon P) accepted (.fin 1))))
  selected := selected
  deltaHash := some "delta"

theorem beacon_answeredCall (P : Platform) (np : Numpy PyFloat) (selected : Json) (m : ℤ)
    (voters : List String) (accepted : Bool) :
    (answeredCall P selected m voters accepted).beacon P np = .ok (answeredBeacon P) := by
  have hround : toBytes8Signed 0 = .ok (List.replicate 8 0) := by decide
  show dilocoCommitteeBeacon P 0 "round" "delta" = _
  rw [dilocoCommitteeBeacon, hround]
  rfl

/-- The votes of an answered call. -/
def answeredVotes (P : Platform) (voters : List String) (accepted : Bool) : List (String × Json) :=
  voters.map (fun a =>
    (P.lower a, signDilocoAttestation P a "delta" 0 (answeredBeacon P) accepted (.fin 1)))

section Answered

variable {P : Platform} {keys : Set String} {selected : Json} {allow : List String} {m : ℤ}
  {voters : List String}

theorem gather_answeredCall (np : Numpy PyFloat) (accepted : Bool) :
    (answeredCall P selected m voters accepted).gather P np (answeredBeacon P)
      = voters.map (fun a => signDilocoAttestation P a "delta" 0 (answeredBeacon P) accepted
          (.fin 1)) := by
  show List.filterMap _ (List.map _ voters) = _
  rw [List.filterMap_map, ← List.filterMap_eq_map]
  exact List.filterMap_congr fun a _ => boundReply_sign P a "delta" 0 _ accepted _

/-- The voters respond. -/
theorem respondents_answeredCall (np : Numpy PyFloat) (hkeys : IdealSigs P keys) (accepted : Bool)
    (hvoters : ∀ a ∈ voters, a ∈ keys) (hmembers : ∀ a ∈ voters, P.lower a ∈ allow)
    (hnodup : (voters.map P.lower).Nodup) :
    respondents P (some allow) ((answeredCall P selected m voters accepted).gather P np
      (answeredBeacon P)) = voters.map P.lower := by
  rw [gather_answeredCall]
  refine respondents_of_verified
    (fun a ha => verifyDilocoAttestation_sign hkeys (hvoters a ha) ..) (fun a ha l hl => ?_) hnodup
  cases hl
  exact hmembers a ha

/-- **The verdict on an answered call counts the voters.** -/
theorem exists_verdict_answeredCall (np : Numpy PyFloat) (hkeys : IdealSigs P keys)
    (accepted : Bool) (hallow : allowedSigners P.toPyText selected = .ok (some allow)) (hm : 1 ≤ m)
    (hadmitted : admittedThreshold m (some allow) = true) (hvoters : ∀ a ∈ voters, a ∈ keys)
    (hmembers : ∀ a ∈ voters, P.lower a ∈ allow) (hnodup : (voters.map P.lower).Nodup) :
    ∃ v, verifyDilocoCandidate P np (answeredCall P selected m voters accepted) = .ok v
      ∧ v.accepted = committeeAccepts (attestationStakeWeights P.toPyText selected) m
          (acceptingVotes (answeredVotes P voters accepted)).length
          (acceptingStake (attestationStakeWeights P.toPyText selected) 0
            (answeredVotes P voters accepted)) := by
  have hmode : (answeredCall P selected m voters accepted).verifierAccounts.isNone
      ≠ (answeredCall P selected m voters accepted).verifierFns.isNone := by
    simp [answeredCall]
  have hbeacon := beacon_answeredCall P np selected m voters accepted
  obtain ⟨v, hv⟩ := exists_verifyDilocoCandidate hmode hm hallow hadmitted hbeacon
  have hcounted : countedVotes P (some allow) ((answeredCall P selected m voters accepted).gather
      P np (answeredBeacon P)) = answeredVotes P voters accepted := by
    rw [gather_answeredCall]
    refine countedVotes_of_verified
      (fun a ha => verifyDilocoAttestation_sign hkeys (hvoters a ha) ..) (fun a ha l hl => ?_) hnodup
    cases hl
    exact hmembers a ha
  refine ⟨v, hv, ?_⟩
  obtain ⟨allow', beacon, hallow', _, _, hbeacon', haccepted, _⟩ := verifyDilocoCandidate_eq_ok hv
  cases hallow.symm.trans hallow'
  cases hbeacon.symm.trans hbeacon'
  rw [hcounted] at haccepted
  exact haccepted

end Answered

end NeuraHash
