import NeuraHash.Committee.Attestation
import NeuraHash.Quorums.FirstVotes

/-!
# Counting a committee (`neurahash/diloco_committee.py`)

`aggregateDilocoAttestations` counts verified attestations of permitted signers, the first of each
signer. A list of addresses accepts when `m` of them accept, a stake map when the accepting signers
hold more than half of the stake; whoever disagrees with the outcome is slashable.
-/

namespace NeuraHash

open Py Quorums

/-! ## The model -/

/-- A stake: an integer or a float, and no boolean. -/
def stakeValue : Json → Option PyFloat
  | .int n => some (.fin n)
  | .float x => some x
  | _ => none

/-- `_attestation_stake_weights(allowed)`: the clamped stakes by lower-case address, when `allowed`
maps addresses to numbers. -/
def attestationStakeWeights (T : PyText) (allowed : Json) : Option (Dict String PyFloat) :=
  match allowed with
  | .obj kvs => (Json.dictOf kvs).entries.foldlM (fun out e => do
      let stake ← stakeValue e.2
      some (out.set (T.lower e.1) (out.getD (T.lower e.1) 0 + FloatOps.max 0 stake))) ∅
  | _ => none

/-- `str(a).lower()` of each address. -/
def lowerAddresses (T : PyText) (members : List Json) : List String :=
  members.map (fun a => T.lower (a.toStr T))

/-- `{str(a).lower() for a in allowed}`; `none` when nothing is required of the signers. -/
def allowedSigners (T : PyText) (allowed : Json) : Except PyErr (Option (List String)) :=
  if allowed.notNone then do
    let members ← allowed.toList
    return some (lowerAddresses T members)
  else .ok none

/-- What the counting loop has collected. -/
structure CommitteeTally where
  valid : List Json
  seen : List String
  nAccept : ℕ
  acceptStake : PyFloat

/-- The stake a vote adds to the accepting side. -/
def acceptWeight (weights : Option (Dict String PyFloat)) (who : String) : PyFloat :=
  match weights with
  | some w => w.getD who 0
  | none => 0

/-- One attestation of the counting loop. -/
def CommitteeTally.step (P : Platform) (allow : Option (List String))
    (weights : Option (Dict String PyFloat)) (t : CommitteeTally) (att : Json) : CommitteeTally :=
  match verifyDilocoAttestation P att with
  | none => t
  | some recovered =>
    let who := P.lower recovered
    if who ∈ t.seen ∨ allow.all (fun l => decide (who ∈ l)) = false then t
    else if attAccepted att then
      ⟨t.valid ++ [att], t.seen ++ [who], t.nAccept + 1, t.acceptStake + acceptWeight weights who⟩
    else ⟨t.valid ++ [att], t.seen ++ [who], t.nAccept, t.acceptStake⟩

/-- What `aggregate_diloco_attestations` returns. -/
structure CommitteeResult where
  accepted : Bool
  valid : List Json
  slashable : List String
  nAccept : ℕ

/-- `att["verifier_addr"]`. -/
def attAddress (att : Json) : String :=
  match att.get? "verifier_addr" with
  | some (.str claimed) => claimed
  | _ => ""

/-- `float(att.get("gain", 0.0))`. -/
def attGain (T : PyText) (att : Json) : PyFloat :=
  match ((att.get? "gain").getD (.float 0)).toFloat T with
  | .ok gain => gain
  | .error _ => .nan

/-- A vote against the outcome is slashable; with a tolerance, only when its gain is clearly on its
side of the boundary. -/
def slashableVote (T : PyText) (accepted : Bool) (boundary slashTolerance : PyFloat) (att : Json) :
    Bool :=
  (attAccepted att != accepted) && (FloatOps.le slashTolerance 0
    || FloatOps.lt slashTolerance (attGain T att - boundary).abs)

/-- Whether the counted votes accept: by stake when there are weights, by count otherwise. -/
def committeeAccepts (weights : Option (Dict String PyFloat)) (m : ℤ) (nAccept : ℕ)
    (acceptStake : PyFloat) : Bool :=
  match weights with
  | some w =>
    let total := FloatOps.sum w.values
    FloatOps.lt 0 total && FloatOps.lt total (acceptStake * FloatOps.lit 2)
  | none => decide (m ≤ nAccept)

/-- `aggregate_diloco_attestations(attestations, m, allowed, boundary, slash_tolerance)`. -/
def aggregateDilocoAttestations (P : Platform) (attestations : List Json) (m : ℤ) (allowed : Json)
    (boundary slashTolerance : PyFloat) : Except PyErr CommitteeResult := do
  if m < 1 then throw .valueError
  let weights := attestationStakeWeights P.toPyText allowed
  let allow ← allowedSigners P.toPyText allowed
  let t := attestations.foldl (CommitteeTally.step P allow weights) ⟨[], [], 0, 0⟩
  let accepted := committeeAccepts weights m t.nAccept t.acceptStake
  return {
    accepted := accepted
    valid := t.valid
    slashable := sortedSet ((t.valid.filter
      (slashableVote P.toPyText accepted boundary slashTolerance)).map attAddress)
    nAccept := t.nAccept }

/-! ## The counted votes -/

/-- A permitted vote: the signer of a verified attestation, in lower case, and the attestation. -/
def permittedVote (P : Platform) (allow : Option (List String)) (att : Json) :
    Option (String × Json) :=
  match verifyDilocoAttestation P att with
  | none => none
  | some recovered =>
    if allow.all (fun l => decide (P.lower recovered ∈ l)) then some (P.lower recovered, att)
    else none

/-- The votes that count: the first of each permitted signer. -/
def countedVotes (P : Platform) (allow : Option (List String)) (attestations : List Json) :
    List (String × Json) :=
  firsts Prod.fst [] (attestations.filterMap (permittedVote P allow))

variable {P : Platform} {allow : Option (List String)} {weights : Option (Dict String PyFloat)}

theorem permittedVote_eq_some {att : Json} {v : String × Json} :
    permittedVote P allow att = some v ↔ ∃ who, verifyDilocoAttestation P att = some who
      ∧ (∀ l ∈ allow, P.lower who ∈ l) ∧ v = (P.lower who, att) := by
  unfold permittedVote
  cases hverify : verifyDilocoAttestation P att with
  | none => simp
  | some who =>
    by_cases hallow : allow.all (fun l => decide (P.lower who ∈ l)) = true
    · simp only [hallow, if_true, Option.some.injEq, exists_eq_left', eq_comm (a := v)]
      cases allow <;> simp_all
    · simp only [hallow, Option.some.injEq, exists_eq_left']
      cases allow <;> simp_all

/-- The accepting votes. -/
def acceptingVotes (votes : List (String × Json)) : List (String × Json) :=
  votes.filter (fun v => attAccepted v.2)

/-- The stake of the accepting votes, in the order they are counted. -/
def acceptingStake (weights : Option (Dict String PyFloat)) (start : PyFloat)
    (votes : List (String × Json)) : PyFloat :=
  ((acceptingVotes votes).map (fun v => acceptWeight weights v.1)).foldl (· + ·) start

/-- **What the loop has collected**, in terms of the votes that count. -/
theorem foldl_step (attestations : List Json) (t : CommitteeTally) :
    attestations.foldl (CommitteeTally.step P allow weights) t =
      let votes := firsts Prod.fst t.seen (attestations.filterMap (permittedVote P allow))
      ⟨t.valid ++ votes.map Prod.snd, t.seen ++ votes.map Prod.fst,
        t.nAccept + (acceptingVotes votes).length,
        acceptingStake weights t.acceptStake votes⟩ := by
  induction attestations generalizing t with
  | nil => simp [firsts, acceptingStake, acceptingVotes]
  | cons att rest ih =>
    rw [List.foldl_cons, ih]
    have hvote : permittedVote P allow att = match verifyDilocoAttestation P att with
      | none => none
      | some recovered => if allow.all (fun l => decide (P.lower recovered ∈ l)) then
          some (P.lower recovered, att) else none := rfl
    unfold CommitteeTally.step
    cases hverify : verifyDilocoAttestation P att with
    | none =>
      rw [hverify] at hvote
      rw [List.filterMap_cons_none hvote]
    | some who =>
      rw [hverify] at hvote
      dsimp only at hvote ⊢
      by_cases hallow : allow.all (fun l => decide (P.lower who ∈ l)) = true
      swap
      · rw [if_neg hallow] at hvote
        rw [if_pos (Or.inr (by simpa using hallow)), List.filterMap_cons_none hvote]
      rw [if_pos hallow] at hvote
      rw [List.filterMap_cons_some hvote]
      by_cases hseen : P.lower who ∈ t.seen
      · rw [if_pos (Or.inl hseen)]
        simp only [firsts, hseen, if_true]
      · rw [if_neg (by simp [hseen, hallow])]
        simp only [firsts, hseen, if_false]
        cases haccepted : attAccepted att <;>
          simp [haccepted, acceptingStake, acceptingVotes, add_assoc, add_comm 1]

/-- The result of a count, in terms of the votes that count. -/
def committeeResult (P : Platform) (allow : Option (List String))
    (weights : Option (Dict String PyFloat)) (attestations : List Json) (m : ℤ)
    (boundary slashTolerance : PyFloat) : CommitteeResult :=
  let votes := countedVotes P allow attestations
  let accepted := committeeAccepts weights m (acceptingVotes votes).length
    (acceptingStake weights 0 votes)
  { accepted := accepted
    valid := votes.map Prod.snd
    slashable := sortedSet (((votes.map Prod.snd).filter
      (slashableVote P.toPyText accepted boundary slashTolerance)).map attAddress)
    nAccept := (acceptingVotes votes).length }

/-- **What the count returns**, in terms of the votes that count. -/
theorem aggregateDilocoAttestations_eq (attestations : List Json) (m : ℤ) (allowed : Json)
    (boundary slashTolerance : PyFloat) :
    aggregateDilocoAttestations P attestations m allowed boundary slashTolerance =
      if m < 1 then .error .valueError else do
        let allow ← allowedSigners P.toPyText allowed
        return committeeResult P allow (attestationStakeWeights P.toPyText allowed) attestations m
          boundary slashTolerance := by
  unfold aggregateDilocoAttestations
  split
  · rfl
  · simp only [foldl_step, List.nil_append, zero_add]
    rfl

/-! ## Respondents -/

/-- The distinct permitted signers whose attestations are valid. -/
def respondents (P : Platform) (allow : Option (List String)) (attestations : List Json) :
    List String :=
  ((attestations.filterMap (permittedVote P allow)).map Prod.fst).dedup

/-- Everyone counted is a respondent, and the other way round. -/
theorem map_countedVotes_perm (P : Platform) (allow : Option (List String))
    (attestations : List Json) :
    ((countedVotes P allow attestations).map Prod.fst).Perm (respondents P allow attestations) := by
  refine (List.perm_ext_iff_of_nodup (nodup_map_firsts ..) (List.nodup_dedup _)).mpr fun who => ?_
  rw [List.mem_dedup]
  exact mem_map_firsts.trans (and_iff_left List.not_mem_nil)

theorem length_countedVotes (P : Platform) (allow : Option (List String))
    (attestations : List Json) :
    (countedVotes P allow attestations).length = (respondents P allow attestations).length := by
  rw [← (map_countedVotes_perm P allow attestations).length_eq, List.length_map]

section Verified

variable {accounts : List String} {att : String → Json}

theorem filterMap_permittedVote_of_verified
    (hverify : ∀ a ∈ accounts, verifyDilocoAttestation P (att a) = some a)
    (hallow : ∀ a ∈ accounts, ∀ l ∈ allow, P.lower a ∈ l) :
    (accounts.map att).filterMap (permittedVote P allow)
      = accounts.map (fun a => (P.lower a, att a)) := by
  rw [List.filterMap_map, ← List.filterMap_eq_map]
  exact List.filterMap_congr fun a ha =>
    permittedVote_eq_some.mpr ⟨a, hverify a ha, hallow a ha, rfl⟩

/-- Verified attestations of distinct permitted signers all count. -/
theorem countedVotes_of_verified
    (hverify : ∀ a ∈ accounts, verifyDilocoAttestation P (att a) = some a)
    (hallow : ∀ a ∈ accounts, ∀ l ∈ allow, P.lower a ∈ l)
    (hnodup : (accounts.map P.lower).Nodup) :
    countedVotes P allow (accounts.map att) = accounts.map (fun a => (P.lower a, att a)) := by
  rw [countedVotes, filterMap_permittedVote_of_verified hverify hallow]
  refine firsts_of_nodup ?_ fun _ _ => List.not_mem_nil
  rwa [List.map_map]

theorem respondents_of_verified
    (hverify : ∀ a ∈ accounts, verifyDilocoAttestation P (att a) = some a)
    (hallow : ∀ a ∈ accounts, ∀ l ∈ allow, P.lower a ∈ l)
    (hnodup : (accounts.map P.lower).Nodup) :
    respondents P allow (accounts.map att) = accounts.map P.lower := by
  rw [respondents, filterMap_permittedVote_of_verified hverify hallow, List.map_map]
  exact hnodup.dedup

end Verified

end NeuraHash
