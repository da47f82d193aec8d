import NeuraHash.Committee.Verdict
import NeuraHash.Settlement.Quorum

/-!
# What an accepting committee vouches for

Replies are arbitrary. A reply counts when it carries the beacon of this request and its signer,
recovered over the text rebuilt from the reply, is on the roster and has not been counted. So an
accepting verdict over a set of addresses has `m` members behind it that each signed an acceptance
of this candidate (`committee_acceptance_sound`).
-/

namespace NeuraHash

open Py

variable {P : Platform}

/-- **A beacon names its round and candidate**: the base round, and the text of the round's beacon
followed by the delta's hash. -/
theorem dilocoCommitteeBeacon_binds (hP : CollisionFree P) {r r' : ℤ} {rb rb' dh dh' beacon : String}
    (h : dilocoCommitteeBeacon P r rb dh = .ok beacon)
    (h' : dilocoCommitteeBeacon P r' rb' dh' = .ok beacon) : r' = r ∧ rb' ++ dh' = rb ++ dh := by
  obtain ⟨b, hb, h⟩ := bind_eq_ok.mp h
  obtain ⟨b', hb', h'⟩ := bind_eq_ok.mp h'
  cases h
  have hbytes := hP (Except.ok.inj h')
  rw [List.append_assoc, List.append_assoc, ← utf8_append, ← utf8_append] at hbytes
  have hlength : b'.length = b.length := by
    rw [length_toBytes8Signed hb, length_toBytes8Signed hb']
  obtain ⟨hround, htext⟩ := List.append_inj hbytes hlength
  rw [hround] at hb'
  exact ⟨toBytes8Signed_injective hb' hb, utf8_injective htext⟩

/-- What is kept of the replies carries this request's beacon. -/
theorem boundReply_eq_some {beacon : String} {reply : Except PyErr Json} {att : Json}
    (h : boundReply beacon reply = some att) :
    reply = .ok att ∧ att.item "beacon" = .ok (.str beacon) := by
  cases reply with
  | error e => cases h
  | ok a =>
    unfold boundReply at h
    dsimp only at h
    split at h
    swap
    · cases h
    next hbound =>
    cases h
    rw [Bool.and_eq_true, Json.pyEq_str_right] at hbound
    refine ⟨rfl, Json.item_eq_ok.mpr ?_⟩
    cases hget : att.get? "beacon" with
    | none =>
      rw [hget] at hbound
      cases hbound.2
    | some x =>
      rw [hget] at hbound
      exact congrArg some hbound.2

/-- A signature in one of the replies recovers to the member `s` over the payload. -/
def ReplyRecovered (P : Platform) (replies : List (Except PyErr Json)) (s : String)
    (payload : Bytes) : Prop :=
  ∃ att sig who, .ok att ∈ replies ∧ att.item "sig" = .ok sig
    ∧ recoverBytes P payload sig = some who ∧ P.lower who = s

/-- The member signed an acceptance under the beacon. -/
def SignedAcceptance (T : PyText) (signed : String → Bytes → Prop) (beacon s : String) : Prop :=
  ∃ deltaHash baseRound gain,
    signed s (dilocoAttestationPayload T deltaHash baseRound beacon true gain)

/-- **Every accepting vote that counts is an acceptance its signer signed**, over this request's
beacon. -/
theorem signed_of_acceptingVotes {allow : List String} {replies : List (Except PyErr Json)}
    {beacon : String} {signed : String → Bytes → Prop}
    (hunforged : ∀ s ∈ allow, ∀ payload, ReplyRecovered P replies s payload → signed s payload)
    {v : String × Json}
    (hv : v ∈ acceptingVotes (countedVotes P (some allow) (replies.filterMap (boundReply beacon)))) :
    v.1 ∈ allow ∧ SignedAcceptance P.toPyText signed beacon v.1 := by
  obtain ⟨hcounted, haccepted⟩ := List.mem_filter.mp hv
  obtain ⟨att, hatt, hpermitted⟩ := List.mem_filterMap.mp (Quorums.firsts_subset _ _ _ hcounted)
  obtain ⟨reply, hreply, hbound⟩ := List.mem_filterMap.mp hatt
  obtain ⟨rfl, hbeacon⟩ := boundReply_eq_some hbound
  obtain ⟨who, hverify, hallow, rfl⟩ := permittedVote_eq_some.mp hpermitted
  have hmember : P.lower who ∈ allow := hallow allow rfl
  obtain ⟨deltaHash, baseRound, beacon', gain, sig, _, hbeacon', hsig, _, _, hrecover⟩ :=
    verifyDilocoAttestation_eq_some hverify
  rw [hbeacon] at hbeacon'
  cases hbeacon'
  rw [haccepted, Json.toStr_str] at hrecover
  refine ⟨hmember, deltaHash, baseRound, gain, hunforged _ hmember _ ?_⟩
  exact ⟨att, sig, who, hreply, hsig, hrecover, rfl⟩

/-- **An accepting committee is `m` members that signed an acceptance of this candidate.** The
beacon they signed belongs to no other base round and no other candidate. -/
theorem committee_acceptance_sound {np : Numpy PyFloat} {c : CommitteeCall} {v : CommitteeVerdict}
    {members : List Json} {replies : List (Except PyErr Json)} {signed : String → Bytes → Prop}
    (hP : CollisionFree P) (hselected : c.selected = .arr members)
    (hfns : c.verifierFns = some replies)
    (hunforged : ∀ s ∈ lowerAddresses P.toPyText members, ∀ payload,
      ReplyRecovered P replies s payload → signed s payload)
    (hv : verifyDilocoCandidate P np c = .ok v) (haccepted : v.accepted = true) :
    ∃ beacon, dilocoCommitteeBeacon P c.baseRound c.roundBeacon (c.candidateHash P np) = .ok beacon
      ∧ (∀ baseRound roundBeacon deltaHash,
          dilocoCommitteeBeacon P baseRound roundBeacon deltaHash = .ok beacon →
          baseRound = c.baseRound ∧ roundBeacon ++ deltaHash = c.roundBeacon ++ c.candidateHash P np)
      ∧ ∃ S : List String, S.Nodup ∧ c.m ≤ S.length
        ∧ ∀ s ∈ S, s ∈ lowerAddresses P.toPyText members
          ∧ SignedAcceptance P.toPyText signed beacon s := by
  obtain ⟨allow, beacon, hallow, _, _, hbeacon, hacc, _, _⟩ := verifyDilocoCandidate_eq_ok hv
  have hnoAccounts : c.verifierAccounts = none := verifierAccounts_eq_none hv hfns
  rw [hselected] at hallow hacc
  cases hallow
  have hgather : c.gather P np beacon = replies.filterMap (boundReply beacon) := by
    rw [CommitteeCall.gather, hnoAccounts, hfns]
    rfl
  rw [hgather] at hacc
  let accepting := acceptingVotes (countedVotes P (some (lowerAddresses P.toPyText members))
    (replies.filterMap (boundReply beacon)))
  refine ⟨beacon, hbeacon, fun r rb dh h => dilocoCommitteeBeacon_binds hP hbeacon h,
    accepting.map Prod.fst, ?_, ?_, fun s hs => ?_⟩
  · exact (Quorums.nodup_map_firsts _ _ _).sublist (List.filter_sublist.map _)
  · rw [List.length_map]
    exact of_decide_eq_true (hacc.symm.trans haccepted)
  · obtain ⟨vote, hvote, rfl⟩ := List.mem_map.mp hs
    exact signed_of_acceptingVotes hunforged hvote

/-- A roster of one verifier, which accepts. -/
theorem committee_acceptance_sound_oneVerifier :
    ∃ v, verifyDilocoCandidate Platform.ideal exactNumpy
        (answeredCall Platform.ideal (.arr [.str "v1"]) 1 ["v1"] true) = .ok v ∧ v.accepted = true
      ∧ ∃ S : List String, S.Nodup ∧ 1 ≤ (S.length : ℤ) ∧ ∀ s ∈ S, s ∈ ["v1"]
        ∧ SignedAcceptance Platform.ideal.toPyText
          (fun s payload => s = "v1" ∧ payload = dilocoAttestationPayload Platform.ideal.toPyText
            "delta" 0 (answeredBeacon Platform.ideal) true (.fin 1))
          (answeredBeacon Platform.ideal) s := by
  have hkeys : IdealSigs Platform.ideal (Platform.idealRosterKeys [.str "v1"]) :=
    Platform.ideal_idealSigs.mono (Platform.idealRosterKeys_subset (by decide))
  have hv1 : Platform.ideal.lower "v1" ∈ GuardianSet.normalize Platform.ideal.toPyText
      [.str "v1"] := by
    decide
  have hallow : allowedSigners Platform.ideal.toPyText (.arr [.str "v1"]) = .ok (some ["v1"]) := rfl
  obtain ⟨v, hv, hverdict⟩ := exists_verdict_answeredCall exactNumpy hkeys true hallow le_rfl
    (by decide) (List.forall_mem_singleton.mpr hv1) (by decide) (by decide)
  have haccepted : v.accepted = true := hverdict
  -- the only signature recovers to its signer, over the text it signed
  have hunforged : ∀ s ∈ lowerAddresses Platform.ideal.toPyText [.str "v1"], ∀ payload,
      ReplyRecovered Platform.ideal [.ok (signDilocoAttestation Platform.ideal "v1" "delta" 0
        (answeredBeacon Platform.ideal) true (.fin 1))] s payload →
      s = "v1" ∧ payload = dilocoAttestationPayload Platform.ideal.toPyText "delta" 0
        (answeredBeacon Platform.ideal) true (.fin 1) := by
    rintro s hs payload ⟨att, sig, who, hatt, hsig, hrecover, rfl⟩
    cases List.mem_singleton.mp hatt
    cases hsig
    exact ⟨List.mem_singleton.mp hs, (hkeys.of_recoverBytes hv1 hs hrecover).2⟩
  obtain ⟨beacon, hbeacon, -, hsigned⟩ :=
    committee_acceptance_sound Platform.ideal_collisionFree rfl rfl hunforged hv haccepted
  cases (beacon_answeredCall _ exactNumpy (.arr [.str "v1"]) 1 ["v1"] true).symm.trans hbeacon
  exact ⟨v, hv, haccepted, hsigned⟩

end NeuraHash
