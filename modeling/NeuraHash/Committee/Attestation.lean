import NeuraHash.Merge.Gate
import NeuraHash.Signing

/-!
# Committee attestations (`neurahash/diloco_committee.py`)

A verifier runs the held-out gate on a candidate delta and signs its verdict
(`signDilocoAttestation`). The signed text carries a beacon, the digest of the base round, the
round's beacon and the delta's hash. An attestation is untrusted JSON: the signer is recovered over
the text rebuilt from the attestation's own fields (`verifyDilocoAttestation`).
-/

namespace NeuraHash

open Py

/-! ## Naming the candidate -/

/-- `str(shape)`. -/
def shapeText : List ℕ → String
  | [n] => "(" ++ n.repr ++ ",)"
  | shape => "(" ++ String.intercalate ", " (shape.map Nat.repr) ++ ")"

/-- `delta_hash_np(delta_np)`: a digest over the sorted keys, the shapes and the `float32` bytes. A
scalar is hashed as an array of one element. -/
def deltaHashNp {F : Type} (P : Platform) (np : Numpy F) (delta : Params F) : String :=
  P.sha256 (delta.sortedItems.flatMap (fun e =>
    utf8 e.1 ++ utf8 (shapeText (if e.2.shape = [] then [1] else e.2.shape))
      ++ e.2.data.flatMap (fun x => np.tobytes (np.float32 x))))

/-- `diloco_committee_beacon(base_round, round_beacon_hex, delta_hash_hex)`. -/
def dilocoCommitteeBeacon (P : Platform) (baseRound : ℤ) (roundBeacon deltaHash : String) :
    Except PyErr String := do
  return P.sha256 ((← toBytes8Signed baseRound) ++ utf8 roundBeacon ++ utf8 deltaHash)

/-! ## Signed attestations -/

/-- `diloco_attestation_payload(delta_hash, base_round, beacon_hex, accepted, gain)`. -/
def dilocoAttestationPayload (T : PyText) (deltaHash : String) (baseRound : ℤ) (beacon : String)
    (accepted : Bool) (gain : PyFloat) : Bytes :=
  utf8 (Json.dumps T [] (.obj [
    ("w", .str "neurahash-diloco-committee"),
    ("delta_hash", .str deltaHash),
    ("base_round", .int baseRound),
    ("beacon", .str beacon),
    ("accepted", .bool accepted),
    ("gain", .float gain.round6)]))

/-- `sign_diloco_attestation`, by the account of the given address. -/
def signDilocoAttestation (P : Platform) (account deltaHash : String) (baseRound : ℤ)
    (beacon : String) (accepted : Bool) (gain : PyFloat) : Json :=
  .obj [
    ("delta_hash", .str deltaHash),
    ("base_round", .int baseRound),
    ("beacon", .str beacon),
    ("accepted", .bool accepted),
    ("gain", .float gain.round6),
    ("verifier_addr", .str account),
    ("sig", .str (signBytes P account
      (dilocoAttestationPayload P.toPyText deltaHash baseRound beacon accepted gain)))]

/-- The text an attestation is a signature over, rebuilt from its own fields. -/
def attestationPayload (T : PyText) (att : Json) : Except PyErr Bytes := do
  let deltaHash ← att.item "delta_hash"
  let baseRound ← att.item "base_round"
  let beacon ← att.item "beacon"
  let accepted ← att.item "accepted"
  let gain ← att.item "gain"
  return dilocoAttestationPayload T (deltaHash.toStr T) (← baseRound.toInt T) (beacon.toStr T)
    accepted.truthy (← gain.toFloat T)

/-- The signer of an attestation's own text; `none` when a field is missing or malformed, or the
recovery fails. -/
def recoverAttestation (P : Platform) (att : Json) : Option String :=
  match attestationPayload P.toPyText att, att.item "sig" with
  | .ok payload, .ok sig => recoverBytes P payload sig
  | _, _ => none

/-- `verify_diloco_attestation(att)`: the recovered signer, when it is the claimed one. -/
def verifyDilocoAttestation (P : Platform) (att : Json) : Option String :=
  match recoverAttestation P att, att.get? "verifier_addr" with
  | some who, some (.str claimed) => if P.lower who = P.lower claimed then some who else none
  | _, _ => none

/-! ## The verdict of one verifier -/

/-- `held_out_verdict`: the gate's verdict without applying the delta, and the drop of the loss. -/
def heldOutVerdict (np : Numpy PyFloat) (trunk delta : Params PyFloat)
    (evalFn : Params PyFloat → PyFloat) (outer margin : PyFloat) : Bool × PyFloat :=
  let v := (gate np trunk delta evalFn outer margin false).1
  (v.accepted, match v.baseVal, v.mergedVal with
    | some base, some merged => base - merged
    | _, _ => 0)

/-- `build_diloco_attestation`; `flip` is a verifier that reports the opposite verdict. -/
def buildDilocoAttestation (P : Platform) (np : Numpy PyFloat) (account deltaHash : String)
    (baseRound : ℤ) (beacon : String) (trunk delta : Params PyFloat)
    (evalFn : Params PyFloat → PyFloat) (outer margin : PyFloat) (flip : Bool) : Json :=
  let (accepted, gain) := heldOutVerdict np trunk delta evalFn outer margin
  signDilocoAttestation P account deltaHash baseRound beacon (if flip then !accepted else accepted)
    gain

/-! ## What a verified attestation says -/

/-- The vote of an attestation. -/
def attAccepted (att : Json) : Bool :=
  match att.item "accepted" with
  | .ok accepted => accepted.truthy
  | .error _ => false

/-- The fields a rebuilt text was read from. -/
theorem attestationPayload_eq_ok {T : PyText} {att : Json} {payload : Bytes}
    (h : attestationPayload T att = .ok payload) :
    ∃ deltaHash baseRound beacon accepted gain, att.item "beacon" = .ok beacon
      ∧ att.item "accepted" = .ok accepted
      ∧ payload = dilocoAttestationPayload T deltaHash baseRound (beacon.toStr T) accepted.truthy
          gain := by
  obtain ⟨deltaHash, _, h⟩ := bind_eq_ok.mp h
  obtain ⟨baseRound, _, h⟩ := bind_eq_ok.mp h
  obtain ⟨beacon, hbeacon, h⟩ := bind_eq_ok.mp h
  obtain ⟨accepted, haccepted, h⟩ := bind_eq_ok.mp h
  obtain ⟨gain, _, h⟩ := bind_eq_ok.mp h
  obtain ⟨n, _, h⟩ := bind_eq_ok.mp h
  obtain ⟨g, _, h⟩ := bind_eq_ok.mp h
  exact ⟨deltaHash.toStr T, n, beacon, accepted, g, hbeacon, haccepted, (Except.ok.inj h).symm⟩

/-- **A verified attestation is a signature of its signer over a payload with its own vote and
beacon.** -/
theorem verifyDilocoAttestation_eq_some {P : Platform} {att : Json} {who : String}
    (h : verifyDilocoAttestation P att = some who) :
    ∃ deltaHash baseRound beacon gain sig claimed, att.item "beacon" = .ok beacon
      ∧ att.item "sig" = .ok sig ∧ att.get? "verifier_addr" = some (.str claimed)
      ∧ P.lower who = P.lower claimed
      ∧ recoverBytes P (dilocoAttestationPayload P.toPyText deltaHash baseRound
          (beacon.toStr P.toPyText) (attAccepted att) gain) sig = some who := by
  unfold verifyDilocoAttestation at h
  split at h
  swap
  · cases h
  next who' claimed hrecover hclaimed =>
  split at h
  swap
  · cases h
  next hlower =>
  cases h
  unfold recoverAttestation at hrecover
  split at hrecover
  swap
  · cases hrecover
  next payload sig hpayload hsig =>
  obtain ⟨deltaHash, baseRound, beacon, accepted, gain, hbeacon, haccepted, rfl⟩ :=
    attestationPayload_eq_ok hpayload
  have hvote : attAccepted att = accepted.truthy := by rw [attAccepted, haccepted]
  rw [← hvote] at hrecover
  exact ⟨deltaHash, baseRound, beacon, gain, sig, claimed, hbeacon, hsig, hclaimed, hlower,
    hrecover⟩

/-! ## What a signed attestation is worth -/

/-- The text rebuilt from a signed attestation is the text that was signed. -/
theorem attestationPayload_sign (P : Platform) (account deltaHash : String) (baseRound : ℤ)
    (beacon : String) (accepted : Bool) (gain : PyFloat) :
    attestationPayload P.toPyText
        (signDilocoAttestation P account deltaHash baseRound beacon accepted gain)
      = .ok (dilocoAttestationPayload P.toPyText deltaHash baseRound beacon accepted gain) := by
  unfold attestationPayload signDilocoAttestation
  simp only [Json.item_obj, List.reverse_cons, List.reverse_nil, List.nil_append, List.cons_append,
    Dict.lookup, ↓reduceIte, String.reduceEq, ok_bind, Json.toStr_str, Json.toInt_int,
    Json.toFloat, Json.truthy]
  unfold dilocoAttestationPayload
  rw [PyFloat.round6_round6]
  rfl

/-- **A signed attestation verifies**, with its signer and its vote. -/
theorem verifyDilocoAttestation_sign {P : Platform} {keys : Set String} (hkeys : IdealSigs P keys)
    {account : String} (ha : account ∈ keys) (deltaHash : String) (baseRound : ℤ) (beacon : String)
    (accepted : Bool) (gain : PyFloat) :
    verifyDilocoAttestation P
      (signDilocoAttestation P account deltaHash baseRound beacon accepted gain)
        = some account := by
  have hrecover : recoverAttestation P
      (signDilocoAttestation P account deltaHash baseRound beacon accepted gain)
        = some account := by
    rw [recoverAttestation, attestationPayload_sign]
    exact hkeys.recoverBytes_signBytes ha _
  rw [verifyDilocoAttestation, hrecover]
  exact if_pos rfl

theorem attAccepted_sign (P : Platform) (account deltaHash : String) (baseRound : ℤ)
    (beacon : String) (accepted : Bool) (gain : PyFloat) :
    attAccepted (signDilocoAttestation P account deltaHash baseRound beacon accepted gain)
      = accepted := rfl

end NeuraHash
