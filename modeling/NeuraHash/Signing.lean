import NeuraHash.Platform

/-!
# Signed commitments (`neura_l1/signing.py`, `neura_l1/sig_scheme.py`)

A block proposer signs a `Commitment`, the header of the block it is going to publish. The
envelope carries the commitment, the signature and a scheme tag; `recoverSigner` recovers the
address that signed it and ignores the signer the envelope names. Two envelopes of one signer
for one height and one parent with different commit ids are an equivocation
(`verifyEquivocation`).

An envelope is untrusted JSON, so every reader returns an `Except`.
-/

namespace NeuraHash

open Py

/-! ## Scheme tags -/

/-- `normalize_scheme`: an absent tag is the legacy default. -/
def normalizeScheme (T : PyText) : Json → String
  | .null => "secp256k1"
  | .str "" => "secp256k1"
  | j => j.toStr T

/-- `require_supported`; an unknown scheme is rejected. -/
def requireSupported (T : PyText) (scheme : Json) : Except PyErr String :=
  let s := normalizeScheme T scheme
  if s = "secp256k1" ∨ s = "ml-dsa-44" then .ok s else .error (.raised "UnsupportedSchemeError")

/-- `recover_bytes_scheme(data, sig, scheme)`; `ml-dsa-44` has no recovery. -/
def recoverBytesScheme (P : Platform) (data : Bytes) (sig scheme : Json) :
    Except PyErr String := do
  let s ← requireSupported P.toPyText scheme
  if s = "secp256k1" then
    match recoverBytes P data sig with
    | some a => .ok a
    | none => .error (.raised "recover_message")
  else .error (.raised "UnsupportedSchemeError")

/-- Without a tag the signature is recovered as it always was. -/
theorem recoverBytesScheme_null (P : Platform) (data : Bytes) (sig : Json) (a : String) :
    recoverBytesScheme P data sig .null = .ok a ↔ recoverBytes P data sig = some a := by
  unfold recoverBytesScheme
  have hs : requireSupported P.toPyText .null = .ok "secp256k1" := rfl
  rw [hs, ok_bind, if_pos rfl]
  cases recoverBytes P data sig <;> simp

/-! ## Commitments -/

structure Commitment where
  height : ℤ
  prevHash : Json
  proposer : Json
  beacon : Json
  parentCheckpoint : Json
  newCheckpoint : Json
  workScore : PyFloat
  merkleRoot : Json
  txRoot : Json

namespace Commitment

/-- `Commitment.from_dict(d)`. -/
def fromDict (T : PyText) (d : Json) : Except PyErr Commitment := do
  let height ← d.item "height"
  let prevHash ← d.item "prev_hash"
  let proposer ← d.item "proposer"
  let beacon ← d.item "beacon"
  let parentCheckpoint ← d.item "parent_checkpoint"
  let newCheckpoint ← d.item "new_checkpoint"
  let workScore ← (← d.item "work_score").toFloat T
  let merkleRoot ← d.item "merkle_root"
  let txRoot ← d.item "tx_root"
  let height ← height.toInt T
  return { height, prevHash, proposer, beacon, parentCheckpoint, newCheckpoint, workScore,
           merkleRoot, txRoot }

/-- The signed fields; raises when the work score is not finite. -/
def canonical (T : PyText) (c : Commitment) : Except PyErr Json := do
  let workScore ← canon T c.workScore
  return .obj [
    ("height", .int c.height),
    ("prev_hash", c.prevHash),
    ("proposer", c.proposer),
    ("beacon", c.beacon),
    ("parent_checkpoint", c.parentCheckpoint),
    ("new_checkpoint", c.newCheckpoint),
    ("work_score", .str workScore),
    ("merkle_root", c.merkleRoot),
    ("tx_root", c.txRoot)]

def canonicalBytes (T : PyText) (c : Commitment) : Except PyErr Bytes := do
  let text ← Json.dumpsStrict T (← c.canonical T)
  return utf8 text

/-- `commit_id`: the digest of the canonical bytes. -/
def commitId (P : Platform) (c : Commitment) : Except PyErr String := do
  return P.sha256 (← c.canonicalBytes P.toPyText)

end Commitment

/-- Reading the signed fields back gives the commitment. -/
theorem Commitment.fromDict_canonical {T : PyText} {c : Commitment} {d : Json}
    (h : c.canonical T = .ok d) : Commitment.fromDict T d = .ok c := by
  obtain ⟨t, ht, h⟩ := bind_eq_ok.mp h
  cases h
  have hparse : T.parseFloat t = some c.workScore := by
    cases hw : c.workScore with
    | fin q =>
      rw [hw] at ht
      cases ht
      exact T.parseFloat_format17g q
    | _ =>
      rw [hw] at ht
      cases ht
  unfold Commitment.fromDict
  simp only [Json.item_obj, List.reverse_cons, List.reverse_nil, List.nil_append, List.cons_append,
    Dict.lookup, String.reduceEq, ↓reduceIte, ok_bind, Json.toFloat, hparse, Json.toInt_int]
  rfl

/-! ## Signing, recovery and verification -/

/-- `sign_commitment(commitment, account)`, by the account of the given address. -/
def signCommitment (P : Platform) (account : String) (c : Commitment) : Except PyErr Json := do
  let data ← c.canonicalBytes P.toPyText
  return .obj [
    ("commitment", ← c.canonical P.toPyText),
    ("signer", .str account),
    ("signature", .str (P.signMessage account (domainBytes "commit" data))),
    ("scheme", .str "secp256k1")]

/-- `recover_signer(signed)`: the address that signed the envelope's commitment. -/
def recoverSigner (P : Platform) (signed : Json) : Except PyErr String := do
  let commitment ← Commitment.fromDict P.toPyText (← signed.item "commitment")
  let data ← commitment.canonicalBytes P.toPyText
  let scheme ← requireSupported P.toPyText (← signed.getD "scheme" .null)
  let sig ← signed.item "signature"
  if scheme = "secp256k1" then
    match P.recoverMessage (domainBytes "commit" data) (hexSig sig) with
    | some a => .ok a
    | none => .error (.raised "recover_message")
  else .error (.raised "UnsupportedSchemeError")

/-- **A signed commitment recovers to the account that signed it.** -/
theorem recoverSigner_signCommitment {P : Platform} {keys : Set String} (hkeys : IdealSigs P keys)
    {account : String} (haccount : account ∈ keys) {c : Commitment} {signed : Json}
    (h : signCommitment P account c = .ok signed) : recoverSigner P signed = .ok account := by
  obtain ⟨data, hdata, h⟩ := bind_eq_ok.mp h
  obtain ⟨d, hd, h⟩ := bind_eq_ok.mp h
  cases h
  have hscheme : requireSupported P.toPyText (.str "secp256k1") = .ok "secp256k1" := rfl
  unfold recoverSigner
  simp only [Json.item_obj, Json.getD_obj, List.reverse_cons, List.reverse_nil, List.nil_append,
    List.cons_append, Dict.lookup, String.reduceEq, ↓reduceIte, ok_bind,
    Commitment.fromDict_canonical hd, hdata, Option.getD_some, hscheme,
    hkeys.recover_sign account haccount]

/-- Why `verify_commitment` rejects an envelope. -/
inductive CommitmentReason where
  /-- `signature recovery failed: {e}` -/
  | recoveryFailed (e : PyErr)
  /-- `signer {recovered} != registered key {expected} for proposer` -/
  | wrongSigner (recovered expected : String)

/-- `verify_commitment(signed, expected_address)`: the recovered signer, or the reason. -/
def verifyCommitment (P : Platform) (signed : Json) (expected : Option String) :
    Except CommitmentReason String :=
  match recoverSigner P signed with
  | .error e => .error (.recoveryFailed e)
  | .ok recovered =>
    match expected with
    | some address =>
      if P.lower recovered ≠ P.lower address then .error (.wrongSigner recovered address)
      else .ok recovered
    | none => .ok recovered

/-- An accepted envelope recovers to the returned signer, which is the expected one. -/
theorem verifyCommitment_eq_ok {P : Platform} {signed : Json} {expected : Option String}
    {a : String} :
    verifyCommitment P signed expected = .ok a ↔
      recoverSigner P signed = .ok a ∧ ∀ e ∈ expected, P.lower a = P.lower e := by
  unfold verifyCommitment
  cases hrec : recoverSigner P signed with
  | error e => simp
  | ok b =>
    cases expected with
    | none => simp
    | some e =>
      by_cases hlow : P.lower b = P.lower e
      · simp only [hlow, ne_eq, not_true, if_false, Except.ok.injEq, Option.mem_def,
          Option.some.injEq, forall_eq', iff_self_and]
        rintro rfl
        exact hlow
      · simp only [ne_eq, hlow, not_false_iff, if_true, reduceCtorEq, Except.ok.injEq,
          Option.mem_def, Option.some.injEq, forall_eq', false_iff, not_and]
        rintro rfl
        exact hlow

/-! ## Equivocation -/

/-- Two signed envelopes. -/
structure EquivocationProof where
  a : Json
  b : Json

/-- `EquivocationProof.from_dict(d)`. -/
def EquivocationProof.fromDict (d : Json) : Except PyErr EquivocationProof := do
  let a ← d.item "a"
  let b ← d.item "b"
  return { a, b }

/-- Why a pair of envelopes is no equivocation. -/
inductive EquivocationReason where
  /-- `envelope A invalid: {recA}` -/
  | invalidA (r : CommitmentReason)
  /-- `envelope B invalid: {recB}` -/
  | invalidB (r : CommitmentReason)
  /-- `different signers ({recA} vs {recB}) - not equivocation` -/
  | differentSigners (a b : String)
  /-- `different heights ({ca.height} vs {cb.height}) - not equivocation` -/
  | differentHeights (a b : ℤ)
  /-- `different parents ({ca.prev_hash} vs {cb.prev_hash}) - legitimate same-height commit
  across a reorg, not equivocation` -/
  | differentParents (a b : Json)
  /-- `identical commitment (duplicate, not equivocation)` -/
  | identical

/-- `verify_equivocation(proof, expected_address)`: the faulty signer, or the reason. -/
def verifyEquivocation (P : Platform) (proof : EquivocationProof) (expected : Option String) :
    Except PyErr (Except EquivocationReason String) :=
  match verifyCommitment P proof.a expected with
  | .error r => .ok (.error (.invalidA r))
  | .ok recA =>
    match verifyCommitment P proof.b expected with
    | .error r => .ok (.error (.invalidB r))
    | .ok recB =>
      if P.lower recA ≠ P.lower recB then .ok (.error (.differentSigners recA recB))
      else do
        let ca ← Commitment.fromDict P.toPyText (← proof.a.item "commitment")
        let cb ← Commitment.fromDict P.toPyText (← proof.b.item "commitment")
        if ca.height ≠ cb.height then
          return .error (.differentHeights ca.height cb.height)
        if !Json.pyEq ca.prevHash cb.prevHash then
          return .error (.differentParents ca.prevHash cb.prevHash)
        if (← ca.commitId P) = (← cb.commitId P) then
          return .error .identical
        return .ok recA

end NeuraHash
