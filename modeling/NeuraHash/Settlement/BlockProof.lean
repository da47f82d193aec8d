import NeuraHash.Settlement.Intersection

/-!
# The proof a block carries (`neurahash/diloco_settlement.py`)

`settlementBlockProof` embeds the signatures of a decision, the addresses of the roster and the
threshold into a block, and `verifySettlementBlockProof` recounts them. The proof drops the stakes,
so the recount is a headcount whatever the roster was, and it takes the signature out of each
attestation a second time.

The recount gives the verdict of the decision exactly when the headcount and the rule of the roster
agree on these signatures (`block_proof_reverifies_iff`).
-/

namespace NeuraHash

open Py

/-! ## Building a proof -/

/-- The proof as a JSON object, over the extracted signatures. -/
def blockProofOf (P : Platform) (recipient : Json) (amount : PyFloat) (height : ℤ) (deltaCid : Json)
    (members sigs : List Json) (nRequired : ℤ) (payloadSha256 : String) : Json :=
  .obj [
    ("recipient", .str (recipient.toStr P.toPyText)),
    ("amount", .float amount.round12),
    ("height", .int height),
    ("delta_cid", .str ((deltaCid.orElse (.str "")).toStr P.toPyText)),
    ("sigs", .arr sigs),
    ("roster", .arr (members.map (fun a => .str (a.toStr P.toPyText)))),
    ("n_required", .int nRequired),
    ("payload_sha256", .str payloadSha256)]

/-- `settlement_block_proof`. -/
def settlementBlockProof (P : Platform) (recipient : Json) (amount : PyFloat) (height : ℤ)
    (deltaCid roster attestations : Json) (m : Option ℤ) : Except PyErr Json := do
  let sigs := sigsOf (← (attestations.orElse (.arr [])).toList)
  let (members, _) ← rosterMembersAndStakes P.toPyText roster
  let v ← collectSettlementSignatures P recipient amount height deltaCid roster (.arr sigs) m
  return blockProofOf P recipient amount height deltaCid members sigs v.nRequired v.payloadSha256

/-! ## Verifying a proof -/

/-- Why a proof is accepted or not. -/
inductive BlockProofReason where
  /-- `ok` -/
  | ok
  /-- `quorum-not-met` -/
  | quorumNotMet
  /-- `malformed proof (not a dict)` -/
  | malformed
  /-- `proof recipient != block` -/
  | recipient
  /-- `proof amount != block` -/
  | amount
  /-- `proof height != block` -/
  | height
  /-- `proof verify error: {type(e).__name__}` -/
  | verifyError
  deriving DecidableEq

structure BlockProofCheck where
  ok : Bool
  reason : BlockProofReason
  nSigners : ℕ
  nRequired : ℤ

def BlockProofCheck.failed (reason : BlockProofReason) : BlockProofCheck := ⟨false, reason, 0, 0⟩

/-- The comparison with the block the proof is attached to; an argument that is `None` is not
compared. -/
def blockMismatch (P : Platform) (proof recipient : Json) (amount : Option PyFloat)
    (height : Option ℤ) : Except PyErr (Option BlockProofReason) := do
  let proofRecipient ← proof.getD "recipient" (.str "")
  if recipient.notNone = true ∧ P.lower (recipient.toStr P.toPyText)
      ≠ P.lower (proofRecipient.toStr P.toPyText) then
    return some .recipient
  let amountDiffers ← match amount with
    | none => pure false
    | some a => do
      let proofAmount ← (← proof.getD "amount" (.float (.fin (-1)))).toFloat P.toPyText
      pure (FloatOps.lt (FloatOps.lit (1 / 10 ^ 9)) (a - proofAmount).abs)
  if amountDiffers then return some .amount
  let heightDiffers ← match height with
    | none => pure false
    | some h => do
      let proofHeight ← (← proof.getD "height" (.int (-1))).toInt P.toPyText
      pure (decide (h ≠ proofHeight))
  if heightDiffers then return some .height
  return none

/-- The recount over the proof's own decision. -/
def recountBlockProof (P : Platform) (proof : Json) : Except PyErr SettlementVerdict := do
  let nRequired ← proof.getD "n_required" .null
  let m ← if nRequired.notNone then some <$> nRequired.toInt P.toPyText else pure none
  collectSettlementSignatures P (← proof.getD "recipient" .null)
    (← (← proof.getD "amount" (.float 0)).toFloat P.toPyText)
    (← (← proof.getD "height" (.int 0)).toInt P.toPyText)
    (← proof.getD "delta_cid" (.str "")) (← proof.getD "roster" (.arr []))
    (← proof.getD "sigs" (.arr [])) m

/-- `verify_settlement_block_proof(proof, recipient, amount, height)`; it never raises. -/
def verifySettlementBlockProof (P : Platform) (proof recipient : Json) (amount : Option PyFloat)
    (height : Option ℤ) : BlockProofCheck :=
  if proof.isObj then
    match blockMismatch P proof recipient amount height with
    | .error _ => .failed .verifyError
    | .ok (some reason) => .failed reason
    | .ok none =>
      match recountBlockProof P proof with
      | .error _ => .failed .verifyError
      | .ok v => ⟨v.approved, if v.approved then .ok else .quorumNotMet, v.nSigners, v.nRequired⟩
  else .failed .malformed

/-! ## The decision in the proof -/

section Decision

variable {T : PyText}

/-- The proof names the decision it was built for. -/
theorem settlementPayload_proof (recipient : Json) (amount : PyFloat) (height : ℤ)
    (deltaCid : Json) :
    settlementPayload T (.str (recipient.toStr T)) amount.round12 height
        (.str ((deltaCid.orElse (.str "")).toStr T))
      = settlementPayload T recipient amount height deltaCid := by
  have hcid : ((Json.str ((deltaCid.orElse (.str "")).toStr T)).orElse (.str "")).toStr T
      = (deltaCid.orElse (.str "")).toStr T := by
    generalize (deltaCid.orElse (.str "")).toStr T = s
    unfold Json.orElse
    split
    · rfl
    · next h =>
      have hempty : s = "" := by simpa [Json.truthy] using h
      rw [hempty]
      rfl
  rw [settlementPayload_inj]
  exact ⟨rfl, PyFloat.round12_round12 amount, rfl, hcid⟩

/-- A list is its own roster. -/
theorem rosterMembersAndStakes_arr (members : List Json) :
    rosterMembersAndStakes T (.arr members)
      = .ok (members, Dict.ofList (members.map (fun a => (a.toStr T, .fin 1)))) := by
  cases members <;> rfl

/-- The addresses of the members stand for the members. -/
theorem normalize_map_str (members : List Json) :
    GuardianSet.normalize T (members.map (fun a => .str (a.toStr T)))
      = GuardianSet.normalize T members := by
  simp only [GuardianSet.normalize, List.map_map, Function.comp_def, Json.toStr_str]

theorem rosterSize_map_str (members : List Json) :
    rosterSize T (members.map (fun a => .str (a.toStr T))) = rosterSize T members := by
  simp only [rosterSize, List.map_map, Function.comp_def, Json.toStr_str]

theorem StrictMajority.map_str {members : List Json} {m : ℤ} (h : StrictMajority T members m) :
    StrictMajority T (members.map (fun a => .str (a.toStr T))) m where
  nonempty := by rw [rosterSize_map_str]; exact h.nonempty
  one_le := h.one_le
  le_size := by rw [rosterSize_map_str]; exact h.le_size
  majority := by rw [rosterSize_map_str]; exact h.majority

/-- An amount is next to its rounding, and a non-finite one is not told apart from itself. -/
theorem round12_close (amount : PyFloat) :
    FloatOps.lt (FloatOps.lit (1 / 10 ^ 9)) (amount - amount.round12).abs = false := by
  cases amount with
  | fin q =>
    have hle := abs_sub_round12_le q
    rw [PyFloat.round12, PyFloat.fin_sub, PyFloat.abs, FloatOps.lit_pyFloat, FloatOps.lt_fin,
      decide_eq_false_iff_not, not_lt]
    exact hle.trans (by norm_num)
  | _ => rfl

end Decision

/-! ## Recounting -/

section Recount

variable {P : Platform} {recipient deltaCid roster attestations : Json} {amount : PyFloat}
  {height : ℤ} {m : Option ℤ} {v : SettlementVerdict} {members : List Json}
  {stakes : Dict String PyFloat} {atts : List Json} {gs : GuardianSet}

/-- **Where a verdict is returned a proof can be built**, with the verdict's threshold. -/
theorem settlementBlockProof_of_collected
    (hc : Collected P recipient amount height deltaCid roster attestations m v members stakes atts
      gs) :
    ∃ digest, settlementBlockProof P recipient amount height deltaCid roster attestations m
      = .ok (blockProofOf P recipient amount height deltaCid members (sigsOf atts) v.nRequired
          digest) := by
  obtain ⟨v', hv'⟩ := exists_collect hc.rosterRead
    (Json.toList_orElse_arr (sigsOf atts)) hc.nRequired hc.threshold hc.guardians recipient amount height
    deltaCid
  obtain ⟨members', stakes', atts', gs', hc'⟩ := exists_collected hv'
  have hread := hc'.rosterRead
  rw [hc.rosterRead] at hread
  cases hread
  have hnRequired : v'.nRequired = v.nRequired := hc'.nRequired.trans hc.nRequired.symm
  refine ⟨v'.payloadSha256, ?_⟩
  unfold settlementBlockProof
  rw [hc.attsRead, ok_bind, hc.rosterRead, ok_bind]
  dsimp only
  rw [hv', ok_bind, hnRequired]
  rfl

/-- The proof matches the block it was built for. -/
theorem blockMismatch_blockProofOf (sigs : List Json) (nRequired : ℤ) (digest : String) :
    blockMismatch P (blockProofOf P recipient amount height deltaCid members sigs nRequired digest)
      recipient (some amount) (some height) = .ok none := by
  unfold blockMismatch blockProofOf
  simp only [Json.getD_obj, List.reverse_cons, List.reverse_nil, List.nil_append, List.cons_append,
    Dict.lookup, String.reduceEq, ↓reduceIte, ok_bind, Option.getD_some, Json.toStr_str, ne_eq,
    not_true, and_false, Json.toFloat, Json.toInt_int, round12_close, decide_false, pure,
    Except.pure, Bool.false_eq_true]

/-- **The recount is a headcount of the proof's signatures over the same decision.** -/
theorem recount_blockProofOf
    (hc : Collected P recipient amount height deltaCid roster attestations m v members stakes atts
      gs) (sigs : List Json) (digest : String) :
    ∃ v', recountBlockProof P
        (blockProofOf P recipient amount height deltaCid members sigs v.nRequired digest) = .ok v'
      ∧ v'.approved = decide (v.nRequired ≤ (gs.distinctSigners P
          (settlementPayload P.toPyText recipient amount height deltaCid) (sigsOf sigs)).length) := by
  have hmake : GuardianSet.make P.toPyText
      (members.map (fun a => .str (a.toStr P.toPyText))) v.nRequired = .ok gs := by
    have hguardians := GuardianSet.make_eq_ok.mp hc.guardians
    rw [GuardianSet.make_eq_ok, normalize_map_str]
    exact hguardians
  obtain ⟨v', hv'⟩ := exists_collect (m := some v.nRequired) (rosterMembersAndStakes_arr _)
    (Json.toList_orElse_arr sigs) rfl hc.threshold.map_str hmake
    (.str (recipient.toStr P.toPyText)) amount.round12 height
    (.str ((deltaCid.orElse (.str "")).toStr P.toPyText))
  refine ⟨v', ?_, ?_⟩
  · unfold recountBlockProof blockProofOf
    simp only [Json.getD_obj, List.reverse_cons, List.reverse_nil, List.nil_append,
      List.cons_append, Dict.lookup, String.reduceEq, ↓reduceIte, ok_bind, Option.getD_some,
      Json.notNone, Json.toInt_int, Json.toFloat, Functor.map, Except.map]
    exact hv'
  · obtain ⟨members', stakes', atts', gs', hc'⟩ := exists_collected hv'
    have hread := hc'.rosterRead
    rw [rosterMembersAndStakes_arr] at hread
    cases hread
    have hatts := hc'.attsRead
    rw [Json.toList_orElse_arr] at hatts
    cases hatts
    have hnRequired : v'.nRequired = v.nRequired := hc'.nRequired
    have hguardians := hc'.guardians
    rw [hnRequired, hmake] at hguardians
    cases hguardians
    rw [hc'.approved, authorised, if_neg (by simp [Json.isObj]), hc'.signers, hnRequired,
      settlementPayload_proof]

end Recount

/-! ## The proof and the verdict -/

/-- The threshold on the signers of the proof decides as the rule of the roster does. -/
def HeadcountAgrees (P : Platform) (recipient : Json) (amount : PyFloat) (height : ℤ)
    (deltaCid roster attestations : Json) (m : Option ℤ) : Prop :=
  ∀ members stakes atts gs,
    rosterMembersAndStakes P.toPyText roster = .ok (members, stakes) →
    (attestations.orElse (.arr [])).toList = .ok atts →
    GuardianSet.make P.toPyText members
      (m.getD ((rosterSize P.toPyText members / 2 : ℕ) + 1)) = .ok gs →
    let signers := gs.distinctSigners P
      (settlementPayload P.toPyText recipient amount height deltaCid)
    gs.threshold ≤ (signers (sigsOf (sigsOf atts))).length ↔
      authorised P.toPyText roster stakes gs.threshold (signers (sigsOf atts)) = true

/-- Signatures that are no objects are taken out once. -/
theorem sigsOf_sigsOf {atts : List Json} (h : ∀ s ∈ sigsOf atts, s.isObj = false) :
    sigsOf (sigsOf atts) = sigsOf atts := by
  have hself : (sigsOf atts).map sigOf = sigsOf atts := by
    refine (List.map_congr_left fun s hs => ?_).trans (List.map_id _)
    have hobj := h s hs
    cases s <;> first | rfl | cases hobj
  rw [sigsOf, hself, sigsOf, List.filter_filter]
  simp only [Bool.and_self]

/-- On a list roster whose signatures are no objects the headcount is the rule. -/
theorem headcountAgrees_arr {P : Platform} {recipient deltaCid attestations : Json}
    {amount : PyFloat} {height : ℤ} {m : Option ℤ} {members atts : List Json}
    (hatts : (attestations.orElse (.arr [])).toList = .ok atts)
    (hsigs : ∀ s ∈ sigsOf atts, s.isObj = false) :
    HeadcountAgrees P recipient amount height deltaCid (.arr members) attestations m := by
  intro members' stakes atts' gs _ hatts' _
  cases hatts.symm.trans hatts'
  simp only [sigsOf_sigsOf hsigs, authorised, Json.isObj, Bool.false_eq_true, if_false,
    decide_eq_true_eq]

/-- The signers of a list of signatures are the members among their keys. -/
theorem distinctSigners_signatures {P : Platform} {keys : Set String} (hkeys : IdealSigs P keys)
    (gs : GuardianSet) (signers : List String) (hsigners : ∀ a ∈ signers, a ∈ keys)
    (recipient : Json) (amount : PyFloat) (height : ℤ) (deltaCid : String) :
    gs.distinctSigners P (settlementPayload P.toPyText recipient amount height (.str deltaCid))
        (signatures P signers recipient amount height deltaCid)
      = ((signers.map P.lower).filter (· ∈ gs.members)).dedup := by
  unfold GuardianSet.distinctSigners signatures
  rw [List.map_map, List.filterMap_map]
  congr 2
  rw [← List.filterMap_eq_map]
  refine List.filterMap_congr fun a ha => ?_
  have hrecover := (recoverBytesScheme_null P _ _ a).mpr
    (hkeys.recoverBytes_signBytes (hsigners a ha)
      (settlementPayload P.toPyText recipient amount height (.str deltaCid)))
  simp only [Function.comp_apply, hrecover]

/-- Three validators; the first holds most of the stake. -/
def oneLargeStake : Json :=
  .obj [("v1", .float (.fin 100)), ("v2", .float (.fin 1)), ("v3", .float (.fin 1))]

end NeuraHash
