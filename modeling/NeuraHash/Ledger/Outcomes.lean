import NeuraHash.Ledger.Transition

/-!
# What a transaction can do (`State.apply_tx`)

`applyTx` changes the state in six ways only (`TxStep`): it moves an amount to a recipient, bonds
it, records a signal, queues it for withdrawal, burns a bond, or it breaks off in the middle of a
transfer or of a burn because an address cannot be a dictionary key. In every other case the state
is what it was (`applyTx_step`).
-/

namespace NeuraHash.State

open Py

variable {F : Type} [FloatOps F]

/-! ## Slashing -/

/-- The evidence of a vote fault that is not yet slashed: the bond of `addr` is to be burnt. -/
structure VoteFaultDue (P : Platform) (s : State F) (tx : Tx F) (addr : Key) (fault : String)
    (reason : F → F → TxReason F) : Prop where
  named : ((tx.data.orElse (.obj [])).hasKey "vote_fault") = .ok true
  proven : ∃ vf validator voteA voteB a b registered kind,
    (tx.data.orElse (.obj [])).getD "vote_fault" .null = .ok vf ∧
    (vf.orElse (.obj [])).getD "validator" .null = .ok validator ∧ validator ≠ .null ∧
    (vf.orElse (.obj [])).item "vote_a" = .ok a ∧ P.finality.fromDict a = .ok voteA ∧
    (vf.orElse (.obj [])).item "vote_b" = .ok b ∧ P.finality.fromDict b = .ok voteB ∧
    Key.ofJson validator = .ok addr ∧ s.keys.get? addr = some registered ∧
    P.finality.verifyVoteFault validator voteA voteB registered = .ok (true, kind) ∧
    fault = voteFaultId (P.finality.voteId voteA) (P.finality.voteId voteB) ∧
    reason = fun bond bounty => .voteFaultSlashed bond validator kind bounty tx.sender
  fresh : s.slashedFaults.contains fault = false

/-- The evidence of an equivocation that is not yet slashed. -/
structure EquivocationDue (P : Platform) (s : State F) (tx : Tx F) (addr : Key) (fault : String)
    (reason : F → F → TxReason F) : Prop where
  named : ((tx.data.orElse (.obj [])).hasKey "vote_fault") = .ok false
  proven : ∃ proofD proposer proof signer registered commitment ca,
    (tx.data.orElse (.obj [])).getD "equivocation" .null = .ok proofD ∧
    (tx.data.orElse (.obj [])).getD "proposer" .null = .ok proposer ∧
    proofD.truthy = true ∧ Json.pyEq proposer .null = false ∧
    EquivocationProof.fromDict proofD = .ok proof ∧
    verifyEquivocation P proof none = .ok (.ok signer) ∧
    Key.ofJson proposer = .ok addr ∧ s.keys.get? addr = some registered ∧
    P.lower registered = P.lower signer ∧
    proof.a.item "commitment" = .ok commitment ∧
    Commitment.fromDict P.toPyText commitment = .ok ca ∧
    fault = P.lower signer ++ ":" ++ ca.height.repr ∧
    reason = fun bond bounty => .equivocationSlashed bond proposer ca.height bounty tx.sender
  fresh : s.slashedFaults.contains fault = false

/-- One kind of evidence or the other. -/
def SlashDue (P : Platform) (s : State F) (tx : Tx F) (addr : Key) (fault : String)
    (reason : F → F → TxReason F) : Prop :=
  VoteFaultDue P s tx addr fault reason ∨ EquivocationDue P s tx addr fault reason

/-- The id of the fault that a slash transaction proves: it depends on the evidence alone. -/
inductive ProvesFault (P : Platform) (tx : Tx F) : String → Prop where
  | votes {vf a b : Json} {voteA voteB : P.finality.Vote}
      (hnamed : ((tx.data.orElse (.obj [])).hasKey "vote_fault") = .ok true)
      (hvf : (tx.data.orElse (.obj [])).getD "vote_fault" .null = .ok vf)
      (ha : (vf.orElse (.obj [])).item "vote_a" = .ok a)
      (hvoteA : P.finality.fromDict a = .ok voteA)
      (hb : (vf.orElse (.obj [])).item "vote_b" = .ok b)
      (hvoteB : P.finality.fromDict b = .ok voteB) :
      ProvesFault P tx (voteFaultId (P.finality.voteId voteA) (P.finality.voteId voteB))
  | commitments {proofD commitment : Json} {proof : EquivocationProof} {signer : String}
      {ca : Commitment}
      (hnamed : ((tx.data.orElse (.obj [])).hasKey "vote_fault") = .ok false)
      (hproofD : (tx.data.orElse (.obj [])).getD "equivocation" .null = .ok proofD)
      (hproof : EquivocationProof.fromDict proofD = .ok proof)
      (hverdict : verifyEquivocation P proof none = .ok (.ok signer))
      (hcommitment : proof.a.item "commitment" = .ok commitment)
      (hca : Commitment.fromDict P.toPyText commitment = .ok ca) :
      ProvesFault P tx (P.lower signer ++ ":" ++ ca.height.repr)

omit [FloatOps F] in
theorem SlashDue.proves {P : Platform} {s : State F} {tx : Tx F} {addr : Key} {fault : String}
    {reason : F → F → TxReason F} (h : SlashDue P s tx addr fault reason) :
    ProvesFault P tx fault := by
  rcases h with h | h
  · obtain ⟨vf, validator, voteA, voteB, a, b, registered, kind, hvf, -, -, ha, hvoteA, hb, hvoteB,
      -, -, -, rfl, -⟩ := h.proven
    exact .votes h.named hvf ha hvoteA hb hvoteB
  · obtain ⟨proofD, proposer, proof, signer, registered, commitment, ca, hproofD, -, -, -, hproof,
      hverdict, -, -, -, hcommitment, hca, rfl, -⟩ := h.proven
    exact .commitments h.named hproofD hproof hverdict hcommitment hca

omit [FloatOps F] in
theorem SlashDue.fresh {P : Platform} {s : State F} {tx : Tx F} {addr : Key} {fault : String}
    {reason : F → F → TxReason F} (h : SlashDue P s tx addr fault reason) :
    s.slashedFaults.contains fault = false :=
  h.elim (·.fresh) (·.fresh)

omit [FloatOps F] in
theorem andThen_ok {α : Type} (s : State F) {x : Except PyErr α} {a : α} (h : x = .ok a)
    (f : α → State F × TxOutcome F) : s.andThen x f = f a := by
  rw [h]
  rfl

omit [FloatOps F] in
/-- Going on with a value: it raises, or the rest decides. -/
theorem andThen_cases {α : Type} {s : State F} {x : Except PyErr α}
    {f : α → State F × TxOutcome F} {p : State F × TxOutcome F → Prop}
    (herror : ∀ e, x = .error e → p (s, .error e)) (hok : ∀ a, x = .ok a → p (f a)) :
    p (s.andThen x f) := by
  cases x with
  | error e => exact herror e rfl
  | ok a => exact hok a rfl

/-- A call that leaves the state alone reports success only where the fault is already slashed. -/
structure LeavesState (P : Platform) (s : State F) (tx : Tx F) (p : State F × TxOutcome F) :
    Prop where
  state : p.1 = s
  slashed : ∀ reason, p.2 = .ok (true, reason) →
    ∃ fault, ProvesFault P tx fault ∧ s.slashedFaults.contains fault = true

omit [FloatOps F] in
theorem leaves_raise (P : Platform) (s : State F) (tx : Tx F) (e : PyErr) :
    LeavesState P s tx (s.raise e) :=
  ⟨rfl, fun _ h => by cases h⟩

omit [FloatOps F] in
theorem leaves_reject (P : Platform) (s : State F) (tx : Tx F) (r : TxReason F) :
    LeavesState P s tx (s.reject r) :=
  ⟨rfl, fun _ h => by cases h⟩

/-- The state is what it was, or the bond is burnt on fresh evidence. -/
def SlashesOrKeeps (P : Platform) (s : State F) (tx : Tx F) (p : State F × TxOutcome F) : Prop :=
  LeavesState P s tx p ∨ ∃ addr fault reason, SlashDue P s tx addr fault reason ∧
    p = s.burnBond P tx addr fault reason

theorem applyVoteFaultSlash_cases {P : Platform} {s : State F} {tx : Tx F}
    (hnamed : ((tx.data.orElse (.obj [])).hasKey "vote_fault") = .ok true) :
    SlashesOrKeeps P s tx (s.applyVoteFaultSlash P tx) := by
  unfold applyVoteFaultSlash
  refine andThen_cases (fun e _ => .inl (leaves_raise P s tx e)) fun validator hvalidator => ?_
  obtain ⟨vf, hvf, hvalidator⟩ := bind_eq_ok.mp hvalidator
  split
  · exact .inl (leaves_reject P s tx _)
  · next hnotNull =>
    dsimp only
    split
    · exact .inl (leaves_reject P s tx _)
    · next voteA voteB hvotes =>
      rw [hvf, ok_bind] at hvotes
      obtain ⟨a, ha, hvotes⟩ := bind_eq_ok.mp hvotes
      obtain ⟨voteA', hvoteA, hvotes⟩ := bind_eq_ok.mp hvotes
      obtain ⟨b, hb, hvotes⟩ := bind_eq_ok.mp hvotes
      obtain ⟨voteB', hvoteB, hvotes⟩ := bind_eq_ok.mp hvotes
      cases hvotes
      refine andThen_cases (fun e _ => .inl (leaves_raise P s tx e)) fun addr haddr => ?_
      split
      · exact .inl (leaves_reject P s tx _)
      · next registered hregistered =>
        refine andThen_cases (fun e _ => .inl (leaves_raise P s tx e)) fun verdict hverdict => ?_
        obtain ⟨isFault, kind⟩ := verdict
        cases isFault with
        | false => exact .inl (leaves_reject P s tx _)
        | true =>
          cases hfresh : s.slashedFaults.contains
              (voteFaultId (P.finality.voteId voteA) (P.finality.voteId voteB)) with
          | true =>
            refine .inl ?_
            dsimp only
            rw [if_neg (by simp), if_pos rfl]
            exact ⟨rfl, fun _ _ => ⟨_, .votes hnamed hvf ha hvoteA hb hvoteB, hfresh⟩⟩
          | false =>
            refine .inr ⟨addr, _, _, .inl ⟨hnamed, ⟨vf, validator, voteA, voteB, a, b, registered,
              kind, hvf, hvalidator, hnotNull, ha, hvoteA, hb, hvoteB, haddr, hregistered,
              hverdict, rfl, rfl⟩, hfresh⟩, ?_⟩
            dsimp only
            rw [if_neg (by simp), if_neg (by simp)]

theorem applyEquivocationSlash_cases {P : Platform} {s : State F} {tx : Tx F}
    (hnamed : ((tx.data.orElse (.obj [])).hasKey "vote_fault") = .ok false) :
    SlashesOrKeeps P s tx (s.applyEquivocationSlash P tx) := by
  unfold applyEquivocationSlash
  refine andThen_cases (fun e _ => .inl (leaves_raise P s tx e)) fun proofD hproofD => ?_
  refine andThen_cases (fun e _ => .inl (leaves_raise P s tx e)) fun proposer hproposer => ?_
  split
  · exact .inl (leaves_reject P s tx _)
  · next hgiven =>
    rw [Bool.or_eq_true, not_or, Bool.not_eq_true, Bool.not_eq_true, Bool.not_eq_false'] at hgiven
    split
    · exact .inl (leaves_reject P s tx _)
    · next proof hproof =>
      refine andThen_cases (fun e _ => .inl (leaves_raise P s tx e)) fun verdict hverdict => ?_
      split
      · exact .inl (leaves_reject P s tx _)
      · next signer =>
        refine andThen_cases (fun e _ => .inl (leaves_raise P s tx e)) fun addr haddr => ?_
        split
        · exact .inl (leaves_reject P s tx _)
        · next registered hregistered =>
          split
          · exact .inl (leaves_reject P s tx _)
          · next hsame =>
            refine andThen_cases (fun e _ => .inl (leaves_raise P s tx e)) fun ca hca => ?_
            obtain ⟨commitment, hcommitment, hca⟩ := bind_eq_ok.mp hca
            dsimp only
            cases hfresh : s.slashedFaults.contains (P.lower signer ++ ":" ++ ca.height.repr) with
            | true =>
              rw [if_pos rfl]
              refine .inl ⟨rfl, fun _ _ => ⟨_, .commitments hnamed hproofD hproof hverdict
                hcommitment hca, hfresh⟩⟩
            | false =>
              rw [if_neg (by simp)]
              exact .inr ⟨addr, _, _, .inr ⟨hnamed, ⟨proofD, proposer, proof, signer, registered,
                commitment, ca, hproofD, hproposer, hgiven.1, hgiven.2, hproof, hverdict, haddr,
                hregistered, not_not.mp hsame, hcommitment, hca, rfl, rfl⟩, hfresh⟩, rfl⟩

/-- **A slash burns the bond on fresh evidence**, and otherwise leaves the state alone. -/
theorem applySlash_cases (P : Platform) (s : State F) (tx : Tx F) :
    SlashesOrKeeps P s tx (s.applySlash P tx) := by
  unfold applySlash
  refine andThen_cases (fun e _ => .inl (leaves_raise P s tx e)) fun voteFault hnamed => ?_
  cases voteFault with
  | true => exact applyVoteFaultSlash_cases hnamed
  | false => exact applyEquivocationSlash_cases hnamed

/-- On fresh evidence the bond is burnt. -/
theorem SlashDue.applySlash {P : Platform} {s : State F} {tx : Tx F} {addr : Key} {fault : String}
    {reason : F → F → TxReason F} (h : SlashDue P s tx addr fault reason) :
    s.applySlash P tx = s.burnBond P tx addr fault reason := by
  unfold State.applySlash
  rcases h with h | h
  · obtain ⟨vf, validator, voteA, voteB, a, b, registered, kind, hvf, hvalidator, hnotNull, ha,
      hvoteA, hb, hvoteB, haddr, hregistered, hverdict, rfl, rfl⟩ := h.proven
    rw [andThen_ok s h.named, if_pos rfl]
    unfold applyVoteFaultSlash
    rw [andThen_ok s (a := validator) (by rw [hvf, ok_bind]; exact hvalidator)]
    dsimp only
    split
    · next hnull => exact absurd rfl hnotNull
    · rw [hvf, ok_bind, ha, ok_bind, hvoteA, ok_bind, hb, ok_bind, hvoteB, ok_bind]
      show s.andThen (Key.ofJson validator) _ = _
      rw [andThen_ok s haddr, hregistered]
      dsimp only
      rw [andThen_ok s hverdict]
      dsimp only
      rw [if_neg (by simp), h.fresh, if_neg (by simp)]
  · obtain ⟨proofD, proposer, proof, signer, registered, commitment, ca, hproofD, hproposer,
      htruthy, hgiven, hproof, hverdict, haddr, hregistered, hsame, hcommitment, hca, rfl, rfl⟩ :=
      h.proven
    rw [andThen_ok s h.named, if_neg (by simp)]
    unfold applyEquivocationSlash
    rw [andThen_ok s hproofD, andThen_ok s hproposer, htruthy, hgiven, if_neg (by simp), hproof]
    dsimp only
    rw [andThen_ok s hverdict]
    dsimp only
    rw [andThen_ok s haddr, hregistered]
    dsimp only
    rw [if_neg (not_not.mpr hsame),
      andThen_ok s (a := ca) (by rw [hcommitment, ok_bind]; exact hca), h.fresh, if_neg (by simp)]

theorem reporterBountyOk_of_key {P : Platform} (s : State F) {tx : Tx F} {sender : Key}
    (h : Key.ofJson tx.sender = .ok sender) : ∃ ok, s.reporterBountyOk P tx = .ok ok := by
  unfold reporterBountyOk
  rw [h, ok_bind]
  cases s.keys.get? sender with
  | none => exact ⟨_, rfl⟩
  | some reg =>
    dsimp only
    cases tx.recoverTxSigner P with
    | error e => exact ⟨_, rfl⟩
    | ok a => exact ⟨_, rfl⟩

/-- The bond is paid out when the reporter is a dictionary key. -/
theorem burnBond_of_key {P : Platform} (s : State F) {tx : Tx F} {sender : Key}
    (h : Key.ofJson tx.sender = .ok sender) (addr : Key) (fault : String)
    (reason : F → F → TxReason F) :
    ∃ bounty, (bounty = (s.seize addr none).2 * FloatOps.lit equivocationBountyFrac ∨ bounty = 0) ∧
      s.burnBond P tx addr fault reason
        = ((s.seize addr none).1.payBond sender (s.seize addr none).2 bounty fault).done
            (reason (s.seize addr none).2 bounty) := by
  obtain ⟨ok, hok⟩ := reporterBountyOk_of_key (P := P) (s.seize addr none).1 h
  refine ⟨if ok then (s.seize addr none).2 * FloatOps.lit equivocationBountyFrac else 0, ?_, ?_⟩
  · cases ok with
    | true => exact .inl (if_pos rfl)
    | false => exact .inr (if_neg (by simp))
  · unfold burnBond
    dsimp only
    rw [andThen_ok _ hok, andThen_ok _ h]

/-- A reporter that is no dictionary key breaks the burn off, when the bond is already seized. -/
theorem burnBond_raises {P : Platform} (s : State F) {tx : Tx F} {e : PyErr}
    (h : Key.ofJson tx.sender = .error e) (addr : Key) (fault : String)
    (reason : F → F → TxReason F) :
    s.burnBond P tx addr fault reason = ((s.seize addr none).1, .error e) := by
  unfold burnBond reporterBountyOk
  dsimp only
  rw [h]
  rfl

/-! ## Transactions -/

/-- What is checked before the kind of a transaction that is no slash is looked at. -/
structure Admitted (P : Platform) (s : State F) (tx : Tx F) (sender : Key) : Prop where
  finite : FloatOps.isFinite tx.amount = true
  nonneg : FloatOps.lt tx.amount 0 = false
  other : tx.kind ≠ .slash
  key : Key.ofJson tx.sender = .ok sender
  nonce : tx.nonce = s.nonces.getD sender 0
  signature : s.checkSignature P sender tx = none

/-- A transfer that reaches its debit. -/
structure TransferDue (P : Platform) (s : State F) (tx : Tx F) (sender : Key) : Prop
    extends Admitted P s tx sender where
  kind : tx.kind = .transfer
  recipient : Json.pyEq tx.toAddr .null = false
  funds : FloatOps.lt (s.balance sender) tx.amount = false

/-- A slash of a bond. -/
structure BurnDue (P : Platform) (s : State F) (tx : Tx F) (addr : Key) (fault : String)
    (reason : F → F → TxReason F) : Prop where
  finite : FloatOps.isFinite tx.amount = true
  nonneg : FloatOps.lt tx.amount 0 = false
  kind : tx.kind = .slash
  due : SlashDue P s tx addr fault reason

/-- **What a transaction can do.** -/
inductive TxStep (P : Platform) (s : State F) (tx : Tx F) (height : Option ℤ) :
    State F × TxOutcome F → Prop where
  /-- Nothing changes; a success is a slash of a fault that is already slashed. -/
  | keeps (out : TxOutcome F) (h : ∀ reason, out = .ok (true, reason) → tx.kind = .slash ∧
        ∃ fault, ProvesFault P tx fault ∧ s.slashedFaults.contains fault = true) :
      TxStep P s tx height (s, out)
  | transfer {sender recipient : Key} (h : TransferDue P s tx sender)
      (hto : Key.ofJson tx.toAddr = .ok recipient) :
      TxStep P s tx height
        ((((s.debit sender tx.amount).credit recipient tx.amount).bumpNonce sender tx).done
          .transferApplied)
  | transferRaises {sender : Key} {e : PyErr} (h : TransferDue P s tx sender)
      (hto : Key.ofJson tx.toAddr = .error e) :
      TxStep P s tx height (s.debit sender tx.amount, .error e)
  | stake {sender : Key} (h : Admitted P s tx sender) (hkind : tx.kind = .stake)
      (hfunds : FloatOps.lt (s.balance sender) tx.amount = false) :
      TxStep P s tx height
        (({ s.debit sender tx.amount with
            staked := s.staked.set sender (s.staked.getD sender 0 + tx.amount) }.bumpNonce
              sender tx).done .stakeApplied)
  | signal {sender : Key} {version : ℤ} (h : Admitted P s tx sender)
      (hkind : tx.kind = .upgradeSignal) (hversion : version = s.protocolVersion + 1)
      (hstake : FloatOps.le (s.stakeOf sender) 0 = false) :
      TxStep P s tx height
        (({ s with upgradeSignals := s.upgradeSignals.add sender }.bumpNonce sender tx).done
          (.signalRecorded version))
  | unstake {sender : Key} {release : ℤ} (h : Admitted P s tx sender) (hkind : tx.kind = .unstake)
      (hstake : FloatOps.lt (s.stakeOf sender) tx.amount = false)
      (hrelease : release = height.getD 0 + unbondingPeriod) :
      TxStep P s tx height
        (({ s with
            staked := s.staked.set sender (s.stakeOf sender - tx.amount)
            unbonding := s.unbonding.set sender
              (s.unbonding.getD sender [] ++ [(tx.amount, release)]) }.bumpNonce sender tx).done
          (.unstakeQueued release))
  | burn {addr sender : Key} {fault : String} {reason : F → F → TxReason F} {bounty : F}
      (h : BurnDue P s tx addr fault reason) (hsender : Key.ofJson tx.sender = .ok sender)
      (hbounty : bounty = (s.seize addr none).2 * FloatOps.lit equivocationBountyFrac ∨
        bounty = 0) :
      TxStep P s tx height
        (((s.seize addr none).1.payBond sender (s.seize addr none).2 bounty fault).done
          (reason (s.seize addr none).2 bounty))
  | burnRaises {addr : Key} {fault : String} {reason : F → F → TxReason F} {e : PyErr}
      (h : BurnDue P s tx addr fault reason) (hsender : Key.ofJson tx.sender = .error e) :
      TxStep P s tx height ((s.seize addr none).1, .error e)

theorem TxStep.rejected (P : Platform) (s : State F) (tx : Tx F) (height : Option ℤ)
    (r : TxReason F) : TxStep P s tx height (s.reject r) :=
  .keeps _ fun _ h => by cases h

theorem TxStep.raised (P : Platform) (s : State F) (tx : Tx F) (height : Option ℤ) (e : PyErr) :
    TxStep P s tx height (s.raise e) :=
  .keeps _ fun _ h => by cases h

theorem TransferDue.applyTx {P : Platform} {s : State F} {tx : Tx F} {sender : Key}
    (h : TransferDue P s tx sender) (height : Option ℤ) :
    s.applyTx P tx height
      = (s.debit sender tx.amount).andThen (Key.ofJson tx.toAddr) fun recipient =>
          (((s.debit sender tx.amount).credit recipient tx.amount).bumpNonce sender tx).done
            .transferApplied := by
  unfold State.applyTx
  rw [h.finite, if_neg (by simp), h.nonneg, if_neg (by simp), if_neg h.other,
    andThen_ok s h.key, if_neg (not_not.mpr h.nonce), h.signature, h.kind]
  show s.applyTransfer sender tx = _
  unfold applyTransfer
  rw [h.recipient, if_neg (by simp), h.funds, if_neg (by simp)]

theorem BurnDue.applyTx {P : Platform} {s : State F} {tx : Tx F} {addr : Key} {fault : String}
    {reason : F → F → TxReason F} (h : BurnDue P s tx addr fault reason) (height : Option ℤ) :
    s.applyTx P tx height = s.burnBond P tx addr fault reason := by
  unfold State.applyTx
  rw [h.finite, if_neg (by simp), h.nonneg, if_neg (by simp), if_pos h.kind]
  exact h.due.applySlash

section kinds

variable {P : Platform} {s : State F} {tx : Tx F} {sender : Key} (height : Option ℤ)

theorem applyTransfer_step (h : Admitted P s tx sender) (hkind : tx.kind = .transfer) :
    TxStep P s tx height (s.applyTransfer sender tx) := by
  unfold applyTransfer
  cases hrecipient : Json.pyEq tx.toAddr .null with
  | true =>
    rw [if_pos rfl]
    exact .rejected P s tx height _
  | false =>
    rw [if_neg (by simp)]
    cases hfunds : FloatOps.lt (s.balance sender) tx.amount with
    | true =>
      rw [if_pos rfl]
      exact .rejected P s tx height _
    | false =>
      rw [if_neg (by simp)]
      have hdue : TransferDue P s tx sender := ⟨h, hkind, hrecipient, hfunds⟩
      exact andThen_cases (fun e he => .transferRaises hdue he)
        fun recipient hto => .transfer hdue hto

theorem applyStake_step (h : Admitted P s tx sender) (hkind : tx.kind = .stake) :
    TxStep P s tx height (s.applyStake sender tx) := by
  unfold applyStake
  cases hfunds : FloatOps.lt (s.balance sender) tx.amount with
  | true =>
    rw [if_pos rfl]
    exact .rejected P s tx height _
  | false =>
    rw [if_neg (by simp)]
    exact .stake h hkind hfunds

theorem applyUpgradeSignal_step (h : Admitted P s tx sender) (hkind : tx.kind = .upgradeSignal) :
    TxStep P s tx height (s.applyUpgradeSignal P.toPyText sender tx) := by
  unfold applyUpgradeSignal
  split
  · exact .rejected P s tx height _
  · next version hread =>
    by_cases hversion : version = s.protocolVersion + 1
    · rw [if_neg (not_not.mpr hversion)]
      cases hstake : FloatOps.le (s.stakeOf sender) 0 with
      | true =>
        rw [if_pos rfl]
        exact .rejected P s tx height _
      | false =>
        rw [if_neg (by simp)]
        exact .signal h hkind hversion hstake
    · rw [if_pos hversion]
      exact .rejected P s tx height _

theorem applyUnstake_step (h : Admitted P s tx sender) (hkind : tx.kind = .unstake) :
    TxStep P s tx height (s.applyUnstake sender tx height) := by
  unfold applyUnstake
  dsimp only
  cases hstake : FloatOps.lt (s.stakeOf sender) tx.amount with
  | true =>
    rw [if_pos rfl]
    exact .rejected P s tx height _
  | false =>
    rw [if_neg (by simp)]
    exact .unstake h hkind hstake rfl

end kinds

theorem applyTx_step (P : Platform) (s : State F) (tx : Tx F) (height : Option ℤ) :
    TxStep P s tx height (s.applyTx P tx height) := by
  unfold applyTx
  cases hfinite : FloatOps.isFinite tx.amount with
  | false =>
    rw [if_pos (by simp)]
    exact .rejected P s tx height _
  | true =>
    rw [if_neg (by simp)]
    cases hnonneg : FloatOps.lt tx.amount 0 with
    | true =>
      rw [if_pos rfl]
      exact .rejected P s tx height _
    | false =>
      rw [if_neg (by simp)]
      by_cases hslash : tx.kind = .slash
      · rw [if_pos hslash]
        rcases applySlash_cases P s tx with hleaves | ⟨addr, fault, reason, hdue, hburn⟩
        · have hpair : s.applySlash P tx = (s, (s.applySlash P tx).2) :=
            Prod.ext hleaves.state rfl
          rw [hpair]
          exact .keeps _ fun reason h => ⟨hslash, hleaves.slashed reason h⟩
        · have h : BurnDue P s tx addr fault reason := ⟨hfinite, hnonneg, hslash, hdue⟩
          rw [hburn]
          cases hsender : Key.ofJson tx.sender with
          | error e =>
            rw [burnBond_raises s hsender]
            exact .burnRaises h hsender
          | ok sender =>
            obtain ⟨bounty, hbounty, heq⟩ := burnBond_of_key (P := P) s hsender addr fault reason
            rw [heq]
            exact .burn h hsender hbounty
      · rw [if_neg hslash]
        refine andThen_cases (fun e _ => .raised P s tx height e) fun sender hsender => ?_
        by_cases hnonce : tx.nonce = s.nonces.getD sender 0
        · rw [if_neg (not_not.mpr hnonce)]
          cases hsig : s.checkSignature P sender tx with
          | some r => exact .rejected P s tx height _
          | none =>
            have h : Admitted P s tx sender := ⟨hfinite, hnonneg, hslash, hsender, hnonce, hsig⟩
            cases hkind : tx.kind with
            | transfer => exact applyTransfer_step height h hkind
            | stake => exact applyStake_step height h hkind
            | upgradeSignal => exact applyUpgradeSignal_step height h hkind
            | unstake => exact applyUnstake_step height h hkind
            | slash => exact absurd hkind hslash
        · rw [if_pos hnonce]
          exact .rejected P s tx height _

end NeuraHash.State
