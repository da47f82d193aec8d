import NeuraHash.Ledger.Runs

/-!
# Transactions take effect once

Two mechanisms protect against replays. Every kind but a slash spends the sender's next nonce, so
over a run the pairs of sender and nonce are distinct (`spent`) and the nonces count them. A slash
spends no nonce: it leaves the id of the fault that its evidence proves (`ProvesFault`), and the
evidence of a fault that is there already changes nothing, in whichever order its halves come
(`SameProof`).
-/

namespace NeuraHash

open Py

variable {F : Type}

/-- What the nonces protect: the sender, as a key, and the nonce. Slashes have neither. -/
def Tx.spends (tx : Tx F) : Option (Key × ℤ) :=
  if tx.kind = .slash then none else (Key.ofJson tx.sender).toOption.map fun key => (key, tx.nonce)

theorem Tx.spends_of_key {tx : Tx F} {sender : Key} (hkind : tx.kind ≠ .slash)
    (hkey : Key.ofJson tx.sender = .ok sender) : tx.spends = some (sender, tx.nonce) := by
  unfold Tx.spends
  rw [if_neg hkind, hkey]
  rfl

theorem Tx.spends_of_slash {tx : Tx F} (hkind : tx.kind = .slash) : tx.spends = none := if_pos hkind

namespace State

/-- The nonces spent by some transactions, in their order. -/
def spent (txs : List (Tx F)) : List (Key × ℤ) := txs.filterMap Tx.spends

theorem spent_append (txs later : List (Tx F)) : spent (txs ++ later) = spent txs ++ spent later :=
  List.filterMap_append

/-! ## The evidence decides the fault -/

/-- Two slash transactions with the same evidence: the votes, or the signed commitments, in either
order. -/
inductive SameProof (tx tx' : Tx F) : Prop where
  | votes {vf vf' a b : Json}
      (hnamed : (tx.data.orElse (.obj [])).hasKey "vote_fault" = .ok true)
      (hnamed' : (tx'.data.orElse (.obj [])).hasKey "vote_fault" = .ok true)
      (hvf : (tx.data.orElse (.obj [])).getD "vote_fault" .null = .ok vf)
      (hvf' : (tx'.data.orElse (.obj [])).getD "vote_fault" .null = .ok vf')
      (ha : (vf.orElse (.obj [])).item "vote_a" = .ok a)
      (hb : (vf.orElse (.obj [])).item "vote_b" = .ok b)
      (hpair : (vf'.orElse (.obj [])).item "vote_a" = .ok a
          ∧ (vf'.orElse (.obj [])).item "vote_b" = .ok b
        ∨ (vf'.orElse (.obj [])).item "vote_a" = .ok b
          ∧ (vf'.orElse (.obj [])).item "vote_b" = .ok a)
  | commitments {proofD proofD' : Json} {proof proof' : EquivocationProof}
      (hnamed : (tx.data.orElse (.obj [])).hasKey "vote_fault" = .ok false)
      (hnamed' : (tx'.data.orElse (.obj [])).hasKey "vote_fault" = .ok false)
      (hproofD : (tx.data.orElse (.obj [])).getD "equivocation" .null = .ok proofD)
      (hproofD' : (tx'.data.orElse (.obj [])).getD "equivocation" .null = .ok proofD')
      (hproof : EquivocationProof.fromDict proofD = .ok proof)
      (hproof' : EquivocationProof.fromDict proofD' = .ok proof')
      (hpair : proof' = proof ∨ proof' = ⟨proof.b, proof.a⟩)

theorem voteFaultId_comm (a b : String) : voteFaultId a b = voteFaultId b a := by
  unfold voteFaultId
  rcases lt_trichotomy a b with h | rfl | h
  · rw [if_neg (lt_asymm h), if_pos h]
  · rfl
  · rw [if_pos h, if_neg (lt_asymm h)]

/-- An equivocation: the two signers are one up to case, and so are the two heights. -/
theorem verifyEquivocation_eq_ok {P : Platform} {proof : EquivocationProof} {signer : String}
    (h : verifyEquivocation P proof none = .ok (.ok signer)) :
    verifyCommitment P proof.a none = .ok signer ∧ ∃ recB a b ca cb,
      verifyCommitment P proof.b none = .ok recB ∧ P.lower signer = P.lower recB ∧
      proof.a.item "commitment" = .ok a ∧ Commitment.fromDict P.toPyText a = .ok ca ∧
      proof.b.item "commitment" = .ok b ∧ Commitment.fromDict P.toPyText b = .ok cb ∧
      ca.height = cb.height := by
  unfold verifyEquivocation at h
  split at h
  · cases h
  · next recA hrecA =>
    split at h
    · cases h
    · next recB hrecB =>
      by_cases hsame : P.lower recA = P.lower recB
      · rw [if_neg (not_not.mpr hsame)] at h
        obtain ⟨a, ha, h⟩ := bind_eq_ok.mp h
        obtain ⟨ca, hca, h⟩ := bind_eq_ok.mp h
        obtain ⟨b, hb, h⟩ := bind_eq_ok.mp h
        obtain ⟨cb, hcb, h⟩ := bind_eq_ok.mp h
        by_cases hheight : ca.height = cb.height
        · rw [if_neg (not_not.mpr hheight)] at h
          split at h
          · cases h
          · obtain ⟨idA, -, h⟩ := bind_eq_ok.mp h
            obtain ⟨idB, -, h⟩ := bind_eq_ok.mp h
            split at h
            · cases h
            · cases h
              exact ⟨hrecA, recB, a, b, ca, cb, hrecB, hsame, ha, hca, hb, hcb, hheight⟩
        · rw [if_pos hheight] at h
          cases h
      · rw [if_pos hsame] at h
        cases h

/-- **The same evidence proves the same fault.** -/
theorem SameProof.fault_eq {P : Platform} {tx tx' : Tx F} (hsame : SameProof tx tx')
    {fault fault' : String} (h : ProvesFault P tx fault) (h' : ProvesFault P tx' fault') :
    fault = fault' := by
  cases hsame with
  | votes hnamed hnamed' hvf hvf' ha hb hpair =>
    cases h with
    | commitments hother => cases hnamed.symm.trans hother
    | votes _ hvf₀ ha₀ hvoteA hb₀ hvoteB =>
      cases h' with
      | commitments hother => cases hnamed'.symm.trans hother
      | votes _ hvf₁ ha₁ hvoteA' hb₁ hvoteB' =>
        cases hvf.symm.trans hvf₀
        cases hvf'.symm.trans hvf₁
        cases ha.symm.trans ha₀
        cases hb.symm.trans hb₀
        rcases hpair with ⟨ha', hb'⟩ | ⟨ha', hb'⟩
        · cases ha'.symm.trans ha₁
          cases hb'.symm.trans hb₁
          cases hvoteA.symm.trans hvoteA'
          cases hvoteB.symm.trans hvoteB'
          rfl
        · cases ha'.symm.trans ha₁
          cases hb'.symm.trans hb₁
          cases hvoteA.symm.trans hvoteB'
          cases hvoteB.symm.trans hvoteA'
          exact voteFaultId_comm _ _
  | commitments hnamed hnamed' hproofD hproofD' hproof hproof' hpair =>
    cases h with
    | votes hother => cases hnamed.symm.trans hother
    | commitments _ hproofD₀ hproof₀ hverdict hcommitment hca =>
      cases h' with
      | votes hother => cases hnamed'.symm.trans hother
      | commitments _ hproofD₁ hproof₁ hverdict' hcommitment' hca' =>
        cases hproofD.symm.trans hproofD₀
        cases hproofD'.symm.trans hproofD₁
        cases hproof.symm.trans hproof₀
        cases hproof'.symm.trans hproof₁
        rcases hpair with rfl | rfl
        · cases hverdict.symm.trans hverdict'
          cases hcommitment.symm.trans hcommitment'
          cases hca.symm.trans hca'
          rfl
        · -- the second signer is the first one up to case, and it signs the same height
          obtain ⟨-, recB, a, b, ca, cb, hrecB, hsigner, ha, hca₀, hb, hcb, hheight⟩ :=
            verifyEquivocation_eq_ok hverdict
          have hrecB' := (verifyEquivocation_eq_ok hverdict').1
          cases hrecB.symm.trans hrecB'
          cases hcommitment.symm.trans ha
          cases hcommitment'.symm.trans hb
          cases hca.symm.trans hca₀
          cases hca'.symm.trans hcb
          rw [hsigner, hheight]

/-! ## One transaction -/

variable [FloatOps F]

/-- What an applied transaction leaves behind: a spent nonce, or its fault. -/
inductive Protects (P : Platform) (s : State F) (tx : Tx F) (s' : State F) : Prop where
  | nonce {sender : Key} (hspends : tx.spends = some (sender, s.nonces.getD sender 0))
      (hnonces : s'.nonces = s.nonces.set sender (s.nonces.getD sender 0 + 1))
      (hfaults : s'.slashedFaults = s.slashedFaults)
  | fault {fault : String} (hkind : tx.kind = .slash) (hproves : ProvesFault P tx fault)
      (hnonces : s'.nonces = s.nonces) (hthere : fault ∈ s'.slashedFaults.keys)
      (hfaults : ∀ f ∈ s.slashedFaults.keys, f ∈ s'.slashedFaults.keys)

theorem Admitted.protects {P : Platform} {s s' : State F} {tx : Tx F} {sender : Key}
    (h : Admitted P s tx sender) (hnonces : s'.nonces = s.nonces.set sender (tx.nonce + 1))
    (hfaults : s'.slashedFaults = s.slashedFaults) : Protects P s tx s' := by
  rw [h.nonce] at hnonces
  refine .nonce ?_ hnonces hfaults
  rw [Tx.spends_of_key h.other h.key, h.nonce]

omit [FloatOps F] in
theorem contains_iff_mem {s : PySet String} {fault : String} :
    s.contains fault = true ↔ fault ∈ s.keys := by
  rw [Dict.contains_iff, Dict.mem_keys_iff]

theorem applyTx_protects {P : Platform} {s s' : State F} {tx : Tx F} {height : Option ℤ}
    {reason : TxReason F} (h : s.applyTx P tx height = (s', .ok (true, reason))) :
    Protects P s tx s' := by
  have hstep := applyTx_step P s tx height
  rw [h] at hstep
  cases hstep with
  | keeps _ hslash =>
    obtain ⟨hkind, fault, hproves, hthere⟩ := hslash reason rfl
    exact .fault hkind hproves rfl (contains_iff_mem.mp hthere) fun _ hf => hf
  | transfer hdue hto => exact hdue.toAdmitted.protects rfl rfl
  | stake hadmitted hkind hfunds => exact hadmitted.protects rfl rfl
  | signal hadmitted hkind hversion hstake => exact hadmitted.protects rfl rfl
  | unstake hadmitted hkind hstake hrelease => exact hadmitted.protects rfl rfl
  | @burn addr sender fault _ bounty hburn hsender hbounty =>
    have hpaid := payBond_eq (s.seize addr none).1 sender (s.seize addr none).2 bounty fault
    have hseized := seize_eq s addr none
    have hfaults : (((s.seize addr none).1.payBond sender (s.seize addr none).2 bounty
        fault)).slashedFaults = s.slashedFaults.add fault := by
      rw [hpaid, hseized]
    refine .fault hburn.kind hburn.due.proves ?_ ?_ fun f hf => ?_
    · rw [hpaid, hseized]
    · rw [hfaults, PySet.mem_keys_add]
      exact .inl rfl
    · rw [hfaults, PySet.mem_keys_add]
      exact .inr hf

/-! ## Runs -/

/-- The nonces count what is spent, and what is spent lies below them. -/
structure NoncesCount (s₀ : State F) (txs : List (Tx F)) (s : State F) : Prop where
  counted : ∀ key,
    s.nonces.getD key 0 = s₀.nonces.getD key 0 + ((spent txs).countP fun p => p.1 = key)
  below : ∀ p ∈ spent txs, p.2 < s.nonces.getD p.1 0
  distinct : (spent txs).Nodup
  all : ∀ tx ∈ txs, tx.kind ≠ .slash → ∃ p, tx.spends = some p

/-- The fault of every slash is remembered. -/
def FaultsKept (P : Platform) (txs : List (Tx F)) (s : State F) : Prop :=
  ∀ tx ∈ txs, tx.kind = .slash → ∃ fault, ProvesFault P tx fault ∧ fault ∈ s.slashedFaults.keys

omit [FloatOps F] in
theorem NoncesCount.congr {s₀ s s' : State F} {txs : List (Tx F)} (h : NoncesCount s₀ txs s)
    (hnonces : s'.nonces = s.nonces) : NoncesCount s₀ txs s' where
  counted := by
    rw [hnonces]
    exact h.counted
  below := by
    rw [hnonces]
    exact h.below
  distinct := h.distinct
  all := h.all

omit [FloatOps F] in
theorem NoncesCount.step {P : Platform} {s₀ s s' : State F} {txs : List (Tx F)} {tx : Tx F}
    (h : NoncesCount s₀ txs s) (hprotects : Protects P s tx s') :
    NoncesCount s₀ (txs ++ [tx]) s' := by
  cases hprotects with
  | fault hkind _ hnonces =>
    have hsame : spent (txs ++ [tx]) = spent txs := by
      rw [spent_append, spent, spent, List.filterMap_cons, Tx.spends_of_slash hkind,
        List.filterMap_nil, List.append_nil]
    have hkept := h.congr hnonces
    refine ⟨?_, ?_, ?_, fun tx' htx' hother => ?_⟩
    · rw [hsame]
      exact hkept.counted
    · rw [hsame]
      exact hkept.below
    · rw [hsame]
      exact hkept.distinct
    · rcases List.mem_append.mp htx' with htx' | htx'
      · exact h.all tx' htx' hother
      · rw [List.mem_singleton.mp htx'] at hother
        exact absurd hkind hother
  | @nonce sender hspends hnonces =>
    have hsnoc : spent (txs ++ [tx]) = spent txs ++ [(sender, s.nonces.getD sender 0)] := by
      rw [spent_append]
      show _ ++ List.filterMap _ _ = _
      rw [List.filterMap_cons, hspends, List.filterMap_nil]
    have hget : ∀ key, s'.nonces.getD key 0
        = if sender = key then s.nonces.getD sender 0 + 1 else s.nonces.getD key 0 := by
      intro key
      rw [hnonces, Dict.getD, Dict.get?_set]
      split
      · rfl
      · rfl
    refine ⟨fun key => ?_, fun p hp => ?_, ?_, fun tx' htx' hother => ?_⟩
    · have hcounted := h.counted key
      rw [hsnoc, List.countP_append, List.countP_singleton, hget]
      by_cases hkey : sender = key
      · subst hkey
        simp only [decide_true, if_true]
        push_cast
        omega
      · simp only [hkey, decide_false, if_false, Bool.false_eq_true]
        push_cast
        omega
    · rw [hsnoc, List.mem_append, List.mem_singleton] at hp
      rw [hget]
      rcases hp with hp | rfl
      · have hbelow := h.below p hp
        split
        · next hkey =>
          rw [hkey]
          omega
        · exact hbelow
      · rw [if_pos rfl]
        show s.nonces.getD sender 0 < _
        omega
    · rw [hsnoc, List.nodup_append]
      refine ⟨h.distinct, List.nodup_singleton _, fun p hp q hq => ?_⟩
      rintro rfl
      -- the nonce spent last is the one the account stood at
      have hbelow := h.below p hp
      rw [List.mem_singleton.mp hq] at hbelow
      exact lt_irrefl _ hbelow
    · rcases List.mem_append.mp htx' with htx' | htx'
      · exact h.all tx' htx' hother
      · rw [List.mem_singleton.mp htx']
        exact ⟨_, hspends⟩

omit [FloatOps F] in
theorem FaultsKept.step {P : Platform} {s s' : State F} {txs : List (Tx F)} {tx : Tx F}
    (h : FaultsKept P txs s) (hprotects : Protects P s tx s') : FaultsKept P (txs ++ [tx]) s' := by
  intro tx' htx' hslash
  have hold : ∀ {f}, f ∈ s.slashedFaults.keys → f ∈ s'.slashedFaults.keys := by
    intro f hf
    cases hprotects with
    | nonce _ _ hfaults => rwa [hfaults]
    | fault _ _ _ _ hfaults => exact hfaults f hf
  rcases List.mem_append.mp htx' with htx' | htx'
  · obtain ⟨fault, hproves, hthere⟩ := h tx' htx' hslash
    exact ⟨fault, hproves, hold hthere⟩
  · cases List.mem_singleton.mp htx'
    cases hprotects with
    | nonce hspends =>
      rw [Tx.spends_of_slash hslash] at hspends
      cases hspends
    | @fault fault _ hproves _ hthere => exact ⟨fault, hproves, hthere⟩

/-- Both mechanisms hold in every run from `s₀`. -/
theorem runInvariant_protection (P : Platform) (s₀ : State F) :
    RunInvariant P fun txs s => NoncesCount s₀ txs s ∧ FaultsKept P txs s where
  mature := by
    intro txs s height ⟨hnonces, hfaults⟩
    have heq := matureUnbonding_eq s height
    refine ⟨hnonces.congr ?_, ?_⟩
    · rw [heq]
    · rw [heq]
      exact hfaults
  tx := by
    intro txs s tx height s' reason ⟨hnonces, hfaults⟩ hcall
    have hprotects := applyTx_protects hcall
    exact ⟨hnonces.step hprotects, hfaults.step hprotects⟩
  settle := by
    intro txs s version height s' ⟨hnonces, hfaults⟩ hsettles
    rw [upgradeStep_eq] at hsettles
    refine ⟨hnonces.congr hsettles.nonces, ?_⟩
    intro tx htx hslash
    obtain ⟨fault, hproves, hthere⟩ := hfaults tx htx hslash
    refine ⟨fault, hproves, ?_⟩
    rw [hsettles.slashedFaults]
    exact hthere

omit [FloatOps F] in
theorem protection_nil (P : Platform) (s₀ : State F) :
    NoncesCount s₀ [] s₀ ∧ FaultsKept P [] s₀ := by
  refine ⟨⟨fun key => ?_, fun p hp => ?_, List.nodup_nil, fun tx htx => ?_⟩, fun tx htx => ?_⟩
  · show _ = _ + ((0 : ℕ) : ℤ)
    omega
  · cases hp
  · cases htx
  · cases htx

/-- A nonce that is spent is spent: the transaction changes nothing and is not applied. -/
theorem applyTx_of_spent {P : Platform} {s₀ s : State F} {txs : List (Tx F)} {tx : Tx F}
    {p : Key × ℤ} (h : NoncesCount s₀ txs s) (hspends : tx.spends = some p) (hp : p ∈ spent txs)
    (height : Option ℤ) :
    (s.applyTx P tx height).1 = s ∧ ∀ reason, (s.applyTx P tx height).2 ≠ .ok (true, reason) := by
  have hother : tx.kind ≠ .slash := by
    intro hslash
    rw [Tx.spends_of_slash hslash] at hspends
    cases hspends
  have hadmitted : ∀ sender, ¬ Admitted P s tx sender := by
    intro sender hadmitted
    rw [Tx.spends_of_key hother hadmitted.key] at hspends
    cases hspends
    have hbelow := h.below _ hp
    rw [hadmitted.nonce] at hbelow
    exact lt_irrefl _ hbelow
  have hstep := applyTx_step P s tx height
  generalize s.applyTx P tx height = result at hstep ⊢
  cases hstep with
  | keeps out hslash =>
    refine ⟨rfl, fun reason hout => ?_⟩
    exact hother (hslash reason hout).1
  | transfer hdue => exact absurd hdue.toAdmitted (hadmitted _)
  | transferRaises hdue => exact absurd hdue.toAdmitted (hadmitted _)
  | stake hadmits => exact absurd hadmits (hadmitted _)
  | signal hadmits => exact absurd hadmits (hadmitted _)
  | unstake hadmits => exact absurd hadmits (hadmitted _)
  | burn hburn => exact absurd hburn.kind hother
  | burnRaises hburn => exact absurd hburn.kind hother

/-- Evidence of a fault that is slashed changes nothing. -/
theorem applyTx_of_sameProof {P : Platform} {s : State F} {txs : List (Tx F)} {tx tx' : Tx F}
    (h : FaultsKept P txs s) (htx : tx ∈ txs) (hslash : tx.kind = .slash)
    (hslash' : tx'.kind = .slash) (hsame : SameProof tx tx') (height : Option ℤ) :
    (s.applyTx P tx' height).1 = s := by
  obtain ⟨fault, hproves, hthere⟩ := h tx htx hslash
  have hnotDue : ∀ {addr fault' reason}, ¬ SlashDue P s tx' addr fault' reason := by
    intro addr fault' reason hdue
    have hfresh := hdue.fresh
    rw [← hsame.fault_eq hproves hdue.proves, contains_iff_mem.mpr hthere] at hfresh
    cases hfresh
  have hstep := applyTx_step P s tx' height
  generalize s.applyTx P tx' height = result at hstep ⊢
  cases hstep with
  | keeps => rfl
  | transfer hdue => exact absurd hslash' hdue.other
  | transferRaises hdue => exact absurd hslash' hdue.other
  | stake hadmits => exact absurd hslash' hadmits.other
  | signal hadmits => exact absurd hslash' hadmits.other
  | unstake hadmits => exact absurd hslash' hadmits.other
  | burn hburn => exact absurd hburn.due hnotDue
  | burnRaises hburn => exact absurd hburn.due hnotDue

/-- **Transactions take effect once**, over every run of blocks from any state. A nonce of an
account is spent by one transaction of the run at most, and the nonces count the transactions that
are no slashes. Wherever the run stands, inside a block or between two, a nonce that is spent is
refused, and evidence that is slashed already, its halves in either order, changes nothing. -/
theorem effects_once (P : Platform) {s s' : State F} {blocks : List (Block F)}
    (hrun : BlockRun P s blocks s') :
    (spent (txsOf blocks)).Nodup
      ∧ (∀ tx ∈ txsOf blocks, tx.kind ≠ .slash → ∃ p, tx.spends = some p)
      ∧ (∀ key, s'.nonces.getD key 0
          = s.nonces.getD key 0 + ((spent (txsOf blocks)).countP fun p => p.1 = key))
      ∧ ∀ {txs m}, Within P s txs m →
          (∀ tx p height, tx.spends = some p → p ∈ spent txs →
            (m.applyTx P tx height).1 = m ∧
              ∀ reason, (m.applyTx P tx height).2 ≠ .ok (true, reason))
          ∧ ∀ tx ∈ txs, tx.kind = .slash → ∀ tx' height, tx'.kind = .slash → SameProof tx tx' →
              (m.applyTx P tx' height).1 = m := by
  have hinvariant := runInvariant_protection P s
  have hend := (hinvariant.run hrun (protection_nil P s)).1
  rw [List.nil_append] at hend
  refine ⟨hend.distinct, hend.all, hend.counted, fun {txs m} hwithin => ?_⟩
  obtain ⟨hnonces, hfaults⟩ := hinvariant.within (protection_nil P s) hwithin
  refine ⟨fun tx p height hspends hp => applyTx_of_spent hnonces hspends hp height, ?_⟩
  intro tx htx hslash tx' height hslash' hsame
  exact applyTx_of_sameProof hfaults htx hslash hslash' hsame height

/-- The first transaction of an account without funds, which bonds nothing. -/
def stakeNothing : Tx ℚ := ⟨.str "a", .stake, .null, 0, 0, .null, .null, .null⟩

theorem effects_once_stake :
    ∃ (s' : State ℚ) (blocks : List (Block ℚ)), txsOf blocks = [stakeNothing]
      ∧ s'.nonces.getD (.str "a") 0 = 1
      ∧ (spent (txsOf blocks)).Nodup
      ∧ ∀ height, (s'.applyTx Platform.ideal stakeNothing height).1 = s' := by
  obtain ⟨root, hroot⟩ : ∃ root, txRoot Platform.ideal [stakeNothing] = .ok root :=
    exists_txRoot_ideal (b := _) (by with_unfolding_all rfl)
  let block : Block ℚ :=
    ⟨⟨1, .str zeroHash, .null, .null, .null, 1, .null, 0, .str root, 0, 1, ""⟩, [stakeNothing]⟩
  obtain ⟨s', happly⟩ : ∃ s', (genesis .null : State ℚ).applyBlock Platform.ideal Except.ok block
      (∅ : Dict String ℚ) = .ok s' :=
    ⟨_, applyBlock_eq_ok.mpr ⟨root, _, ∅, hroot, rfl, rfl, rfl, rfl⟩⟩
  have hrun : BlockRun Platform.ideal (genesis .null) [block] s' := .cons happly (.nil s')
  have hspent : spent (txsOf [block]) = [(.str "a", 0)] := rfl
  obtain ⟨hnodup, -, hcounted, hreplay⟩ := effects_once Platform.ideal hrun
  refine ⟨s', [block], rfl, ?_, hnodup, fun height => ?_⟩
  · rw [hcounted, hspent]
    rfl
  · refine ((hreplay (.between hrun)).1 stakeNothing (.str "a", 0) height rfl ?_).1
    rw [hspent]
    exact List.mem_singleton_self _

end State

end NeuraHash
