import NeuraHash.Ledger.Digest

/-!
# The stored form of a chain (`neura_l1/block_state.py`, `to_dict` and `from_dict`)

Transactions, blocks and the state are written to dictionaries and read back. A transaction and a
block come back as they were (`Tx.fromDict_toDict`, `GossipBlock.fromDict_toDict`). A state comes
back with its sets filled in sorted order (`State.fromDict_toDict`), and is not written at all when
two of its signallers cannot be ordered (`State.toDict_eq_ok`).
-/

namespace NeuraHash

open Py

/-! ## Transactions -/

/-- The kind of a text of `Tx.KINDS`; the constructor raises for anything else. -/
def TxKind.ofJson : Json → Except PyErr TxKind
  | .str "transfer" => .ok .transfer
  | .str "stake" => .ok .stake
  | .str "unstake" => .ok .unstake
  | .str "slash" => .ok .slash
  | .str "upgrade_signal" => .ok .upgradeSignal
  | _ => .error .valueError

namespace Tx

/-- `to_dict()`; the tag of the signature scheme is left out when there is none. -/
def toDict (tx : Tx PyFloat) : Json :=
  let d := [
    ("sender", tx.sender),
    ("kind", .str tx.kind.name),
    ("to", tx.toAddr),
    ("amount", .float tx.amount),
    ("nonce", .int tx.nonce),
    ("sig", tx.sig),
    ("data", tx.data)]
  .obj (if tx.sigScheme.notNone then d ++ [("sig_scheme", tx.sigScheme)] else d)

/-- `Tx.from_dict(d)`; the amount must be finite. -/
def fromDict (T : PyText) (d : Json) : Except PyErr (Tx PyFloat) := do
  let sender ← d.item "sender"
  let kind ← d.item "kind"
  let toAddr ← d.getD "to" .null
  let amount ← finite T (← d.getD "amount" (.float 0))
  let nonce ← (← d.getD "nonce" (.int 0)).toInt T
  let sig ← d.getD "sig" (.str "dev")
  let data ← d.getD "data" .null
  let kind ← TxKind.ofJson kind
  let sigScheme ← d.getD "sig_scheme" .null
  return { sender, kind, toAddr, amount, nonce, sig, data, sigScheme }

/-- **A transaction comes back as it was.** -/
theorem fromDict_toDict {T : PyText} {tx : Tx PyFloat} (hfinite : tx.amount.isFinite = true) :
    fromDict T tx.toDict = .ok tx := by
  obtain ⟨sender, kind, toAddr, amount, nonce, sig, data, sigScheme⟩ := tx
  have hamount : finite T (.float amount) = .ok amount := by
    unfold finite
    rw [Json.toFloat, ok_bind]
    exact if_pos hfinite
  have hkind : TxKind.ofJson (.str kind.name) = .ok kind := by
    cases kind <;> rfl
  cases hscheme : sigScheme.notNone with
  | true =>
    simp only [fromDict, toDict, hscheme, ↓reduceIte, Json.item_obj, Json.getD_obj,
      List.reverse_cons, List.reverse_nil, List.nil_append, List.cons_append, Dict.lookup,
      String.reduceEq, ok_bind, Option.getD_some, hamount, hkind, Json.toInt_int]
    rfl
  | false =>
    have hnull : sigScheme = .null := by
      cases sigScheme with
      | null => rfl
      | _ => cases hscheme
    subst hnull
    simp only [fromDict, toDict, hscheme, ↓reduceIte, Bool.false_eq_true, Json.item_obj,
      Json.getD_obj, List.reverse_cons, List.reverse_nil, List.nil_append, List.cons_append,
      Dict.lookup, String.reduceEq, ok_bind, Option.getD_some, Option.getD_none, hamount, hkind,
      Json.toInt_int]
    rfl

theorem mapM_fromDict_toDict {T : PyText} {txs : List (Tx PyFloat)}
    (hfinite : ∀ tx ∈ txs, tx.amount.isFinite = true) :
    (txs.map toDict).mapM (fromDict T) = .ok txs := by
  induction txs with
  | nil => rfl
  | cons tx txs ih =>
    obtain ⟨htx, hrest⟩ := List.forall_mem_cons.mp hfinite
    rw [List.map_cons, List.mapM_cons, fromDict_toDict htx, ok_bind, ih hrest]
    rfl

end Tx

/-! ## Blocks -/

/-- A block with the two payloads gossip carries: the proof of work, which is never `None`, and the
commitment of the proposer. -/
structure GossipBlock (F : Type) extends Block F where
  pouw : Json
  commitment : Json
  pouw_notNone : pouw.notNone = true

namespace GossipBlock

/-- The payload `Block(…)` keeps for `pouw`. -/
def givenPouw (pouw : Json) : Json := if pouw.notNone then pouw else .obj []

theorem givenPouw_notNone (pouw : Json) : (givenPouw pouw).notNone = true := by
  unfold givenPouw
  split
  · next h => exact h
  · rfl

/-- `to_dict()`; a header with a non-finite number raises. -/
def toDict (T : PyText) (b : GossipBlock PyFloat) : Except PyErr Json := do
  return .obj [
    ("header", ← b.header.canonical T),
    ("txs", .arr (b.txs.map Tx.toDict)),
    ("pouw", b.pouw),
    ("commitment", b.commitment)]

/-- `Block.from_dict(d)`. -/
def fromDict (T : PyText) (d : Json) : Except PyErr (GossipBlock PyFloat) := do
  let header ← BlockHeader.fromDict T (← d.item "header")
  let txs ← (← (← d.getD "txs" (.arr [])).toList).mapM (Tx.fromDict T)
  let pouw ← d.getD "pouw" (.obj [])
  let commitment ← d.getD "commitment" .null
  return ⟨⟨header, txs⟩, givenPouw pouw, commitment, givenPouw_notNone pouw⟩

/-- Every number of the block is finite. -/
structure Finite (b : GossipBlock PyFloat) : Prop where
  workScore : b.header.workScore.isFinite = true
  reward : b.header.reward.isFinite = true
  amounts : ∀ tx ∈ b.txs, tx.amount.isFinite = true

theorem Finite.exists_canonical {b : GossipBlock PyFloat} (h : b.Finite) (T : PyText) :
    ∃ d, b.header.canonical T = .ok d := by
  have hcanon : ∀ {x : PyFloat}, x.isFinite = true → ∃ t, canon T x = .ok t := by
    intro x hx
    cases x with
    | fin q => exact ⟨_, rfl⟩
    | _ => cases hx
  obtain ⟨w, hw⟩ := hcanon h.workScore
  obtain ⟨r, hr⟩ := hcanon h.reward
  unfold BlockHeader.canonical
  simp only [FloatOps.toPyFloat, id, hw, hr, ok_bind]
  exact ⟨_, rfl⟩

/-- **A block comes back as it was.** -/
theorem fromDict_toDict {T : PyText} {b : GossipBlock PyFloat} (h : b.Finite) :
    ∃ d, b.toDict T = .ok d ∧ fromDict T d = .ok b := by
  obtain ⟨d, hd⟩ := h.exists_canonical T
  have htxs := @Tx.mapM_fromDict_toDict T b.txs h.amounts
  have hpouw : givenPouw b.pouw = b.pouw := if_pos b.pouw_notNone
  refine ⟨_, by rw [toDict, hd]; rfl, ?_⟩
  simp only [fromDict, Json.item_obj, Json.getD_obj, List.reverse_cons, List.reverse_nil,
    List.nil_append, List.cons_append, Dict.lookup, String.reduceEq, ↓reduceIte, ok_bind,
    Option.getD_some, BlockHeader.fromDict_canonical hd, hpouw]
  show (List.mapM (Tx.fromDict T) (b.txs.map Tx.toDict) >>= fun txs => _) = _
  rw [htxs]
  rfl

end GossipBlock

/-! ## States -/

/-- What `to_dict` of a state writes; `none` is a member that a file of an older version lacks. -/
structure StateDict (F : Type) where
  requireTxSignatures : Option Bool
  retargetEnabled : Option Bool
  bal : Option (Dict Key F)
  staked : Option (Dict Key F)
  treasury : Option F
  minted : Option F
  nonces : Option (Dict Key ℤ)
  keys : Option (Dict Key String)
  slashedFaults : Option (List String)
  unbonding : Option (Dict Key (List (F × ℤ)))
  modelCheckpoint : Option Json
  protocolVersion : Option ℤ
  upgradeSignals : Option (List Key)
  upgradeStreak : Option ℤ
  /-- A missing member and `None` are the same. -/
  pendingActivation : Option ℤ
  workFloorQ : Option ℤ
  retargetAnchorTs : Option ℤ
  retargetAnchorH : Option ℤ
  lastBlockTs : Option ℤ
  workEwmaQ : Option ℤ
  tsRing : Option (List ℤ)

namespace State

variable {F : Type} [FloatOps F]

omit [FloatOps F] in
/-- `copy()`, field by field. -/
def copy (s : State F) : State F where
  requireTxSignatures := s.requireTxSignatures
  retargetEnabled := s.retargetEnabled
  bal := s.bal
  staked := s.staked
  treasury := s.treasury
  minted := s.minted
  nonces := s.nonces
  keys := s.keys
  slashedFaults := s.slashedFaults
  unbonding := s.unbonding
  modelCheckpoint := s.modelCheckpoint
  protocolVersion := s.protocolVersion
  upgradeSignals := s.upgradeSignals
  upgradeStreak := s.upgradeStreak
  pendingActivation := s.pendingActivation
  workFloorQ := s.workFloorQ
  retargetAnchorTs := s.retargetAnchorTs
  retargetAnchorH := s.retargetAnchorH
  lastBlockTs := s.lastBlockTs
  workEwmaQ := s.workEwmaQ
  tsRing := s.tsRing

/-- `to_dict()`; the sets are written sorted. -/
def toDict (s : State F) : Except PyErr (StateDict F) := do
  let upgradeSignals ← sortedBy id s.upgradeSignals.keys
  return {
    requireTxSignatures := s.requireTxSignatures
    retargetEnabled := s.retargetEnabled
    bal := s.bal
    staked := s.staked
    treasury := s.treasury
    minted := s.minted
    nonces := s.nonces
    keys := s.keys
    slashedFaults := sortedSet s.slashedFaults.keys
    unbonding := s.unbonding
    modelCheckpoint := s.modelCheckpoint
    protocolVersion := s.protocolVersion
    upgradeSignals := upgradeSignals
    upgradeStreak := s.upgradeStreak
    pendingActivation := s.pendingActivation
    workFloorQ := s.workFloorQ
    retargetAnchorTs := s.retargetAnchorTs
    retargetAnchorH := s.retargetAnchorH
    lastBlockTs := s.lastBlockTs
    workEwmaQ := s.workEwmaQ
    tsRing := s.tsRing }

/-- `_finite(x)`. -/
def finiteNumber (x : F) : Except PyErr F :=
  if FloatOps.isFinite x then .ok x else .error .valueError

/-- `{a: f(v) for a, v in d.items()}`, for an `f` that checks its argument. -/
def checkedValues {β : Type} (ok : β → Bool) (d : Dict Key β) : Except PyErr (Dict Key β) :=
  if d.values.all ok then .ok d else .error .valueError

/-- `State.from_dict(d)`. -/
def fromDict (d : StateDict F) : Except PyErr (State F) := do
  let bal ← checkedValues FloatOps.isFinite (d.bal.getD ∅)
  let staked ← checkedValues FloatOps.isFinite (d.staked.getD ∅)
  let treasury ← finiteNumber (d.treasury.getD 0)
  let minted ← finiteNumber (d.minted.getD 0)
  let unbonding ← checkedValues (fun entries => entries.all fun e => FloatOps.isFinite e.1)
    (d.unbonding.getD ∅)
  return {
    requireTxSignatures := d.requireTxSignatures.getD false
    retargetEnabled := d.retargetEnabled.getD false
    bal, staked, treasury, minted, unbonding
    nonces := d.nonces.getD ∅
    keys := d.keys.getD ∅
    slashedFaults := PySet.ofList (d.slashedFaults.getD [])
    modelCheckpoint := d.modelCheckpoint.getD (.str "genesis")
    protocolVersion := d.protocolVersion.getD genesisVersion
    upgradeSignals := PySet.ofList (d.upgradeSignals.getD [])
    upgradeStreak := d.upgradeStreak.getD 0
    pendingActivation := d.pendingActivation
    workFloorQ := d.workFloorQ.getD genesisWorkFloorUnits
    retargetAnchorTs := d.retargetAnchorTs.getD 0
    retargetAnchorH := d.retargetAnchorH.getD 0
    lastBlockTs := d.lastBlockTs.getD 0
    workEwmaQ := d.workEwmaQ.getD genesisWorkFloorUnits
    tsRing := d.tsRing.getD [] }

/-- Every number of the state is finite. -/
structure Finite (s : State F) : Prop where
  bal : ∀ x ∈ s.bal.values, FloatOps.isFinite x = true
  staked : ∀ x ∈ s.staked.values, FloatOps.isFinite x = true
  treasury : FloatOps.isFinite s.treasury = true
  minted : FloatOps.isFinite s.minted = true
  unbonding : ∀ entries ∈ s.unbonding.values, ∀ e ∈ entries, FloatOps.isFinite e.1 = true

/-- The state with other sets. -/
def withSets (s : State F) (faults : PySet String) (signals : PySet Key) : State F :=
  { s with slashedFaults := faults, upgradeSignals := signals }

/-- The state as it is read back, from the sorted signallers. -/
def restored (s : State F) (signallers : List Key) : State F :=
  s.withSets (PySet.ofList (sortedSet s.slashedFaults.keys)) (PySet.ofList signallers)

omit [FloatOps F] in
/-- `copy` forgets no field. -/
theorem copy_eq (s : State F) : s.copy = s := rfl

omit [FloatOps F] in
/-- **A state is written when its signallers can be ordered.** -/
theorem exists_toDict_iff (s : State F) :
    (∃ d, s.toDict = .ok d) ↔ Orderable id s.upgradeSignals.keys := by
  unfold toDict sortedBy
  split
  · next h => exact iff_of_true ⟨_, rfl⟩ h
  · next h => exact iff_of_false (fun ⟨_, h'⟩ => by cases h') h

/-- **A state with finite numbers comes back with its sets filled in sorted order.** -/
theorem fromDict_toDict {s : State F} (hfinite : s.Finite) {d : StateDict F}
    (hd : s.toDict = .ok d) :
    ∃ signallers, sortedBy id s.upgradeSignals.keys = .ok signallers
      ∧ fromDict d = .ok (s.restored signallers) := by
  obtain ⟨signallers, hsorted, hd⟩ := bind_eq_ok.mp hd
  cases hd
  refine ⟨signallers, hsorted, ?_⟩
  have hbal : checkedValues FloatOps.isFinite s.bal = .ok s.bal :=
    if_pos (List.all_eq_true.mpr hfinite.bal)
  have hstaked : checkedValues FloatOps.isFinite s.staked = .ok s.staked :=
    if_pos (List.all_eq_true.mpr hfinite.staked)
  have htreasury : finiteNumber s.treasury = .ok s.treasury := if_pos hfinite.treasury
  have hminted : finiteNumber s.minted = .ok s.minted := if_pos hfinite.minted
  have hunbonding : checkedValues (fun entries => entries.all fun e => FloatOps.isFinite e.1)
      s.unbonding = .ok s.unbonding :=
    if_pos (List.all_eq_true.mpr fun entries h =>
      List.all_eq_true.mpr (hfinite.unbonding entries h))
  unfold fromDict
  simp only [Option.getD_some, hbal, hstaked, htreasury, hminted, hunbonding, ok_bind]
  rfl

end State

end NeuraHash
