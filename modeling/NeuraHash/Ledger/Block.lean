import NeuraHash.Signing

/-!
# Transactions, headers and blocks (`neura_l1/block_state.py`)

The numbers of a transaction and of a header are generic: a node reads them from JSON as
`PyFloat`s, the conservation results are stated at `ℚ`. Hashes and signed bytes go through
`canon`, so a non-finite number makes them raise.
-/

namespace NeuraHash

open Py

/-! ## Transactions -/

/-- `Tx.KINDS`; the constructor rejects every other text. -/
inductive TxKind where
  | transfer
  | stake
  | unstake
  | slash
  | upgradeSignal
  deriving DecidableEq

def TxKind.name : TxKind → String
  | .transfer => "transfer"
  | .stake => "stake"
  | .unstake => "unstake"
  | .slash => "slash"
  | .upgradeSignal => "upgrade_signal"

structure Tx (F : Type) where
  sender : Json
  kind : TxKind
  toAddr : Json
  amount : F
  nonce : ℤ
  sig : Json
  data : Json
  /-- The optional attribute; `null` when the transaction has none. -/
  sigScheme : Json

namespace Tx

variable {F : Type} [FloatOps F]

/-- `_canonical_obj(include_sig)`. -/
def canonicalObj (T : PyText) (tx : Tx F) (includeSig : Bool) : Except PyErr Json := do
  let amount ← canon T (FloatOps.toPyFloat tx.amount)
  let data ← match tx.data with
    | .null => .ok Json.null
    | d => (Json.dumpsStrict T d).map Json.str
  let obj := [
    ("sender", tx.sender),
    ("kind", .str tx.kind.name),
    ("to", tx.toAddr),
    ("amount", .str amount),
    ("nonce", .int tx.nonce),
    ("data", data)]
  return .obj (if includeSig then obj ++ [("sig", tx.sig)] else obj)

/-- What the transaction id hashes. -/
def canonicalBytes (T : PyText) (tx : Tx F) : Except PyErr Bytes := do
  let text ← Json.dumpsStrict T (← tx.canonicalObj T true)
  return utf8 text

/-- What the sender signs: everything but the signature. -/
def signingBytes (T : PyText) (tx : Tx F) : Except PyErr Bytes := do
  let text ← Json.dumpsStrict T (← tx.canonicalObj T false)
  return utf8 text

def txid (P : Platform) (tx : Tx F) : Except PyErr String := do
  return P.sha256 (← tx.canonicalBytes P.toPyText)

/-- `recover_tx_signer(tx)` (`neura_l1/signing.py`). -/
def recoverTxSigner (P : Platform) (tx : Tx F) : Except PyErr String := do
  if !tx.sig.truthy || Json.pyEq tx.sig (.str "dev") then
    throw .valueError
  let scheme ← requireSupported P.toPyText tx.sigScheme
  if scheme = "secp256k1" then
    match P.recoverMessage (domainBytes "tx" (← tx.signingBytes P.toPyText)) (hexSig tx.sig) with
    | some a => .ok a
    | none => .error (.raised "recover_message")
  else .error (.raised "UnsupportedSchemeError")

end Tx

/-- The root of an empty list, and the parent of the first block. -/
def zeroHash : String := "0000000000000000000000000000000000000000000000000000000000000000"

/-- `tx_root(txs)`: a digest over the transaction ids, in order. -/
def txRoot {F : Type} [FloatOps F] (P : Platform) (txs : List (Tx F)) : Except PyErr String :=
  if txs.isEmpty then .ok zeroHash
  else do
    let parts ← txs.mapM (fun t => do
      match fromHex (← t.txid P) with
      | some b => .ok b
      | none => .error .valueError)
    return P.sha256 parts.flatten

/-! ## Headers -/

def genesisVersion : ℤ := 1

structure BlockHeader (F : Type) where
  height : ℤ
  prevHash : Json
  beacon : Json
  parentCheckpoint : Json
  newCheckpoint : Json
  workScore : F
  proposer : Json
  reward : F
  txRoot : Json
  timestamp : ℤ
  protocolVersion : ℤ
  /-- The digest of the attached settlement quorum, or the empty text. -/
  quorumHash : String

namespace BlockHeader

/-- The hashed fields. The quorum digest is left out when it is empty. -/
def canonical {F : Type} [FloatOps F] (T : PyText) (h : BlockHeader F) : Except PyErr Json := do
  let workScore ← canon T (FloatOps.toPyFloat h.workScore)
  let reward ← canon T (FloatOps.toPyFloat h.reward)
  let d := [
    ("height", .int h.height),
    ("prev_hash", h.prevHash),
    ("beacon", h.beacon),
    ("parent_checkpoint", h.parentCheckpoint),
    ("new_checkpoint", h.newCheckpoint),
    ("work_score", .str workScore),
    ("proposer", h.proposer),
    ("reward", .str reward),
    ("tx_root", h.txRoot),
    ("timestamp", .int h.timestamp),
    ("protocol_version", .int h.protocolVersion)]
  return .obj (if h.quorumHash ≠ "" then d ++ [("quorum_hash", .str h.quorumHash)] else d)

/-- `hash()`: the digest of the canonical text. -/
def hash {F : Type} [FloatOps F] (P : Platform) (h : BlockHeader F) : Except PyErr String := do
  let text ← Json.dumpsStrict P.toPyText (← h.canonical P.toPyText)
  return P.sha256 (utf8 text)

/-- `BlockHeader.from_dict(d)`; the two floats must be finite. -/
def fromDict (T : PyText) (d : Json) : Except PyErr (BlockHeader PyFloat) := do
  let height ← d.item "height"
  let prevHash ← d.item "prev_hash"
  let beacon ← d.item "beacon"
  let parentCheckpoint ← d.item "parent_checkpoint"
  let newCheckpoint ← d.item "new_checkpoint"
  let workScore ← finite T (← d.item "work_score")
  let proposer ← d.item "proposer"
  let reward ← finite T (← d.item "reward")
  let txRoot ← d.item "tx_root"
  let timestamp ← d.item "timestamp"
  let protocolVersion ← (← d.getD "protocol_version" (.int genesisVersion)).toInt T
  let quorumHash ← d.getD "quorum_hash" (.str "")
  let height ← height.toInt T
  let timestamp ← timestamp.toInt T
  return { height, prevHash, beacon, parentCheckpoint, newCheckpoint, workScore, proposer,
           reward, txRoot, timestamp, protocolVersion,
           quorumHash := (quorumHash.orElse (.str "")).toStr T }

/-- What a header read from JSON satisfies: the height is the member's, and the two floats are
finite. -/
theorem fromDict_spec {T : PyText} {d : Json} {h : BlockHeader PyFloat}
    (hd : fromDict T d = .ok h) :
    (∃ v, d.item "height" = .ok v ∧ v.toInt T = .ok h.height)
      ∧ (∃ w, h.workScore = .fin w) ∧ ∃ q, h.reward = .fin q := by
  have hfinite : ∀ {j : Json} {x : PyFloat}, finite T j = .ok x → ∃ q, x = .fin q := by
    intro j x hx
    obtain ⟨y, _, hx⟩ := bind_eq_ok.mp hx
    cases y with
    | fin q =>
      cases hx
      exact ⟨q, rfl⟩
    | _ => cases hx
  unfold fromDict at hd
  obtain ⟨height, hheight, hd⟩ := bind_eq_ok.mp hd
  obtain ⟨prevHash, _, hd⟩ := bind_eq_ok.mp hd
  obtain ⟨beacon, _, hd⟩ := bind_eq_ok.mp hd
  obtain ⟨parent, _, hd⟩ := bind_eq_ok.mp hd
  obtain ⟨new, _, hd⟩ := bind_eq_ok.mp hd
  obtain ⟨w, _, hd⟩ := bind_eq_ok.mp hd
  obtain ⟨workScore, hwork, hd⟩ := bind_eq_ok.mp hd
  obtain ⟨proposer, _, hd⟩ := bind_eq_ok.mp hd
  obtain ⟨r, _, hd⟩ := bind_eq_ok.mp hd
  obtain ⟨reward, hreward, hd⟩ := bind_eq_ok.mp hd
  obtain ⟨root, _, hd⟩ := bind_eq_ok.mp hd
  obtain ⟨timestamp, _, hd⟩ := bind_eq_ok.mp hd
  obtain ⟨v, _, hd⟩ := bind_eq_ok.mp hd
  obtain ⟨version, _, hd⟩ := bind_eq_ok.mp hd
  obtain ⟨quorumHash, _, hd⟩ := bind_eq_ok.mp hd
  obtain ⟨n, hn, hd⟩ := bind_eq_ok.mp hd
  obtain ⟨t, _, hd⟩ := bind_eq_ok.mp hd
  cases hd
  exact ⟨⟨height, hheight, hn⟩, hfinite hwork, hfinite hreward⟩

/-- Both numbers of the header are finite, and so are those inside its JSON fields. -/
structure Finite (h : BlockHeader PyFloat) : Prop where
  workScore : ∃ w, h.workScore = .fin w
  reward : ∃ q, h.reward = .fin q
  prevHash : h.prevHash.allFinite = true
  beacon : h.beacon.allFinite = true
  parentCheckpoint : h.parentCheckpoint.allFinite = true
  newCheckpoint : h.newCheckpoint.allFinite = true
  proposer : h.proposer.allFinite = true
  txRoot : h.txRoot.allFinite = true

/-- A finite header has a canonical text and a hash. -/
theorem Finite.exists_hash {h : BlockHeader PyFloat} (hfin : h.Finite) (P : Platform) :
    ∃ d t, h.canonical P.toPyText = .ok d ∧ h.hash P = .ok t := by
  obtain ⟨⟨w, hw⟩, ⟨q, hq⟩, hprev, hbeacon, hparent, hnew, hproposer, hroot⟩ := hfin
  have hcanonical : ∃ d, h.canonical P.toPyText = .ok d ∧ d.allFinite = true := by
    unfold canonical
    rw [hw, hq]
    refine ⟨_, rfl, ?_⟩
    by_cases hquorum : h.quorumHash = "" <;>
      simp [hquorum, Json.allFinite, Json.allFiniteMembers, hprev, hbeacon, hparent, hnew,
        hproposer, hroot]
  obtain ⟨d, hd, hall⟩ := hcanonical
  refine ⟨d, P.sha256 (utf8 (Json.dumps P.toPyText [' '] d)), hd, ?_⟩
  unfold hash
  rw [hd, ok_bind, Json.dumpsStrict, if_pos hall]
  rfl

/-- **Reading back a canonical header gives the header.** -/
theorem fromDict_canonical {T : PyText} {h : BlockHeader PyFloat} {d : Json}
    (hd : h.canonical T = .ok d) : fromDict T d = .ok h := by
  obtain ⟨height, prevHash, beacon, parent, new, workScore, proposer, reward, root, timestamp,
    version, quorumHash⟩ := h
  obtain ⟨work, hwork, hd⟩ := bind_eq_ok.mp hd
  obtain ⟨rew, hrew, hd⟩ := bind_eq_ok.mp hd
  have hread : ∀ {x : PyFloat} {t : String}, canon T x = .ok t → finite T (.str t) = .ok x := by
    intro x t hx
    cases x with
    | fin q =>
      cases hx
      simp [finite, Json.toFloat, T.parseFloat_format17g, PyFloat.isFinite]
    | _ => cases hx
  cases hd
  by_cases hq : quorumHash = ""
  · subst hq
    simp only [fromDict, ne_eq, not_true, ↓reduceIte, Json.item_obj, Json.getD_obj,
      List.reverse_cons, List.reverse_nil, List.nil_append, List.cons_append, Dict.lookup,
      String.reduceEq, ok_bind, hread hwork, hread hrew, Option.getD_some, Option.getD_none, Json.toInt_int]
    rfl
  · have htruthy : (Json.str quorumHash).orElse (.str "") = .str quorumHash := by
      simp [Json.orElse, Json.truthy, hq]
    simp only [fromDict, ne_eq, hq, not_false_eq_true, ↓reduceIte, Json.item_obj, Json.getD_obj,
      List.reverse_cons, List.reverse_nil, List.nil_append, List.cons_append,
      Dict.lookup, String.reduceEq, ok_bind, hread hwork, hread hrew, Option.getD_some,
      Json.toInt_int, htruthy, Json.toStr_str]
    rfl

/-- What a hash was taken over. -/
theorem hash_eq_ok {F : Type} [FloatOps F] {P : Platform} {h : BlockHeader F} {t : String} :
    h.hash P = .ok t ↔ ∃ d, h.canonical P.toPyText = .ok d ∧ d.allFinite = true
      ∧ P.sha256 (utf8 (Json.dumps P.toPyText [' '] d)) = t := by
  unfold hash Json.dumpsStrict
  constructor
  · intro heq
    obtain ⟨d, hd, heq⟩ := bind_eq_ok.mp heq
    obtain ⟨text, htext, heq⟩ := bind_eq_ok.mp heq
    split at htext
    · next hfin =>
      cases htext
      exact ⟨d, hd, hfin, Except.ok.inj heq⟩
    · cases htext
  · rintro ⟨d, hd, hfin, rfl⟩
    rw [hd, ok_bind, if_pos hfin]
    rfl

/-- **The hash binds the link and the reward.** -/
theorem hash_binds {P : Platform} (hfree : CollisionFree P) {h h' : BlockHeader PyFloat}
    {t : String} (hh : h.hash P = .ok t) (hh' : h'.hash P = .ok t) :
    h.prevHash.sortKeys = h'.prevHash.sortKeys ∧ h.reward = h'.reward := by
  obtain ⟨d, hd, _, ht⟩ := hash_eq_ok.mp hh
  obtain ⟨d', hd', _, ht'⟩ := hash_eq_ok.mp hh'
  have hmember := Json.get?_eq_of_dumps_eq P.toPyText [' ']
    (utf8_injective (hfree (ht.trans ht'.symm)))
  have hget : ∀ {h : BlockHeader PyFloat} {d : Json}, h.canonical P.toPyText = .ok d →
      d.get? "prev_hash" = some h.prevHash
        ∧ ∃ r, canon P.toPyText h.reward = .ok r ∧ d.get? "reward" = some (.str r) := by
    intro h d hd
    obtain ⟨w, _, hd⟩ := bind_eq_ok.mp hd
    obtain ⟨r, hr, hd⟩ := bind_eq_ok.mp hd
    cases hd
    by_cases hq : h.quorumHash = "" <;>
      simp only [hq, ne_eq, not_true, not_false_eq_true, ↓reduceIte, Json.get?_obj,
        List.reverse_cons, List.reverse_nil, List.nil_append, List.cons_append, Dict.lookup,
        String.reduceEq] <;>
      exact ⟨trivial, r, hr, rfl⟩
  obtain ⟨hprev, r, hr, hreward⟩ := hget hd
  obtain ⟨hprev', r', hr', hreward'⟩ := hget hd'
  have hp := hmember "prev_hash"
  have hw := hmember "reward"
  rw [hprev, hprev'] at hp
  rw [hreward, hreward'] at hw
  have hrr : r = r' := by
    have := Option.some.inj hw
    simpa [Json.sortKeys] using this
  exact ⟨Option.some.inj hp, canon_injective hr (hrr ▸ hr')⟩

end BlockHeader

/-! ## Blocks -/

/-- A header with the transactions its root commits to. -/
structure Block (F : Type) where
  header : BlockHeader F
  txs : List (Tx F)

end NeuraHash
