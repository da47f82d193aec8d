import NeuraHash.Ledger.Transition
import NeuraHash.Settlement.Quorum

/-!
# The settlement chain (`neurahash/chain_settlement.py`)

Every settled height becomes a block signed by the coordinator. `ChainSettlement.settle` produces
one; `replayBlocks` rebuilds the balances from a list of block records, checking the link to the
previous block, the coordinator's signature and, when the policy asks for it, the validator quorum
of each (`verifyBlockQuorum`); `verifyPublicChain` runs the replay on an export anyone may serve.

An export is untrusted JSON. A failed check is a reason; what the source lets escape from its
`try` blocks is an exception.
-/

namespace NeuraHash

open Py

/-- `_quorum_hash(quorum)`. -/
def quorumHash (P : Platform) (quorum : Json) : String :=
  P.sha256 (utf8 (Json.dumps P.toPyText [] quorum))

/-- `_beacon(prev_hash)`. -/
def beacon (P : Platform) (prevHash : String) : String := P.sha256 (utf8 prevHash)

/-! ## The quorum of a block -/

/-- The keyword arguments of a replay. -/
structure QuorumPolicy where
  requireQuorum : Bool
  /-- The pinned roster; `null` for none. -/
  roster : Json
  m : Option ℤ

/-- `roster_arg`: a mapping keeps its stakes, anything else is listed. -/
def QuorumPolicy.rosterArg (policy : QuorumPolicy) : Except PyErr Json :=
  if policy.roster.isObj then .ok policy.roster else policy.roster.toList.map Json.arr

/-- `require_quorum=False`: the coordinator's signature alone. -/
def QuorumPolicy.coordinatorOnly : QuorumPolicy := ⟨false, .null, none⟩

inductive QuorumReason where
  /-- `no quorum proof on block` -/
  | noProof
  /-- `quorum does not match the signed header quorum_hash` -/
  | hashMismatch
  /-- `enforce requires a pinned validator roster (quorum_roster)` -/
  | rosterRequired
  /-- `quorum verify error ({type(e).__name__})` -/
  | verifyError (e : PyErr)
  /-- `pinned-roster quorum not met ({n_signers}/{n_required})` -/
  | notMet (nSigners : ℕ) (nRequired : ℤ)

/-- The sole contributor of a record, or `None`. -/
def soleContributor (contribs : Json) : Except PyErr Json := do
  if (← contribs.len) = 1 then
    return ((← contribs.toList).head?).getD .null
  else return .null

/-- `_verify_block_quorum(rec, hdr, quorum_roster, quorum_m)`. -/
def verifyBlockQuorum (P : Platform) (rec : Json) (hdr : BlockHeader PyFloat)
    (policy : QuorumPolicy) : Except PyErr (Except QuorumReason Unit) := do
  let q ← rec.getD "quorum" .null
  if !q.isObj || !q.truthy then return .error .noProof
  if hdr.quorumHash ≠ "" ∧ quorumHash P q ≠ hdr.quorumHash then return .error .hashMismatch
  if Json.pyEq policy.roster .null then return .error .rosterRequired
  let contribs := (← rec.getD "contributors" (.obj [])).orElse (.obj [])
  let recipient ← soleContributor contribs
  let roster ← policy.rosterArg
  let verdict := do
    collectSettlementSignatures P recipient hdr.reward hdr.height (← q.getD "delta_cid" (.str ""))
      roster (← q.getD "sigs" (.arr [])) policy.m
  match verdict with
  | .error e => return .error (.verifyError e)
  | .ok v => return if v.approved then .ok () else .error (.notMet v.nSigners v.nRequired)

/-! ## Replay -/

inductive BlockReason where
  /-- `broken chain (prev_hash != head)` -/
  | brokenChain
  /-- `bad signature ({e})` -/
  | badSignature (e : PyErr)
  /-- `signed by {signer}, not the coordinator` -/
  | notCoordinator (signer : String)
  /-- `quorum enforce failed ({reason_q})` -/
  | quorumFailed (r : QuorumReason)
  /-- `does not apply ({e})` -/
  | doesNotApply (e : PyErr)

/-- `recover_bytes(hdr.hash().encode(), rec["sig"])`: the hash and the signer. -/
def recoverBlock (P : Platform) (hdr : BlockHeader PyFloat) (rec : Json) :
    Except PyErr (String × String) := do
  let h ← hdr.hash P
  match recoverBytes P (utf8 h) (← rec.item "sig") with
  | some signer => .ok (h, signer)
  | none => .error (.raised "recover_message")

/-- `st.apply_block(Block(header=hdr, txs=[]), rec["contributors"])`. -/
def applyRecord (P : Platform) (st : State PyFloat) (hdr : BlockHeader PyFloat) (rec : Json) :
    Except PyErr (State PyFloat) := do
  match (← rec.item "contributors") with
  | .obj kvs => st.applyBlock P (Json.toFloat P.toPyText) ⟨hdr, []⟩ (Json.dictOf kvs)
  | _ => .error .attributeError

/-- The quorum check of the replay, skipped unless the policy asks for it. -/
def checkQuorum (P : Platform) (policy : QuorumPolicy) (rec : Json) (hdr : BlockHeader PyFloat) :
    Except PyErr (Except QuorumReason Unit) :=
  if policy.requireQuorum then verifyBlockQuorum P rec hdr policy else .ok (.ok ())

/-- One block of `_replay_blocks`: the state and the head after it, or the reason. -/
def replayBlock (P : Platform) (coord : Json) (policy : QuorumPolicy) (st : State PyFloat)
    (head : String) (rec : Json) : Except PyErr (Except BlockReason (State PyFloat × String)) := do
  let hdr ← BlockHeader.fromDict P.toPyText (← rec.item "header")
  if !Json.pyEq hdr.prevHash (.str head) then return .error .brokenChain
  match recoverBlock P hdr rec with
  | .error e => return .error (.badSignature e)
  | .ok (h, signer) =>
    if P.lower signer ≠ P.lower (coord.toStr P.toPyText) then
      return .error (.notCoordinator signer)
    match (← checkQuorum P policy rec hdr) with
    | .error r => return .error (.quorumFailed r)
    | .ok () =>
      match applyRecord P st hdr rec with
      | .error e => return .error (.doesNotApply e)
      | .ok st => return .ok (st, h)

/-- `_replay_blocks`: the state reached, and the position and reason of the block that failed. -/
def replayBlocks (P : Platform) (coord : Json) (policy : QuorumPolicy) :
    ℕ → State PyFloat → String → List Json →
      Except PyErr (State PyFloat × Except (ℕ × BlockReason) Unit)
  | _, st, _, [] => .ok (st, .ok ())
  | i, st, head, rec :: recs => do
    match (← replayBlock P coord policy st head rec) with
    | .error r => return (st, .error (i, r))
    | .ok (st, head) => replayBlocks P coord policy (i + 1) st head recs

/-! ## Exports -/

inductive ExportReason where
  /-- `malformed export: not a dict` -/
  | notADict
  /-- `malformed export: missing or non-list 'blocks'` -/
  | noBlocks
  /-- `malformed export: no 'coord_address' in export and none pinned` -/
  | noCoordAddress
  /-- `block {i}: {reason}` -/
  | block (i : ℕ) (r : BlockReason)

/-- How an export was accepted. -/
inductive ExportTrust where
  /-- `ok` -/
  | pinned
  /-- `ok (UNPINNED: trusted the export's own coord_address, not independently verified)` -/
  | unpinned
  /-- `ok (quorum-enforced: every block M-of-N staked-validator authorized)` -/
  | quorumEnforced

/-- What `verify_public_chain` returns for an accepted export. -/
structure PublicChain where
  trust : ExportTrust
  balances : Dict Key PyFloat
  minted : PyFloat
  height : ℤ

/-- `int(blocks[-1]["header"]["height"]) if blocks else 0`. -/
def lastHeight (T : PyText) (blocks : List Json) : Except PyErr ℤ :=
  match blocks.getLast? with
  | some rec => do (← (← rec.item "header").item "height").toInt T
  | none => .ok 0

/-- `verify_public_chain(export, expected_coord_address=…)`. -/
def verifyPublicChain (P : Platform) (exported : Json) (expectedCoordAddress : Option String)
    (policy : QuorumPolicy) : Except PyErr (Except ExportReason PublicChain) :=
  if !exported.isObj then .ok (.error .notADict)
  else
    match exported.get? "blocks" with
    | some (.arr blocks) => do
      let genesisCheckpoint ← exported.getD "genesis_checkpoint" (.str "pool-genesis")
      let coordAddress ← match expectedCoordAddress with
        | some a => .ok (Json.str a)
        | none => exported.getD "coord_address" .null
      if !coordAddress.truthy then return .error .noCoordAddress
      let (st, verdict) ← replayBlocks P coordAddress policy 0 (State.genesis genesisCheckpoint)
        zeroHash blocks
      match verdict with
      | .error (i, r) => return .error (.block i r)
      | .ok () =>
        let height ← lastHeight P.toPyText blocks
        return .ok {
          trust := if expectedCoordAddress.isNone then .unpinned
                   else if policy.requireQuorum then .quorumEnforced else .pinned
          balances := st.bal, minted := st.minted, height := height }
    | _ => .ok (.error .noBlocks)

/-! ## The coordinator's chain -/

/-- The block record: the header, the contributors, the coordinator's signature over the header's
hash, and the quorum when there is one. -/
def signRecord (P : Platform) (coord : String) (hdr : BlockHeader PyFloat) (contributors : Json)
    (quorum : Option Json) : Except PyErr Json := do
  let sig := signBytes P coord (utf8 (← hdr.hash P))
  let header ← hdr.canonical P.toPyText
  let members := [("header", header), ("contributors", contributors), ("sig", .str sig)]
  return .obj (match quorum with
    | some q => members ++ [("quorum", q)]
    | none => members)

structure ChainSettlement where
  /-- The address of the coordinator's account. -/
  coord : String
  genesisCheckpoint : Json
  state : State PyFloat
  blocks : List Json
  /-- The `prev_hash` of the next block. -/
  head : String
  /-- The contributions already rewarded. -/
  paidCids : Finset String

namespace ChainSettlement

/-- `ChainSettlement(coordinator_account, genesis_checkpoint)`. -/
def init (coord : String) (genesisCheckpoint : Json) : ChainSettlement where
  coord := coord
  genesisCheckpoint := genesisCheckpoint
  state := State.genesis genesisCheckpoint
  blocks := []
  head := zeroHash
  paidCids := ∅

/-- The header `settle` builds. -/
def nextHeader (P : Platform) (c : ChainSettlement) (height : ℤ) (rewardPot : PyFloat)
    (contributors : Dict String PyFloat) (timestamp : ℤ) (quorum : Option Json) :
    BlockHeader PyFloat where
  height := height
  prevHash := .str c.head
  beacon := .str (beacon P c.head)
  parentCheckpoint := c.state.modelCheckpoint
  newCheckpoint := c.state.modelCheckpoint
  workScore := FloatOps.sum contributors.values
  proposer := .str c.coord
  reward := FloatOps.max 0 rewardPot
  txRoot := .str zeroHash
  timestamp := timestamp
  protocolVersion := genesisVersion
  quorumHash := match quorum with
    | some q => quorumHash P q
    | none => ""

/-- `{a: float(w) for a, w in ex_by.items() if float(w) > 0}`. -/
def positive (exBy : Dict String PyFloat) : Dict String PyFloat :=
  Dict.ofList (exBy.entries.filter (fun e => FloatOps.lt 0 e.2))

/-- `settle(height, reward_pot, ex_by, timestamp, quorum=…)`: the chain after the block, and what
each contributor was credited. -/
def settle (P : Platform) (c : ChainSettlement) (height : ℤ) (rewardPot : PyFloat)
    (exBy : Dict String PyFloat) (timestamp : ℤ) (quorum : Option Json) :
    Except PyErr (ChainSettlement × List (String × PyFloat)) := do
  let contributors := positive exBy
  let hdr := c.nextHeader P height rewardPot contributors timestamp quorum
  let rec ← signRecord P c.coord hdr
    (.obj (contributors.entries.map (fun e => (e.1, .float e.2)))) quorum
  let state ← c.state.applyBlock P .ok ⟨hdr, []⟩ contributors
  let head ← hdr.hash P
  return ({ c with state := state, head := head, blocks := c.blocks ++ [rec] },
    contributors.keys.map (fun a =>
      (a, (state.balance (.str a) - c.state.balance (.str a)).round12)))

/-- `public_state()`. -/
def publicState (c : ChainSettlement) : Json :=
  .obj [("coord_address", .str c.coord), ("genesis_checkpoint", c.genesisCheckpoint),
    ("blocks", .arr c.blocks)]

end ChainSettlement

end NeuraHash
