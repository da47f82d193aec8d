import NeuraHash.Settlement.Settle

/-!
# Candidates (`neurahash/diloco_round_authority.py`)

A candidate coordinator holds a replica of the settlement chain. The elected proposer of a round
settles a block on its replica and sends an envelope with the block and a signed claim on it;
every peer checks the election, the claim and the block in `Candidate.accept` and appends it.

Under view changes the proposer of view `v` is `order[v]`, and for every earlier view the envelope
carries timeout attestations, which `verifyTimeoutQuorum` counts. `accept_eq_ok` lists what an
accepted envelope satisfies.

An envelope is untrusted JSON. `accept` looks up the timeouts of each view in a map it is given: by
default the one inside the envelope, whose keys are the numerals of the views once it has been sent.
-/

namespace NeuraHash

open Py

/-- `_norm(addr)` of an address held as text. -/
def norm (T : PyText) (addr : String) : String := T.lower addr

/-! ## Proposer claims -/

/-- `proposer_claim_payload(round_id, proposer, block_hash)`. -/
def proposerClaimPayload (T : PyText) (round : ℤ) (proposer blockHash : String) : Bytes :=
  utf8 (Json.dumps T [] (.obj [
    ("w", .str "neurahash-round-authority/v1"),
    ("round", .int round),
    ("proposer", .str (norm T proposer)),
    ("block_hash", .str blockHash)]))

/-- `sign_proposer_claim(identity_account, round_id, block_hash)`. -/
def signProposerClaim (P : Platform) (identity : String) (round : ℤ) (blockHash : String) : Json :=
  .obj [
    ("round", .int round),
    ("proposer", .str identity),
    ("block_hash", .str blockHash),
    ("sig", .str (signBytes P identity
      (proposerClaimPayload P.toPyText round identity blockHash)))]

/-- The signer a claim recovers to, from its own fields. -/
def recoverClaim (P : Platform) (claim : Json) : Except PyErr String := do
  let round ← (← claim.item "round").toInt P.toPyText
  let proposer := (← claim.item "proposer").toStr P.toPyText
  let blockHash := (← claim.item "block_hash").toStr P.toPyText
  match recoverBytes P (proposerClaimPayload P.toPyText round proposer blockHash)
      (← claim.item "sig") with
  | some who => .ok who
  | none => .error (.raised "recover_message")

/-- `recover_proposer(claim)`: the signer, when it is the proposer the claim names. -/
def recoverProposer (P : Platform) (claim : Json) : Option String :=
  match recoverClaim P claim, claim.get? "proposer" with
  | .ok who, some (.str claimed) =>
    if norm P.toPyText who = norm P.toPyText claimed then some who else none
  | _, _ => none

/-! ## Timeouts -/

/-- `timeout_payload(round_id, failed_proposer, view)`. -/
def timeoutPayload (T : PyText) (round : ℤ) (failedProposer : String) (view : ℕ) : Bytes :=
  utf8 (Json.dumps T [] (.obj [
    ("w", .str "neurahash-round-authority-timeout/v1"),
    ("round", .int round),
    ("failed_proposer", .str (norm T failedProposer)),
    ("view", .int view)]))

/-- `sign_timeout(candidate, round_id, failed_proposer, view)`. -/
def signTimeout (P : Platform) (identity : String) (round : ℤ) (failedProposer : String)
    (view : ℕ) : Json :=
  .obj [
    ("round", .int round),
    ("failed_proposer", .str (norm P.toPyText failedProposer)),
    ("view", .int view),
    ("signer", .str identity),
    ("sig", .str (signBytes P identity (timeoutPayload P.toPyText round failedProposer view)))]

structure TimeoutVerdict where
  approved : Bool
  nSigners : ℕ
  nRequired : ℤ
  rosterN : ℕ
  /-- The counted signers; the source lists them in order. -/
  signers : List String
  round : ℤ
  failedProposer : String
  view : ℕ

/-- `verify_timeout_quorum(attestations, roster, m, round_id, failed_proposer, view)`. The
threshold must be a strict majority of the roster; otherwise nothing is approved. -/
def verifyTimeoutQuorum (P : Platform) (attestations : Json) (roster : List String) (m : ℤ)
    (round : ℤ) (failedProposer : String) (view : ℕ) : Except PyErr TimeoutVerdict :=
  let n := (roster.map (norm P.toPyText)).dedup.length
  let out : TimeoutVerdict := {
    approved := false, nSigners := 0, nRequired := m, rosterN := n, signers := [], round := round
    failedProposer := norm P.toPyText failedProposer, view := view }
  if n = 0 ∨ ¬(1 ≤ m ∧ m ≤ n ∧ (n : ℤ) < m * 2) then .ok out
  else do
    let atts ← (attestations.orElse (.arr [])).toList
    match GuardianSet.make P.toPyText (roster.map Json.str) m with
    | .error _ => return out
    | .ok gs =>
      let signers := gs.distinctSigners P
        (timeoutPayload P.toPyText round failedProposer view) (sigsOf atts)
      return { out with
        approved := decide (m ≤ signers.length), nSigners := signers.length, signers := signers }

/-- `elect_proposer(order, unavailable)`: the first signer that is available. -/
def electProposer (T : PyText) (order unavailable : List String) : Option String :=
  order.find? (fun ident => decide (norm T ident ∉ unavailable.map (norm T)))

/-! ## Candidates -/

structure Candidate where
  /-- The address of the identity account. -/
  identity : String
  chain : ChainSettlement

/-- What a rejected envelope is rejected for. -/
inductive AcceptReason where
  /-- `proposer claim signature invalid` -/
  | invalidClaim
  /-- `malformed view` -/
  | malformedView
  /-- `view {view} out of range for the agreed order of {len(order)}` -/
  | viewOutOfRange (view : ℤ) (n : ℕ)
  /-- `out-of-turn: view-{view} proposer {who} is not the elected {order[view]}` -/
  | outOfTurnView (view : ℕ) (who elected : String)
  /-- `no view-change proof for view {v} (unilateral seizure: …)` -/
  | noViewChange (view : ℕ) (nSigners : ℕ) (nRequired : ℤ)
  /-- `out-of-turn: proposer {who} is not the elected {expected}` -/
  | outOfTurn (who : String) (expected : Option String)
  /-- `malformed block header ({type(e).__name__})` -/
  | malformedHeader (e : PyErr)
  /-- `proposer claim does not bind this block` -/
  | claimNotBound
  /-- `round mismatch (envelope round != header height != claim round)` -/
  | roundMismatch
  /-- `block does not extend our head (gap/fork)` -/
  | notExtending
  /-- `bad coordinator signature ({type(e).__name__})` -/
  | badSignature (e : PyErr)
  /-- `block signed by {signer}, not the coordinator role key` -/
  | notCoordinator (signer : String)
  /-- `block does not apply ({type(e).__name__})` -/
  | doesNotApply (e : PyErr)

/-- How a peer checks the election: the agreed order, the down-set of the legacy mode, and the
threshold and roster of the timeout quorums. -/
structure Election where
  order : List String
  unavailable : List String
  timeoutM : Option ℤ
  roster : Option (List String)

namespace Election

/-- The roster the timeouts are counted over. -/
def members (e : Election) : List String := e.roster.getD e.order

/-- The threshold of a timeout quorum. -/
def threshold (T : PyText) (e : Election) : ℤ :=
  e.timeoutM.getD (((e.members.map (norm T)).dedup.length / 2 : ℕ) + 1)

/-- The attestations a sent envelope carries for a view. -/
def sentTimeouts (envelope : Json) (v : ℕ) : Except PyErr Json := do
  let quorums := (← envelope.getD "timeout_quorums" .null).orElse (.obj [])
  quorums.getD (v : ℤ).repr .null

/-- The loop of `accept` over the earlier views: the first view without an approved quorum. -/
def checkTimeouts (P : Platform) (e : Election) (round : ℤ) (timeouts : ℕ → Except PyErr Json) :
    ℕ → List String → Except PyErr (Except AcceptReason Unit)
  | _, [] => .ok (.ok ())
  | v, failed :: rest => do
    let atts ← timeouts v
    let verdict ← verifyTimeoutQuorum P atts e.members (e.threshold P.toPyText) round failed v
    if verdict.approved then checkTimeouts P e round timeouts (v + 1) rest
    else return .error (.noViewChange v verdict.nSigners verdict.nRequired)

/-- The election check of an envelope that carries a view. -/
def checkView (P : Platform) (e : Election) (envelope : Json) (who : String)
    (timeouts : ℕ → Except PyErr Json) (view : ℤ) : Except PyErr (Except AcceptReason Unit) :=
  if ¬(0 ≤ view ∧ view < e.order.length) then
    .ok (.error (.viewOutOfRange view e.order.length))
  else
    let elected := e.order.getD view.toNat ""
    if norm P.toPyText who ≠ norm P.toPyText elected then
      .ok (.error (.outOfTurnView view.toNat who elected))
    else if view = 0 then .ok (.ok ())
    else do
      let round ← (← envelope.item "round").toInt P.toPyText
      checkTimeouts P e round timeouts 0 (e.order.take view.toNat)

/-- The election check: by view when the envelope carries one, else by availability. -/
def check (P : Platform) (e : Election) (envelope : Json) (who : String)
    (timeouts : ℕ → Except PyErr Json := sentTimeouts envelope) :
    Except PyErr (Except AcceptReason Unit) :=
  match envelope.get? "view" with
  | some v =>
    match v.toInt P.toPyText with
    | .ok view => e.checkView P envelope who timeouts view
    | .error .typeError => .ok (.error .malformedView)
    | .error .valueError => .ok (.error .malformedView)
    | .error err => .error err
  | none =>
    match electProposer P.toPyText e.order e.unavailable with
    | some expected =>
      if norm P.toPyText who = norm P.toPyText expected then .ok (.ok ())
      else .ok (.error (.outOfTurn who (some expected)))
    | none => .ok (.error (.outOfTurn who none))

end Election

namespace Candidate

/-- `Candidate(identity_account, coord_account, genesis_checkpoint=…)`. -/
def init (identity coord : String) (genesisCheckpoint : Json) : Candidate :=
  ⟨identity, ChainSettlement.init coord genesisCheckpoint⟩

/-- The envelope of a proposal; with a view it carries the timeout attestations of the earlier
views. -/
def proposal (P : Platform) (identity : String) (round : ℤ) (block : Json) (blockHash : String)
    (view : Option (ℕ × List (ℕ × List Json))) : Json :=
  .obj ([("round", .int round), ("proposer", .str identity), ("block", block),
      ("claim", signProposerClaim P identity round blockHash)] ++
    match view with
    | some (v, quorums) => [("view", .int v),
        ("timeout_quorums", .obj (quorums.map (fun q => ((q.1 : ℤ).repr, .arr q.2))))]
    | none => [])

/-- `propose(round_id, height=…, …)`: the candidate with the block settled, and the envelope. -/
def propose (P : Platform) (c : Candidate) (round height : ℤ) (reward : PyFloat)
    (recipient : String) (quorum : Option Json) (timestamp : ℤ)
    (view : Option (ℕ × List (ℕ × List Json))) : Except PyErr (Candidate × Json) := do
  let (chain, _) ← c.chain.settle P height reward (ChainSettlement.sole recipient) timestamp quorum
  let block := chain.blocks.getLast?.getD .null
  let hdr ← BlockHeader.fromDict P.toPyText (← block.item "header")
  let blockHash ← hdr.hash P
  return ({ c with chain := chain }, proposal P c.identity round block blockHash view)

/-- `BlockHeader.from_dict(rec["header"])`. -/
def readHeader (T : PyText) (block : Json) : Except PyErr (BlockHeader PyFloat) := do
  BlockHeader.fromDict T (← block.item "header")

/-- `accept(envelope, order, unavailable, timeout_m=…, roster=…)` after the election check. -/
def acceptBlock (P : Platform) (c : Candidate) (envelope claim rec : Json)
    (hdr : BlockHeader PyFloat) : Except PyErr (Except AcceptReason Candidate) := do
  let claimed := (← claim.item "block_hash").toStr P.toPyText
  let h ← hdr.hash P
  if claimed ≠ h then return .error .claimNotBound
  if (← (← envelope.getD "round" (.int (-2))).toInt P.toPyText) ≠ hdr.height then
    return .error .roundMismatch
  if (← (← claim.getD "round" (.int (-3))).toInt P.toPyText) ≠ hdr.height then
    return .error .roundMismatch
  if !Json.pyEq hdr.prevHash (.str c.chain.head) then return .error .notExtending
  match recoverBlock P hdr rec with
  | .error e => return .error (.badSignature e)
  | .ok (_, signer) =>
    if norm P.toPyText signer ≠ norm P.toPyText c.chain.coord then
      return .error (.notCoordinator signer)
    match applyRecord P c.chain.state hdr rec with
    | .error e => return .error (.doesNotApply e)
    | .ok st => return .ok { c with chain := { c.chain with
        state := st, blocks := c.chain.blocks ++ [rec], head := h } }

/-- `accept(envelope, order, unavailable, timeout_m=…, roster=…)`: the candidate with the block
appended, or the reason. A rejected envelope leaves the candidate as it was. -/
def accept (P : Platform) (c : Candidate) (envelope : Json) (e : Election)
    (timeouts : ℕ → Except PyErr Json := Election.sentTimeouts envelope) :
    Except PyErr (Except AcceptReason Candidate) := do
  let claim ← envelope.getD "claim" .null
  match recoverProposer P claim with
  | none => return .error .invalidClaim
  | some who =>
    match (← e.check P envelope who timeouts) with
    | .error r => return .error r
    | .ok () =>
      let block := (← envelope.getD "block" .null).orElse (.obj [])
      match readHeader P.toPyText block with
      | .error err => return .error (.malformedHeader err)
      | .ok hdr => c.acceptBlock P envelope claim block hdr

end Candidate

/-! ## What acceptance means -/

section Accept

variable {P : Platform} {c c' : Candidate} {envelope claim rec : Json} {hdr : BlockHeader PyFloat}
  {e : Election}

/-- The candidate that appended `rec`. -/
def Candidate.append (c : Candidate) (rec : Json) (st : State PyFloat) (head : String) :
    Candidate :=
  { c with chain := { c.chain with
      state := st, blocks := c.chain.blocks ++ [rec], head := head } }

/-- The block and the claim of an envelope, as `accept` reads them. -/
structure Carries (envelope claim rec : Json) : Prop where
  claim : envelope.getD "claim" .null = .ok claim
  block : ∃ b, envelope.getD "block" .null = .ok b ∧ b.orElse (.obj []) = rec

/-- The three round numbers agree, and the claim names the block. -/
structure Bound (P : Platform) (envelope claim : Json) (hdr : BlockHeader PyFloat)
    (hash : String) : Prop where
  blockHash : ∃ b, claim.item "block_hash" = .ok b ∧ b.toStr P.toPyText = hash
  round : ∃ r, envelope.getD "round" (.int (-2)) = .ok r ∧ r.toInt P.toPyText = .ok hdr.height
  claimRound : ∃ r, claim.getD "round" (.int (-3)) = .ok r ∧ r.toInt P.toPyText = .ok hdr.height

theorem acceptBlock_eq_ok (hheader : HeaderOf P.toPyText rec hdr) :
    c.acceptBlock P envelope claim rec hdr = .ok (.ok c') ↔
      ∃ st head, Bound P envelope claim hdr head
        ∧ BlockReplayed P (.str c.chain.coord) .coordinatorOnly c.chain.state c.chain.head rec hdr
            st head
        ∧ c' = c.append rec st head := by
  constructor
  · intro h
    unfold Candidate.acceptBlock at h
    obtain ⟨b, hb, h⟩ := bind_eq_ok.mp h
    obtain ⟨hash, hhash, h⟩ := bind_eq_ok.mp h
    by_cases hbound : b.toStr P.toPyText = hash
    swap
    · rw [if_pos hbound] at h
      cases h
    rw [if_neg (not_not.mpr hbound)] at h
    obtain ⟨j, hj, h⟩ := bind_eq_ok.mp h
    obtain ⟨r, hr, h⟩ := bind_eq_ok.mp h
    by_cases hround : r = hdr.height
    swap
    · rw [if_pos hround] at h
      cases h
    rw [if_neg (not_not.mpr hround)] at h
    obtain ⟨j', hj', h⟩ := bind_eq_ok.mp h
    obtain ⟨r', hr', h⟩ := bind_eq_ok.mp h
    by_cases hround' : r' = hdr.height
    swap
    · rw [if_pos hround'] at h
      cases h
    rw [if_neg (not_not.mpr hround')] at h
    by_cases hlink : Json.pyEq hdr.prevHash (.str c.chain.head) = true
    swap
    · rw [Bool.not_eq_true] at hlink
      rw [if_pos (by rw [hlink]; rfl)] at h
      cases h
    rw [if_neg (by rw [hlink]; decide)] at h
    split at h
    · cases h
    · next hash' signer hrecover =>
      obtain ⟨hhash', sig, hsig, hrec⟩ := recoverBlock_eq_ok.mp hrecover
      rw [hhash] at hhash'
      cases hhash'
      by_cases hsigner : norm P.toPyText signer = norm P.toPyText c.chain.coord
      swap
      · rw [if_pos hsigner] at h
        cases h
      rw [if_neg (not_not.mpr hsigner)] at h
      split at h
      · cases h
      · next st happly =>
        cases h
        exact ⟨st, hash, ⟨⟨b, hb, hbound⟩, ⟨j, hj, hround ▸ hr⟩, ⟨j', hj', hround' ▸ hr'⟩⟩,
          ⟨hheader, Json.pyEq_str_right.mp hlink, hhash, ⟨sig, signer, hsig, hrec, hsigner⟩, rfl,
            happly⟩, rfl⟩
  · rintro ⟨st, head, ⟨⟨b, hb, hbound⟩, ⟨j, hj, hround⟩, ⟨j', hj', hround'⟩⟩, hblock, rfl⟩
    obtain ⟨sig, signer, hsig, hrec, hsigner⟩ := hblock.signed
    have hrecover : recoverBlock P hdr rec = .ok (head, signer) :=
      recoverBlock_eq_ok.mpr ⟨hblock.hash, sig, hsig, hrec⟩
    have hsigner' : norm P.toPyText signer = norm P.toPyText c.chain.coord := hsigner
    unfold Candidate.acceptBlock
    simp only [hblock.hash, hb, hj, hround, hj', hround', ok_bind, hbound, ne_eq, not_true,
      ↓reduceIte, Json.pyEq_str_right.mpr hblock.link, Bool.not_true, Bool.false_eq_true, hrecover,
      hsigner', hblock.applied]
    rfl

/-- **An envelope is accepted exactly when its claim is signed by the elected proposer and its
block, bound by the claim, replays on the candidate's chain.** -/
theorem accept_eq_ok {timeouts : ℕ → Except PyErr Json} :
    c.accept P envelope e timeouts = .ok (.ok c') ↔
      ∃ claim rec hdr who st head, Carries envelope claim rec
        ∧ recoverProposer P claim = some who ∧ e.check P envelope who timeouts = .ok (.ok ())
        ∧ Bound P envelope claim hdr head
        ∧ BlockReplayed P (.str c.chain.coord) .coordinatorOnly c.chain.state c.chain.head rec hdr
            st head
        ∧ c' = c.append rec st head := by
  constructor
  · intro h
    unfold Candidate.accept at h
    obtain ⟨claim, hclaim, h⟩ := bind_eq_ok.mp h
    split at h
    · cases h
    · next who hwho =>
      obtain ⟨verdict, hverdict, h⟩ := bind_eq_ok.mp h
      split at h
      · cases h
      · obtain ⟨b, hb, h⟩ := bind_eq_ok.mp h
        dsimp only at h
        split at h
        · cases h
        · next hdr hhdr =>
          obtain ⟨j, hj, hread⟩ := bind_eq_ok.mp hhdr
          obtain ⟨st, head, hbound, hblock, hc'⟩ := (acceptBlock_eq_ok ⟨j, hj, hread⟩).mp h
          exact ⟨claim, _, hdr, who, st, head, ⟨hclaim, b, hb, rfl⟩, hwho, hverdict, hbound, hblock,
            hc'⟩
  · rintro ⟨claim, rec, hdr, who, st, head, ⟨hclaim, b, hb, rfl⟩, hwho, hverdict, hbound, hblock,
      rfl⟩
    obtain ⟨j, hj, hread⟩ := hblock.header
    have hhdr : Candidate.readHeader P.toPyText (b.orElse (.obj [])) = .ok hdr := by
      rw [Candidate.readHeader, hj, ok_bind, hread]
    unfold Candidate.accept
    simp only [hclaim, hwho, hverdict, hb, ok_bind, hhdr]
    exact (acceptBlock_eq_ok hblock.header).mpr ⟨st, head, hbound, hblock, rfl⟩

end Accept

/-! ## Honest proposals -/

section Propose

variable {P : Platform} {c c' t : Candidate} {round height timestamp : ℤ} {reward : PyFloat}
  {recipient : String} {quorum : Option Json} {view : Option (ℕ × List (ℕ × List Json))}
  {envelope : Json}

/-- The members of an envelope that `accept` reads. -/
theorem getD_proposal (P : Platform) (identity : String) (round : ℤ) (block : Json)
    (blockHash : String) (view : Option (ℕ × List (ℕ × List Json))) (default : Json) :
    let envelope := Candidate.proposal P identity round block blockHash view
    envelope.getD "round" default = .ok (.int round) ∧ envelope.getD "block" default = .ok block
      ∧ envelope.getD "claim" default = .ok (signProposerClaim P identity round blockHash) := by
  cases view <;>
    simp only [Candidate.proposal, Json.getD_obj, List.append_nil, List.reverse_cons,
      List.reverse_nil, List.nil_append, List.cons_append, Dict.lookup, String.reduceEq,
      ↓reduceIte, Option.getD_some, and_self]

/-- The members of a claim. -/
theorem item_signProposerClaim (P : Platform) (identity : String) (round : ℤ)
    (blockHash : String) :
    let claim := signProposerClaim P identity round blockHash
    claim.item "round" = .ok (.int round) ∧ claim.item "proposer" = .ok (.str identity)
      ∧ claim.item "block_hash" = .ok (.str blockHash)
      ∧ claim.item "sig" = .ok (.str (signBytes P identity
          (proposerClaimPayload P.toPyText round identity blockHash))) := by
  simp only [signProposerClaim, Json.item_obj, List.reverse_cons, List.reverse_nil,
    List.nil_append, List.cons_append, Dict.lookup, String.reduceEq, ↓reduceIte, and_self]

/-- The header of a proposed block. -/
def Candidate.proposedHeader (P : Platform) (c : Candidate) (height : ℤ) (reward : PyFloat)
    (recipient : String) (quorum : Option Json) (timestamp : ℤ) : BlockHeader PyFloat :=
  c.chain.nextHeader P height reward
    (ChainSettlement.positive (ChainSettlement.sole recipient)) timestamp quorum

/-- **What a proposal is**: a settled block, appended and sent. -/
theorem propose_eq_ok
    (h : c.propose P round height reward recipient quorum timestamp view = .ok (c', envelope)) :
    ∃ rec st head contributors,
      signRecord P c.chain.coord
          (c.proposedHeader P height reward recipient quorum timestamp) contributors quorum = .ok rec
        ∧ (c.proposedHeader P height reward recipient quorum timestamp).hash P = .ok head
        ∧ applyRecord P c.chain.state
            (c.proposedHeader P height reward recipient quorum timestamp) rec = .ok st
        ∧ c' = c.append rec st head
        ∧ envelope = Candidate.proposal P c.identity round rec head view := by
  unfold Candidate.propose at h
  obtain ⟨⟨chain, credited⟩, hsettle, h⟩ := bind_eq_ok.mp h
  obtain ⟨rec, st, head, hrec, happly, hhash, rfl⟩ := ChainSettlement.settle_eq_ok hsettle
  obtain ⟨_, d, _, hd, hheader, _⟩ := item_signRecord hrec
  simp only [List.getLast?_append, List.getLast?_singleton, Option.some_or, Option.getD_some,
    hheader, BlockHeader.fromDict_canonical hd, hhash, ok_bind] at h
  cases h
  exact ⟨rec, st, head, _, hrec, hhash, happly, rfl, rfl⟩

/-- The block an honest proposal appends and carries. -/
theorem headerOf_propose
    (h : c.propose P round height reward recipient quorum timestamp view = .ok (c', envelope)) :
    ∃ rec st head,
      HeaderOf P.toPyText rec (c.proposedHeader P height reward recipient quorum timestamp)
        ∧ c' = c.append rec st head ∧ envelope.getD "block" .null = .ok rec := by
  obtain ⟨rec, st, head, contributors, hrec, _, _, hc', rfl⟩ := propose_eq_ok h
  obtain ⟨_, d, _, hd, hheader, _⟩ := item_signRecord hrec
  exact ⟨rec, st, head, ⟨d, hheader, BlockHeader.fromDict_canonical hd⟩, hc',
    (getD_proposal P c.identity round rec head view .null).2.1⟩

/-- A signed claim recovers to its signer. -/
theorem recoverProposer_sign {identity : String} (hsign : CanSign P identity) (blockHash : String) :
    recoverProposer P (signProposerClaim P identity round blockHash) = some identity := by
  obtain ⟨hround, hproposer, hhash, hsig⟩ := item_signProposerClaim P identity round blockHash
  have hclaim : recoverClaim P (signProposerClaim P identity round blockHash) = .ok identity := by
    unfold recoverClaim
    simp only [hround, hproposer, hhash, hsig, ok_bind, Json.toInt_int, Json.toStr_str, hsign _]
  unfold recoverProposer
  rw [hclaim, Json.item_eq_ok.mp hproposer]
  simp

/-- **An honest proposal is accepted by every peer on the same chain** that elects its
proposer. -/
theorem accept_proposal (hsign : CanSign P c.identity) (hcoord : CanSign P c.chain.coord)
    (h : c.propose P height height reward recipient quorum timestamp view = .ok (c', envelope))
    (hchain : t.chain = c.chain) {e : Election}
    (hcheck : e.check P envelope c.identity = .ok (.ok ())) :
    ∃ t', t.accept P envelope e = .ok (.ok t') ∧ t'.chain = c'.chain := by
  obtain ⟨rec, st, head, contributors, hrec, hhash, happly, rfl, rfl⟩ := propose_eq_ok h
  set hdr := c.proposedHeader P height reward recipient quorum timestamp
  obtain ⟨hash, d, hhash', _, hheader, _⟩ := item_signRecord hrec
  rw [hhash] at hhash'
  cases hhash'
  obtain ⟨head', hhash', hblock⟩ := blockReplayed_of_signRecord hcoord hrec rfl
    (show checkQuorum P .coordinatorOnly rec hdr = .ok (.ok ()) from rfl) happly
  rw [hhash] at hhash'
  cases hhash'
  obtain ⟨kvs, rfl⟩ := Json.isObj_of_item hheader
  obtain ⟨hround, hproposer, hnamed, _⟩ := item_signProposerClaim P c.identity height head
  have hmember := getD_proposal P c.identity height (.obj kvs) head view
  have hcarries : Carries (Candidate.proposal P c.identity height (.obj kvs) head view)
      (signProposerClaim P c.identity height head) (.obj kvs) :=
    ⟨(hmember .null).2.2, _, (hmember .null).2.1, Json.orElse_obj kvs⟩
  have hbound : Bound P (Candidate.proposal P c.identity height (.obj kvs) head view)
      (signProposerClaim P c.identity height head) hdr head :=
    ⟨⟨_, hnamed, rfl⟩, ⟨_, (hmember (.int (-2))).1, rfl⟩,
      ⟨_, Json.getD_of_item hround, rfl⟩⟩
  rw [← hchain] at hblock
  refine ⟨t.append (.obj kvs) st head, accept_eq_ok.mpr ⟨_, _, hdr, _, st, head, hcarries,
    recoverProposer_sign hsign head, hcheck, hbound, hblock, rfl⟩, ?_⟩
  unfold Candidate.append
  rw [hchain]

/-- **A finite reward to one recipient can always be proposed** on a plain replica. -/
theorem exists_propose (P : Platform) (c : Candidate) (hplain : c.chain.state.Plain)
    (hck : c.chain.state.modelCheckpoint.allFinite = true) (round height : ℤ) (q : ℚ)
    (recipient : String) (quorum : Option Json) (timestamp : ℤ)
    (view : Option (ℕ × List (ℕ × List Json))) :
    ∃ c' envelope, c.propose P round height (.fin q) recipient quorum timestamp view
      = .ok (c', envelope) := by
  obtain ⟨chain, credited, hsettle, _⟩ :=
    c.chain.exists_settle P hplain hck height q recipient timestamp quorum
  obtain ⟨rec, st, head, hrec, _, hhash, rfl⟩ := ChainSettlement.settle_eq_ok hsettle
  obtain ⟨_, d, _, hd, hheader, _⟩ := item_signRecord hrec
  unfold Candidate.propose
  simp only [hsettle, List.getLast?_append, List.getLast?_singleton, Option.some_or,
    Option.getD_some, hheader, BlockHeader.fromDict_canonical hd, hhash, ok_bind]
  exact ⟨_, _, rfl⟩

end Propose

end NeuraHash
