import NeuraHash.Settlement.Settle

/-!
# Restarting a coordinator (`neurahash/chain_settlement.py`)

A coordinator persists its chain with `toState`: the signing key, the genesis checkpoint, the signed
blocks and the contributions it has paid. `fromState` replays the blocks and rebuilds the rest, so
nothing is trusted but the signatures. What a run of `settle` and `markPaid` reaches is `Sound`, and
a sound chain is restored to itself (`fromState_toState`); hence a restart is not observable
(`settlement_survives_restart`).
-/

namespace NeuraHash

open Py

/-! ## Reading a checkpoint -/

/-- A text, as an item of a set or a key of a dict. Other hashable values are never looked up and
are left out; a list or a dict raises. -/
def textKey : Json → Except PyErr (Option String)
  | .str s => .ok (some s)
  | j => (Key.ofJson j).map (fun _ => none)

/-- `dict(j)`: a copy of a dict, or the dict a list of pairs builds. -/
def Json.asDict (j : Json) : Except PyErr Json :=
  match j with
  | .obj kvs => .ok (.obj kvs)
  | j => do
    let pairs ← (← j.toList).mapM (fun item => do
      match (← item.toList) with
      | [k, v] => return (← textKey k).map (fun k => (k, v))
      | _ => .error .valueError)
    return .obj (pairs.filterMap id)

/-- The keys of accounts (`eth_account`). -/
structure KeyStore where
  /-- `account.key.hex()`, of the account with this address. -/
  keyHex : String → String
  /-- `account_from_key(key).address`; `none` when it raises. -/
  fromKey : Json → Option String

namespace ChainSettlement

/-! ## Marking and persisting -/

/-- `mark_paid(cid)`; `None` and the empty text are ignored. -/
def markPaid (c : ChainSettlement) (cid : Option String) : ChainSettlement :=
  match cid with
  | some cid => if cid = "" then c else { c with paidCids := insert cid c.paidCids }
  | none => c

/-- `already_paid(cid)`. -/
def alreadyPaid (c : ChainSettlement) (cid : Option String) : Bool :=
  match cid with
  | some cid => decide (cid ≠ "" ∧ cid ∈ c.paidCids)
  | none => false

/-- `to_state(include_key)`. The paid contributions are left out when there are none. -/
def toState (keys : KeyStore) (c : ChainSettlement) (includeKey : Bool) : Json :=
  .obj ((if includeKey then [("coord_key", .str (keys.keyHex c.coord))]
      else [("coord_address", .str c.coord)])
    ++ [("genesis_checkpoint", c.genesisCheckpoint), ("blocks", .arr c.blocks)]
    ++ (if c.paidCids = ∅ then []
      else [("paid_cids", .arr ((c.paidCids.sort (· ≤ ·)).map Json.str))]))

/-- A restored chain, and whether its account holds a key. -/
structure Restored where
  chain : ChainSettlement
  canSign : Bool

/-- The account of a checkpoint: from the supplied key, the embedded one, or the address alone. -/
def restoreAccount (P : Platform) (keys : KeyStore) (state coordKey : Json) :
    Except PyErr (String × Bool) := do
  let embedded ← state.getD "coord_key" .null
  let key := if coordKey.notNone then coordKey else embedded
  let addr ← state.getD "coord_address" .null
  if key.notNone then
    match keys.fromKey key with
    | some address =>
      if addr.truthy = true ∧ P.lower address ≠ P.lower (addr.toStr P.toPyText) then
        .error .valueError
      else .ok (address, true)
    | none => .error (.raised "from_key")
  else if addr.truthy then .ok (addr.toStr P.toPyText, false)
  else .error .valueError

/-- `BlockHeader.from_dict(blocks[-1]["header"]).hash() if blocks else start`. -/
def restoreHead (P : Platform) (start : String) (blocks : List Json) : Except PyErr String :=
  match blocks.getLast? with
  | some rec => do (← BlockHeader.fromDict P.toPyText (← rec.item "header")).hash P
  | none => .ok start

/-- `from_state(state, coord_key)`. A chain that does not replay raises. -/
def fromState (P : Platform) (keys : KeyStore) (state coordKey : Json) : Except PyErr Restored := do
  let (coord, canSign) ← restoreAccount P keys state coordKey
  let genesisCheckpoint ← state.getD "genesis_checkpoint" (.str "pool-genesis")
  let blocks ← (← (← state.item "blocks").toList).mapM Json.asDict
  let (st, verdict) ← replayBlocks P (.str coord) .coordinatorOnly 0 (State.genesis genesisCheckpoint)
    zeroHash blocks
  match verdict with
  | .error _ => .error .valueError
  | .ok () =>
    let head ← restoreHead P zeroHash blocks
    let paid ← (← (← state.getD "paid_cids" (.arr [])).toList).mapM textKey
    return ⟨{ coord, genesisCheckpoint, state := st, blocks, head,
              paidCids := (paid.filterMap id).toFinset }, canSign⟩

/-! ## Verifying -/

inductive VerifyReason where
  /-- `block {i}: {reason}` -/
  | block (i : ℕ) (r : BlockReason)
  /-- `balance mismatch for {a}: replay {st.balance(a)} != live {live.get(a, 0.0)}` -/
  | balance (a : Key) (replay live : PyFloat)
  /-- `minted mismatch on replay` -/
  | minted

/-- Two amounts a replay tells apart. -/
def differs (x y : PyFloat) : Bool := FloatOps.lt (FloatOps.lit (1 / 10 ^ 9)) (x - y).abs

/-- `verify()`. The source goes through the accounts in the order of a set; here it is the order of
the two dictionaries. -/
def verify (P : Platform) (c : ChainSettlement) : Except PyErr (Except VerifyReason Unit) := do
  let (st, verdict) ← replayBlocks P (.str c.coord) .coordinatorOnly 0
    (State.genesis c.genesisCheckpoint) zeroHash c.blocks
  match verdict with
  | .error (i, r) => return .error (.block i r)
  | .ok () =>
    match (c.state.bal.keys ++ st.bal.keys).find? (fun a => differs (st.balance a)
        (c.state.balance a)) with
    | some a => return .error (.balance a (st.balance a) (c.state.balance a))
    | none => return if differs st.minted c.state.minted then .error .minted else .ok ()

/-! ## Runs -/

/-- A call on a settlement chain. -/
inductive Call where
  | settle (height : ℤ) (rewardPot : PyFloat) (exBy : Dict String PyFloat) (timestamp : ℤ)
      (quorum : Option Json)
  | markPaid (cid : Option String)

/-- The chain after a call, and what it returned: the credited amounts, or nothing. -/
def call (P : Platform) (c : ChainSettlement) :
    Call → Except PyErr (ChainSettlement × List (String × PyFloat))
  | .settle height rewardPot exBy timestamp quorum =>
    c.settle P height rewardPot exBy timestamp quorum
  | .markPaid cid => .ok (c.markPaid cid, [])

/-- Calls one after the other, with what each returned. -/
def run (P : Platform) (c : ChainSettlement) :
    List Call → Except PyErr (ChainSettlement × List (List (String × PyFloat)))
  | [] => .ok (c, [])
  | a :: as => do
    let (c, returned) ← c.call P a
    let (c, results) ← c.run P as
    return (c, returned :: results)

/-! ## Sound chains -/

/-- The signed blocks replay to the live state. -/
structure Sound (P : Platform) (c : ChainSettlement) : Prop where
  replays : Replays P (.str c.coord) .coordinatorOnly (State.genesis c.genesisCheckpoint) zeroHash
    c.blocks c.state c.head
  records : ∀ rec ∈ c.blocks, rec.isObj = true

variable {P : Platform} {c c' : ChainSettlement}

theorem sound_init (coord : String) (genesisCheckpoint : Json) :
    (init coord genesisCheckpoint).Sound P where
  replays := .nil _ _
  records _ h := by cases h

/-- Settling keeps the chain sound. -/
theorem Sound.settle (hc : c.Sound P) (hsign : CanSign P c.coord) {height : ℤ}
    {rewardPot : PyFloat} {exBy : Dict String PyFloat} {timestamp : ℤ} {quorum : Option Json}
    {credited : List (String × PyFloat)}
    (h : c.settle P height rewardPot exBy timestamp quorum = .ok (c', credited)) :
    c'.Sound P ∧ c'.coord = c.coord := by
  have hreplays := settle_replays hsign hc.replays h (fun _ _ => rfl)
  obtain ⟨rec, st, head, hrec, _, _, rfl⟩ := settle_eq_ok h
  obtain ⟨_, _, _, _, hobj⟩ := signRecord_eq_ok.mp hrec
  refine ⟨⟨hreplays, fun b hb => ?_⟩, rfl⟩
  rcases List.mem_append.mp hb with hb | hb
  · exact hc.records b hb
  · rw [List.mem_singleton.mp hb, hobj]
    rfl

/-- Marking a contribution touches nothing else. -/
theorem markPaid_eq (c : ChainSettlement) (cid : Option String) :
    ∃ paid, c.markPaid cid = { c with paidCids := paid } := by
  unfold markPaid
  split
  · split
    · exact ⟨c.paidCids, rfl⟩
    · exact ⟨_, rfl⟩
  · exact ⟨c.paidCids, rfl⟩

theorem Sound.markPaid (hc : c.Sound P) (cid : Option String) :
    (c.markPaid cid).Sound P ∧ (c.markPaid cid).coord = c.coord := by
  obtain ⟨paid, hpaid⟩ := c.markPaid_eq cid
  rw [hpaid]
  exact ⟨⟨hc.replays, hc.records⟩, rfl⟩

/-- **Every run keeps the chain sound.** -/
theorem Sound.run (hc : c.Sound P) (hsign : CanSign P c.coord) {calls : List Call}
    {results : List (List (String × PyFloat))} (h : c.run P calls = .ok (c', results)) :
    c'.Sound P ∧ c'.coord = c.coord := by
  induction calls generalizing c results with
  | nil =>
    cases h
    exact ⟨hc, rfl⟩
  | cons a as ih =>
    obtain ⟨⟨c₁, returned⟩, hcall, h⟩ := bind_eq_ok.mp h
    obtain ⟨⟨c₂, results⟩, hrun, h⟩ := bind_eq_ok.mp h
    cases h
    have hstep : c₁.Sound P ∧ c₁.coord = c.coord := by
      cases a with
      | settle height rewardPot exBy timestamp quorum => exact hc.settle hsign hcall
      | markPaid cid =>
        cases hcall
        exact hc.markPaid cid
    obtain ⟨hc₁, hcoord⟩ := hstep
    obtain ⟨hc', hcoord'⟩ := ih hc₁ (hcoord ▸ hsign) hrun
    exact ⟨hc', hcoord'.trans hcoord⟩

/-! ## Verifying and restoring a sound chain -/

/-- A value differs from itself at no tolerance. -/
theorem differs_self (x : PyFloat) : differs x x = false := by
  cases x with
  | fin q => simp [differs, PyFloat.abs]
  | _ => rfl

/-- **A sound chain verifies.** -/
theorem Sound.verify (hc : c.Sound P) : c.verify P = .ok (.ok ()) := by
  have hreplay := replayBlocks_eq_ok (i := 0).mpr ⟨c.head, hc.replays⟩
  have hfind : (c.state.bal.keys ++ c.state.bal.keys).find? (fun a => differs (c.state.balance a)
      (c.state.balance a)) = none := by
    rw [List.find?_eq_none]
    intro a _
    rw [differs_self]
    decide
  unfold ChainSettlement.verify
  rw [hreplay, ok_bind]
  dsimp only
  rw [hfind, differs_self]
  rfl

/-- The head is the hash of the last header. -/
theorem restoreHead_of_replays {coord : Json} {policy : QuorumPolicy} {st st' : State PyFloat}
    {head head' : String} {recs : List Json}
    (h : Replays P coord policy st head recs st' head') : restoreHead P head recs = .ok head' := by
  induction h with
  | nil st head => rfl
  | @cons st st₁ st' head head₁ head' rec recs hdr hblock hrest ih =>
    cases recs with
    | nil =>
      cases hrest
      obtain ⟨j, hj, hhdr⟩ := hblock.header
      unfold restoreHead
      simp only [List.getLast?_singleton, hj, hhdr, ok_bind, hblock.hash]
    | cons rec' recs =>
      unfold restoreHead at ih ⊢
      rw [List.getLast?_cons_cons]
      simpa only [List.getLast?_cons] using ih

/-- Copies of dicts. -/
theorem mapM_asDict {recs : List Json} (h : ∀ rec ∈ recs, rec.isObj = true) :
    recs.mapM Json.asDict = .ok recs := by
  induction recs with
  | nil => rfl
  | cons rec recs ih =>
    have hrec := h rec (by simp)
    cases rec with
    | obj kvs =>
      rw [List.mapM_cons, ih fun r hr => h r (by simp [hr])]
      rfl
    | _ => cases hrec

theorem mapM_textKey (cids : List String) :
    (cids.map Json.str).mapM textKey = .ok (cids.map some) := by
  induction cids with
  | nil => rfl
  | cons cid cids ih =>
    rw [List.map_cons, List.mapM_cons, ih]
    rfl

/-- What a checkpoint says of the chain. -/
theorem get_toState (keys : KeyStore) (c : ChainSettlement) (includeKey : Bool) :
    (c.toState keys includeKey).getD "coord_key" .null
        = .ok (if includeKey then .str (keys.keyHex c.coord) else .null)
      ∧ (c.toState keys includeKey).getD "coord_address" .null
        = .ok (if includeKey then .null else .str c.coord)
      ∧ (c.toState keys includeKey).getD "genesis_checkpoint" (.str "pool-genesis")
        = .ok c.genesisCheckpoint
      ∧ (c.toState keys includeKey).item "blocks" = .ok (.arr c.blocks)
      ∧ (c.toState keys includeKey).getD "paid_cids" (.arr [])
        = .ok (.arr ((c.paidCids.sort (· ≤ ·)).map Json.str)) := by
  unfold toState
  by_cases hpaid : c.paidCids = ∅ <;> cases includeKey <;>
    simp only [hpaid, Json.item_obj, Json.getD_obj, List.reverse_cons,
      List.reverse_nil, List.nil_append, List.cons_append, List.append_nil, Dict.lookup,
      String.reduceEq, ↓reduceIte, Option.getD_some, Option.getD_none, Bool.false_eq_true,
      Finset.sort_empty, List.map_nil, and_self]

/-- **A sound chain is restored to itself.** -/
theorem fromState_of_account {keys : KeyStore} {includeKey canSign : Bool} {coordKey : Json}
    (hc : c.Sound P) (haccount : restoreAccount P keys (c.toState keys includeKey) coordKey
      = .ok (c.coord, canSign)) :
    fromState P keys (c.toState keys includeKey) coordKey = .ok ⟨c, canSign⟩ := by
  obtain ⟨-, -, hgenesis, hblocks, hpaid⟩ := get_toState keys c includeKey
  have hreplay := replayBlocks_eq_ok (i := 0).mpr ⟨c.head, hc.replays⟩
  have hset : ((c.paidCids.sort (· ≤ ·)).map some).filterMap id = c.paidCids.sort (· ≤ ·) := by
    rw [List.filterMap_map]
    exact List.filterMap_some
  unfold fromState
  rw [haccount, ok_bind]
  dsimp only
  simp only [hgenesis, hblocks, ok_bind, Json.toList, mapM_asDict hc.records, hreplay,
    restoreHead_of_replays hc.replays, hpaid, mapM_textKey, hset, Finset.sort_toFinset]
  rfl

/-- With its key in the checkpoint the account signs again. -/
theorem restoreAccount_toState {keys : KeyStore}
    (hkey : keys.fromKey (.str (keys.keyHex c.coord)) = some c.coord) :
    restoreAccount P keys (c.toState keys true) .null = .ok (c.coord, true) := by
  obtain ⟨hembedded, haddr, -⟩ := get_toState keys c true
  unfold restoreAccount
  rw [hembedded, ok_bind, haddr, ok_bind]
  simp [Json.notNone, hkey, Json.truthy]

/-- A checkpoint without the key restores the same chain, for verification only. -/
theorem fromState_toState_scrubbed {keys : KeyStore} (hc : c.Sound P) (hcoord : c.coord ≠ "") :
    fromState P keys (c.toState keys false) .null = .ok ⟨c, false⟩ := by
  refine fromState_of_account hc ?_
  obtain ⟨hembedded, haddr, -⟩ := get_toState keys c false
  unfold restoreAccount
  rw [hembedded, ok_bind, haddr, ok_bind]
  simp [Json.notNone, Json.truthy, hcoord]

/-- **Settlement survives a restart**: what a run reached verifies, its checkpoint restores the
same chain, and every further run behaves the same on the restored one. -/
theorem settlement_survives_restart (P : Platform) (keys : KeyStore) (coord : String)
    (genesisCheckpoint : Json) (hsign : CanSign P coord)
    (hkey : keys.fromKey (.str (keys.keyHex coord)) = some coord) (calls : List Call)
    (c : ChainSettlement) (results : List (List (String × PyFloat)))
    (h : (init coord genesisCheckpoint).run P calls = .ok (c, results)) :
    c.verify P = .ok (.ok ())
      ∧ ∃ r, fromState P keys (c.toState keys true) .null = .ok r
        ∧ r.canSign = true
        ∧ r.chain.state.bal = c.state.bal ∧ r.chain.state.minted = c.state.minted
        ∧ r.chain.head = c.head ∧ r.chain.blocks = c.blocks ∧ r.chain.paidCids = c.paidCids
        ∧ ∀ further, r.chain.run P further = c.run P further := by
  obtain ⟨hc, hcoord⟩ := (sound_init coord genesisCheckpoint).run hsign h
  have hcoord' : c.coord = coord := hcoord
  rw [← hcoord'] at hkey
  exact ⟨hc.verify, ⟨c, true⟩, fromState_of_account hc (restoreAccount_toState hkey), rfl, rfl, rfl,
    rfl, rfl, rfl, fun _ => rfl⟩

/-- Keys that are their own addresses. -/
def idealKeyStore : KeyStore where
  keyHex a := a
  fromKey
    | .str s => some s
    | _ => none

/-- A coordinator settles one height, marks its contribution as paid and restarts. -/
theorem settlement_survives_restart_oneBlock :
    ∃ c results, (init "coordinator" (.str "pool-genesis")).run Platform.ideal
          [.settle 1 (.fin 10) (sole "miner") 5 none, .markPaid (some "cid")] = .ok (c, results)
      ∧ c.paidCids = {"cid"} ∧ c.verify Platform.ideal = .ok (.ok ())
      ∧ ∃ r, fromState Platform.ideal idealKeyStore (c.toState idealKeyStore true) .null = .ok r
        ∧ r.chain.head = c.head ∧ r.chain.paidCids = c.paidCids := by
  obtain ⟨c, credited, hsettle, -⟩ := exists_settle Platform.ideal
    (init "coordinator" (.str "pool-genesis")) (State.plain_genesis _) rfl 1 10 "miner" 5 none
  have hrun : (init "coordinator" (.str "pool-genesis")).run Platform.ideal
      [.settle 1 (.fin 10) (sole "miner") 5 none, .markPaid (some "cid")]
      = .ok (c.markPaid (some "cid"), [credited, []]) := by
    simp only [run, call, hsettle, ok_bind]
    rfl
  have hpaid : c.paidCids = ∅ := by
    obtain ⟨_, _, _, _, _, _, rfl⟩ := settle_eq_ok hsettle
    rfl
  obtain ⟨hverify, r, hr, -, -, -, hhead, -, hpaids, -⟩ :=
    settlement_survives_restart Platform.ideal idealKeyStore "coordinator" (.str "pool-genesis")
      (Platform.ideal_idealSigs.canSign (by simp [Platform.idealKeys])) rfl _ _ _ hrun
  refine ⟨_, _, hrun, ?_, hverify, r, hr, hhead, hpaids⟩
  simp [markPaid, hpaid]

end ChainSettlement

end NeuraHash
