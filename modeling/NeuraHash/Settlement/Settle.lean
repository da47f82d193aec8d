import NeuraHash.Settlement.Replay

/-!
# The honest coordinator

What `settle` appends passes the replay (`settle_replays`): the record carries the header it
signed, the link to the previous head, and contributors that mint the same amounts when they are
read back from JSON. A chain built by `settle` therefore replays to its live state, and its public
export is accepted under the coordinator's address (`accepted_publicState`).

`CanSign P addr` is all these results ask of the platform: a signature of the coordinator
recovers to its address.
-/

namespace NeuraHash

open Py

/-- A signature made with the key of `addr` recovers to `addr`. -/
def CanSign (P : Platform) (addr : String) : Prop :=
  ∀ data, recoverBytes P data (.str (signBytes P addr data)) = some addr

theorem IdealSigs.canSign {P : Platform} {keys : Set String} (h : IdealSigs P keys)
    {addr : String} (haddr : addr ∈ keys) : CanSign P addr :=
  fun data => h.recoverBytes_signBytes haddr data

/-! ## Reading the contributors back -/

namespace State

theorem aggregate_float (T : PyText) (l : List (String × PyFloat)) (agg : Dict String PyFloat) :
    aggregate (Json.toFloat T) agg (l.map (fun e => (e.1, Json.float e.2)))
      = aggregate Except.ok agg l := by
  induction l generalizing agg with
  | nil => rfl
  | cons e l ih =>
    obtain ⟨addr, w⟩ := e
    simp only [List.map_cons, aggregate, Json.toFloat, ok_bind, ih]

/-- The block's effect depends on the contributors through their weights only. -/
theorem applyBlock_congr {F V W : Type} [FloatOps F] {P : Platform} {toWeight : V → Except PyErr F}
    {toWeight' : W → Except PyErr F} {contributors : Dict String V} {contributors' : Dict String W}
    (h : aggregate toWeight ∅ contributors.entries = aggregate toWeight' ∅ contributors'.entries)
    (s : State F) (block : Block F) :
    s.applyBlock P toWeight block contributors = s.applyBlock P toWeight' block contributors' := by
  unfold applyBlock
  rw [h]

end State

/-! ## Signed records -/

theorem signRecord_eq_ok {P : Platform} {coord : String} {hdr : BlockHeader PyFloat}
    {contributors rec : Json} {quorum : Option Json} :
    signRecord P coord hdr contributors quorum = .ok rec ↔
      ∃ h d, hdr.hash P = .ok h ∧ hdr.canonical P.toPyText = .ok d
        ∧ rec = .obj ([("header", d), ("contributors", contributors),
            ("sig", .str (signBytes P coord (utf8 h)))] ++ quorum.toList.map (fun q => ("quorum", q))) := by
  unfold signRecord
  constructor
  · intro heq
    obtain ⟨h, hhash, heq⟩ := bind_eq_ok.mp heq
    obtain ⟨d, hd, heq⟩ := bind_eq_ok.mp heq
    refine ⟨h, d, hhash, hd, ?_⟩
    cases quorum <;> cases heq <;> rfl
  · rintro ⟨h, d, hhash, hd, rfl⟩
    simp only [hhash, hd, ok_bind]
    cases quorum <;> rfl

section Record

variable {P : Platform} {coord : String} {hdr : BlockHeader PyFloat} {contributors rec : Json}
  {quorum : Option Json}

/-- The members of a signed record. -/
theorem item_signRecord (h : signRecord P coord hdr contributors quorum = .ok rec) :
    ∃ hash d, hdr.hash P = .ok hash ∧ hdr.canonical P.toPyText = .ok d
      ∧ rec.item "header" = .ok d ∧ rec.item "contributors" = .ok contributors
      ∧ rec.item "sig" = .ok (.str (signBytes P coord (utf8 hash)))
      ∧ rec.getD "quorum" .null = .ok (quorum.getD .null) := by
  obtain ⟨hash, d, hhash, hd, rfl⟩ := signRecord_eq_ok.mp h
  refine ⟨hash, d, hhash, hd, ?_⟩
  cases quorum with
  | none =>
    simp only [Option.toList_none, List.map_nil, List.append_nil, Json.item_obj, Json.getD_obj,
      List.reverse_cons, List.reverse_nil, List.nil_append, List.cons_append, Dict.lookup,
      String.reduceEq, ↓reduceIte, Option.getD_none, and_self]
  | some q =>
    simp only [Option.toList_some, List.map_cons, List.map_nil, Json.item_obj, Json.getD_obj,
      List.reverse_cons, List.reverse_nil, List.nil_append, List.cons_append,
      Dict.lookup, String.reduceEq, ↓reduceIte, Option.getD_some, and_self]

/-- **A signed record passes the replay** when it links, its quorum passes and it applies. -/
theorem blockReplayed_of_signRecord (hsign : CanSign P coord)
    (h : signRecord P coord hdr contributors quorum = .ok rec) {policy : QuorumPolicy}
    {st st' : State PyFloat} {head : String} (hlink : hdr.prevHash = .str head)
    (hquorum : checkQuorum P policy rec hdr = .ok (.ok ()))
    (happly : applyRecord P st hdr rec = .ok st') :
    ∃ hash, hdr.hash P = .ok hash
      ∧ BlockReplayed P (.str coord) policy st head rec hdr st' hash := by
  obtain ⟨hash, d, hhash, hd, hheader, _, hsig, _⟩ := item_signRecord h
  exact ⟨hash, hhash, ⟨d, hheader, BlockHeader.fromDict_canonical hd⟩, hlink, hhash,
    ⟨_, coord, hsig, hsign _, rfl⟩, hquorum, happly⟩

end Record

/-! ## Settling -/

namespace ChainSettlement

variable {P : Platform} {c c' : ChainSettlement} {height : ℤ} {rewardPot : PyFloat}
  {exBy : Dict String PyFloat} {timestamp : ℤ} {quorum : Option Json}
  {credited : List (String × PyFloat)}

/-- **What a settled height appends**: a signed record of the next header, whose application
gives the new state. -/
theorem settle_eq_ok (h : c.settle P height rewardPot exBy timestamp quorum = .ok (c', credited)) :
    ∃ rec st head,
      signRecord P c.coord (c.nextHeader P height rewardPot (positive exBy) timestamp quorum)
          (.obj ((positive exBy).entries.map (fun e => (e.1, .float e.2)))) quorum = .ok rec
        ∧ applyRecord P c.state
            (c.nextHeader P height rewardPot (positive exBy) timestamp quorum) rec = .ok st
        ∧ (c.nextHeader P height rewardPot (positive exBy) timestamp quorum).hash P = .ok head
        ∧ c' = { c with state := st, head := head, blocks := c.blocks ++ [rec] } := by
  unfold settle at h
  obtain ⟨rec, hrec, h⟩ := bind_eq_ok.mp h
  obtain ⟨st, hst, h⟩ := bind_eq_ok.mp h
  obtain ⟨head, hhead, h⟩ := bind_eq_ok.mp h
  cases h
  refine ⟨rec, st, head, hrec, ?_, hhead, rfl⟩
  obtain ⟨_, _, _, _, _, hcontributors, _⟩ := item_signRecord hrec
  have hnodup : (((positive exBy).entries.map (fun e => (e.1, Json.float e.2))).map
      Prod.fst).Nodup := by
    rw [List.map_map]
    exact (positive exBy).nodup
  unfold applyRecord
  rw [hcontributors, ok_bind, ← hst]
  refine State.applyBlock_congr ?_ _ _
  rw [Json.dictOf, Dict.entries_ofList hnodup]
  exact State.aggregate_float _ _ _

/-- **Settling extends the replay.** -/
theorem settle_replays (hsign : CanSign P c.coord) {policy : QuorumPolicy} {st : State PyFloat}
    {head : String}
    (hreplays : Replays P (.str c.coord) policy st head c.blocks c.state c.head)
    (h : c.settle P height rewardPot exBy timestamp quorum = .ok (c', credited))
    (hquorum : ∀ rec ∈ c'.blocks.getLast?, checkQuorum P policy rec
      (c.nextHeader P height rewardPot (positive exBy) timestamp quorum) = .ok (.ok ())) :
    Replays P (.str c.coord) policy st head c'.blocks c'.state c'.head := by
  obtain ⟨rec, st', head', hrec, happly, hhash, rfl⟩ := settle_eq_ok h
  have hlast : rec ∈ (c.blocks ++ [rec]).getLast? := by simp
  obtain ⟨hash, hhash', hblock⟩ := blockReplayed_of_signRecord hsign hrec rfl (hquorum rec hlast)
    happly
  rw [hhash] at hhash'
  cases hhash'
  exact hreplays.snoc hblock

/-- The header of the record `settle` appended. -/
theorem header_of_settle (h : c.settle P height rewardPot exBy timestamp quorum = .ok (c', credited)) :
    ∃ rec j, c'.blocks = c.blocks ++ [rec] ∧ rec.item "header" = .ok j
      ∧ BlockHeader.fromDict P.toPyText j
        = .ok (c.nextHeader P height rewardPot (positive exBy) timestamp quorum) := by
  obtain ⟨rec, st', head', hrec, _, _, rfl⟩ := settle_eq_ok h
  obtain ⟨hash, d, _, hd, hheader, _⟩ := item_signRecord hrec
  exact ⟨rec, d, rfl, hheader, BlockHeader.fromDict_canonical hd⟩

/-! ## One recipient -/

/-- `{recipient: 1.0}`. -/
def sole (recipient : String) : Dict String PyFloat := Dict.ofList [(recipient, .fin 1)]

theorem entries_sole (recipient : String) : (sole recipient).entries = [(recipient, .fin 1)] := rfl

theorem positive_sole (recipient : String) : positive (sole recipient) = sole recipient := by
  unfold positive
  rw [entries_sole, List.filter_cons_of_pos (by simp)]
  rfl

theorem finite_nextHeader (P : Platform) (c : ChainSettlement)
    (hck : c.state.modelCheckpoint.allFinite = true) (height : ℤ) (q : ℚ) (recipient : String)
    (timestamp : ℤ) (quorum : Option Json) :
    (c.nextHeader P height (.fin q) (sole recipient) timestamp quorum).Finite where
  workScore := ⟨0 + 1, rfl⟩
  reward := ⟨max 0 q, FloatOps.max_fin 0 q⟩
  prevHash := rfl
  beacon := rfl
  parentCheckpoint := hck
  newCheckpoint := hck
  proposer := rfl
  txRoot := rfl

/-- **A finite reward to one recipient always settles** on a plain state. -/
theorem exists_settle (P : Platform) (c : ChainSettlement) (hplain : c.state.Plain)
    (hck : c.state.modelCheckpoint.allFinite = true) (height : ℤ) (q : ℚ) (recipient : String)
    (timestamp : ℤ) (quorum : Option Json) :
    ∃ c' credited, c.settle P height (.fin q) (sole recipient) timestamp quorum
        = .ok (c', credited)
      ∧ c'.coord = c.coord ∧ c'.genesisCheckpoint = c.genesisCheckpoint
      ∧ c'.state.Plain ∧ c'.state.modelCheckpoint = c.state.modelCheckpoint := by
  set hdr := c.nextHeader P height (.fin q) (sole recipient) timestamp quorum with hhdr
  have hfinite : hdr.Finite := c.finite_nextHeader P hck height q recipient timestamp quorum
  obtain ⟨d, h, hd, hh⟩ := hfinite.exists_hash P
  have hrec : signRecord P c.coord hdr (.obj ((sole recipient).entries.map
      (fun e => (e.1, .float e.2)))) quorum = .ok _ :=
    signRecord_eq_ok.mpr ⟨h, d, hh, hd, rfl⟩
  have hagg : State.aggregate Except.ok ∅ (sole recipient).entries
      = .ok ((∅ : Dict String PyFloat).set recipient (0 + .fin 1)) :=
    State.aggregate_single recipient rfl (by simp) (by simp)
  obtain ⟨st, hst, hmint⟩ := State.applyBlock_plain (P := P) hplain
    (show hdr.txRoot = .str zeroHash from rfl) hagg
  unfold settle
  rw [positive_sole]
  simp only [← hhdr, hrec, hst, hh, ok_bind]
  exact ⟨_, _, rfl, rfl, rfl, hmint.plain, hmint.checkpoint⟩

/-! ## The public export -/

/-- The export of a chain that replays is accepted under the coordinator's address. -/
theorem accepted_publicState {P : Platform} {c : ChainSettlement} {policy : QuorumPolicy}
    (hcoord : c.coord ≠ "")
    (h : Replays P (.str c.coord) policy (State.genesis c.genesisCheckpoint) zeroHash c.blocks
      c.state c.head) :
    ∃ r, Accepted P c.publicState c.coord policy r ∧ r.balances = c.state.bal
      ∧ r.minted = c.state.minted :=
  accepted_of_replays hcoord rfl h

end ChainSettlement

end NeuraHash
