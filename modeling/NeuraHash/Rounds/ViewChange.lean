import Mathlib.Logic.Relation
import NeuraHash.Rounds.ReplicaHead

/-!
# One round under agreed failover

A network of honest candidates running one round: each may sign a timeout for a view while its
replica has no block of the round, propose at its own view once every earlier view has an approved
timeout quorum, and receive any envelope that was sent, at any time and in any order (`Round.Step`).

A quorum of timeouts says that its signers had not *seen* the proposal, and not that there is none:
the proposer of view 0 may have produced a block that is still under way. `no_fork` is the
agreement that does hold: as long as no view whose proposer produced a block is timed out by a
quorum, no two candidates append different blocks for the round.
-/

namespace NeuraHash

open Py

/-! ## The timeout quorum -/

section Quorum

variable {P : Platform} {roster : List String} {m round : ℤ} {failed : String} {view : ℕ}

/-- The signed text of a timeout names the view. -/
theorem timeoutPayload_view {T : PyText} {round round' : ℤ} {failed failed' : String}
    {view view' : ℕ}
    (h : timeoutPayload T round failed view = timeoutPayload T round' failed' view') :
    view = view' := by
  have hmember := Json.get?_eq_of_dumps_eq T [] (utf8_injective h) "view"
  simp only [Json.get?_obj, List.reverse_cons, List.reverse_nil, List.nil_append,
    List.cons_append, Dict.lookup, ↓reduceIte, Option.map_some, Json.sortKeys,
    Option.some.injEq, Json.int.injEq] at hmember
  exact_mod_cast hmember

/-- **A timeout quorum is approved when as many distinct members signed as a majority threshold
asks.** -/
theorem verifyTimeoutQuorum_approved {attestations : Json} :
    (∃ v, verifyTimeoutQuorum P attestations roster m round failed view = .ok v
        ∧ v.approved = true) ↔
      ((roster.map (norm P.toPyText)).dedup.length ≠ 0
          ∧ m ≤ (roster.map (norm P.toPyText)).dedup.length
          ∧ ((roster.map (norm P.toPyText)).dedup.length : ℤ) < m * 2)
        ∧ ∃ gs atts, GuardianSet.make P.toPyText (roster.map Json.str) m = .ok gs
            ∧ (attestations.orElse (.arr [])).toList = .ok atts
            ∧ m ≤ (gs.distinctSigners P (timeoutPayload P.toPyText round failed view)
                (sigsOf atts)).length := by
  unfold verifyTimeoutQuorum
  dsimp only
  constructor
  · rintro ⟨v, h, happroved⟩
    split at h
    · cases h
      cases happroved
    · next hthreshold =>
      push Not at hthreshold
      obtain ⟨atts, hatts, h⟩ := bind_eq_ok.mp h
      split at h
      · cases h
        cases happroved
      · next gs hgs =>
        cases h
        exact ⟨⟨hthreshold.1, hthreshold.2.2.1, hthreshold.2.2.2⟩, gs, atts, hgs, hatts,
          by simpa using happroved⟩
  · rintro ⟨⟨hne, hle, hmajority⟩, gs, atts, hgs, hatts, hcount⟩
    have hone := gs.one_le
    rw [(GuardianSet.make_eq_ok.mp hgs).2] at hone
    rw [if_neg (by push Not; exact ⟨hne, hone, hle, hmajority⟩)]
    simp only [hatts, hgs, ok_bind]
    exact ⟨_, rfl, by simpa using hcount⟩

/-- The signature inside a timeout attestation. -/
theorem sigOf_signTimeout (identity : String) :
    sigOf (signTimeout P identity round failed view)
      = .str (signBytes P identity (timeoutPayload P.toPyText round failed view)) := by
  simp only [sigOf, signTimeout, Json.getD_obj, List.reverse_cons, List.reverse_nil,
    List.nil_append, List.cons_append, Dict.lookup, ↓reduceIte, Option.getD_some]

end Quorum

/-! ## The round -/

/-- Who runs the round, in which agreed order, and the threshold of a timeout quorum. -/
structure Round where
  coord : String
  genesis : Json
  round : ℤ
  candidates : List String
  order : List String
  timeoutM : ℤ

/-- A proposal that was sent. -/
structure Proposal where
  proposer : String
  view : ℕ
  envelope : Json

/-- The replicas, by identity, and everything sent so far: the proposals, and the signer and the
view of each timeout attestation. -/
structure Net where
  replica : String → Candidate
  proposals : List Proposal
  timeouts : List (String × ℕ)

/-- The replica has a block of the round. -/
def Candidate.HasRound (T : PyText) (c : Candidate) (round : ℤ) : Prop :=
  ∃ rec ∈ c.chain.blocks, ∃ hdr, HeaderOf T rec hdr ∧ hdr.height = round

namespace Round

variable (P : Platform) (R : Round)

/-- The proposer of a view. -/
def proposer (v : ℕ) : String := R.order.getD v ""

/-- `accept(envelope, order, timeout_m=…, roster=order)`. -/
def election : Election := ⟨R.order, [], some R.timeoutM, some R.order⟩

/-- The attestation of a candidate that view `v` timed out. -/
def attestation (a : String) (v : ℕ) : Json := signTimeout P a R.round (R.proposer v) v

/-- The attestations a proposer holds for view `v` were sent, and they are a quorum. -/
structure TimedOut (net : Net) (v : ℕ) (atts : List Json) : Prop where
  sent : ∀ j ∈ atts, ∃ t ∈ net.timeouts, j = R.attestation P t.1 t.2
  approved : ∃ verdict, verifyTimeoutQuorum P (.arr atts) R.order R.timeoutM R.round (R.proposer v) v
    = .ok verdict ∧ verdict.approved = true

/-- All replicas on the genesis, nothing sent. -/
def start : Net where
  replica a := Candidate.init a R.coord R.genesis
  proposals := []
  timeouts := []

/-- What honest candidates and the network do. -/
inductive Step : Net → Net → Prop
  /-- A candidate without a block of the round attests that view `v` timed out. -/
  | timeout {net : Net} {a : String} {v : ℕ} (ha : a ∈ R.candidates) (hv : v < R.order.length)
      (hnone : ¬ (net.replica a).HasRound P.toPyText R.round) :
      Step net { net with timeouts := net.timeouts ++ [(a, v)] }
  /-- The proposer of view `v`, without a block of the round and with a timeout quorum for every
  earlier view, settles a block and sends it. -/
  | propose {net : Net} {a : String} {v : ℕ} {atts : ℕ → List Json} {reward : PyFloat}
      {recipient : String} {quorum : Option Json} {timestamp : ℤ} {c : Candidate}
      {envelope : Json} (ha : a ∈ R.candidates) (hv : v < R.order.length)
      (helected : norm P.toPyText a = norm P.toPyText (R.proposer v))
      (hnone : ¬ (net.replica a).HasRound P.toPyText R.round)
      (htimeouts : ∀ u < v, R.TimedOut P net u (atts u))
      (hpropose : (net.replica a).propose P R.round R.round reward recipient quorum timestamp
        (some (v, (List.range v).map (fun u => (u, atts u)))) = .ok (c, envelope)) :
      Step net { net with
        replica := Function.update net.replica a c
        proposals := net.proposals ++ [⟨a, v, envelope⟩] }
  /-- An envelope reaches a candidate, which accepts or rejects it. -/
  | deliver {net : Net} {a : String} {p : Proposal} (ha : a ∈ R.candidates)
      (hp : p ∈ net.proposals) :
      Step net { net with
        replica := Function.update net.replica a
          ((net.replica a).step P (p.envelope, R.election)) }

/-- The states any interleaving reaches. -/
def Reachable (net : Net) : Prop := Relation.ReflTransGen (R.Step P) R.start net

/-- The distinct candidates that attested that view `v` timed out. -/
def timeoutSigners (T : PyText) (net : Net) (v : ℕ) : List String :=
  ((net.timeouts.filter (·.2 = v)).map (fun t => norm T t.1)).dedup

/-- No view whose proposer produced a block is timed out by a quorum. -/
def Unchallenged (T : PyText) (net : Net) : Prop :=
  ∀ p ∈ net.proposals, ((timeoutSigners T net p.view).length : ℤ) < R.timeoutM

/-- No two candidates have appended different blocks for the round. -/
def Agreement (T : PyText) (net : Net) : Prop :=
  ∀ a ∈ R.candidates, ∀ b ∈ R.candidates, ∀ rec ∈ (net.replica a).chain.blocks,
    ∀ rec' ∈ (net.replica b).chain.blocks, ∀ hdr hdr', HeaderOf T rec hdr → HeaderOf T rec' hdr' →
      hdr.height = R.round → hdr'.height = R.round → rec = rec'

/-- The candidates are distinct and hold their keys; what recovers to the roster is one of them. -/
structure Honest (keys : Set String) : Prop where
  distinct : (R.candidates.map (norm P.toPyText)).Nodup
  held : ∀ a ∈ R.candidates, a ∈ keys
  roster : RosterKeys P (R.order.map Json.str) keys
  sigs : IdealSigs P keys

end Round

/-! ## What holds in every state -/

section Invariant

variable {P : Platform} {R : Round} {keys : Set String}

theorem Candidate.HasRound.append {T : PyText} {c : Candidate} {round : ℤ}
    (h : c.HasRound T round) (rec : Json) (st : State PyFloat) (head : String) :
    (c.append rec st head).HasRound T round := by
  obtain ⟨rec', hrec', hdr, hhdr, hround⟩ := h
  exact ⟨rec', List.mem_append_left _ hrec', hdr, hhdr, hround⟩

/-- A delivered envelope appends its block, or nothing. -/
theorem step_cases (c : Candidate) (envelope : Json) (e : Election) :
    c.step P (envelope, e) = c ∨
      ∃ b st head, envelope.getD "block" .null = .ok b
        ∧ c.step P (envelope, e) = c.append (b.orElse (.obj [])) st head := by
  unfold Candidate.step
  split
  · next c' haccept =>
    obtain ⟨claim, rec, hdr, who, st, head, ⟨_, b, hb, rfl⟩, _, _, _, _, rfl⟩ :=
      accept_eq_ok.mp haccept
    exact Or.inr ⟨b, st, head, hb, rfl⟩
  · exact Or.inl rfl

/-- **Timeouts cannot be forged**: the quorum a proposer holds was signed by as many distinct
candidates. -/
theorem Round.TimedOut.le_timeoutSigners (hR : R.Honest P keys) {net : Net}
    (hsigners : ∀ t ∈ net.timeouts, t.1 ∈ R.candidates) {v : ℕ} {atts : List Json}
    (h : R.TimedOut P net v atts) :
    R.timeoutM ≤ (Round.timeoutSigners P.toPyText net v).length := by
  obtain ⟨_, gs, atts', hgs, hatts, hcount⟩ := verifyTimeoutQuorum_approved.mp h.approved
  rw [Json.toList_orElse_arr] at hatts
  cases hatts
  refine hcount.trans (Int.ofNat_le.mpr ((gs.nodup_distinctSigners P _ _).subperm ?_).length_le)
  intro s hs
  obtain ⟨hmem, sig, hsig, who, hrec, hlow⟩ := GuardianSet.mem_distinctSigners.mp hs
  rw [(GuardianSet.make_eq_ok.mp hgs).1] at hmem
  obtain ⟨j, hj, rfl⟩ := List.mem_map.mp (List.mem_of_mem_filter hsig)
  obtain ⟨t, ht, rfl⟩ := h.sent j hj
  rw [Round.attestation, sigOf_signTimeout] at hrec
  have hwho := hR.roster.only _ _ _ hrec (hlow ▸ hmem)
  obtain ⟨rfl, hpayload⟩ := hR.sigs.of_recoverBytes (hR.held _ (hsigners t ht)) hwho hrec
  have hview := timeoutPayload_view hpayload
  refine List.mem_dedup.mpr (List.mem_map.mpr ⟨t, List.mem_filter.mpr ⟨ht, ?_⟩, hlow⟩)
  simp [hview]

/-- What every reachable state satisfies. -/
structure Round.Inv (P : Platform) (R : Round) (net : Net) : Prop where
  /-- Timeouts are signed by candidates. -/
  signers : ∀ t ∈ net.timeouts, t.1 ∈ R.candidates
  /-- A proposal comes from the proposer of its view, which has a block of the round. -/
  elected : ∀ p ∈ net.proposals, p.proposer ∈ R.candidates
    ∧ norm P.toPyText p.proposer = norm P.toPyText (R.proposer p.view)
    ∧ (net.replica p.proposer).HasRound P.toPyText R.round
  /-- No candidate proposes twice. -/
  once : ∀ p ∈ net.proposals, ∀ q ∈ net.proposals, p.proposer = q.proposer → p = q
  /-- Every view before a proposal's was timed out by a quorum. -/
  timedOut : ∀ p ∈ net.proposals, ∀ u < p.view,
    R.timeoutM ≤ (Round.timeoutSigners P.toPyText net u).length
  /-- Every appended block was proposed. -/
  proposed : ∀ a, ∀ rec ∈ (net.replica a).chain.blocks, ∃ p ∈ net.proposals,
    ∃ b, p.envelope.getD "block" .null = .ok b ∧ b.orElse (.obj []) = rec

theorem Round.inv_start : R.Inv P R.start where
  signers := by simp [Round.start]
  elected := by simp [Round.start]
  once := by simp [Round.start]
  timedOut := by simp [Round.start]
  proposed := by simp [Round.start, Candidate.init, ChainSettlement.init]

/-- More timeouts have more signers. -/
theorem Round.timeoutSigners_mono {T : PyText} {net net' : Net}
    (h : ∀ t ∈ net.timeouts, t ∈ net'.timeouts) (v : ℕ) :
    (Round.timeoutSigners T net v).length ≤ (Round.timeoutSigners T net' v).length := by
  refine ((List.nodup_dedup _).subperm ?_).length_le
  intro s hs
  obtain ⟨t, ht, rfl⟩ := List.mem_map.mp (List.mem_dedup.mp hs)
  obtain ⟨ht, hv⟩ := List.mem_filter.mp ht
  exact List.mem_dedup.mpr (List.mem_map.mpr ⟨t, List.mem_filter.mpr ⟨h t ht, hv⟩, rfl⟩)

/-- **Every step keeps the invariant.** -/
theorem Round.Inv.step (hR : R.Honest P keys) {net net' : Net} (h : R.Inv P net)
    (hstep : R.Step P net net') : R.Inv P net' := by
  cases hstep with
  | @timeout a v ha hv hnone =>
    refine ⟨?_, h.elected, h.once, ?_, h.proposed⟩
    · intro t ht
      rcases List.mem_append.mp ht with ht | ht
      · exact h.signers t ht
      · rw [List.mem_singleton.mp ht]
        exact ha
    · intro p hp u hu
      exact (h.timedOut p hp u hu).trans
        (Int.ofNat_le.mpr (timeoutSigners_mono (fun t ht => List.mem_append_left _ ht) u))
  | @propose a v atts reward recipient quorum timestamp c envelope ha hv helected hnone htimeouts
      hpropose =>
    obtain ⟨rec, st, head, hheader, rfl, hblock⟩ := headerOf_propose hpropose
    have hround : ((net.replica a).append rec st head).HasRound P.toPyText R.round :=
      ⟨rec, by simp [Candidate.append], _, hheader, rfl⟩
    -- the proposer had no block of the round, so this is its first proposal
    have hfresh : ∀ p ∈ net.proposals, p.proposer ≠ a := by
      rintro p hp rfl
      exact hnone (h.elected p hp).2.2
    refine ⟨h.signers, ?_, ?_, ?_, ?_⟩
    · intro p hp
      rcases List.mem_append.mp hp with hp | hp
      · obtain ⟨hmem, hview, hhas⟩ := h.elected p hp
        refine ⟨hmem, hview, ?_⟩
        dsimp only
        rwa [Function.update_of_ne (hfresh p hp)]
      · rw [List.mem_singleton.mp hp]
        refine ⟨ha, helected, ?_⟩
        dsimp only
        rwa [Function.update_self]
    · intro p hp q hq hpq
      rcases List.mem_append.mp hp with hp | hp <;> rcases List.mem_append.mp hq with hq | hq
      · exact h.once p hp q hq hpq
      · rw [List.mem_singleton.mp hq] at hpq
        exact absurd hpq (hfresh p hp)
      · rw [List.mem_singleton.mp hp] at hpq
        exact absurd hpq.symm (hfresh q hq)
      · rw [List.mem_singleton.mp hp, List.mem_singleton.mp hq]
    · intro p hp u hu
      rcases List.mem_append.mp hp with hp | hp
      · exact h.timedOut p hp u hu
      · rw [List.mem_singleton.mp hp] at hu
        exact (htimeouts u hu).le_timeoutSigners hR h.signers
    · intro b rec' hrec'
      dsimp only at hrec'
      by_cases hb : b = a
      · subst hb
        rw [Function.update_self] at hrec'
        rcases List.mem_append.mp hrec' with hrec' | hrec'
        · obtain ⟨p, hp, hp'⟩ := h.proposed b rec' hrec'
          exact ⟨p, List.mem_append_left _ hp, hp'⟩
        · rw [List.mem_singleton.mp hrec']
          obtain ⟨j, hj, _⟩ := hheader
          obtain ⟨kvs, rfl⟩ := Json.isObj_of_item hj
          exact ⟨_, List.mem_append_right _ (List.mem_singleton_self _), _, hblock,
            Json.orElse_obj kvs⟩
      · rw [Function.update_of_ne hb] at hrec'
        obtain ⟨p, hp, hp'⟩ := h.proposed b rec' hrec'
        exact ⟨p, List.mem_append_left _ hp, hp'⟩
  | @deliver a p ha hp =>
    have hcases := step_cases (P := P) (net.replica a) p.envelope R.election
    refine ⟨h.signers, ?_, h.once, h.timedOut, ?_⟩
    · intro q hq
      obtain ⟨hmem, hview, hhas⟩ := h.elected q hq
      refine ⟨hmem, hview, ?_⟩
      dsimp only
      by_cases hqa : q.proposer = a
      · rw [hqa, Function.update_self]
        rw [hqa] at hhas
        rcases hcases with hsame | ⟨b, st, head, _, happend⟩
        · rwa [hsame]
        · rw [happend]
          exact hhas.append _ _ _
      · rwa [Function.update_of_ne hqa]
    · intro b rec hrec
      dsimp only at hrec
      by_cases hb : b = a
      · subst hb
        rw [Function.update_self] at hrec
        rcases hcases with hsame | ⟨blk, st, head, hblk, happend⟩
        · rw [hsame] at hrec
          exact h.proposed b rec hrec
        · rw [happend] at hrec
          rcases List.mem_append.mp hrec with hrec | hrec
          · exact h.proposed b rec hrec
          · exact ⟨p, hp, blk, hblk, (List.mem_singleton.mp hrec).symm⟩
      · rw [Function.update_of_ne hb] at hrec
        exact h.proposed b rec hrec

/-- The invariant holds whatever the interleaving. -/
theorem Round.Reachable.inv (hR : R.Honest P keys) {net : Net} (h : R.Reachable P net) :
    R.Inv P net := by
  induction h with
  | refl => exact inv_start
  | tail _ hstep ih => exact ih.step hR hstep

end Invariant

/-! ## Agreement -/

/-- **No fork while producers are not timed out**: in every reachable state where each view that
has a proposal lacks a timeout quorum, no two candidates have appended different blocks for the
round. -/
theorem no_fork {P : Platform} {R : Round} {keys : Set String} (hR : R.Honest P keys) {net : Net}
    (hreach : R.Reachable P net) (hquiet : R.Unchallenged P.toPyText net) :
    R.Agreement P.toPyText net := by
  have hinv := hreach.inv hR
  -- a later proposal proves that the earlier view was timed out
  have hview : ∀ p ∈ net.proposals, ∀ q ∈ net.proposals, ¬ p.view < q.view := by
    intro p hp q hq hlt
    have htimed := hinv.timedOut q hq p.view hlt
    have hfew := hquiet p hp
    omega
  have hsame : ∀ p ∈ net.proposals, ∀ q ∈ net.proposals, p = q := by
    intro p hp q hq
    have heq : p.view = q.view := le_antisymm (not_lt.mp (hview q hq p hp))
      (not_lt.mp (hview p hp q hq))
    obtain ⟨hpmem, hpelected, _⟩ := hinv.elected p hp
    obtain ⟨hqmem, hqelected, _⟩ := hinv.elected q hq
    rw [heq, ← hqelected] at hpelected
    exact hinv.once p hp q hq (List.inj_on_of_nodup_map hR.distinct hpmem hqmem hpelected)
  intro a _ b _ rec hrec rec' hrec' _ _ _ _ _ _
  obtain ⟨p, hp, blk, hblk, rfl⟩ := hinv.proposed a rec hrec
  obtain ⟨q, hq, blk', hblk', rfl⟩ := hinv.proposed b rec' hrec'
  rw [hsame p hp q hq, hblk'] at hblk
  cases hblk
  rfl

/-! ## Three candidates -/

/-- Round 1 of three candidates, two of which make a timeout quorum. -/
def threeCandidates : Round := ⟨"coordinator", .null, 1, ["a", "b", "c"], ["a", "b", "c"], 2⟩

theorem threeCandidates_honest : threeCandidates.Honest Platform.ideal
    (Platform.idealRosterKeys (["a", "b", "c"].map Json.str)) where
  distinct := by decide
  held := by
    have hlower : ∀ a ∈ ["a", "b", "c"], Platform.ideal.lower a ∈
        GuardianSet.normalize Platform.ideal.toPyText (["a", "b", "c"].map Json.str) := by decide
    exact hlower
  roster := Platform.ideal_rosterKeys (by decide)
  sigs := Platform.ideal_idealSigs.mono (Platform.idealRosterKeys_subset (by decide))

/-- Two signatures of candidates without a block make a timeout quorum for view 0. -/
theorem timedOut_threeCandidates {net : Net} (hb : ("b", 0) ∈ net.timeouts)
    (hc : ("c", 0) ∈ net.timeouts) :
    threeCandidates.TimedOut Platform.ideal net 0
      [threeCandidates.attestation Platform.ideal "b" 0,
        threeCandidates.attestation Platform.ideal "c" 0] where
  sent := by
    intro j hj
    rcases List.mem_cons.mp hj with rfl | hj
    · exact ⟨_, hb, rfl⟩
    · rw [List.mem_singleton.mp hj]
      exact ⟨_, hc, rfl⟩
  approved := by
    have hnormal : GuardianSet.normalize Platform.ideal.toPyText (["a", "b", "c"].map Json.str)
        = ["a", "b", "c"] := by decide
    let gs : GuardianSet := ⟨["a", "b", "c"], 2, by decide, by decide, by decide⟩
    have hgs : GuardianSet.make Platform.ideal.toPyText (["a", "b", "c"].map Json.str) 2 = .ok gs :=
      GuardianSet.make_eq_ok.mpr ⟨hnormal.symm, rfl⟩
    refine verifyTimeoutQuorum_approved.mpr ⟨by decide, gs, _, hgs, Json.toList_orElse_arr _, ?_⟩
    refine (show (2 : ℤ) ≤ (["b", "c"] : List String).length by decide).trans
      (Int.ofNat_le.mpr ((show (["b", "c"] : List String).Nodup by decide).subperm ?_).length_le)
    -- each attestation recovers to its signer
    have hmem : ∀ a ∈ ["b", "c"], a ∈ ["a", "b", "c"] ∧ a ∈ Platform.idealKeys
        ∧ Platform.ideal.lower a = a := by
      intro a ha
      rcases List.mem_cons.mp ha with rfl | ha
      · exact ⟨by decide, by simp [Platform.idealKeys], by decide⟩
      · rw [List.mem_singleton.mp ha]
        exact ⟨by decide, by simp [Platform.idealKeys], by decide⟩
    have hsigs : ∀ a ∈ ["b", "c"], Json.str (signBytes Platform.ideal a
        (timeoutPayload Platform.ideal.toPyText 1 (threeCandidates.proposer 0) 0)) ∈
        sigsOf [threeCandidates.attestation Platform.ideal "b" 0,
          threeCandidates.attestation Platform.ideal "c" 0] := by
      intro a ha
      unfold sigsOf
      rw [List.map_cons, List.map_cons, List.map_nil, Round.attestation, Round.attestation,
        sigOf_signTimeout, sigOf_signTimeout]
      rcases List.mem_cons.mp ha with rfl | ha
      · simp [Json.pyEq, Json.number?, threeCandidates]
      · rw [List.mem_singleton.mp ha]
        simp [Json.pyEq, Json.number?, threeCandidates]
    intro a ha
    obtain ⟨hmember, hkey, hlow⟩ := hmem a ha
    exact GuardianSet.mem_distinctSigners.mpr ⟨hmember, _, hsigs a ha, a,
      Platform.ideal_idealSigs.recoverBytes_signBytes hkey _, hlow⟩

/-- A candidate whose replica is at genesis has no block of the round, and can propose. -/
theorem propose_init (identity : String) (timestamp : ℤ)
    (view : Option (ℕ × List (ℕ × List Json))) :
    ¬ (Candidate.init identity "coordinator" .null).HasRound Platform.ideal.toPyText 1
      ∧ ∃ rec c envelope hdr,
          (Candidate.init identity "coordinator" .null).propose Platform.ideal 1 1 (.fin 10) "miner"
              none timestamp view = .ok (c, envelope)
            ∧ c.chain.blocks = [rec] ∧ HeaderOf Platform.ideal.toPyText rec hdr
            ∧ hdr.height = 1 ∧ hdr.timestamp = timestamp := by
  refine ⟨?_, ?_⟩
  · rintro ⟨rec, hrec, _⟩
    cases hrec
  · obtain ⟨c, envelope, h⟩ := exists_propose Platform.ideal
      (Candidate.init identity "coordinator" .null) (State.plain_genesis _) rfl 1 1 10 "miner" none
      timestamp view
    obtain ⟨rec, st, head, hheader, rfl, _⟩ := headerOf_propose h
    exact ⟨rec, _, envelope, _, h, rfl, hheader, rfl, rfl⟩

/-- A producer that nobody timed out: its block is the only one. -/
theorem no_fork_threeCandidates :
    ∃ net, threeCandidates.Reachable Platform.ideal net ∧ net.proposals ≠ []
      ∧ threeCandidates.Agreement Platform.ideal.toPyText net := by
  obtain ⟨hnone, rec, c, envelope, hdr, hpropose, _⟩ := propose_init "a" 1001 (some (0, []))
  let net : Net := { threeCandidates.start with
    replica := Function.update threeCandidates.start.replica "a" c
    proposals := [⟨"a", 0, envelope⟩] }
  have hstep : threeCandidates.Step Platform.ideal threeCandidates.start net :=
    .propose (show "a" ∈ threeCandidates.candidates by decide) (show 0 < 3 by decide) rfl hnone
      (show ∀ u < 0, threeCandidates.TimedOut Platform.ideal threeCandidates.start u [] from
        fun u hu => absurd hu (Nat.not_lt_zero u))
      hpropose
  have hquiet : threeCandidates.Unchallenged Platform.ideal.toPyText net := by
    intro p _
    have hnobody : Round.timeoutSigners Platform.ideal.toPyText net p.view = [] := rfl
    rw [hnobody]
    decide
  exact ⟨net, .single hstep, by simp [net],
    no_fork threeCandidates_honest (.single hstep) hquiet⟩

/-- The proposal of view 0 is still under way when the other two time the view out: two candidates
append different blocks. -/
theorem exists_fork :
    ∃ net, threeCandidates.Reachable Platform.ideal net
      ∧ ¬ threeCandidates.Agreement Platform.ideal.toPyText net := by
  obtain ⟨hnone, recA, cA, envA, hdrA, hproposeA, hblocksA, hreadA, hheightA, htimeA⟩ :=
    propose_init "a" 1001 (some (0, []))
  let atts : List Json := [threeCandidates.attestation Platform.ideal "b" 0,
    threeCandidates.attestation Platform.ideal "c" 0]
  obtain ⟨hnoneB, recB, cB, envB, hdrB, hproposeB, hblocksB, hreadB, hheightB, htimeB⟩ :=
    propose_init "b" 1002 (some (1, [(0, atts)]))
  obtain ⟨hnoneC, _⟩ := propose_init "c" 1002 none
  let net₁ : Net := { threeCandidates.start with
    replica := Function.update threeCandidates.start.replica "a" cA
    proposals := [⟨"a", 0, envA⟩] }
  let net₂ : Net := { net₁ with timeouts := [("b", 0)] }
  let net₃ : Net := { net₁ with timeouts := [("b", 0), ("c", 0)] }
  let net₄ : Net := { net₃ with
    replica := Function.update net₃.replica "b" cB
    proposals := [⟨"a", 0, envA⟩, ⟨"b", 1, envB⟩] }
  have hstep₁ : threeCandidates.Step Platform.ideal threeCandidates.start net₁ :=
    .propose (show "a" ∈ threeCandidates.candidates by decide) (show 0 < 3 by decide) rfl hnone
      (show ∀ u < 0, threeCandidates.TimedOut Platform.ideal threeCandidates.start u [] from
        fun u hu => absurd hu (Nat.not_lt_zero u))
      hproposeA
  have hB : net₁.replica "b" = Candidate.init "b" "coordinator" .null :=
    Function.update_of_ne (show "b" ≠ "a" by decide) cA threeCandidates.start.replica
  have hC : net₁.replica "c" = Candidate.init "c" "coordinator" .null :=
    Function.update_of_ne (show "c" ≠ "a" by decide) cA threeCandidates.start.replica
  have hstep₂ : threeCandidates.Step Platform.ideal net₁ net₂ :=
    .timeout (show "b" ∈ threeCandidates.candidates by decide) (show 0 < 3 by decide)
      (hB ▸ hnoneB)
  have hstep₃ : threeCandidates.Step Platform.ideal net₂ net₃ :=
    .timeout (show "c" ∈ threeCandidates.candidates by decide) (show 0 < 3 by decide)
      (show ¬ (net₁.replica "c").HasRound _ _ from hC ▸ hnoneC)
  have htimedOut : ∀ u < 1, threeCandidates.TimedOut Platform.ideal net₃ u atts := by
    intro u hu
    obtain rfl : u = 0 := by omega
    exact timedOut_threeCandidates (by simp [net₃]) (by simp [net₃])
  have hstep₄ : threeCandidates.Step Platform.ideal net₃ net₄ :=
    .propose (show "b" ∈ threeCandidates.candidates by decide) (show 1 < 3 by decide) rfl
      (show ¬ (net₁.replica "b").HasRound _ _ from hB ▸ hnoneB) htimedOut
      (show (net₁.replica "b").propose _ _ _ _ _ _ _ _ = _ from hB ▸ hproposeB)
  refine ⟨net₄, .tail (.tail (.tail (.single hstep₁) hstep₂) hstep₃) hstep₄, fun hagree => ?_⟩
  have hsame : recA = recB := by
    refine hagree "a" (by decide) "b" (by decide) recA ?_ recB ?_ hdrA hdrB hreadA hreadB hheightA
      hheightB
    · show recA ∈ cA.chain.blocks
      rw [hblocksA]
      simp
    · show recB ∈ cB.chain.blocks
      rw [hblocksB]
      simp
  rw [hsame] at hreadA
  rw [hreadA.unique hreadB, htimeB] at htimeA
  exact absurd htimeA (by decide)

/-- Signing a timeout only before having a block, and proposing only over timeout quorums, does not
prevent a fork. -/
theorem not_agreed_failover_agrees :
    ¬ ∀ (P : Platform) (keys : Set String) (R : Round) (net : Net), CollisionFree P →
      R.Honest P keys → 3 ≤ R.candidates.length → R.Reachable P net → R.Agreement P.toPyText net := by
  intro hclaim
  obtain ⟨net, hreach, hfork⟩ := exists_fork
  exact hfork (hclaim Platform.ideal _ threeCandidates net Platform.ideal_collisionFree
    threeCandidates_honest (by decide) hreach)

end NeuraHash
