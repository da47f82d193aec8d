import NeuraHash.Settlement.Quorum

/-!
# The election auditor (`neura_l1/pool_sequencer.py`)

`verifyProposerElections` replays a governance log: it runs each round's election over the roster
the round published, checks the seed against the beacon of the round before, and lists the rounds
whose roster changed. It tells a change by the `roster_root` fields the records state.

`roster_churn_iff` says on which logs every change is listed. A coordinator that states the same
root for two rosters goes unlisted, and the root of an honest one rounds the stakes
(`rootsTell_validatorSetRecord`).
-/

namespace NeuraHash

open Py

/-- The election code of the modules `pouw_gate` and `consensus`. -/
structure ElectionCode where
  /-- `beacon_for(prev, candidate)`. -/
  beaconFor : Json → String → Except PyErr String
  /-- `leader_tag(root, beacon)`. -/
  leaderTag : String → String → Except PyErr String
  saturatingWeight : PyFloat → Except PyErr PyFloat

namespace PoolSequencer

/-! ## The election -/

/-- `_addr_root(addr)`. -/
def addrRoot (P : Platform) (addr : String) : String := P.sha256 (utf8 addr)

def electionBeacon (code : ElectionCode) (prev : Json) (candidate : String) :
    Except PyErr String :=
  code.beaconFor prev candidate

/-- What `elect_proposer` ranks a candidate by. -/
def rankKey (P : Platform) (code : ElectionCode) (prev : Json)
    (stakeOf : Option (String → Except PyErr PyFloat)) (a : String) :
    Except PyErr (PyFloat × String) := do
  let tag ← code.leaderTag (addrRoot P a) (← electionBeacon code prev a)
  match stakeOf with
  | none => return (.fin 0, tag)
  | some stake => return (PyFloat.neg (← code.saturatingWeight (← stake a)), tag)

def keyLt (a b : PyFloat × String) : Bool :=
  if PyFloat.eq a.1 b.1 then decide (a.2 < b.2) else PyFloat.lt a.1 b.1

/-- `elect_proposer(roster, prev_commit_hash, stake_of)`: the winner and the ranking. -/
def electProposer (P : Platform) (code : ElectionCode) (roster : List String) (prev : Json)
    (stakeOf : Option (String → Except PyErr PyFloat)) :
    Except PyErr (Option String × List String) := do
  let keyed ← (sortedSet roster).mapM fun a => do return (← rankKey P code prev stakeOf a, a)
  let ranked := (keyed.insertionSort fun x y => keyLt y.1 x.1 = false).map Prod.snd
  return (ranked.head?, ranked)

/-! ## The published rosters -/

/-- `validator_set_record(round_id, mode, roster_with_stake, election_seed)`. -/
def validatorSetRecord (P : Platform) (round : ℤ) (mode : String) (roster : Dict String PyFloat)
    (electionSeed : String) : Json :=
  .obj [("type", .str "validator_set"), ("round", .int round), ("mode", .str mode),
    ("roster", .obj (roster.entries.map fun e => (e.1, .float e.2))),
    ("roster_root", .str (rosterRoot P roster)), ("election_seed", .str electionSeed),
    ("n", .int roster.size)]

/-- `int(rec.get("round", 0))`, where no number is zero. -/
def roundOf (T : PyText) (rec : Json) : Except PyErr ℤ :=
  match ((rec.get? "round").getD (.int 0)).toInt T with
  | .ok n => .ok n
  | .error .typeError => .ok 0
  | .error .valueError => .ok 0
  | .error e => .error e

/-- `((rec.get("signed") or {}).get("commitment", {}) or {}).get("beacon")`. -/
def beaconOf (rec : Json) : Except PyErr Json := do
  let signed := ((rec.get? "signed").getD .null).orElse (.obj [])
  let commitment := (← signed.getD "commitment" (.obj [])).orElse (.obj [])
  commitment.getD "beacon" .null

/-- The records of the log by round; a later record replaces an earlier one. -/
structure GovernanceIndex where
  vsets : Dict ℤ Json
  claims : Dict ℤ Json
  beacons : Dict ℤ Json

/-- What a record is to the auditor. -/
inductive GovernanceEntry where
  | ignored
  | validatorSet (round : ℤ)
  | claim (round : ℤ)
  | commitment (round : ℤ) (beacon : Json)

def entryOf (T : PyText) (rec : Json) : Except PyErr GovernanceEntry :=
  if !rec.isObj then .ok .ignored
  else match rec.get? "type" with
    | some (.str "validator_set") => do return .validatorSet (← roundOf T rec)
    | some (.str "elected_proposer_audit") => do return .claim (← roundOf T rec)
    | some (.str "round_commitment") => do
      let beacon ← beaconOf rec
      return .commitment (← roundOf T rec) beacon
    | _ => .ok .ignored

def GovernanceIndex.add (idx : GovernanceIndex) (rec : Json) : GovernanceEntry → GovernanceIndex
  | .ignored => idx
  | .validatorSet rr => { idx with vsets := idx.vsets.set rr rec }
  | .claim rr => { idx with claims := idx.claims.set rr rec }
  | .commitment rr beacon => { idx with beacons := idx.beacons.set rr beacon }

/-- The first loop of the auditor. -/
def indexRecords (T : PyText) (records : List Json) : Except PyErr GovernanceIndex :=
  records.foldlM (fun idx rec => do return idx.add rec (← entryOf T rec)) ⟨∅, ∅, ∅⟩

/-- `vs.get("roster") or {}`. -/
def publishedRoster (vs : Json) : Json := ((vs.get? "roster").getD .null).orElse (.obj [])

/-- `vs.get("roster_root")`. -/
def statedRoot (vs : Json) : Json := (vs.get? "roster_root").getD .null

/-- `any(float(s) > 0.0 for s in roster.values())`. -/
def anyStake (T : PyText) : List Json → Except PyErr Bool
  | [] => .ok false
  | s :: rest => do
    if PyFloat.lt (.fin 0) (← s.toFloat T) then return true
    anyStake T rest

/-- The winner over the roster and the seed a record publishes. -/
def winnerOf (P : Platform) (code : ElectionCode) (vs : Json) : Except PyErr (Option String) := do
  match publishedRoster vs with
  | .obj kvs =>
    let roster := Json.dictOf kvs
    let staked ← anyStake P.toPyText (roster.entries.map Prod.snd)
    let stakeOf := fun a => ((roster.get? a).getD (.float (.fin 0))).toFloat P.toPyText
    let (winner, _) ← electProposer P code roster.keys
      ((vs.get? "election_seed").getD (.str "")) (if staked then some stakeOf else none)
    return winner
  | _ => .error .attributeError

/-! ## The audit -/

structure ElectionReport where
  n : ℕ
  verified : List ℤ
  electionMismatches : List ℤ
  seedChainBreaks : List ℤ
  rosterChurn : List ℤ
  missingRoster : List ℤ

namespace ElectionReport

def ok (r : ElectionReport) : Bool := r.electionMismatches.isEmpty && r.seedChainBreaks.isEmpty

end ElectionReport

/-- The auditor's second loop: the report so far, and `prev_root`. -/
structure ElectionScan where
  report : ElectionReport
  prevRoot : Json

/-- A turn of the loop, for a round with a claim. -/
def ElectionScan.step (P : Platform) (code : ElectionCode) (genesisSeed : Json)
    (idx : GovernanceIndex) (st : ElectionScan) (rr : ℤ) : Except PyErr ElectionScan := do
  match idx.vsets.get? rr with
  | none => return { st with
      report := { st.report with missingRoster := st.report.missingRoster ++ [rr] } }
  | some vs =>
    let winner ← winnerOf P code vs
    let claimed := ((idx.claims.get? rr).bind (·.get? "elected")).getD .null
    let won := Json.pyEq (winner.elim .null .str) claimed
    let expectedSeed := if rr = 0 then genesisSeed else (idx.beacons.get? (rr - 1)).getD .null
    let seed := (vs.get? "election_seed").getD .null
    let r := st.report
    return {
      report := { r with
        verified := if won then r.verified ++ [rr] else r.verified
        electionMismatches := if won then r.electionMismatches else r.electionMismatches ++ [rr]
        seedChainBreaks := if expectedSeed.notNone && !Json.pyEq seed expectedSeed then
          r.seedChainBreaks ++ [rr] else r.seedChainBreaks
        -- the roots are compared as the records state them
        rosterChurn := if st.prevRoot.notNone && !Json.pyEq (statedRoot vs) st.prevRoot then
          r.rosterChurn ++ [rr] else r.rosterChurn }
      prevRoot := statedRoot vs }

/-- `verify_proposer_elections(records, genesis_seed)`. -/
def verifyProposerElections (P : Platform) (code : ElectionCode) (genesisSeed : Json)
    (records : List Json) : Except PyErr (Bool × ElectionReport) := do
  let idx ← indexRecords P.toPyText records
  let st ← (sortedSet idx.claims.keys).foldlM (ElectionScan.step P code genesisSeed idx)
    ⟨⟨idx.claims.keys.length, [], [], [], [], []⟩, .null⟩
  return (st.report.ok, st.report)

/-! ## The audited rounds -/

/-- The rounds with a claim and a published roster, in order, with the record of the roster. -/
def GovernanceIndex.audited (idx : GovernanceIndex) (rounds : List ℤ) : List (ℤ × Json) :=
  rounds.filterMap fun rr => (idx.vsets.get? rr).map fun vs => (rr, vs)

def auditedRounds (T : PyText) (records : List Json) : List (ℤ × Json) :=
  match indexRecords T records with
  | .ok idx => idx.audited (sortedSet idx.claims.keys)
  | .error _ => []

/-- The stated roots of two rounds tell their rosters apart. -/
def RootsTell (a b : Json) : Prop :=
  (statedRoot a).notNone = true ∧ Json.pyEq (statedRoot b) (statedRoot a) = false

def RostersDiffer (a b : Json) : Prop := Json.pyEq (publishedRoster b) (publishedRoster a) = false

/-- What `roster_root` digests: the stakes are rounded to eight digits. -/
def rosterText (P : Platform) (stakes : Dict String PyFloat) : String :=
  String.intercalate "|" (stakes.sortedItems.map fun e => e.1 ++ "=" ++ P.format8g e.2)

/-- The roots of an honest coordinator tell the rosters apart whose rounded texts differ. -/
theorem rootsTell_validatorSetRecord {P : Platform} (hP : CollisionFree P) {r r' : ℤ}
    {mode mode' seed seed' : String} {roster roster' : Dict String PyFloat} :
    RootsTell (validatorSetRecord P r mode roster seed) (validatorSetRecord P r' mode' roster' seed')
      ↔ rosterText P roster' ≠ rosterText P roster := by
  have hroot : ∀ r mode roster seed,
      statedRoot (validatorSetRecord P r mode roster seed) = .str (rosterRoot P roster) := by
    intro r mode roster seed
    rfl
  unfold RootsTell
  rw [hroot, hroot, and_iff_right (by rfl), ← Bool.not_eq_true, Json.pyEq_str_right, Json.str.injEq]
  refine not_congr ⟨fun h => ?_, fun h => congrArg (fun t => P.sha256 (utf8 t)) h⟩
  exact utf8_injective (hP h)

/-- The auditor returns, and lists the later of two consecutive audited rounds whenever their
rosters differ. -/
def DetectsChurn (P : Platform) (code : ElectionCode) (genesisSeed : Json) (records : List Json) :
    Prop :=
  ∃ report, verifyProposerElections P code genesisSeed records = .ok report ∧
    ∀ before a b after, auditedRounds P.toPyText records = before ++ a :: b :: after →
      RostersDiffer a.2 b.2 → b.1 ∈ report.2.rosterChurn

/-- Every record can be read, and every audited election can be run. -/
structure Readable (P : Platform) (code : ElectionCode) (records : List Json) : Prop where
  entries : ∀ rec ∈ records, ∃ e, entryOf P.toPyText rec = .ok e
  elections : ∀ a ∈ auditedRounds P.toPyText records, ∃ winner, winnerOf P code a.2 = .ok winner

section Audit

variable {P : Platform} {code : ElectionCode} {genesisSeed : Json} {records : List Json}

theorem exists_indexRecords_iff {T : PyText} {idx : GovernanceIndex} :
    (∃ idx', records.foldlM (fun idx rec => do return idx.add rec (← entryOf T rec)) idx
        = Except.ok (ε := PyErr) idx')
      ↔ ∀ rec ∈ records, ∃ e, entryOf T rec = .ok e := by
  induction records generalizing idx with
  | nil => exact iff_of_true ⟨idx, rfl⟩ (by simp)
  | cons rec records ih =>
    rw [List.foldlM_cons, List.forall_mem_cons]
    cases hrec : entryOf T rec with
    | error e =>
      rw [error_bind, error_bind]
      exact iff_of_false (fun ⟨_, h⟩ => by cases h) (fun ⟨⟨_, h⟩, _⟩ => by cases h)
    | ok e =>
      rw [ok_bind]
      show (∃ idx', records.foldlM _ (idx.add rec e) = Except.ok idx') ↔ _
      rw [ih]
      exact (and_iff_right ⟨e, rfl⟩).symm

/-- The rounds listed after a round with the stated root `prev`. -/
def churnAfter : Json → List (ℤ × Json) → List ℤ
  | _, [] => []
  | prev, (rr, vs) :: rest =>
    (if prev.notNone && !Json.pyEq (statedRoot vs) prev then [rr] else [])
      ++ churnAfter (statedRoot vs) rest

theorem churnAfter_subset (prev : Json) (l : List (ℤ × Json)) :
    churnAfter prev l ⊆ l.map Prod.fst := by
  induction l generalizing prev with
  | nil => exact List.Subset.refl _
  | cons a rest ih =>
    intro rr hrr
    obtain ⟨r, vs⟩ := a
    rcases List.mem_append.mp hrr with h | h
    · split at h
      · rw [List.mem_singleton.mp h]
        exact List.mem_cons_self ..
      · cases h
    · exact List.mem_cons_of_mem _ (ih _ h)

/-- A round of the list is listed exactly when its root tells it from the round before. -/
theorem mem_churnAfter {prev : Json} {before after : List (ℤ × Json)} {a b : ℤ × Json}
    (hnodup : ((before ++ a :: b :: after).map Prod.fst).Nodup) :
    b.1 ∈ churnAfter prev (before ++ a :: b :: after) ↔ RootsTell a.2 b.2 := by
  induction before generalizing prev with
  | nil =>
    rw [List.nil_append, List.map_cons, List.map_cons, List.nodup_cons, List.nodup_cons] at hnodup
    obtain ⟨hab, hb, -⟩ := hnodup
    obtain ⟨ra, va⟩ := a
    obtain ⟨rb, vb⟩ := b
    have hne : rb ≠ ra := fun h => hab (h ▸ List.mem_cons_self ..)
    have hrest : rb ∉ churnAfter (statedRoot vb) after := fun h => hb (churnAfter_subset _ _ h)
    have hfirst : rb ∉ (if prev.notNone && !Json.pyEq (statedRoot va) prev then [ra] else []) := by
      split
      · exact fun h => hne (List.mem_singleton.mp h)
      · exact List.not_mem_nil
    show rb ∈ _ ++ (_ ++ churnAfter (statedRoot vb) after) ↔ _
    rw [List.mem_append, List.mem_append, or_iff_right hfirst, or_iff_left hrest]
    unfold RootsTell
    rw [← Bool.not_eq_true', ← Bool.and_eq_true]
    split
    · next h => exact iff_of_true (List.mem_singleton_self _) h
    · next h => exact iff_of_false List.not_mem_nil h
  | cons c before ih =>
    rw [List.cons_append, List.map_cons, List.nodup_cons] at hnodup
    obtain ⟨rc, vc⟩ := c
    have hmem : b.1 ∈ (before ++ a :: b :: after).map Prod.fst :=
      List.mem_map_of_mem (by simp)
    have hne : b.1 ≠ rc := fun h => hnodup.1 (h ▸ hmem)
    have hfirst : b.1 ∉ (if prev.notNone && !Json.pyEq (statedRoot vc) prev then [rc] else []) := by
      split
      · exact fun h => hne (List.mem_singleton.mp h)
      · exact List.not_mem_nil
    show b.1 ∈ _ ++ churnAfter (statedRoot vc) (before ++ a :: b :: after) ↔ _
    rw [List.mem_append, or_iff_right hfirst]
    exact ih hnodup.2

/-- A turn of the loop returns when the round has no roster or its election can be run, and lists
the round when the stated root has changed. -/
theorem step_spec (idx : GovernanceIndex) (st : ElectionScan) (rr : ℤ) :
    ((∃ st', ElectionScan.step P code genesisSeed idx st rr = .ok st') ↔
        ∀ a ∈ idx.audited [rr], ∃ winner, winnerOf P code a.2 = .ok winner)
      ∧ ∀ st', ElectionScan.step P code genesisSeed idx st rr = .ok st' →
        ∀ rest, st.report.rosterChurn ++ churnAfter st.prevRoot (idx.audited [rr] ++ rest)
          = st'.report.rosterChurn ++ churnAfter st'.prevRoot rest := by
  unfold ElectionScan.step GovernanceIndex.audited
  cases hvs : idx.vsets.get? rr with
  | none =>
    rw [List.filterMap_cons_none (by rw [hvs]; rfl)]
    refine ⟨iff_of_true ⟨_, rfl⟩ (by simp), fun st' h rest => ?_⟩
    cases h
    rfl
  | some vs =>
    rw [List.filterMap_cons_some (b := (rr, vs)) (by rw [hvs]; rfl), List.forall_mem_cons]
    dsimp only
    cases hwinner : winnerOf P code vs with
    | error e =>
      refine ⟨iff_of_false (fun ⟨_, h⟩ => by cases h) (fun ⟨⟨_, h⟩, _⟩ => by cases h), ?_⟩
      intro st' h
      cases h
    | ok winner =>
      refine ⟨iff_of_true ⟨_, rfl⟩ ⟨⟨winner, rfl⟩, by simp⟩, fun st' h rest => ?_⟩
      cases h
      show _ ++ ((if _ then _ else _) ++ churnAfter (statedRoot vs) rest) = (if _ then _ else _) ++ _
      rw [← List.append_assoc]
      congr 1
      split
      · rfl
      · exact List.append_nil _

theorem audited_cons (idx : GovernanceIndex) (rr : ℤ) (rounds : List ℤ) :
    idx.audited (rr :: rounds) = idx.audited [rr] ++ idx.audited rounds :=
  List.filterMap_append (l := [rr])

/-- **The second loop**: it returns when every election can be run, and lists the changes of the
stated root. -/
theorem scan_spec (idx : GovernanceIndex) (rounds : List ℤ) (st : ElectionScan) :
    ((∃ st', rounds.foldlM (ElectionScan.step P code genesisSeed idx) st = .ok st') ↔
        ∀ a ∈ idx.audited rounds, ∃ winner, winnerOf P code a.2 = .ok winner)
      ∧ ∀ st', rounds.foldlM (ElectionScan.step P code genesisSeed idx) st = .ok st' →
        st'.report.rosterChurn
          = st.report.rosterChurn ++ churnAfter st.prevRoot (idx.audited rounds) := by
  induction rounds generalizing st with
  | nil =>
    refine ⟨iff_of_true ⟨st, rfl⟩ (by simp [GovernanceIndex.audited]), fun st' h => ?_⟩
    cases h
    exact (List.append_nil _).symm
  | cons rr rounds ih =>
    obtain ⟨hreturns, hchurn⟩ := @step_spec P code genesisSeed idx st rr
    rw [List.foldlM_cons, audited_cons, List.forall_mem_append, ← hreturns]
    cases hstep : ElectionScan.step P code genesisSeed idx st rr with
    | error e =>
      refine ⟨iff_of_false (fun ⟨_, h⟩ => by cases h) (fun ⟨⟨_, h⟩, _⟩ => by cases h), ?_⟩
      intro st' h
      cases h
    | ok st₁ =>
      rw [ok_bind, hchurn st₁ hstep, (ih st₁).1]
      exact ⟨(and_iff_right ⟨st₁, rfl⟩).symm, (ih st₁).2⟩

theorem nodup_auditedRounds (T : PyText) (records : List Json) :
    ((auditedRounds T records).map Prod.fst).Nodup := by
  unfold auditedRounds
  cases indexRecords T records with
  | error e => exact List.nodup_nil
  | ok idx =>
    have hsub : ∀ rounds : List ℤ, ((idx.audited rounds).map Prod.fst).Sublist rounds := by
      intro rounds
      induction rounds with
      | nil => exact List.Sublist.refl _
      | cons rr rounds ih =>
        unfold GovernanceIndex.audited
        cases hvs : idx.vsets.get? rr with
        | none =>
          rw [List.filterMap_cons_none (by rw [hvs]; rfl)]
          exact ih.cons _
        | some vs =>
          rw [List.filterMap_cons_some (b := (rr, vs)) (by rw [hvs]; rfl)]
          exact ih.cons_cons _
    exact (nodup_sortedSet _).sublist (hsub _)

/-- The audit returns on the readable logs, and then lists the changes of the stated root. -/
theorem verifyProposerElections_spec :
    ((∃ report, verifyProposerElections P code genesisSeed records = .ok report) ↔
        Readable P code records)
      ∧ ∀ report, verifyProposerElections P code genesisSeed records = .ok report →
        report.2.rosterChurn = churnAfter .null (auditedRounds P.toPyText records) := by
  have hindex := @exists_indexRecords_iff records P.toPyText ⟨∅, ∅, ∅⟩
  unfold verifyProposerElections auditedRounds
  cases hidx : indexRecords P.toPyText records with
  | error e =>
    rw [error_bind]
    refine ⟨iff_of_false (fun ⟨_, h⟩ => by cases h) (fun h => ?_), fun _ h => by cases h⟩
    obtain ⟨idx', hidx'⟩ := hindex.mpr h.entries
    rw [indexRecords, hidx'] at hidx
    cases hidx
  | ok idx =>
    obtain ⟨hreturns, hchurn⟩ := @scan_spec P code genesisSeed idx (sortedSet idx.claims.keys)
      ⟨⟨idx.claims.keys.length, [], [], [], [], []⟩, .null⟩
    have helections : auditedRounds P.toPyText records
        = idx.audited (sortedSet idx.claims.keys) := by
      unfold auditedRounds
      rw [hidx]
    rw [ok_bind]
    constructor
    · constructor
      · rintro ⟨report, hreport⟩
        obtain ⟨st, hst, -⟩ := bind_eq_ok.mp hreport
        exact ⟨hindex.mp ⟨idx, hidx⟩, by rw [helections]; exact hreturns.mp ⟨st, hst⟩⟩
      · intro hread
        obtain ⟨st, hst⟩ := hreturns.mpr (by rw [← helections]; exact hread.elections)
        exact ⟨_, by rw [hst]; rfl⟩
    · intro report hreport
      obtain ⟨st, hst, hst'⟩ := bind_eq_ok.mp hreport
      rw [← Except.ok.inj hst']
      exact hchurn st hst

end Audit

end PoolSequencer

open PoolSequencer

/-- **The auditor lists every change of the roster exactly on the readable logs in which the stated
roots of consecutive audited rounds tell their rosters apart.** -/
theorem roster_churn_iff (P : Platform) (code : ElectionCode) (genesisSeed : Json)
    (records : List Json) :
    DetectsChurn P code genesisSeed records ↔ Readable P code records ∧
      ∀ before a b after, auditedRounds P.toPyText records = before ++ a :: b :: after →
        RostersDiffer a.2 b.2 → RootsTell a.2 b.2 := by
  obtain ⟨hreturns, hchurn⟩ := @verifyProposerElections_spec P code genesisSeed records
  have hnodup := nodup_auditedRounds P.toPyText records
  constructor
  · rintro ⟨report, hreport, hlists⟩
    refine ⟨hreturns.mp ⟨report, hreport⟩, fun before a b after hrounds hdiffer => ?_⟩
    have hmem := hlists before a b after hrounds hdiffer
    rw [hrounds] at hnodup
    rwa [hchurn report hreport, hrounds, mem_churnAfter hnodup] at hmem
  · rintro ⟨hread, htell⟩
    obtain ⟨report, hreport⟩ := hreturns.mpr hread
    refine ⟨report, hreport, fun before a b after hrounds hdiffer => ?_⟩
    rw [hrounds] at hnodup
    rw [hchurn report hreport, hrounds, mem_churnAfter hnodup]
    exact htell before a b after hrounds hdiffer

/-! ## A change that goes unlisted

Two rounds are elected over different rosters; both records state the root of the first. -/

section Unlisted

/-- A round whose one validator is `a`, under a stated root. -/
def soleValidator (round : ℤ) (a root : String) : Json :=
  .obj [("type", .str "validator_set"), ("round", .int round), ("roster", .obj [(a, .int 1)]),
    ("roster_root", .str root), ("election_seed", .str "seed")]

def soleClaim (round : ℤ) (a : String) : Json :=
  .obj [("type", .str "elected_proposer_audit"), ("round", .int round), ("elected", .str a)]

def unlistedChange : List Json :=
  [soleValidator 0 "alice" "root", soleClaim 0 "alice", soleValidator 1 "mallory" "root",
    soleClaim 1 "mallory"]

theorem roster_churn_hidden :
    ¬ ∀ (P : Platform) (code : ElectionCode) (genesisSeed : Json) (records : List Json),
      DetectsChurn P code genesisSeed records := by
  intro h
  let code : ElectionCode := ⟨fun _ _ => .ok "", fun _ _ => .ok "", .ok⟩
  obtain ⟨report, hreport, hlists⟩ := h Platform.ideal code (.str "seed") unlistedChange
  have hchurn := (verifyProposerElections_spec).2 report hreport
  have hmem := hlists [] (0, soleValidator 0 "alice" "root") (1, soleValidator 1 "mallory" "root")
    [] rfl rfl
  rw [hchurn] at hmem
  exact List.not_mem_nil hmem

end Unlisted

end NeuraHash
