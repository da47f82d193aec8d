import NeuraHash.Signing

/-!
# The commitment chain of the pool (`neura_l1/pool_sequencer.py`)

The proposer of a pool round signs a `Commitment` to it (`buildSignedRoundCommitment`) and logs it in
a governance record next to unsigned fields: the round, the id of the commitment, the id of the
previous one and the proposer. `verifyCommitmentChain` replays a log and checks the signatures, the
ids and the links of the records.

The links it checks are the logged ones. `signed_chain_iff` says what that is worth: on an accepted
log the signed commitments form a chain exactly when the unsigned fields of every record agree with
its signed commitment.
-/

namespace NeuraHash

open Py

/-! ## Records -/

/-- `delta_set_root(delta_hashes)`. -/
def deltaSetRoot (P : Platform) (deltaHashes : Dict String String) : String :=
  P.sha256 (utf8 (String.intercalate "|"
    (deltaHashes.sortedItems.map (fun e => e.1 ++ "=" ++ e.2))))

/-- The commitment of `build_signed_round_commitment`. -/
def roundCommitment (P : Platform) (account : String) (height : ℤ)
    (prevCommitId beacon parentCheckpoint newCheckpoint : String)
    (deltaHashes : Dict String String) (workScore : PyFloat) : Commitment where
  height := height
  prevHash := .str prevCommitId
  proposer := .str account
  beacon := .str beacon
  parentCheckpoint := .str parentCheckpoint
  newCheckpoint := .str newCheckpoint
  workScore := workScore
  merkleRoot := .str (deltaSetRoot P deltaHashes)
  txRoot := .str ""

/-- `build_signed_round_commitment`: the signed envelope and the id of a commitment. -/
def buildSignedRoundCommitment (P : Platform) (account : String) (c : Commitment) :
    Except PyErr (Json × String) := do
  return (← signCommitment P account c, ← c.commitId P)

/-- `round_commitment_record(round_id, mode, signed, commit_id, prev_commit_id, n_deltas)`. -/
def roundCommitmentRecord (T : PyText) (round : ℤ) (mode : String) (signed : Json)
    (commitId prevCommitId : String) (nDeltas : ℤ) : Except PyErr Json := do
  let sc ← (signed.orElse (.obj [])).getD "commitment" (.obj [])
  let proposer := (← (signed.orElse (.obj [])).getD "signer" (.str "")).toStr T
  let newCheckpoint := (← sc.getD "new_checkpoint" (.str "")).toStr T
  let workScore ← ((← sc.getD "work_score" (.float (.fin 0))).orElse (.float (.fin 0))).toFloat T
  return .obj [
    ("type", .str "round_commitment"),
    ("round", .int round),
    ("mode", .str mode),
    ("commit_id", .str commitId),
    ("prev_commit_id", .str prevCommitId),
    ("proposer", .str proposer),
    ("n_deltas", .int nDeltas),
    ("new_checkpoint", .str newCheckpoint),
    ("work_score", .float workScore),
    ("signed", signed)]

/-! ## The auditor -/

/-- The round of a record; what is no integer counts as 0. -/
def recordRound (T : PyText) (rec : Json) : Except PyErr ℤ :=
  match ((rec.get? "round").getD (.int 0)).toInt T with
  | .error .typeError => .ok 0
  | .error .valueError => .ok 0
  | r => r

def isRoundCommitment (rec : Json) : Bool :=
  rec.isObj && Json.pyEq ((rec.get? "type").getD .null) (.str "round_commitment")

/-- `rec.get("signed") or {}`. -/
def signedOf (rec : Json) : Json := ((rec.get? "signed").getD .null).orElse (.obj [])

/-- The signed commitment of a record. -/
def commitmentOf (T : PyText) (rec : Json) : Except PyErr Commitment := do
  Commitment.fromDict T (← (signedOf rec).item "commitment")

structure ChainScan where
  prevId : Json
  prevRound : Option ℤ
  seen : PySet ℤ
  sigFailures : List ℤ
  idMismatches : List ℤ
  chainBreaks : List ℤ
  duplicateRounds : List ℤ
  roundGaps : List ℤ

def ChainScan.init : ChainScan := ⟨.null, none, ∅, [], [], [], [], []⟩

/-- The id the next record has to link to. -/
def ChainScan.expectedPrev (genesisSeed : String) (st : ChainScan) : Json :=
  if st.prevId.notNone then st.prevId else .str genesisSeed

/-- The recomputed id is the logged one. -/
def idMatches (P : Platform) (rec : Json) : Bool :=
  match commitmentOf P.toPyText rec >>= Commitment.commitId P with
  | .ok id => Json.pyEq ((rec.get? "commit_id").getD .null) (.str id)
  | .error _ => false

/-- One turn of the loop of `verify_commitment_chain`. -/
def ChainScan.step (P : Platform) (expectedProposer : Option String) (genesisSeed : String)
    (st : ChainScan) (entry : ℤ × Json) : ChainScan :=
  let (rnd, rec) := entry
  if rnd ∈ st.seen.keys then { st with duplicateRounds := st.duplicateRounds ++ [rnd] }
  else
    { prevId := (rec.get? "commit_id").getD .null
      prevRound := some rnd
      seen := st.seen.add rnd
      sigFailures := match verifyCommitment P (signedOf rec) expectedProposer with
        | .ok _ => st.sigFailures
        | .error _ => st.sigFailures ++ [rnd]
      idMismatches := if idMatches P rec then st.idMismatches else st.idMismatches ++ [rnd]
      chainBreaks :=
        if Json.pyEq ((rec.get? "prev_commit_id").getD .null) (st.expectedPrev genesisSeed) then
          st.chainBreaks
        else st.chainBreaks ++ [rnd]
      duplicateRounds := st.duplicateRounds
      roundGaps := if st.prevRound.any (fun p => decide (rnd ≠ p + 1)) then st.roundGaps ++ [rnd]
        else st.roundGaps }

structure ChainReport where
  n : ℕ
  sigFailures : List ℤ
  idMismatches : List ℤ
  chainBreaks : List ℤ
  duplicateRounds : List ℤ
  roundGaps : List ℤ
  ok : Bool

/-- The `round_commitment` records with their rounds, in round order. -/
def roundCommitments (T : PyText) (records : List Json) : Except PyErr (List (ℤ × Json)) := do
  let entries ← (records.filter isRoundCommitment).mapM (fun rec => do
    return (← recordRound T rec, rec))
  return entries.insertionSort (fun a b => a.1 ≤ b.1)

/-- `verify_commitment_chain(records, expected_proposer, genesis_seed)`. -/
def verifyCommitmentChain (P : Platform) (records : List Json) (expectedProposer : Option String)
    (genesisSeed : String) : Except PyErr ChainReport := do
  let recs ← roundCommitments P.toPyText records
  let st := recs.foldl (ChainScan.step P expectedProposer genesisSeed) .init
  return { n := recs.length, sigFailures := st.sigFailures, idMismatches := st.idMismatches
           chainBreaks := st.chainBreaks, duplicateRounds := st.duplicateRounds
           roundGaps := st.roundGaps
           ok := st.sigFailures.isEmpty && st.idMismatches.isEmpty && st.chainBreaks.isEmpty
             && st.duplicateRounds.isEmpty }

/-! ## What the auditor accepts -/

variable {P : Platform} {expected : Option String} {genesis : String}

/-- Nothing that fails the audit has been recorded. -/
structure ChainScan.Clean (st : ChainScan) : Prop where
  sigFailures : st.sigFailures = []
  idMismatches : st.idMismatches = []
  chainBreaks : st.chainBreaks = []
  duplicateRounds : st.duplicateRounds = []

/-- The signed commitment of a record: it recovers to `who` and has this id. -/
structure SignedCommitment (P : Platform) (rec : Json) (who : String) (c : Commitment)
    (id : String) : Prop where
  recovered : recoverSigner P (signedOf rec) = .ok who
  commitment : commitmentOf P.toPyText rec = .ok c
  id : c.commitId P = .ok id

/-- What the auditor checks of a record that has to link to `prev`. -/
structure RecordAccepted (P : Platform) (expected : Option String) (prev : String) (rec : Json)
    (who : String) (c : Commitment) (id : String) : Prop where
  signed : SignedCommitment P rec who c id
  expected : ∀ e ∈ expected, P.lower who = P.lower e
  commitId : rec.get? "commit_id" = some (.str id)
  prevCommitId : rec.get? "prev_commit_id" = some (.str prev)

/-- Once something is recorded the report is not clean any more. -/
theorem ChainScan.clean_of_step {st : ChainScan} {entry : ℤ × Json}
    (h : (st.step P expected genesis entry).Clean) : st.Clean := by
  obtain ⟨rnd, rec⟩ := entry
  obtain ⟨hsig, hid, hbreak, hdup⟩ := h
  unfold ChainScan.step at hsig hid hbreak hdup
  dsimp only at hsig hid hbreak hdup
  split at hdup
  · exact absurd hdup (by simp)
  · next hseen =>
    rw [if_neg hseen] at hsig hid hbreak
    refine ⟨?_, ?_, ?_, hdup⟩
    · dsimp only at hsig
      split at hsig
      · exact hsig
      · exact absurd hsig (by simp)
    · dsimp only at hid
      split at hid
      · exact hid
      · exact absurd hid (by simp)
    · dsimp only at hbreak
      split at hbreak
      · exact hbreak
      · exact absurd hbreak (by simp)

theorem ChainScan.clean_of_foldl {l : List (ℤ × Json)} {st : ChainScan}
    (h : (l.foldl (ChainScan.step P expected genesis) st).Clean) : st.Clean := by
  induction l generalizing st with
  | nil => exact h
  | cons entry l ih => exact ChainScan.clean_of_step (ih h)

/-- **A turn keeps the report clean exactly when it accepts its record.** -/
theorem ChainScan.clean_step_iff {st : ChainScan} (hst : st.Clean) {rnd : ℤ} {rec : Json}
    {prev : String} (hprev : st.expectedPrev genesis = .str prev) :
    (st.step P expected genesis (rnd, rec)).Clean ↔
      rnd ∉ st.seen.keys ∧ ∃ who c id, RecordAccepted P expected prev rec who c id := by
  have hget : ∀ k s, Json.pyEq ((rec.get? k).getD .null) (.str s) = true ↔
      rec.get? k = some (.str s) := by
    intro k s
    rw [Json.pyEq_str_right]
    cases rec.get? k <;> simp
  unfold ChainScan.step
  dsimp only
  by_cases hseen : rnd ∈ st.seen.keys
  · rw [if_pos hseen]
    refine iff_of_false (fun h => ?_) (fun h => h.1 hseen)
    exact absurd h.duplicateRounds (by simp)
  · rw [if_neg hseen, hprev]
    constructor
    · rintro ⟨hsig, hid, hbreak, -⟩
      refine ⟨hseen, ?_⟩
      dsimp only at hsig hid hbreak
      split at hsig
      · next who hverify =>
        split at hid
        · next hmatches =>
          split at hbreak
          · next hlink =>
            unfold idMatches at hmatches
            split at hmatches
            · next id hcommit =>
              obtain ⟨c, hc, hcid⟩ := bind_eq_ok.mp hcommit
              obtain ⟨hrec, hexp⟩ := verifyCommitment_eq_ok.mp hverify
              exact ⟨who, c, id, ⟨hrec, hc, hcid⟩, hexp, (hget _ _).mp hmatches,
                (hget _ _).mp hlink⟩
            · cases hmatches
          · exact absurd hbreak (by simp)
        · exact absurd hid (by simp)
      · exact absurd hsig (by simp)
    · rintro ⟨-, who, c, id, haccepted⟩
      have hverify : verifyCommitment P (signedOf rec) expected = .ok who :=
        verifyCommitment_eq_ok.mpr ⟨haccepted.signed.recovered, haccepted.expected⟩
      have hmatches : idMatches P rec = true := by
        unfold idMatches
        rw [bind_eq_ok.mpr ⟨c, haccepted.signed.commitment, haccepted.signed.id⟩]
        exact (hget _ _).mpr haccepted.commitId
      refine ⟨?_, ?_, ?_, hst.duplicateRounds⟩
      · simp only [hverify, hst.sigFailures]
      · simp only [hmatches, ↓reduceIte, hst.idMismatches]
      · simp only [(hget _ _).mpr haccepted.prevCommitId, ↓reduceIte, hst.chainBreaks]

/-- After an accepted record the next one has to link to its id. -/
theorem ChainScan.expectedPrev_step {st : ChainScan} {rnd : ℤ} {rec : Json} {prev who id : String}
    {c : Commitment} (hseen : rnd ∉ st.seen.keys)
    (h : RecordAccepted P expected prev rec who c id) :
    (st.step P expected genesis (rnd, rec)).expectedPrev genesis = .str id := by
  unfold ChainScan.step
  dsimp only
  rw [if_neg hseen, ChainScan.expectedPrev, h.commitId]
  rfl

/-- The records are accepted one after the other, each linked to the id of the one before. -/
def Linked (P : Platform) (expected : Option String) : String → List (ℤ × Json) → Prop
  | _, [] => True
  | prev, (_, rec) :: t =>
    ∃ who c id, RecordAccepted P expected prev rec who c id ∧ Linked P expected id t

/-- **A clean run has accepted every record.** -/
theorem ChainScan.linked_of_clean {l : List (ℤ × Json)} {st : ChainScan} {prev : String}
    (hprev : st.expectedPrev genesis = .str prev)
    (h : (l.foldl (ChainScan.step P expected genesis) st).Clean) : Linked P expected prev l := by
  induction l generalizing st prev with
  | nil => trivial
  | cons entry l ih =>
    obtain ⟨rnd, rec⟩ := entry
    rw [List.foldl_cons] at h
    have hstep := ChainScan.clean_of_foldl h
    obtain ⟨hseen, who, c, id, haccepted⟩ :=
      (ChainScan.clean_step_iff (ChainScan.clean_of_step hstep) hprev).mp hstep
    exact ⟨who, c, id, haccepted, ih (ChainScan.expectedPrev_step hseen haccepted) h⟩

/-! ## The chain of the signed commitments -/

/-- The recovered signer is the expected one or, without one, the proposer the record states. -/
def Authored (T : PyText) (expected : Option String) (rec : Json) (who : String) : Prop :=
  match expected with
  | some e => T.lower who = T.lower e
  | none => ∃ stated, rec.get? "proposer" = some (.str stated) ∧ T.lower who = T.lower stated

/-- The signed commitments form one chain: each signed parent is the id of the commitment before,
each signed height is the round of its record, and each signer is the author. -/
def SignedChain (P : Platform) (expected : Option String) : String → List (ℤ × Json) → Prop
  | _, [] => True
  | prev, (rnd, rec) :: t =>
    ∃ who c id, SignedCommitment P rec who c id ∧ c.prevHash = .str prev ∧ c.height = rnd
      ∧ Authored P.toPyText expected rec who ∧ SignedChain P expected id t

/-- The unsigned fields of a record agree with its signed commitment. -/
def FieldsAgree (P : Platform) (expected : Option String) (rec : Json) : Prop :=
  ∃ who c id, SignedCommitment P rec who c id ∧ rec.get? "prev_commit_id" = some c.prevHash
    ∧ recordRound P.toPyText rec = .ok c.height
    ∧ (expected = none → Authored P.toPyText none rec who)

/-- A record has one signed commitment. -/
theorem SignedCommitment.unique {rec : Json} {who who' id id' : String} {c c' : Commitment}
    (h : SignedCommitment P rec who c id) (h' : SignedCommitment P rec who' c' id') :
    who = who' ∧ c = c' ∧ id = id' := by
  have hwho := h.recovered.symm.trans h'.recovered
  have hc := h.commitment.symm.trans h'.commitment
  cases hwho
  cases hc
  have hid := h.id.symm.trans h'.id
  cases hid
  exact ⟨rfl, rfl, rfl⟩

/-- **Along linked records, the signed commitments form a chain exactly when the unsigned fields
agree with them.** -/
theorem signedChain_iff_of_linked {l : List (ℤ × Json)} {prev : String}
    (hround : ∀ rnd rec, (rnd, rec) ∈ l → recordRound P.toPyText rec = .ok rnd)
    (h : Linked P expected prev l) :
    SignedChain P expected prev l ↔ ∀ rnd rec, (rnd, rec) ∈ l → FieldsAgree P expected rec := by
  induction l generalizing prev with
  | nil => simp [SignedChain]
  | cons entry l ih =>
    obtain ⟨rnd, rec⟩ := entry
    obtain ⟨who, c, id, haccepted, hlinked⟩ := h
    have hrest := ih (fun r rec' hmem => hround r rec' (List.mem_cons_of_mem _ hmem)) hlinked
    have hhead := hround rnd rec (List.mem_cons_self ..)
    constructor
    · rintro ⟨who', c', id', hsigned, hprev, hheight, hauthored, hchain⟩
      obtain ⟨rfl, rfl, rfl⟩ := haccepted.signed.unique hsigned
      intro r rec' hmem
      rcases List.mem_cons.mp hmem with heq | hmem
      · cases heq
        refine ⟨who, c, id, hsigned, ?_, hheight ▸ hhead, ?_⟩
        · rw [haccepted.prevCommitId, hprev]
        · rintro rfl
          exact hauthored
      · exact hrest.mp hchain r rec' hmem
    · intro hall
      obtain ⟨who', c', id', hsigned, hprev, hheight, hauthored⟩ :=
        hall rnd rec (List.mem_cons_self ..)
      obtain ⟨rfl, rfl, rfl⟩ := haccepted.signed.unique hsigned
      refine ⟨who, c, id, hsigned, ?_, ?_, ?_, hrest.mpr (fun r rec' hmem =>
        hall r rec' (List.mem_cons_of_mem _ hmem))⟩
      · rw [haccepted.prevCommitId] at hprev
        exact (Option.some.inj hprev).symm
      · rw [hhead] at hheight
        exact (Except.ok.inj hheight).symm
      · cases hexp : expected with
        | none => exact hauthored hexp
        | some e => exact haccepted.expected e hexp

/-- The records of the log, each with its round. -/
theorem mem_roundCommitments {records : List Json} {l : List (ℤ × Json)}
    (h : roundCommitments P.toPyText records = .ok l) :
    (∀ rnd rec, (rnd, rec) ∈ l → recordRound P.toPyText rec = .ok rnd)
      ∧ ∀ rec, (∃ rnd, (rnd, rec) ∈ l) ↔ rec ∈ records ∧ isRoundCommitment rec = true := by
  obtain ⟨entries, hentries, h⟩ := bind_eq_ok.mp h
  cases h
  have hall := forall₂_of_mapM hentries
  have hround : ∀ {rec : Json} {entry : ℤ × Json},
      (do return (← recordRound P.toPyText rec, rec) : Except PyErr (ℤ × Json)) = .ok entry →
      recordRound P.toPyText rec = .ok entry.1 ∧ entry.2 = rec := by
    intro rec entry heq
    obtain ⟨rnd, hrnd, heq⟩ := bind_eq_ok.mp heq
    cases heq
    exact ⟨hrnd, rfl⟩
  refine ⟨?_, ?_⟩
  · intro rnd rec hmem
    obtain ⟨rec', _, heq⟩ := exists_left_of_forall₂ hall ((List.mem_insertionSort _).mp hmem)
    obtain ⟨hrnd, hrec⟩ := hround heq
    rw [← show rec = rec' from hrec] at hrnd
    exact hrnd
  · intro rec
    rw [← List.mem_filter]
    constructor
    · rintro ⟨rnd, hmem⟩
      obtain ⟨rec', hrec', heq⟩ := exists_left_of_forall₂ hall ((List.mem_insertionSort _).mp hmem)
      rw [show rec = rec' from (hround heq).2]
      exact hrec'
    · intro hmem
      obtain ⟨⟨rnd, rec'⟩, hentry, heq⟩ := exists_right_of_forall₂ hall hmem
      obtain rfl : rec' = rec := (hround heq).2
      exact ⟨rnd, (List.mem_insertionSort _).mpr hentry⟩

/-- An accepted log is linked from the genesis seed. -/
theorem linked_of_ok {records : List Json} {report : ChainReport}
    (h : verifyCommitmentChain P records expected genesis = .ok report) (hok : report.ok = true) :
    ∃ l, roundCommitments P.toPyText records = .ok l ∧ Linked P expected genesis l := by
  obtain ⟨l, hl, h⟩ := bind_eq_ok.mp h
  cases h
  simp only [Bool.and_eq_true, List.isEmpty_iff] at hok
  obtain ⟨⟨⟨hsig, hid⟩, hbreak⟩, hdup⟩ := hok
  exact ⟨l, hl, ChainScan.linked_of_clean rfl ⟨hsig, hid, hbreak, hdup⟩⟩

/-- **On an accepted log the signed commitments form one chain if and only if the unsigned fields of
every record agree with its signed commitment.** -/
theorem signed_chain_iff (P : Platform) (records : List Json) (expected : Option String)
    (genesis : String) (report : ChainReport)
    (h : verifyCommitmentChain P records expected genesis = .ok report) (hok : report.ok = true) :
    (∃ l, roundCommitments P.toPyText records = .ok l ∧ SignedChain P expected genesis l) ↔
      ∀ rec ∈ records, isRoundCommitment rec = true → FieldsAgree P expected rec := by
  obtain ⟨l, hl, hlinked⟩ := linked_of_ok h hok
  obtain ⟨hround, hmem⟩ := mem_roundCommitments hl
  have hiff := signedChain_iff_of_linked hround hlinked
  constructor
  · rintro ⟨l', hl', hchain⟩ rec hrec hcommitment
    obtain rfl : l = l' := Except.ok.inj (hl.symm.trans hl')
    obtain ⟨rnd, hentry⟩ := (hmem rec).mpr ⟨hrec, hcommitment⟩
    exact hiff.mp hchain rnd rec hentry
  · intro hall
    refine ⟨l, hl, hiff.mpr fun rnd rec hentry => ?_⟩
    obtain ⟨hrec, hcommitment⟩ := (hmem rec).mp ⟨rnd, hentry⟩
    exact hall rec hrec hcommitment

/-! ## Logged commitments -/

/-- The fields of a logged record. -/
theorem get?_roundCommitmentRecord {T : PyText} {round nDeltas : ℤ} {mode commitId prevCommitId : String}
    {signed rec : Json}
    (h : roundCommitmentRecord T round mode signed commitId prevCommitId nDeltas = .ok rec) :
    isRoundCommitment rec = true ∧ recordRound T rec = .ok round
      ∧ rec.get? "commit_id" = some (.str commitId)
      ∧ rec.get? "prev_commit_id" = some (.str prevCommitId)
      ∧ rec.get? "signed" = some signed := by
  obtain ⟨sc, _, h⟩ := bind_eq_ok.mp h
  obtain ⟨proposer, _, h⟩ := bind_eq_ok.mp h
  obtain ⟨checkpoint, _, h⟩ := bind_eq_ok.mp h
  obtain ⟨score, _, h⟩ := bind_eq_ok.mp h
  obtain ⟨workScore, _, h⟩ := bind_eq_ok.mp h
  cases h
  refine ⟨?_, ?_, ?_, ?_, ?_⟩
  · simp [isRoundCommitment, Json.isObj, Json.get?_obj, Dict.lookup]
  · simp [recordRound, Json.get?_obj, Dict.lookup]
  all_goals simp [Json.get?_obj, Dict.lookup]

/-- **A log of one commitment that is logged with the genesis seed is accepted**, whatever parent
and height were signed. -/
theorem accepted_single {keys : Set String} (hkeys : IdealSigs P keys) {account : String}
    (haccount : account ∈ keys) {c : Commitment} {signed rec : Json} {id mode : String}
    {round nDeltas : ℤ} (hbuild : buildSignedRoundCommitment P account c = .ok (signed, id))
    (hrec : roundCommitmentRecord P.toPyText round mode signed id genesis nDeltas = .ok rec) :
    SignedCommitment P rec account c id
      ∧ roundCommitments P.toPyText [rec] = .ok [(round, rec)]
      ∧ ∃ report, verifyCommitmentChain P [rec] none genesis = .ok report ∧ report.ok = true := by
  obtain ⟨htype, hround, hid, hprev, hsigned⟩ := get?_roundCommitmentRecord hrec
  obtain ⟨signed', hsign, hbuild⟩ := bind_eq_ok.mp hbuild
  obtain ⟨id', hcid, hbuild⟩ := bind_eq_ok.mp hbuild
  cases hbuild
  have hwho := recoverSigner_signCommitment hkeys haccount hsign
  obtain ⟨data, hdata, hsign⟩ := bind_eq_ok.mp hsign
  obtain ⟨d, hd, hsign⟩ := bind_eq_ok.mp hsign
  cases hsign
  have hof : signedOf rec = .obj [
      ("commitment", d), ("signer", .str account),
      ("signature", .str (P.signMessage account (domainBytes "commit" data))),
      ("scheme", .str "secp256k1")] := by
    rw [signedOf, hsigned]
    rfl
  have hcommitment : SignedCommitment P rec account c id := by
    refine ⟨by rw [hof]; exact hwho, ?_, hcid⟩
    unfold commitmentOf
    rw [hof, Json.item_obj]
    exact Commitment.fromDict_canonical hd
  have hentries : roundCommitments P.toPyText [rec] = .ok [(round, rec)] := by
    unfold roundCommitments
    rw [List.filter_cons_of_pos htype, List.filter_nil, List.mapM_cons, hround]
    rfl
  have hclean : ((ChainScan.init).step P none genesis (round, rec)).Clean :=
    (ChainScan.clean_step_iff ⟨rfl, rfl, rfl, rfl⟩ (show _ = Json.str genesis from rfl)).mpr
      ⟨List.not_mem_nil, account, c, id, hcommitment, (fun _ h => nomatch h), hid, hprev⟩
  refine ⟨hcommitment, hentries, _, bind_eq_ok.mpr ⟨_, hentries, rfl⟩, ?_⟩
  simp only [Bool.and_eq_true, List.isEmpty_iff]
  exact ⟨⟨⟨hclean.sigFailures, hclean.idMismatches⟩, hclean.chainBreaks⟩, hclean.duplicateRounds⟩

/-- A built commitment can be logged. -/
theorem exists_roundCommitmentRecord {account : String} {c : Commitment} {signed : Json} {id : String}
    (hbuild : buildSignedRoundCommitment P account c = .ok (signed, id)) (round nDeltas : ℤ)
    (mode prev : String) :
    ∃ rec, roundCommitmentRecord P.toPyText round mode signed id prev nDeltas = .ok rec := by
  obtain ⟨signed', hsign, hbuild⟩ := bind_eq_ok.mp hbuild
  obtain ⟨id', hcid, hbuild⟩ := bind_eq_ok.mp hbuild
  cases hbuild
  obtain ⟨data, hdata, hsign⟩ := bind_eq_ok.mp hsign
  obtain ⟨d, hd, hsign⟩ := bind_eq_ok.mp hsign
  cases hsign
  obtain ⟨t, ht, hd⟩ := bind_eq_ok.mp hd
  cases hd
  have hscore : ∃ x, ((Json.str t).orElse (.float (.fin 0))).toFloat P.toPyText = .ok x := by
    unfold Json.orElse
    split
    · cases hw : c.workScore with
      | fin q =>
        rw [hw] at ht
        cases ht
        exact ⟨.fin q, by rw [Json.toFloat, P.parseFloat_format17g]⟩
      | _ =>
        rw [hw] at ht
        cases ht
    · exact ⟨_, rfl⟩
  obtain ⟨x, hx⟩ := hscore
  unfold roundCommitmentRecord
  simp only [Json.orElse_obj, Json.getD_obj, List.reverse_cons, List.reverse_nil, List.nil_append,
    List.cons_append, Dict.lookup, String.reduceEq, ↓reduceIte, ok_bind, Option.getD_some, hx]
  exact ⟨_, rfl⟩

/-- A commitment to round 3 on top of the genesis seed, logged as what it is. -/
theorem signed_chain_honest :
    ∃ rec report, verifyCommitmentChain Platform.ideal [rec] none "genesis" = .ok report
      ∧ report.ok = true
      ∧ ((∃ l, roundCommitments Platform.ideal.toPyText [rec] = .ok l
            ∧ SignedChain Platform.ideal none "genesis" l) ↔
          ∀ rec' ∈ [rec], isRoundCommitment rec' = true → FieldsAgree Platform.ideal none rec') := by
  obtain ⟨⟨signed, id⟩, hbuild⟩ : ∃ x, buildSignedRoundCommitment Platform.ideal "a"
      (roundCommitment Platform.ideal "a" 3 "genesis" "b" "c" "d" ∅ (.fin 0)) = .ok x := ⟨_, rfl⟩
  obtain ⟨rec, hrec⟩ := exists_roundCommitmentRecord hbuild 3 0 "audit" "genesis"
  obtain ⟨_, _, report, hreport, hok⟩ := accepted_single Platform.ideal_idealSigs
    (show "a" ∈ Platform.idealKeys by simp [Platform.idealKeys]) hbuild hrec
  exact ⟨rec, report, hreport, hok, signed_chain_iff Platform.ideal _ none "genesis" report hreport hok⟩

/-- A commitment of height 7 with another parent, logged as round 0 on top of the genesis seed. -/
theorem not_signed_chain_of_ok :
    ¬ ∀ (P : Platform) (records : List Json) (expected : Option String) (genesis : String)
        (report : ChainReport),
      verifyCommitmentChain P records expected genesis = .ok report → report.ok = true →
      ∃ l, roundCommitments P.toPyText records = .ok l ∧ SignedChain P expected genesis l := by
  intro h
  obtain ⟨⟨signed, id⟩, hbuild⟩ : ∃ x, buildSignedRoundCommitment Platform.ideal "a"
      (roundCommitment Platform.ideal "a" 7 "elsewhere" "b" "c" "d" ∅ (.fin 0)) = .ok x := ⟨_, rfl⟩
  obtain ⟨rec, hrec⟩ := exists_roundCommitmentRecord hbuild 0 0 "audit" "genesis"
  obtain ⟨hsigned, hentries, report, hreport, hok⟩ := accepted_single Platform.ideal_idealSigs
    (show "a" ∈ Platform.idealKeys by simp [Platform.idealKeys]) hbuild hrec
  obtain ⟨l, hl, hchain⟩ := h Platform.ideal [rec] none "genesis" report hreport hok
  obtain rfl : [(0, rec)] = l := Except.ok.inj (hentries.symm.trans hl)
  obtain ⟨who, c, id', hsigned', hprev, _⟩ := hchain
  obtain ⟨-, rfl, -⟩ := hsigned.unique hsigned'
  exact absurd hprev (by simp [roundCommitment])

end NeuraHash
