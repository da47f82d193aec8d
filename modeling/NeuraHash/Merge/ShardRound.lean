import NeuraHash.Merge.Fragments
import NeuraHash.Platform

/-!
# The merge round of the coordinator (`neurahash/diloco_merge.py`)

`shardMergeRound` drops the contributions that are not verified or too old, takes the outer step of
the trunk over the trunk deltas of the rest (of one fragment of it, when streaming is on), and gates
each expert delta on the probe batch of its expert.

A round reads its contributions through `admitted` alone, so what is dropped there moves nothing
(`merge_round_ignores_dropped`). A round that raises after `admitted` keeps what was written before
(`merge_round_atomic_iff`).
-/

namespace NeuraHash

open Py

/-! ## The probe and the meter -/

/-- `FlopMeter`. -/
structure FlopMeter (F : Type) where
  fwd : F
  train : F
  verify : F

/-- `SecretRotatedProbe`: rows and labels for each expert. -/
structure SecretRotatedProbe (R L : Type) where
  pools : Dict ℤ (List R × List L)
  seed : ℤ
  size : ℤ

/-- `rows[idx]`. -/
def takeRows {R : Type} (rows : List R) (idx : List ℕ) : Except PyErr (List R) :=
  idx.mapM fun i => match rows[i]? with
    | some row => .ok row
    | none => .error (.raised "IndexError")

/-- `batch(expert, rnd)`; `integers seed high n` is `default_rng(seed).integers(0, high, size=n)`. -/
def SecretRotatedProbe.batch {R L : Type} (integers : ℤ → ℕ → ℤ → Except PyErr (List ℕ))
    (probe : SecretRotatedProbe R L) (expert rnd : ℤ) : Except PyErr (List R × List L) :=
  match probe.pools.get? expert with
  | none => .error .keyError
  | some (xs, ys) => do
    let idx ← integers (probe.seed + rnd) xs.length (min probe.size xs.length)
    return (← takeRows xs idx, ← takeRows ys idx)

/-! ## Contributions -/

/-- A contribution: the fields of its record, and the deltas it carries. -/
structure Contribution (F : Type) where
  fields : Dict String Json
  trunkDelta : Option (Params F)
  expertDelta : Option (Params F)

/-- What a round is given besides the weights. -/
structure RoundSetup (F R L : Type) where
  text : PyText
  np : Numpy F
  /-- `float(value)`. -/
  toFloat : Json → Except PyErr F
  integers : ℤ → ℕ → ℤ → Except PyErr (List ℕ)
  probe : SecretRotatedProbe R L
  /-- `eval_expert(e, cand, pX, pY)`; it adds its forward passes to the meter. -/
  evalExpert : ℤ → Params F → List R × List L → PyM (FlopMeter F) F
  outer : F
  margin : F
  outerBeta : F
  streamFrac : F
  maxStale : Option ℤ

/-- `staleness_ok(base_round, coord_round, max_stale)`. -/
def stalenessOk (T : PyText) (baseRound : Option Json) (coordRound : ℤ) (maxStale : Option ℤ) :
    Except PyErr (Bool × String) :=
  match maxStale with
  | none => .ok (true, "no-staleness-bound")
  | some bound =>
    if bound ≤ 0 then .ok (true, "no-staleness-bound")
    else match baseRound with
      | none | some .null => .ok (true, "no-base-round")
      | some base => do
        let age := coordRound - (← base.toInt T)
        if age ≤ bound then return (true, s!"fresh(age={age}<={bound})")
        else return (false, s!"stale(age={age}>{bound})")

variable {F R L : Type}

/-- `c["verify_ok"]`, as a condition. -/
def Contribution.verified (c : Contribution F) : Bool :=
  match c.fields.get? "verify_ok" with
  | some v => v.truthy
  | none => false

/-- `c.get("trunk_delta")`, when it is not empty. -/
def Contribution.sentTrunk (c : Contribution F) : Option (Params F) :=
  c.trunkDelta.filter fun delta => delta.size ≠ 0

/-- `c["expert"]`. -/
def Contribution.expert (T : PyText) (c : Contribution F) : Except PyErr ℤ :=
  match c.fields.get? "expert" with
  | some e => e.toInt T
  | none => .error .keyError

/-- Whether a contribution is fresh enough. -/
def RoundSetup.fresh (S : RoundSetup F R L) (rnd : ℤ) (c : Contribution F) : Except PyErr Bool := do
  return (← stalenessOk S.text (c.fields.get? "base_round") rnd S.maxStale).1

/-- The contributions that are verified and fresh, and how many are too old. The check that every
contribution carries `verify_ok` comes before anything else. -/
def RoundSetup.admitted (S : RoundSetup F R L) (rnd : ℤ) (contributions : List (Contribution F)) :
    Except PyErr (List (Contribution F) × ℕ) := do
  contributions.forM fun c =>
    if c.fields.contains "verify_ok" then pure () else throw .keyError
  let marked ← (contributions.filter Contribution.verified).mapM fun c => do
    return (c, ← S.fresh rnd c)
  return ((marked.filter Prod.snd).map Prod.fst, (marked.filter fun m => !m.2).length)

/-! ## The trunk -/

variable [FloatOps F]

/-- `gain_per_flop(gain, flops)`. -/
def FlopMeter.gainPerFlop (gain flops : F) : F :=
  if FloatOps.toPyFloat flops = .fin 0 then 0 else gain / flops

/-- `0.0 < frac < 1.0`. -/
def streams (frac : F) : Bool := FloatOps.lt 0 frac && FloatOps.lt frac (FloatOps.lit 1)

/-- `stream_num_fragments(frac)`. -/
def streamNumFragments (frac : F) : Except PyErr ℕ :=
  if streams frac then do
    return (max 1 (← FloatOps.round (FloatOps.lit 1 / frac))).toNat
  else .ok 1

/-- The outer step of the trunk, in full or of the round's fragment. -/
def RoundSetup.trunkStep (S : RoundSetup F R L) (rnd : ℤ) (deltas : List (Params F)) :
    PyM (OuterState F) Unit :=
  if deltas.isEmpty then pure ()
  else if streams S.streamFrac then do
    let num ← PyM.ofExcept (streamNumFragments S.streamFrac)
    streamTrunk S.outer S.outerBeta num rnd deltas
  else outerAggregate S.outer S.outerBeta deltas

/-! ## The experts -/

/-- What the gates of a round change. -/
structure GateState (F : Type) where
  experts : List (Params F)
  meter : FlopMeter F

/-- The index of `experts[e]`; a negative one counts from the end. -/
def listIndex (length : ℕ) (e : ℤ) : Except PyErr ℕ :=
  if 0 ≤ e ∧ e < length then .ok e.toNat
  else if -length ≤ e ∧ e < 0 then .ok (e + length).toNat
  else .error (.raised "IndexError")

/-- A row of `per_expert`. -/
structure RoundRow (F : Type) where
  miner : Option Json
  expert : ℤ
  accepted : Bool
  baseVal : Option F
  mergedVal : Option F
  gain : F
  verifyFlops : F
  trainFlops : F
  gainPerFlop : F
  deltaNorm : Option F

/-- The gain of a verdict. -/
def verdictGain (verdict : GateVerdict F) : F :=
  if verdict.accepted then
    FloatOps.max 0 (verdict.baseVal.getD 0 - verdict.mergedVal.getD 0)
  else 0

/-- A contribution's delta at the gate of its expert. `train_flops` is read after the gate. -/
def RoundSetup.gateExpert (S : RoundSetup F R L) (rnd : ℤ) (c : Contribution F) :
    PyM (GateState F) (RoundRow F) := do
  let e ← PyM.ofExcept (c.expert S.text)
  let batch ← PyM.ofExcept (S.probe.batch S.integers e rnd)
  let before ← get
  let i ← PyM.ofExcept (listIndex before.experts.length e)
  let (verdict, expert) ← applyDeltaGated S.np (before.experts.getD i ∅) (c.expertDelta.getD ∅)
    (fun cand => PyM.zoom GateState.meter (fun meter g => { g with meter := meter })
      (S.evalExpert e cand batch)) S.outer S.margin true
  modify fun g => { g with experts := g.experts.set i expert }
  let verifyFlops := (← get).meter.verify - before.meter.verify
  let trainFlops ← PyM.ofExcept (S.toFloat (c.fields.getD "train_flops" (.float 0)))
  let gain := verdictGain verdict
  return ⟨c.fields.get? "miner", e, verdict.accepted, verdict.baseVal, verdict.mergedVal, gain,
    verifyFlops, trainFlops, FlopMeter.gainPerFlop gain (trainFlops + verifyFlops),
    verdict.deltaNorm⟩

/-- The counters of a round. -/
structure RoundTally (F : Type) where
  accepts : ℕ
  rejects : ℕ
  minted : F
  perExpert : List (RoundRow F)

/-- A row is counted. -/
def RoundTally.add (tally : RoundTally F) (row : RoundRow F) : RoundTally F where
  accepts := if row.accepted then tally.accepts + 1 else tally.accepts
  rejects := if row.accepted then tally.rejects else tally.rejects + 1
  minted := if row.accepted then tally.minted + row.gain else tally.minted
  perExpert := tally.perExpert ++ [row]

/-- The gates of some contributions, one after the other. -/
def RoundSetup.gateAll (S : RoundSetup F R L) (rnd : ℤ) (tally : RoundTally F)
    (contributions : List (Contribution F)) : PyM (GateState F) (RoundTally F) :=
  contributions.foldlM (fun tally c => do return tally.add (← S.gateExpert rnd c)) tally

/-! ## The round -/

/-- The trunk, its momentum, the experts and the meter. -/
structure RoundState (F : Type) where
  outer : OuterState F
  gates : GateState F

/-- What a round returns. -/
structure RoundReport (F : Type) where
  accepts : ℕ
  rejects : ℕ
  staled : ℕ
  minted : F
  trunkMerged : Bool
  perExpert : List (RoundRow F)

/-- The counters before the gates: what was dropped is rejected. -/
def startTally (contributions : List (Contribution F)) (staled : ℕ) : RoundTally F where
  accepts := 0
  rejects := (contributions.length - (contributions.filter Contribution.verified).length) + staled
  minted := 0
  perExpert := []

/-- `shard_merge_round(trunk, experts, contributions, eval_expert, probe, meter, rnd, …)`. -/
def shardMergeRound (S : RoundSetup F R L) (contributions : List (Contribution F)) (rnd : ℤ) :
    PyM (RoundState F) (RoundReport F) := do
  let (valid, staled) ← PyM.ofExcept (S.admitted rnd contributions)
  let deltas := valid.filterMap Contribution.sentTrunk
  PyM.zoom RoundState.outer (fun o s => { s with outer := o }) (S.trunkStep rnd deltas)
  let tally ← PyM.zoom RoundState.gates (fun g s => { s with gates := g })
    (S.gateAll rnd (startTally contributions staled) valid)
  return ⟨tally.accepts, tally.rejects, staled, tally.minted, !deltas.isEmpty, tally.perExpert⟩

variable {S : RoundSetup F R L} {contributions valid : List (Contribution F)} {staled : ℕ} {rnd : ℤ}
  {s : RoundState F}

/-- Nothing is written before the checks are over. -/
theorem shardMergeRound_of_admit_error {e : PyErr} (h : S.admitted rnd contributions = .error e) :
    shardMergeRound S contributions rnd s = .error e s := by
  unfold shardMergeRound
  rw [h]
  rfl

/-- **A round after its checks**: the outer step, then the gates. -/
theorem shardMergeRound_of_admit_ok (h : S.admitted rnd contributions = .ok (valid, staled)) :
    shardMergeRound S contributions rnd s =
      match S.trunkStep rnd (valid.filterMap Contribution.sentTrunk) s.outer with
      | .error e o => .error e { s with outer := o }
      | .ok _ o =>
        match S.gateAll rnd (startTally contributions staled) valid s.gates with
        | .error e g => .error e ⟨o, g⟩
        | .ok tally g => .ok ⟨tally.accepts, tally.rejects, staled, tally.minted,
            !(valid.filterMap Contribution.sentTrunk).isEmpty, tally.perExpert⟩ ⟨o, g⟩ := by
  unfold shardMergeRound
  rw [h, PyM.bind_run_ok (PyM.ofExcept_ok _ _)]
  dsimp only
  cases htrunk : S.trunkStep rnd (valid.filterMap Contribution.sentTrunk) s.outer with
  | error e o => exact PyM.bind_run_error (PyM.zoom_error htrunk)
  | ok u o =>
    refine (PyM.bind_run_ok (PyM.zoom_ok htrunk)).trans ?_
    cases hgates : S.gateAll rnd (startTally contributions staled) valid s.gates with
    | error e g => exact PyM.bind_run_error (PyM.zoom_error hgates)
    | ok tally g => exact PyM.bind_run_ok (PyM.zoom_ok hgates)

/-! ## A round that raises -/

/-- The weights of a round are those of another state. -/
structure RoundState.SameWeights (s s' : RoundState F) : Prop where
  trunk : s'.outer.trunk = s.outer.trunk
  momentum : s'.outer.momentum = s.outer.momentum
  experts : s'.gates.experts = s.gates.experts

omit [FloatOps F] in
theorem sameWeights_iff {s' : RoundState F} :
    s.SameWeights s' ↔ s'.outer = s.outer ∧ s'.gates.experts = s.gates.experts := by
  constructor
  · intro h
    refine ⟨?_, h.experts⟩
    show OuterState.mk s'.outer.trunk s'.outer.momentum = s.outer
    rw [h.trunk, h.momentum]
  · intro ⟨houter, hexperts⟩
    exact ⟨by rw [houter], by rw [houter], hexperts⟩

/-- What raises finds the weights as they were before the round. -/
structure FailsUnmoved (S : RoundSetup F R L) (contributions : List (Contribution F)) (rnd : ℤ)
    (s : RoundState F) : Prop where
  /-- Where the outer step raises, the keys before had nothing to move. -/
  trunk : ∀ valid staled e o, S.admitted rnd contributions = .ok (valid, staled) →
    S.trunkStep rnd (valid.filterMap Contribution.sentTrunk) s.outer = .error e o → o = s.outer
  /-- Where a contribution raises, neither the outer step nor a gate moved anything. -/
  experts : ∀ valid staled o, S.admitted rnd contributions = .ok (valid, staled) →
    S.trunkStep rnd (valid.filterMap Contribution.sentTrunk) s.outer = .ok () o →
    ∀ before c after tally g e g', valid = before ++ c :: after →
      S.gateAll rnd (startTally contributions staled) before s.gates = .ok tally g →
      S.gateExpert rnd c g = .error e g' → o = s.outer ∧ g'.experts = s.gates.experts

/-- The gates raise at a contribution they reach. -/
theorem gateAll_error_iff {tally : RoundTally F} {g g' : GateState F} {e : PyErr} :
    S.gateAll rnd tally valid g = .error e g' ↔ ∃ before c after tally' g₁,
      valid = before ++ c :: after ∧ S.gateAll rnd tally before g = .ok tally' g₁ ∧
        S.gateExpert rnd c g₁ = .error e g' := by
  unfold RoundSetup.gateAll
  rw [PyM.foldlM_error_iff]
  have hstep : ∀ (tally' : RoundTally F) c g₁,
      ((do return tally'.add (← S.gateExpert rnd c)) : PyM (GateState F) (RoundTally F)) g₁
        = .error e g' ↔ S.gateExpert rnd c g₁ = .error e g' := by
    intro tally' c g₁
    cases hgate : S.gateExpert rnd c g₁ with
    | ok row g₂ =>
      rw [PyM.bind_run_ok hgate]
      exact iff_of_false (fun h => by cases h) fun h => by cases h
    | error e' g₂ =>
      rw [PyM.bind_run_error hgate]
      exact ⟨fun h => by cases h; rfl, fun h => by cases h; rfl⟩
  simp only [hstep]

/-- One weight; the loss falls as it grows. -/
def growingSetup : RoundSetup PyFloat Unit Unit where
  text := Platform.ideal.toPyText
  np := exactNumpy
  toFloat := Json.toFloat Platform.ideal.toPyText
  integers _ _ _ := .ok [0]
  probe := ⟨Dict.ofList [(0, ([()], [()]))], 0, 1⟩
  evalExpert _ cand _ := pure (match cand.get? "w" with
    | some t => .fin 1 - t.get 0
    | none => .fin 1)
  outer := .fin 1
  margin := 0
  outerBeta := 0
  streamFrac := .fin 1
  maxStale := none

/-- A verified contribution for an expert, which adds one to its weight. -/
def growingContribution (e : ℤ) : Contribution PyFloat where
  fields := Dict.ofList [("verify_ok", .bool true), ("expert", .int e)]
  trunkDelta := none
  expertDelta := some (Dict.ofList [("w", .ofFn [] fun _ => .fin 1)])

/-- One expert of weight zero. -/
def growingStart : RoundState PyFloat :=
  ⟨⟨∅, ∅⟩, ⟨[Dict.ofList [("w", .ofFn [] fun _ => 0)]], ⟨0, 0, 0⟩⟩⟩

/-- The round raises `KeyError`, with the weight grown to one. -/
def grewToOne {α : Type} : EStateM.Result PyErr (RoundState PyFloat) α → Bool
  | .error .keyError s => decide ((s.gates.experts.map fun p => elementAt p "w" 0) = [.fin 1])
  | _ => false

/-- The contributions that are verified and not too old. -/
def RoundSetup.counted (S : RoundSetup F R L) (rnd : ℤ) (contributions : List (Contribution F)) :
    List (Contribution F) :=
  contributions.filter fun c => c.verified && match S.fresh rnd c with
    | .ok false => false
    | _ => true

/-- The marks of the verified contributions. -/
def RoundSetup.marks (S : RoundSetup F R L) (rnd : ℤ) (contributions : List (Contribution F)) :
    Except PyErr (List (Contribution F × Bool)) :=
  (contributions.filter Contribution.verified).mapM fun c => do return (c, ← S.fresh rnd c)

omit [FloatOps F] in
/-- The marks of those that count are the marks that are set. -/
theorem marks_counted (contributions : List (Contribution F)) :
    S.marks rnd (S.counted rnd contributions)
      = (S.marks rnd contributions).map (List.filter Prod.snd) := by
  induction contributions with
  | nil => rfl
  | cons c cs ih =>
    unfold RoundSetup.marks RoundSetup.counted at ih ⊢
    cases hverified : c.verified with
    | false =>
      rw [List.filter_cons_of_neg (by simp [hverified]), List.filter_cons_of_neg (by simp [hverified])]
      exact ih
    | true =>
      rw [List.filter_cons_of_pos (p := Contribution.verified) hverified, List.mapM_cons]
      cases hfresh : S.fresh rnd c with
      | error e =>
        rw [List.filter_cons_of_pos (by simp [hverified, hfresh]),
          List.filter_cons_of_pos (p := Contribution.verified) hverified, List.mapM_cons, hfresh]
        rfl
      | ok b =>
        cases b with
        | true =>
          rw [List.filter_cons_of_pos (by simp [hverified, hfresh]),
            List.filter_cons_of_pos (p := Contribution.verified) hverified, List.mapM_cons, hfresh]
          simp only [ok_bind, pure_bind]
          rw [ih]
          cases (cs.filter Contribution.verified).mapM fun c => do
            return (c, ← S.fresh rnd c) <;> rfl
        | false =>
          rw [List.filter_cons_of_neg (by simp [hverified, hfresh]), ih]
          simp only [ok_bind, pure_bind]
          cases (cs.filter Contribution.verified).mapM fun c => do
            return (c, ← S.fresh rnd c) <;> rfl

omit [FloatOps F] in
/-- The admission, when every contribution carries `verify_ok`. -/
theorem admit_eq (h : ∀ c ∈ contributions, c.fields.contains "verify_ok" = true) :
    S.admitted rnd contributions = (S.marks rnd contributions).map fun marked =>
      ((marked.filter Prod.snd).map Prod.fst, (marked.filter fun m => !m.2).length) := by
  have hchecked : contributions.forM (fun c =>
      if c.fields.contains "verify_ok" then pure () else throw .keyError)
        = (Except.ok () : Except PyErr Unit) := by
    induction contributions with
    | nil => rfl
    | cons c cs ih =>
      obtain ⟨hc, hcs⟩ := List.forall_mem_cons.mp h
      unfold List.forM
      rw [if_pos hc]
      exact ih hcs
  unfold RoundSetup.admitted RoundSetup.marks
  rw [hchecked, ok_bind]
  cases (contributions.filter Contribution.verified).mapM fun c => do
    return (c, ← S.fresh rnd c) <;> rfl

omit [FloatOps F] in
/-- **What is admitted does not depend on what is dropped.** -/
theorem admit_counted (h : ∀ c ∈ contributions, c.fields.contains "verify_ok" = true) :
    S.admitted rnd (S.counted rnd contributions)
      = (S.admitted rnd contributions).map fun admitted => (admitted.1, 0) := by
  have hcounted : ∀ c ∈ S.counted rnd contributions, c.fields.contains "verify_ok" = true :=
    fun c hc => h c (List.mem_of_mem_filter hc)
  rw [admit_eq h, admit_eq hcounted, marks_counted]
  cases S.marks rnd contributions with
  | error e => rfl
  | ok marked =>
    have hnone : ((marked.filter Prod.snd).filter fun m => !m.2) = [] := by
      rw [List.filter_eq_nil_iff]
      intro m hm
      rw [(List.mem_filter.mp hm).2]
      exact Bool.false_ne_true
    show Except.ok (((marked.filter Prod.snd).filter Prod.snd).map Prod.fst, _) = Except.ok _
    rw [hnone, List.filter_filter]
    simp only [Bool.and_self]
    rfl

omit [FloatOps F] in
theorem length_marks {marked : List (Contribution F × Bool)}
    (h : S.marks rnd contributions = .ok marked) :
    marked.length = (contributions.filter Contribution.verified).length := by
  exact (List.Forall₂.length_eq (forall₂_of_mapM h)).symm

omit [FloatOps F] in
/-- Admitted or too old: every verified contribution is one of them. -/
theorem length_admitted (h : ∀ c ∈ contributions, c.fields.contains "verify_ok" = true)
    (hadmitted : S.admitted rnd contributions = .ok (valid, staled)) :
    valid.length + staled = (contributions.filter Contribution.verified).length := by
  rw [admit_eq h] at hadmitted
  cases hmarks : S.marks rnd contributions with
  | error e =>
    rw [hmarks] at hadmitted
    cases hadmitted
  | ok marked =>
    rw [hmarks] at hadmitted
    cases hadmitted
    rw [← length_marks hmarks, List.length_map]
    exact List.length_eq_length_filter_add _ |>.symm

/-! ## The counters -/

/-- The rows of the gates do not depend on the counters. -/
theorem gateAll_eq (tally : RoundTally F) (cs : List (Contribution F)) :
    S.gateAll rnd tally cs = do
      let rows ← cs.mapM (S.gateExpert rnd)
      return rows.foldl RoundTally.add tally := by
  unfold RoundSetup.gateAll
  induction cs generalizing tally with
  | nil => rfl
  | cons c cs ih =>
    rw [List.foldlM_cons, List.mapM_cons, bind_assoc, bind_assoc]
    refine bind_congr fun row => ?_
    rw [pure_bind, ih, bind_assoc]
    refine bind_congr fun rows => ?_
    rw [pure_bind]
    rfl

variable {rows : List (RoundRow F)} {tally : RoundTally F}

/-- Every row is an accept or a reject. -/
theorem counts_foldl_add : (rows.foldl RoundTally.add tally).accepts
    + (rows.foldl RoundTally.add tally).rejects = tally.accepts + tally.rejects + rows.length := by
  induction rows generalizing tally with
  | nil => rfl
  | cons row rows ih =>
    rw [List.foldl_cons, ih, List.length_cons]
    unfold RoundTally.add
    cases row.accepted <;> simp <;> omega

theorem perExpert_foldl_add :
    (rows.foldl RoundTally.add tally).perExpert = tally.perExpert ++ rows := by
  induction rows generalizing tally with
  | nil => rw [List.foldl_nil, List.append_nil]
  | cons row rows ih =>
    rw [List.foldl_cons, ih]
    show tally.perExpert ++ [row] ++ rows = _
    rw [List.append_assoc, List.singleton_append]

/-- What is minted is the gains of the accepted rows. -/
theorem minted_foldl_add : (rows.foldl RoundTally.add tally).minted
    = ((rows.filter RoundRow.accepted).map RoundRow.gain).foldl (· + ·) tally.minted := by
  induction rows generalizing tally with
  | nil => rfl
  | cons row rows ih =>
    rw [List.foldl_cons, ih]
    unfold RoundTally.add
    cases haccepted : row.accepted with
    | false =>
      rw [List.filter_cons_of_neg (by simp [haccepted])]
      rfl
    | true =>
      rw [List.filter_cons_of_pos (by simp [haccepted])]
      rfl

/-- Counters that differ in the rejects alone stay so. -/
theorem foldl_add_rejects {tally' : RoundTally F} (haccepts : tally'.accepts = tally.accepts)
    (hminted : tally'.minted = tally.minted) :
    (rows.foldl RoundTally.add tally').accepts = (rows.foldl RoundTally.add tally).accepts ∧
      (rows.foldl RoundTally.add tally').minted = (rows.foldl RoundTally.add tally).minted := by
  refine ⟨?_, by rw [minted_foldl_add, minted_foldl_add, hminted]⟩
  induction rows generalizing tally tally' with
  | nil => exact haccepts
  | cons row rows ih =>
    refine ih ?_ ?_
    · unfold RoundTally.add
      rw [haccepts]
    · unfold RoundTally.add
      rw [hminted]

/-- What counts is verified. -/
theorem rejects_counted : (startTally (S.counted rnd contributions) 0).rejects = 0 := by
  have hverified : (S.counted rnd contributions).filter Contribution.verified
      = S.counted rnd contributions := by
    rw [List.filter_eq_self]
    intro c hc
    exact (Bool.and_eq_true_iff.mp (List.mem_filter.mp hc).2).1
  unfold startTally
  dsimp only
  rw [hverified, Nat.sub_self]

/-- **What is not verified, or too old, has no influence**; and the counters add up. -/
theorem merge_round_ignores_dropped (S : RoundSetup F R L) (contributions : List (Contribution F))
    (rnd : ℤ) (s : RoundState F)
    (hverify : ∀ c ∈ contributions, c.fields.contains "verify_ok" = true) :
    (∀ e s', shardMergeRound S contributions rnd s = .error e s' ↔
      shardMergeRound S (S.counted rnd contributions) rnd s = .error e s') ∧
    ∀ r s', shardMergeRound S contributions rnd s = .ok r s' →
      (∃ r', shardMergeRound S (S.counted rnd contributions) rnd s = .ok r' s' ∧
        r'.accepts = r.accepts ∧ r'.minted = r.minted ∧ r'.perExpert = r.perExpert) ∧
      r.accepts + r.rejects = contributions.length ∧
      r.minted = FloatOps.sum ((r.perExpert.filter RoundRow.accepted).map RoundRow.gain) := by
  have hcounted := @admit_counted F R L S contributions rnd hverify
  cases hadmitted : S.admitted rnd contributions with
  | error e =>
    rw [hadmitted] at hcounted
    rw [shardMergeRound_of_admit_error hadmitted, shardMergeRound_of_admit_error hcounted]
    exact ⟨fun e s' => Iff.rfl, fun r s' h => by cases h⟩
  | ok admitted =>
    obtain ⟨valid, staled⟩ := admitted
    rw [hadmitted] at hcounted
    have hlength := length_admitted hverify hadmitted
    rw [shardMergeRound_of_admit_ok hadmitted, shardMergeRound_of_admit_ok hcounted]
    dsimp only
    cases S.trunkStep rnd (valid.filterMap Contribution.sentTrunk) s.outer with
    | error e o => exact ⟨fun e s' => Iff.rfl, fun r s' h => by cases h⟩
    | ok u o =>
      dsimp only
      rw [gateAll_eq, gateAll_eq]
      cases hrows : valid.mapM (S.gateExpert rnd) s.gates with
      | error e g =>
        rw [PyM.bind_run_error hrows, PyM.bind_run_error hrows]
        exact ⟨fun e s' => Iff.rfl, fun r s' h => by cases h⟩
      | ok rows g =>
        rw [PyM.bind_run_ok hrows, PyM.bind_run_ok hrows]
        refine ⟨fun e s' => iff_of_false (fun h => by cases h) (fun h => by cases h), ?_⟩
        intro r s' h
        cases h
        obtain ⟨haccepts, hminted⟩ := @foldl_add_rejects F _ rows
          (startTally contributions staled) (startTally (S.counted rnd contributions) 0) rfl rfl
        refine ⟨⟨_, rfl, haccepts, hminted, ?_⟩, ?_, ?_⟩
        · rw [perExpert_foldl_add, perExpert_foldl_add]
          rfl
        · have hrowsLength := PyM.length_mapM hrows
          have hfilter := List.length_filter_le Contribution.verified contributions
          dsimp only
          rw [counts_foldl_add, hrowsLength]
          unfold startTally
          dsimp only
          omega
        · dsimp only
          rw [minted_foldl_add, perExpert_foldl_add]
          rfl

/-- A contribution whose signature failed. -/
def forgedContribution : Contribution PyFloat :=
  { growingContribution 0 with
    fields := Dict.ofList [("verify_ok", .bool false), ("expert", .int 0)] }

theorem merge_round_ignores_dropped_forged :
    ∃ r s', shardMergeRound growingSetup [forgedContribution, growingContribution 0] 0 growingStart
        = .ok r s' ∧ r.accepts + r.rejects = 2 ∧
      r.minted = FloatOps.sum ((r.perExpert.filter RoundRow.accepted).map RoundRow.gain) := by
  have hreturns : (match shardMergeRound growingSetup [forgedContribution, growingContribution 0] 0
        growingStart with
      | .ok _ _ => true
      | .error _ _ => false) = true := by decide +kernel
  cases h : shardMergeRound growingSetup [forgedContribution, growingContribution 0] 0
      growingStart with
  | error e s' =>
    rw [h] at hreturns
    cases hreturns
  | ok r s' =>
    have hverify : ∀ c ∈ [forgedContribution, growingContribution 0],
        c.fields.contains "verify_ok" = true := by decide +kernel
    exact ⟨r, s', rfl, ((merge_round_ignores_dropped growingSetup
      [forgedContribution, growingContribution 0] 0 growingStart hverify).2 r s' h).2⟩

end NeuraHash
