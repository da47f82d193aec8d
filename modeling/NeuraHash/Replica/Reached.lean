import NeuraHash.Replica.Resume

/-!
# What a resume reports

A resume of an own coordinate that reports its root reached should hold the root the newest accepted
record states for that coordinate, and one that reports `empty` should have fetched every accepted
record (`TellsTruth`). The flag it reports from is set by the last record that was folded, so a
record that is lost, taken back, or moves the coordinate without stating a root leaves a report that
is stale. `Straight` is what rules this out.
-/

namespace NeuraHash

open Py

/-- The lane serves objects by their content. -/
def Serves {ω : Type} (lane : Lane ω) (objects : Json → Option Json) : Prop :=
  ∀ sha world record world', lane.getJson sha world = (.value record, world') →
    objects sha = some record

section Reached

variable {host : LaneHost} {ω : Type}

/-! ## The accepted records of a manifest -/

section Listed

variable (T : PyText) (objects : Json → Option Json) (man : Manifest)
  (campaign : Option CampaignId) (own : OwnCoord)

/-- The manifest has an entry for the accepted record of an event. -/
def listed (e : ℤ) : Bool := ((man.get? (acceptedName campaign e)).getD .null).truthy

/-- The accepted record of an event. -/
def listedRecord (e : ℤ) : Option Json :=
  let entry := (man.get? (acceptedName campaign e)).getD .null
  if entry.truthy then (entry.item "sha256").toOption.bind objects else none

/-- The root a record states for the own coordinate. -/
def statedIn (record : Json) : Option String :=
  match recordUse T (some own) record with
  | .ok (.advertises root) => some root
  | _ => none

/-- The root the accepted record of an event states for the own coordinate. -/
def stated (e : ℤ) : Option String := (listedRecord objects man campaign e).bind (statedIn T own)

/-- The root the newest record that advertises the own coordinate states for it. -/
def newestStated (events : List ℤ) : Option String :=
  (events.filterMap (stated T objects man campaign own)).getLast?

end Listed

/-! ## What is reported -/

variable (E : MinerEnv) (objects : Json → Option Json)

/-- **The resume tells the truth**: where it reports the own coordinate's root reached, the slot has
the root the newest accepted record states, and where it reports `empty`, every accepted record was
fetched and none advertises the coordinate. -/
structure TellsTruth (lane : Lane ω) (bounds : ResumeBounds) (targetRoot : Json) (c : Coord)
    (man : Option Manifest) (s : Weights host × ω) : Prop where
  early : ∀ outcome s₁, resumePlan E lane bounds targetRoot (some c) man s = .ok (.inl outcome) s₁ →
    outcome.reason ≠ .alreadyAtRoot → outcome.reached = false ∧ outcome.reason ≠ .empty
  reached : ∀ plan own s₁ outcome s',
    resumePlan E lane bounds targetRoot (some c) man s = .ok (.inr plan) s₁ →
    plan.own = some own → resumeToRoot E lane bounds targetRoot (some c) man s = .ok outcome s' →
    outcome.reached = true → ∃ events, acceptedEventsIn E plan.man host.campaign = .ok events
      ∧ newestStated E.toPyText objects plan.man host.campaign own events
        = some (slotRoot E s'.1 own.slot)
  empty : ∀ plan own s₁ outcome s',
    resumePlan E lane bounds targetRoot (some c) man s = .ok (.inr plan) s₁ →
    plan.own = some own → resumeToRoot E lane bounds targetRoot (some c) man s = .ok outcome s' →
    outcome.reason = .empty → ∃ events, acceptedEventsIn E plan.man host.campaign = .ok events
      ∧ outcome.scanned = events.countP (listed plan.man host.campaign)
      ∧ ∀ e ∈ events, stated E.toPyText objects plan.man host.campaign own e = none

/-- The fold of a record leaves no stale report: an advertised root is folded, and a record that
states no root leaves the own coordinate's. -/
def Fresh (plan : ResumePlan ω) (own : OwnCoord) (record : Json) (s : Weights host × ω) : Prop :=
  ∀ verdict s', resumeFold E plan record s = .ok verdict s' →
    match recordUse E.toPyText (some own) record with
    | .ok (.advertises _) => verdict = .ok
    | .ok .legacy => slotRoot E s'.1 own.slot = slotRoot E s.1 own.slot
    | _ => True

/-- **What makes a replay tell the truth**: the accepted records are no more than it may replay, a
fetch fails before the first record that advertises the coordinate or while a root is held and a
newer one is listed by a timeout only, and a fold that follows a root that was reached leaves no
stale report, unless a newer record advertises the coordinate. -/
structure Straight (plan : ResumePlan ω) (own : OwnCoord) (s : Weights host × ω) : Prop where
  all : ∀ events, acceptedEventsIn E plan.man host.campaign = .ok events →
    events.length ≤ plan.bounds.maxRecords
  fetched : ∀ before e after st s₁ st' s₂, ComesTo E plan s before e after st s₁ →
    onLane (scanRecord plan host.campaign st e) s₁ = .ok (st', .broken) s₂ →
    st.applicable ≠ 0 ∧ (st.hit = true →
      ∀ e' ∈ e :: after, stated E.toPyText objects plan.man host.campaign own e' = none)
  folded : ∀ before e after st s₁ st' record s₂, ComesTo E plan s before e after st s₁ →
    onLane (scanRecord plan host.campaign st e) s₁ = .ok (st', .record record) s₂ →
    st.hit = true →
    (∀ e' ∈ after, stated E.toPyText objects plan.man host.campaign own e' = none) →
      Fresh E plan own record s₂

/-! ## A turn -/

variable {E objects} {plan : ResumePlan ω} {own : OwnCoord} {st st' : ScanState} {e : ℤ}
  {record : Json} {s s' : Weights host × ω}

theorem listedRecord_of_fetch {bounded : BoundedLane ω} (hserves : Serves bounded.lane objects)
    {man : Manifest} {campaign : Option CampaignId} {world world' : ω}
    (hlisted : listed man campaign e = true)
    (h : fetchRecord bounded ((man.get? (acceptedName campaign e)).getD .null) world
      = .ok record world') : listedRecord objects man campaign e = some record := by
  unfold listed at hlisted
  unfold listedRecord
  dsimp only
  rw [if_pos hlisted]
  generalize (man.get? (acceptedName campaign e)).getD .null = entry at h
  unfold fetchRecord at h
  cases hsha : entry.item "sha256" with
  | error err =>
    rw [hsha] at h
    cases h
  | ok sha =>
    rw [hsha, PyM.bind_run_ok (PyM.ofExcept_ok _ _)] at h
    obtain ⟨world₁, hvalue⟩ := bounded.call_ok h
    exact hserves sha world₁ record world' hvalue

/-- What a turn finds. -/
theorem scanRecord_cases {campaign : Option CampaignId} {found : Scanned} {world world' : ω}
    (hserves : Serves plan.bounded.lane objects)
    (h : scanRecord plan campaign st e world = .ok (st', found) world') :
    (∃ reason, found = .aborted reason) ∨ (found = .absent ∧ st' = st
        ∧ listed plan.man campaign e = false)
      ∨ (found = .broken ∧ ∃ now, st' = { st with lastProgress := now })
      ∨ ∃ record, found = .record record ∧ listed plan.man campaign e = true
        ∧ listedRecord objects plan.man campaign e = some record
        ∧ ∃ now, st' = { st with lastProgress := now, scanned := st.scanned + 1 } := by
  obtain ⟨reason, world₁, hbounds⟩ := checkBounds_returns plan st world
  unfold scanRecord at h
  rw [PyM.bind_run_ok hbounds] at h
  cases reason with
  | some reason =>
    cases h
    exact Or.inl ⟨reason, rfl⟩
  | none =>
    dsimp only at h
    by_cases hlisted : listed plan.man campaign e = true
    · have hentry : ¬ (!((plan.man.get? (acceptedName campaign e)).getD .null).truthy) = true := by
        unfold listed at hlisted
        rw [hlisted]
        exact nofun
      rw [if_neg hentry, PyM.bind_run_ok (Lane.clock_run _ _)] at h
      generalize (plan.bounded.lane.now world₁).2 = world₂ at h
      cases hfetch : fetchRecord plan.bounded
          ((plan.man.get? (acceptedName campaign e)).getD .null) world₂ with
      | ok record world₃ =>
        rw [PyM.bind_run_ok (PyM.attempt_ok hfetch)] at h
        cases h
        exact Or.inr (Or.inr (Or.inr ⟨record, rfl, hlisted,
          listedRecord_of_fetch hserves hlisted hfetch, _, rfl⟩))
      | error err world₃ =>
        rw [PyM.bind_run_ok (PyM.attempt_error hfetch)] at h
        cases h
        by_cases herr : err = catchupTimeout
        · rw [if_pos herr]
          exact Or.inl ⟨_, rfl⟩
        · rw [if_neg herr]
          exact Or.inr (Or.inr (Or.inl ⟨rfl, _, rfl⟩))
    · have hentry : (!((plan.man.get? (acceptedName campaign e)).getD .null).truthy) = true := by
        unfold listed at hlisted
        rw [Bool.not_eq_true] at hlisted
        rw [hlisted]
        rfl
      rw [if_pos hentry] at h
      cases h
      exact Or.inr (Or.inl ⟨rfl, rfl, (Bool.not_eq_true _).mp hlisted⟩)

/-- A replay of an own coordinate is not stopped by the global root, and a record it comes past is
of no use, or is folded or taken back. -/
theorem replayRecord_cases (hown : plan.own = some own)
    {turn : PyM.Turn ScanState (ScanEnd × ScanState)}
    (h : replayRecord E plan st record s = .ok turn s') :
    (∃ st', turn = .stop (.aborted .callTimeout, st'))
      ∨ ∃ st', turn = .next st' ∧ st'.scanned = st.scanned
        ∧ ((recordUse E.toPyText (some own) record = .ok .skipped ∧ s' = s
            ∧ st'.applicable = st.applicable ∧ st'.hit = st.hit)
          ∨ ∃ verdict, resumeFold E plan record s = .ok verdict s'
            ∧ ((recordUse E.toPyText (some own) record = .ok .legacy
                ∧ st'.applicable = st.applicable ∧ st'.hit = st.hit)
              ∨ ∃ root, recordUse E.toPyText (some own) record = .ok (.advertises root)
                ∧ st'.applicable = st.applicable + 1
                ∧ st'.hit = match verdict with
                  | .ok => decide (slotRoot E s'.1 own.slot = root)
                  | _ => st.hit)) := by
  unfold replayRecord at h
  rw [hown] at h
  cases huse : recordUse E.toPyText (some own) record with
  | error err =>
    rw [huse] at h
    cases h
  | ok use =>
    rw [huse, PyM.bind_run_ok (PyM.ofExcept_ok _ _)] at h
    by_cases hskipped : use = .skipped
    · rw [if_pos hskipped] at h
      cases h
      exact Or.inr ⟨st, rfl, rfl, Or.inl ⟨by rw [hskipped], rfl, rfl, rfl⟩⟩
    · rw [if_neg hskipped] at h
      cases hfold : resumeFold E plan record s with
      | error err s₁ =>
        rw [PyM.bind_run_ok (PyM.attempt_error hfold)] at h
        dsimp only at h
        split at h
        · cases h
          exact Or.inl ⟨_, rfl⟩
        · cases h
      | ok verdict s₁ =>
        rw [PyM.bind_run_ok (PyM.attempt_ok hfold)] at h
        refine Or.inr ?_
        cases use with
        | skipped => exact absurd rfl hskipped
        | legacy =>
          cases verdict with
          | ok =>
            cases h
            exact ⟨_, rfl, rfl, Or.inr ⟨.ok, rfl, Or.inl ⟨rfl, rfl, rfl⟩⟩⟩
          | poison rejected =>
            cases h
            exact ⟨_, rfl, rfl, Or.inr ⟨_, rfl, Or.inl ⟨rfl, rfl, rfl⟩⟩⟩
          | lineage =>
            cases h
            exact ⟨_, rfl, rfl, Or.inr ⟨_, rfl, Or.inl ⟨rfl, rfl, rfl⟩⟩⟩
        | advertises root =>
          cases verdict with
          | ok =>
            cases h
            exact ⟨_, rfl, rfl, Or.inr ⟨.ok, rfl, Or.inr ⟨root, rfl, rfl, rfl⟩⟩⟩
          | poison rejected =>
            cases h
            exact ⟨_, rfl, rfl, Or.inr ⟨_, rfl, Or.inr ⟨root, rfl, rfl, rfl⟩⟩⟩
          | lineage =>
            cases h
            exact ⟨_, rfl, rfl, Or.inr ⟨_, rfl, Or.inr ⟨root, rfl, rfl, rfl⟩⟩⟩

theorem stated_of_not_listed {man : Manifest} {campaign : Option CampaignId}
    (h : listed man campaign e = false) : stated E.toPyText objects man campaign own e = none := by
  unfold listed at h
  unfold stated listedRecord
  dsimp only
  rw [h]
  rfl

theorem stated_of_record {man : Manifest} {campaign : Option CampaignId}
    (h : listedRecord objects man campaign e = some record) :
    stated E.toPyText objects man campaign own e = statedIn E.toPyText own record := by
  unfold stated
  rw [h]
  rfl

section Newest

variable {T : PyText} {man : Manifest} {campaign : Option CampaignId} {before : List ℤ}

theorem newestStated_concat_none (h : stated T objects man campaign own e = none) :
    newestStated T objects man campaign own (before ++ [e])
      = newestStated T objects man campaign own before := by
  unfold newestStated
  rw [List.filterMap_append, List.filterMap_cons_none h, List.filterMap_nil, List.append_nil]

theorem newestStated_concat_some {root : String}
    (h : stated T objects man campaign own e = some root) :
    newestStated T objects man campaign own (before ++ [e]) = some root := by
  unfold newestStated
  rw [List.filterMap_append, List.filterMap_cons_some h, List.filterMap_nil,
    List.getLast?_append]
  rfl

theorem newestStated_append {after : List ℤ}
    (h : ∀ e ∈ after, stated T objects man campaign own e = none) :
    newestStated T objects man campaign own (before ++ after)
      = newestStated T objects man campaign own before := by
  unfold newestStated
  rw [List.filterMap_append, List.filterMap_eq_nil_iff.mpr h, List.append_nil]

end Newest

/-! ## The replay -/

/-- Where the replay stands after some events, with some left. -/
structure Standing (E : MinerEnv) (objects : Json → Option Json) (plan : ResumePlan ω)
    (own : OwnCoord) (before after : List ℤ) (st : ScanState) (s : Weights host × ω) : Prop where
  hit : st.hit = true →
    (∀ e ∈ after, stated E.toPyText objects plan.man host.campaign own e = none) →
      newestStated E.toPyText objects plan.man host.campaign own before
        = some (slotRoot E s.1 own.slot)
  scanned : st.scanned = before.countP (listed plan.man host.campaign)
  empty : st.applicable = 0 →
    ∀ e ∈ before, stated E.toPyText objects plan.man host.campaign own e = none

/-- An event with nothing stated under it, that leaves the root. -/
theorem Standing.pass {before after : List ℤ}
    (h : Standing E objects plan own before (e :: after) st s)
    (hstated : stated E.toPyText objects plan.man host.campaign own e = none)
    (hhit : st'.hit = true → st.hit = true) (happlicable : st'.applicable = st.applicable)
    (hscanned : st'.scanned = (before ++ [e]).countP (listed plan.man host.campaign))
    (hroot : st.hit = true →
      (∀ e ∈ after, stated E.toPyText objects plan.man host.campaign own e = none) →
        slotRoot E s'.1 own.slot = slotRoot E s.1 own.slot) :
    Standing E objects plan own (before ++ [e]) after st' s' where
  hit hst' hafter := by
    have hst := hhit hst'
    rw [newestStated_concat_none hstated, hroot hst hafter]
    exact h.hit hst (List.forall_mem_cons.mpr ⟨hstated, hafter⟩)
  scanned := hscanned
  empty h0 := by
    rw [happlicable] at h0
    exact List.forall_mem_append.mpr ⟨h.empty h0, List.forall_mem_singleton.mpr hstated⟩

theorem standing_turn {before after : List ℤ} (hown : plan.own = some own)
    (hserves : Serves plan.bounded.lane objects)
    (hfresh : ∀ st' record s₂,
      onLane (scanRecord plan host.campaign st e) s = .ok (st', .record record) s₂ →
      st.hit = true →
      (∀ e' ∈ after, stated E.toPyText objects plan.man host.campaign own e' = none) →
        Fresh E plan own record s₂)
    (h : Standing E objects plan own before (e :: after) st s)
    (hturn : scanTurn E plan st e s = .ok (.next st') s') :
    Standing E objects plan own (before ++ [e]) after st' s' := by
  obtain ⟨⟨st₁, found⟩, s₂, hscan, hs₂⟩ :=
    onLane_returns (scanRecord_returns plan host.campaign st e s.2)
  unfold scanTurn at hturn
  rw [PyM.bind_run_ok hscan] at hturn
  have hcount : ∀ {b : Bool}, listed plan.man host.campaign e = b →
      (before ++ [e]).countP (listed plan.man host.campaign) = st.scanned + b.toNat := by
    intro b hb
    rw [List.countP_append, ← h.scanned, List.countP_singleton, hb]
    cases b <;> rfl
  rcases scanRecord_cases hserves (lane_of_onLane hscan) with ⟨reason, rfl⟩ | ⟨rfl, rfl, hlisted⟩ | ⟨rfl, -⟩
    | ⟨record, rfl, hlisted, hrecord, now, rfl⟩
  · cases hturn
  · -- no record
    cases hturn
    refine h.pass (stated_of_not_listed hlisted) id rfl ?_ fun _ _ => by rw [hs₂]
    rw [hcount hlisted]
    rfl
  · cases hturn
  · have hstated := @stated_of_record E objects own e record _ _ hrecord
    rcases replayRecord_cases hown hturn with ⟨_, hstop⟩ | ⟨st₂, hnext, hscanned, hcases⟩
    · cases hstop
    · cases hnext
      have hscanned' := hscanned.trans (hcount hlisted).symm
      rcases hcases with ⟨huse, rfl, happlicable, hhit⟩ | ⟨verdict, hfold, hcases⟩
      · -- it moves other coordinates
        refine h.pass ?_ (fun h => by rwa [hhit] at h) happlicable hscanned' fun _ _ => by rw [hs₂]
        rw [hstated, statedIn, huse]
      · rcases hcases with ⟨huse, happlicable, hhit⟩ | ⟨root, huse, happlicable, hhit⟩
        · -- it states no root
          refine h.pass ?_ (fun h => by rwa [hhit] at h) happlicable hscanned' fun hst hafter => ?_
          · rw [hstated, statedIn, huse]
          · have hkept := hfresh _ record s₂ hscan hst hafter verdict s' hfold
            rw [huse, hs₂] at hkept
            exact hkept
        · have hroot : stated E.toPyText objects plan.man host.campaign own e = some root := by
            rw [hstated, statedIn, huse]
          refine ⟨fun hst' hafter => ?_, hscanned', fun h0 => by omega⟩
          rw [newestStated_concat_some hroot]
          by_cases hok : verdict = .ok
          · rw [hok] at hhit
            rw [hhit] at hst'
            rw [of_decide_eq_true hst']
          · -- a root that is taken back is not the newest
            have hst : st.hit = true := by
              cases verdict with
              | ok => exact absurd rfl hok
              | poison rejected => rwa [hhit] at hst'
              | lineage => rwa [hhit] at hst'
            have hfold' := hfresh _ record s₂ hscan hst hafter verdict s' hfold
            rw [huse] at hfold'
            exact absurd hfold' hok

theorem standing_of_loop (hown : plan.own = some own) (hserves : Serves plan.bounded.lane objects)
    (hstraight : Straight E objects plan own s) {events before after : List ℤ} {start : PyFloat}
    {s₀ : Weights host × ω} (hevents : acceptedEventsIn E plan.man host.campaign = .ok events)
    (hstart : onLane plan.bounded.lane.clock s = .ok start s₀)
    (hsplit : events.take plan.bounds.maxRecords = before ++ after)
    (hloop : PyM.loop (scanTurn E plan) before ⟨0, start, 0, 0, none, false⟩ s₀
      = .ok (.next st) s') : Standing E objects plan own before after st s' := by
  induction before using List.reverseRecOn generalizing after st s' with
  | nil =>
    cases hloop
    exact {
      hit := fun h => by cases h
      scanned := rfl
      empty := fun _ e he => by cases he }
  | append_singleton before e ih =>
    rw [List.append_assoc] at hsplit
    obtain ⟨st₁, s₁, hbefore, hturn⟩ := PyM.loop_concat hloop
    have hcomes : ComesTo E plan s before e after st₁ s₁ :=
      ⟨events, start, s₀, hevents, hsplit, hstart, hbefore⟩
    exact standing_turn hown hserves (fun st' record s₂ hscan =>
      hstraight.folded before e after st₁ s₁ st' record s₂ hcomes hscan) (ih hsplit hbefore) hturn

/-- What is reported after the loop. -/
theorem finishReplay_reports {snap : List (ℕ × Params PyFloat)} {aborted : Option ResumeBound}
    {outcome : ResumeOutcome}
    (h : finishReplay (some own) snap aborted st s = .ok outcome s') :
    (outcome.reached = true → st.hit = true ∧ aborted = none ∧ s' = s)
      ∧ (outcome.reason = .empty →
        aborted = none ∧ st.applicable = 0 ∧ outcome.scanned = st.scanned) := by
  unfold finishReplay at h
  dsimp only at h
  split at h
  · next hcond =>
    cases h
    rw [Bool.and_eq_true, Bool.and_eq_true, Option.isNone_iff_eq_none] at hcond
    exact ⟨fun _ => ⟨hcond.1.2, hcond.2, rfl⟩, nofun⟩
  · rw [PyM.bind_run_ok (PyM.modify_run _ _)] at h
    cases aborted with
    | some bound =>
      cases h
      exact ⟨nofun, nofun⟩
    | none =>
      cases h
      refine ⟨nofun, fun h => ⟨rfl, ?_, rfl⟩⟩
      by_contra h0
      simp [h0] at h

/-- A replay of an own coordinate ends early by a bound or a fetch. -/
theorem scanTurn_stop (hown : plan.own = some own) (hserves : Serves plan.bounded.lane objects)
    {stop : ScanEnd} (h : scanTurn E plan st e s = .ok (.stop (stop, st')) s') :
    (∃ bound, stop = .aborted bound) ∨ (stop = .broken ∧ s'.1 = s.1
      ∧ onLane (scanRecord plan host.campaign st e) s = .ok (st', .broken) s'
      ∧ ∃ now, st' = { st with lastProgress := now }) := by
  obtain ⟨⟨st₁, found⟩, s₂, hscan, hs₂⟩ :=
    onLane_returns (scanRecord_returns plan host.campaign st e s.2)
  unfold scanTurn at h
  rw [PyM.bind_run_ok hscan] at h
  rcases scanRecord_cases hserves (lane_of_onLane hscan) with ⟨bound, rfl⟩ | ⟨rfl, -⟩
    | ⟨rfl, hnow⟩ | ⟨record, rfl, -⟩
  · cases h
    exact Or.inl ⟨bound, rfl⟩
  · cases h
  · cases h
    exact Or.inr ⟨rfl, hs₂, hscan, hnow⟩
  · rcases replayRecord_cases hown h with ⟨st₂, hstop⟩ | ⟨st₂, hnext, -⟩
    · cases hstop
      exact Or.inl ⟨_, rfl⟩
    · cases hnext

/-- How a straight replay ends: with no report, or where it stands with nothing newer stated. -/
theorem replay_ends (hown : plan.own = some own) (hserves : Serves plan.bounded.lane objects)
    (hstraight : Straight E objects plan own s) {outcome : ResumeOutcome}
    (h : replay E plan s = .ok outcome s') :
    (outcome.reached = false ∧ outcome.reason ≠ .empty)
      ∨ ∃ events before after st, acceptedEventsIn E plan.man host.campaign = .ok events
        ∧ events = before ++ after
        ∧ (outcome.reached = true → Standing E objects plan own before after st s'
          ∧ st.hit = true
          ∧ ∀ e ∈ after, stated E.toPyText objects plan.man host.campaign own e = none)
        ∧ (outcome.reason = .empty → after = [] ∧ st.applicable = 0
          ∧ outcome.scanned = st.scanned
          ∧ ∃ s₁ : Weights host × ω, Standing E objects plan own before after st s₁) := by
  cases hevents : acceptedEventsIn E plan.man host.campaign with
  | error err =>
    unfold replay at h
    rw [hevents] at h
    cases h
  | ok events =>
    by_cases hnil : events = []
    · rw [hnil] at hevents
      rw [replay_nil hevents] at h
      cases h
      exact Or.inl ⟨rfl, nofun⟩
    obtain ⟨start, s₀, hstart, hrun⟩ := replay_run hevents hnil s
    have htake : events.take plan.bounds.maxRecords = events :=
      List.take_of_length_le (hstraight.all events hevents)
    rw [hrun, PyM.bind_run, hown, htake] at h
    cases hloop : PyM.loop (scanTurn E plan) events ⟨0, start, 0, 0, none, false⟩ s₀ with
    | error err s₁ =>
      rw [hloop] at h
      cases h
    | ok last s₁ =>
      rw [hloop] at h
      cases last with
      | next st =>
        obtain ⟨hreached, hempty⟩ := finishReplay_reports h
        have hstanding := standing_of_loop hown hserves hstraight hevents hstart
          (by rw [htake, List.append_nil]) hloop
        refine Or.inr ⟨events, events, [], st, rfl, (List.append_nil _).symm, fun hr => ?_,
          fun he => ?_⟩
        · obtain ⟨hhit, -, rfl⟩ := hreached hr
          exact ⟨hstanding, hhit, nofun⟩
        · obtain ⟨-, h0, hscanned⟩ := hempty he
          exact ⟨rfl, h0, hscanned, s₁, hstanding⟩
      | stop last =>
        obtain ⟨stop, st'⟩ := last
        obtain ⟨before, e, after, st, s₂, hsplit, hbefore, hturn⟩ := PyM.loop_stopped hloop
        rcases scanTurn_stop hown hserves hturn with ⟨bound, rfl⟩
          | ⟨rfl, hweights, hscan, now, rfl⟩
        · obtain ⟨hreached, hempty⟩ := finishReplay_reports h
          refine Or.inl ⟨?_, fun he => ?_⟩
          · by_contra hr
            have hnone := (hreached (by simpa using hr)).2.1
            cases hnone
          · have hnone := (hempty he).1
            cases hnone
        · obtain ⟨hreached, hempty⟩ := finishReplay_reports h
          have hstanding := standing_of_loop hown hserves hstraight hevents hstart
            (htake.trans hsplit) hbefore
          obtain ⟨h0, hnewer⟩ := hstraight.fetched before e after st s₂ _ s₁
            ⟨events, start, s₀, hevents, htake.trans hsplit, hstart, hbefore⟩ hscan
          refine Or.inr ⟨events, before, e :: after, st, rfl, hsplit, fun hr => ?_, fun he => ?_⟩
          · obtain ⟨hhit, -, rfl⟩ := hreached hr
            refine ⟨⟨fun hst hafter => ?_, hstanding.scanned, hstanding.empty⟩, hhit, hnewer hhit⟩
            rw [hweights]
            exact hstanding.hit hst hafter
          · exact absurd (hempty he).2.1 h0

theorem readManifest_reason {bounded : BoundedLane ω} {man : Option Manifest}
    {reason : ResumeReason} {world world' : ω}
    (h : readManifest bounded man world = .ok (.error reason) world') : reason ≠ .empty := by
  unfold readManifest at h
  cases man with
  | some man => cases h
  | none =>
    dsimp only at h
    cases hread : bounded.manifest world with
    | ok man world₁ =>
      rw [PyM.bind_run_ok (PyM.attempt_ok hread)] at h
      cases h
    | error err world₁ =>
      rw [PyM.bind_run_ok (PyM.attempt_error hread)] at h
      cases h
      split
      · exact nofun
      · exact nofun

/-- What comes before a replay. -/
theorem resumePlan_cases {lane : Lane ω} {bounds : ResumeBounds} {targetRoot : Json}
    {own : Option Coord} {man : Option Manifest} {r : ResumeOutcome ⊕ ResumePlan ω}
    (h : resumePlan E lane bounds targetRoot own man s = .ok r s') :
    r = .inl (.early .alreadyAtRoot true)
      ∨ (∃ reason, r = .inl (.early reason false) ∧ reason ≠ .empty)
      ∨ ∃ plan, r = .inr plan ∧ plan.bounded.lane = lane := by
  unfold resumePlan at h
  obtain ⟨t0, s₁, ht0, -⟩ := @onLane_returns host ω s _ lane.clock ⟨_, _, Lane.clock_run _ _⟩
  rw [PyM.bind_run_ok ht0, PyM.bind_run_ok (PyM.get_run _)] at h
  split at h
  · cases h
    exact Or.inl rfl
  · cases hslot : ownSlot host own with
    | none =>
      rw [hslot] at h
      cases h
      exact Or.inr (Or.inl ⟨_, rfl, nofun⟩)
    | some own =>
      rw [hslot] at h
      dsimp only at h
      rw [PyM.bind_run] at h
      split at h
      · next r s₂ hman =>
        cases r with
        | ok man =>
          cases h
          exact Or.inr (Or.inr ⟨_, rfl, rfl⟩)
        | error reason =>
          cases h
          refine Or.inr (Or.inl ⟨reason, rfl, ?_⟩)
          exact readManifest_reason (lane_of_onLane hman)
      · cases h

theorem replay_of_resume {lane : Lane ω} {bounds : ResumeBounds} {targetRoot : Json}
    {own : Option Coord} {man : Option Manifest} {outcome : ResumeOutcome}
    {s₁ : Weights host × ω}
    (hplan : resumePlan E lane bounds targetRoot own man s = .ok (.inr plan) s₁)
    (h : resumeToRoot E lane bounds targetRoot own man s = .ok outcome s') :
    plan.bounded.lane = lane ∧ replay E plan s₁ = .ok outcome s' := by
  constructor
  · rcases resumePlan_cases hplan with heq | ⟨reason, heq, -⟩ | ⟨plan', heq, hlane⟩
    · cases heq
    · cases heq
    · cases heq
      exact hlane
  · unfold resumeToRoot at h
    rwa [PyM.bind_run_ok hplan] at h

/-- **A straight replay tells the truth.** -/
theorem resume_tells_truth {lane : Lane ω} (hserves : Serves lane objects) {bounds : ResumeBounds}
    {targetRoot : Json} {c : Coord} {man : Option Manifest}
    (hstraight : ∀ plan own s₁,
      resumePlan E lane bounds targetRoot (some c) man s = .ok (.inr plan) s₁ →
      plan.own = some own → Straight E objects plan own s₁) :
    TellsTruth E objects lane bounds targetRoot c man s where
  early outcome s₁ hplan hreason := by
    rcases resumePlan_cases hplan with heq | ⟨reason, heq, hne⟩ | ⟨plan, heq, -⟩
    · cases heq
      exact absurd rfl hreason
    · cases heq
      exact ⟨rfl, hne⟩
    · cases heq
  reached plan own s₁ outcome s' hplan hown hrun hreached := by
    obtain ⟨hlane, hrun⟩ := replay_of_resume hplan hrun
    rcases replay_ends hown (hlane ▸ hserves) (hstraight plan own s₁ hplan hown) hrun with
      ⟨hfalse, -⟩ | ⟨events, before, after, st, hevents, hsplit, hends, -⟩
    · rw [hreached] at hfalse
      cases hfalse
    · obtain ⟨hstanding, hhit, hafter⟩ := hends hreached
      refine ⟨events, hevents, ?_⟩
      rw [hsplit, newestStated_append hafter]
      exact hstanding.hit hhit hafter
  empty plan own s₁ outcome s' hplan hown hrun hreason := by
    obtain ⟨hlane, hrun⟩ := replay_of_resume hplan hrun
    rcases replay_ends hown (hlane ▸ hserves) (hstraight plan own s₁ hplan hown) hrun with
      ⟨-, hne⟩ | ⟨events, before, after, st, hevents, hsplit, -, hends⟩
    · exact absurd hreason hne
    · obtain ⟨rfl, h0, hscanned, s₂, hstanding⟩ := hends hreason
      rw [List.append_nil] at hsplit
      refine ⟨events, hevents, ?_, ?_⟩
      · rw [hscanned, hstanding.scanned, hsplit]
      · rw [hsplit]
        exact hstanding.empty h0

/-- A replay of one record is straight, unless its fetch fails. -/
theorem straight_of_one (hevents : acceptedEventsIn E plan.man host.campaign = .ok [e])
    (hmax : 1 ≤ plan.bounds.maxRecords)
    (hfetch : ∀ start s₀, onLane plan.bounded.lane.clock s = .ok start s₀ → ∀ st' s₂,
      onLane (scanRecord plan host.campaign ⟨0, start, 0, 0, none, false⟩ e) s₀
        ≠ .ok (st', .broken) s₂) : Straight E objects plan own s := by
  have hfirst : ∀ before e' after st s₁, ComesTo E plan s before e' after st s₁ → e' = e
      ∧ ∃ start, onLane plan.bounded.lane.clock s = .ok start s₁
        ∧ st = ⟨0, start, 0, 0, none, false⟩ := by
    rintro before e' after st s₁ ⟨events, start, s₀, hevents', hsplit, hstart, hloop⟩
    rw [hevents] at hevents'
    cases hevents'
    rw [List.take_of_length_le hmax] at hsplit
    cases before with
    | nil =>
      cases hsplit
      cases hloop
      exact ⟨rfl, start, hstart, rfl⟩
    | cons e'' before => simp at hsplit
  refine ⟨fun events hevents' => ?_, fun before e' after st s₁ st' s₂ hcomes hscan => ?_,
    fun before e' after st s₁ st' record s₂ hcomes _ hhit => ?_⟩
  · rw [hevents] at hevents'
    cases hevents'
    exact hmax
  · obtain ⟨rfl, start, hstart, rfl⟩ := hfirst before e' after st s₁ hcomes
    exact absurd hscan (hfetch start s₁ hstart st' s₂)
  · obtain ⟨-, start, -, rfl⟩ := hfirst before e' after st s₁ hcomes
    cases hhit

end Reached

/-! ## Reports on a small lane -/

section Stale

def statesRoot (root : String) : Json :=
  .obj [("accepted", .arr [deltaRow 0 1]), ("slot_roots", .obj [("1_0", .str root)])]

/-- The root the delta of the lane leads to. -/
def rootOfOne : String :=
  slotRoot .digits (fun _ => .of _ (oneWeight 1) : Weights oneIndex) 0

def listedAs (names : List (ℤ × String)) : Manifest :=
  .ofList (names.map fun e => (acceptedName none e.1, .obj [("sha256", .str e.2)]))

/-- A turn whose fetch fails. -/
def fetchBreaks : EStateM.Result PyErr Unit (ScanState × Scanned) → Bool
  | .ok (_, .broken) _ => true
  | _ => false

/-- A store whose one record folds to the root it states. -/
theorem resume_tells_truth_oneRecord :
    TellsTruth .digits (stillObjects (.ofList [("s", statesRoot rootOfOne)]))
      (oneDelta ∅ [("s", statesRoot rootOfOne)]).lane defaultBounds (.str "root") (1, 0)
      (some (listedAs [(1, "s")])) (zeroWeights oneIndex) := by
  refine resume_tells_truth (fun _ _ _ _ => getJson_still) fun plan own s₁ hplan hown => ?_
  have hevents : acceptedEventsIn .digits (listedAs [(1, "s")]) none = .ok [1] := by rfl
  rw [resumePlan_given rfl (by decide +kernel) (show _ = some (some ⟨(1, 0), 0⟩) by rfl)] at hplan
  cases hplan
  cases hown
  refine straight_of_one hevents (by decide) fun start s₀ hstart st' s₂ hscan => ?_
  cases hstart
  have hbroken : _ = true := congrArg fetchBreaks (lane_of_onLane hscan)
  exact absurd hbroken (by decide +kernel)

/-! ## A stale report

The first record folds to the root it states; the second states another, and is taken back. -/

def staleObjects : List (String × Json) := [("s", statesRoot rootOfOne), ("t", statesRoot "newer")]

/-- What comes before this resume, and the resume. -/
def stalePlan : PyM (Weights oneIndex × Unit) (ResumeOutcome ⊕ ResumePlan Unit) :=
  resumePlan .digits (oneDelta ∅ staleObjects).lane defaultBounds (.str "root") (some (1, 0))
    (some (listedAs [(1, "s"), (2, "t")]))

def staleResume : PyM (Weights oneIndex × Unit) ResumeOutcome :=
  resumeToRoot .digits (oneDelta ∅ staleObjects).lane defaultBounds (.str "root") (some (1, 0))
    (some (listedAs [(1, "s"), (2, "t")]))

/-- The root is reported reached, and the newest record states another. -/
def staleReport : Bool :=
  match stalePlan (zeroWeights oneIndex), staleResume (zeroWeights oneIndex) with
  | .ok (.inr plan) _, .ok outcome s' =>
    match plan.own, acceptedEventsIn .digits plan.man none with
    | some own, .ok events => outcome.reached
      && newestStated MinerEnv.digits.toPyText (stillObjects (.ofList staleObjects)) plan.man none
        own events ≠ some (slotRoot .digits s'.1 own.slot)
    | _, _ => false
  | _, _ => false

theorem staleReport_true : staleReport = true := by
  decide +kernel

theorem resume_not_truthful :
    ¬ ∀ (E : MinerEnv) (host : LaneHost) (lane : Lane Unit) (objects : Json → Option Json)
      (bounds : ResumeBounds) (targetRoot : Json) (c : Coord) (man : Option Manifest)
      (s : Weights host × Unit), Serves lane objects →
      TellsTruth E objects lane bounds targetRoot c man s := by
  intro h
  have hreached := (h .digits oneIndex (oneDelta ∅ staleObjects).lane
    (stillObjects (.ofList staleObjects)) defaultBounds (.str "root") (1, 0)
    (some (listedAs [(1, "s"), (2, "t")])) (zeroWeights oneIndex)
    (fun _ _ _ _ => getJson_still)).reached
  have hstale := staleReport_true
  unfold staleReport at hstale
  split at hstale
  · next plan s₁ outcome s' hplan hrun =>
    split at hstale
    · next own events hown hevents =>
      rw [Bool.and_eq_true] at hstale
      obtain ⟨events', hevents', hnewest⟩ :=
        hreached plan own s₁ outcome s' hplan hown hrun hstale.1
      have hsame : acceptedEventsIn .digits plan.man none = .ok events' := hevents'
      rw [hevents] at hsame
      cases hsame
      exact of_decide_eq_true hstale.2 hnewest
    · cases hstale
  · cases hstale

end Stale

end NeuraHash
