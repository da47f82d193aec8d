import NeuraHash.Replica.CatchUp

/-!
# Resuming to the coordinator's root (`resume_to_root`)

A miner that starts, or takes on a coordinate, replays the accepted records until its weights have
the root the coordinator advertises: the global root, or, on an own coordinate, the root the newest
record that advertises it states. The replay is bounded in time, and what it has changed is written
back when it does not reach the root.

`resumePlan` is what comes before the replay, `scanRecord` fetches the next record, and
`replayRecord` folds it. The replay is fail-closed whenever it returns, and it returns when what it
comes to is handled (`resume_fail_closed_iff`).
-/

namespace NeuraHash

open Py Systems

/-! ## What is resumed -/

/-- The coordinate a miner resumes, and its slot. -/
structure OwnCoord where
  coord : Coord
  slot : ℕ

/-- `budget_s`, `stall_s`, `call_timeout_s` and `max_records`. -/
structure ResumeBounds where
  budget : PyFloat
  stall : PyFloat
  callTimeout : PyFloat
  maxRecords : ℕ

/-- `_CATCHUP_ABORTED`: the bounds that end a resume. -/
inductive ResumeBound where
  | budget
  | stall
  | callTimeout
  deriving DecidableEq

/-- The reason a resume gives. -/
inductive ResumeReason where
  | alreadyAtRoot
  | notRegistered
  | manifestUnavailable
  | noRecords
  | ok
  | aborted (bound : ResumeBound)
  | empty
  | unreachable
  deriving DecidableEq

/-- What `resume_to_root` returns, and what it fills `outcome` with. -/
structure ResumeOutcome where
  applied : ℕ
  reached : Bool
  reason : ResumeReason
  records : ℕ
  scanned : ℕ
  applicable : ℕ

/-- `_done(reason, 0, reached)`, before a record is scanned. -/
def ResumeOutcome.early (reason : ResumeReason) (reached : Bool) : ResumeOutcome :=
  ⟨0, reached, reason, 0, 0, 0⟩

/-- What a replay runs on. -/
structure ResumePlan (ω : Type) where
  bounded : BoundedLane ω
  man : Manifest
  own : Option OwnCoord
  target : String
  /-- The time the resume began. -/
  t0 : PyFloat
  bounds : ResumeBounds

/-- Where a replay stands. -/
structure ScanState where
  applied : ℕ
  lastProgress : PyFloat
  scanned : ℕ
  applicable : ℕ
  /-- The newest root advertised for the own coordinate by a record that was folded. -/
  want : Option String
  /-- Whether the own slot had it then. -/
  hit : Bool

/-- How a replay breaks off. -/
inductive ScanEnd where
  | aborted (bound : ResumeBound)
  | broken
  | rooted
  deriving DecidableEq

/-- What a turn of the replay finds under its event. -/
inductive Scanned where
  | aborted (bound : ResumeBound)
  | absent
  | broken
  | record (record : Json)

/-- What a record is to the replay: one that moves other coordinates, one to be folded, or one to
be folded that advertises the own coordinate. -/
inductive RecordUse where
  | skipped
  | legacy
  | advertises (root : String)
  deriving DecidableEq

section Resume

variable {host : LaneHost} {ω : Type} (E : MinerEnv)

/-- The filter on records; a value of an own coordinate that is null is no advertisement. -/
def recordUse (T : PyText) (own : Option OwnCoord) (record : Json) : Except PyErr RecordUse :=
  match own with
  | none => .ok .legacy
  | some own =>
    if !record.isObj then .error .attributeError
    else match slotRoots record with
      | none => .ok .legacy
      | some sr => match (sr.get? (coordKey own.coord)).getD .null with
        | .null => .ok .skipped
        | root => .ok (.advertises (root.toStr T))

/-- The slot of the coordinate a miner resumes; an own coordinate may have none. -/
def ownSlot (host : LaneHost) : Option Coord → Option (Option OwnCoord)
  | none => some none
  | some c => (indexOf host.slots c).map fun slot => some ⟨c, slot⟩

/-- The manifest that was given, or one that is read. -/
def readManifest (bounded : BoundedLane ω) : Option Manifest →
    PyM ω (Except ResumeReason Manifest)
  | some man => return .ok man
  | none => do
    match ← PyM.attempt bounded.manifest with
    | .ok man => return .ok man
    | .error err =>
      return .error (if err = catchupTimeout then .aborted .callTimeout else .manifestUnavailable)

/-- What comes before the replay. -/
def resumePlan (lane : Lane ω) (bounds : ResumeBounds) (targetRoot : Json) (own : Option Coord)
    (man : Option Manifest) : PyM (Weights host × ω) (ResumeOutcome ⊕ ResumePlan ω) := do
  let t0 ← onLane lane.clock
  if !targetRoot.truthy || modelRoot E (← get).1 = targetRoot.toStr E.toPyText then
    return .inl (.early .alreadyAtRoot true)
  match ownSlot host own with
  | none => return .inl (.early .notRegistered false)
  | some own =>
    let bounded : BoundedLane ω := ⟨lane, bounds.callTimeout, some (t0 + bounds.budget)⟩
    match ← onLane (readManifest bounded man) with
    | .error reason => return .inl (.early reason false)
    | .ok man => return .inr ⟨bounded, man, own, targetRoot.toStr E.toPyText, t0, bounds⟩

/-! ## The replay -/

variable (plan : ResumePlan ω)

/-- `armed`: something has been seen that could have been folded. -/
def ResumePlan.armed (st : ScanState) : Bool :=
  if plan.own.isSome then 0 < st.applicable else 0 < st.scanned

/-- The bounds that are looked at before an event. -/
def checkBounds (st : ScanState) : PyM ω (Option ResumeBound) := do
  let now ← plan.bounded.lane.clock
  if FloatOps.lt plan.bounds.budget (now - plan.t0) then return some .budget
  if FloatOps.lt 0 plan.bounds.stall && plan.armed st then
    let now ← plan.bounded.lane.clock
    if FloatOps.lt plan.bounds.stall (now - st.lastProgress) then return some .stall
  return none

/-- The record of an event. -/
def scanRecord (campaign : Option CampaignId) (st : ScanState) (e : ℤ) :
    PyM ω (ScanState × Scanned) := do
  match ← checkBounds plan st with
  | some bound => return (st, .aborted bound)
  | none =>
    let entry := (plan.man.get? (acceptedName campaign e)).getD .null
    if !entry.truthy then return (st, .absent)
    -- the one place the clock of the stall is reset
    let now ← plan.bounded.lane.clock
    let st := { st with lastProgress := now }
    match ← PyM.attempt (fetchRecord plan.bounded entry) with
    | .ok record => return ({ st with scanned := st.scanned + 1 }, .record record)
    | .error err =>
      return (st, if err = catchupTimeout then .aborted .callTimeout else .broken)

/-- The checked fold of the replay, with no re-gate. -/
def resumeFold (record : Json) : PyM (Weights host × ω) FoldVerdict :=
  foldAcceptedChecked E plan.bounded ⟨.off, none, some (-1)⟩ record

/-- Fold a record that is of use. -/
def replayRecord (st : ScanState) (record : Json) :
    PyM (Weights host × ω) (PyM.Turn ScanState (ScanEnd × ScanState)) := do
  let use ← PyM.ofExcept (recordUse E.toPyText plan.own record)
  if use = .skipped then return .next st
  let st := match use with
    | .advertises _ => { st with applicable := st.applicable + 1 }
    | _ => st
  match ← PyM.attempt (resumeFold E plan record) with
  | .error err =>
    if err = catchupTimeout then return .stop (.aborted .callTimeout, st) else throw err
  | .ok .ok =>
    let st := { st with applied := st.applied + 1 }
    match plan.own, use with
    | none, _ =>
      if modelRoot E (← get).1 = plan.target then return .stop (.rooted, st) else return .next st
    | some own, .advertises root =>
      let hit := slotRoot E (← get).1 own.slot = root
      return .next { st with want := some root, hit := hit }
    | some _, _ => return .next st
  | .ok _ => return .next st

/-- A turn of the loop over the events. -/
def scanTurn (st : ScanState) (e : ℤ) :
    PyM (Weights host × ω) (PyM.Turn ScanState (ScanEnd × ScanState)) := do
  match ← onLane (scanRecord plan host.campaign st e) with
  | (st, .aborted bound) => return .stop (.aborted bound, st)
  | (st, .absent) => return .next st
  | (st, .broken) => return .stop (.broken, st)
  | (st, .record record) => replayRecord E plan st record

/-- The copies of the slots. -/
def snapshot (host : LaneHost) (w : Weights host) : List (ℕ × Params PyFloat) :=
  (List.range host.slots.length).map fun j => (j, host.readSlot w j)

/-- Write the copies back. -/
def restore (host : LaneHost) (snap : List (ℕ × Params PyFloat)) (w : Weights host) :
    Weights host :=
  snap.foldl (fun w e => host.writeSlot w e.1 e.2) w

/-- What follows the loop. -/
def finishReplay (own : Option OwnCoord) (snap : List (ℕ × Params PyFloat))
    (aborted : Option ResumeBound) (st : ScanState) : PyM (Weights host × ω) ResumeOutcome := do
  let done (reason : ResumeReason) : ResumeOutcome :=
    ⟨0, false, reason, st.applied, st.scanned, st.applicable⟩
  if own.isSome && st.hit && aborted.isNone then
    return ⟨st.applied, true, .ok, st.applied, st.scanned, st.applicable⟩
  modify fun s => (restore host snap s.1, s.2)
  match aborted with
  | some bound => return done (.aborted bound)
  | none => return done (if own.isSome && st.applicable = 0 then .empty else .unreachable)

/-- What the loop ended with is judged. -/
def endReplay (own : Option OwnCoord) (snap : List (ℕ × Params PyFloat)) :
    PyM.Turn ScanState (ScanEnd × ScanState) → PyM (Weights host × ω) ResumeOutcome
  | .next st => finishReplay own snap none st
  | .stop (.broken, st) => finishReplay own snap none st
  | .stop (.aborted bound, st) => finishReplay own snap (some bound) st
  | .stop (.rooted, st) =>
    return ⟨st.applied, true, .ok, st.applied, st.scanned, st.applicable⟩

/-- The replay of a plan. -/
def replay : PyM (Weights host × ω) ResumeOutcome := do
  let events ← PyM.ofExcept (acceptedEventsIn E plan.man host.campaign)
  if events = [] then return .early .noRecords false
  let snap := snapshot host (← get).1
  let start ← onLane plan.bounded.lane.clock
  let last ← PyM.loop (scanTurn E plan) (events.take plan.bounds.maxRecords)
    ⟨0, start, 0, 0, none, false⟩
  endReplay plan.own snap last

/-- `resume_to_root(host, lane, target_root, log, …)`. -/
def resumeToRoot (lane : Lane ω) (bounds : ResumeBounds) (targetRoot : Json) (own : Option Coord)
    (man : Option Manifest) : PyM (Weights host × ω) ResumeOutcome := do
  match ← resumePlan E lane bounds targetRoot own man with
  | .inl outcome => return outcome
  | .inr plan => replay E plan

/-! ## What returns -/

variable {E} {plan : ResumePlan ω} {s s' : Weights host × ω} {st : ScanState} {e : ℤ}
  {record : Json}

theorem onLane_returns {α : Type} {x : PyM ω α} (h : x.Returns s.2) :
    ∃ a s', onLane x s = .ok a s' ∧ s'.1 = s.1 := by
  obtain ⟨w, world⟩ := s
  obtain ⟨a, world', hx⟩ := h
  exact ⟨a, (w, world'), by rw [onLane_run, hx], rfl⟩

theorem lane_of_onLane {α : Type} {x : PyM ω α} {a : α} (h : onLane x s = .ok a s') :
    x s.2 = .ok a s'.2 := by
  obtain ⟨w, world⟩ := s
  rw [onLane_run] at h
  cases hx : x world with
  | ok a' world' =>
    rw [hx] at h
    cases h
    rfl
  | error err world' =>
    rw [hx] at h
    cases h

theorem checkBounds_returns (plan : ResumePlan ω) (st : ScanState) (world : ω) :
    (checkBounds plan st).Returns world := by
  unfold checkBounds
  rw [PyM.returns_bind_ok (Lane.clock_run _ _)]
  split
  · exact PyM.returns_pure _ _
  · split
    · rw [PyM.returns_bind_ok (Lane.clock_run _ _)]
      split
      · exact PyM.returns_pure _ _
      · exact PyM.returns_pure _ _
    · exact PyM.returns_pure _ _

/-- Whatever the lane does, the turn is told what it finds. -/
theorem scanRecord_returns (plan : ResumePlan ω) (campaign : Option CampaignId) (st : ScanState)
    (e : ℤ) (world : ω) : (scanRecord plan campaign st e).Returns world := by
  obtain ⟨reason, world₁, hbounds⟩ := checkBounds_returns plan st world
  unfold scanRecord
  rw [PyM.returns_bind_ok hbounds]
  cases reason with
  | some reason => exact PyM.returns_pure _ _
  | none =>
    dsimp only
    split
    · exact PyM.returns_pure _ _
    · rw [PyM.returns_bind_ok (Lane.clock_run _ _)]
      generalize (plan.man.get? (acceptedName campaign e)).getD .null = entry
      generalize (plan.bounded.lane.now world₁).2 = world₂
      cases hfetch : fetchRecord plan.bounded entry world₂ with
      | ok record world₃ =>
        rw [PyM.returns_bind_ok (PyM.attempt_ok hfetch)]
        exact PyM.returns_pure _ _
      | error err world₃ =>
        rw [PyM.returns_bind_ok (PyM.attempt_error hfetch)]
        exact PyM.returns_pure _ _

/-- What a record may do to the replay: it can be read, and when it is of use its fold raises
`CatchupTimeout` only. -/
structure Handled (E : MinerEnv) (plan : ResumePlan ω) (record : Json) (s : Weights host × ω) :
    Prop where
  use : ∃ use, recordUse E.toPyText plan.own record = .ok use
  fold : recordUse E.toPyText plan.own record ≠ .ok .skipped →
    ∀ err s', resumeFold E plan record s = .error err s' → err = catchupTimeout

theorem replayRecord_returns_iff :
    (replayRecord E plan st record).Returns s ↔ Handled E plan record s := by
  unfold replayRecord
  cases huse : recordUse E.toPyText plan.own record with
  | error err =>
    refine iff_of_false (PyM.not_returns_bind (PyM.ofExcept_error _ _)) fun h => ?_
    obtain ⟨use, h⟩ := h.use
    rw [huse] at h
    cases h
  | ok use =>
    rw [PyM.returns_bind_ok (PyM.ofExcept_ok _ _)]
    by_cases hskipped : use = .skipped
    · rw [if_pos hskipped]
      refine iff_of_true (PyM.returns_pure _ _) ⟨⟨use, huse⟩, fun h => ?_⟩
      exact absurd (by rw [huse, hskipped]) h
    · rw [if_neg hskipped]
      cases hfold : resumeFold E plan record s with
      | ok verdict s₁ =>
        rw [PyM.returns_bind_ok (PyM.attempt_ok hfold)]
        refine iff_of_true ?_ ⟨⟨use, huse⟩, fun _ err s' h => ?_⟩
        · cases verdict with
          | poison rejected => exact PyM.returns_pure _ _
          | lineage => exact PyM.returns_pure _ _
          | ok =>
            dsimp only
            split
            · rw [PyM.returns_bind_ok (PyM.get_run _)]
              split
              · exact PyM.returns_pure _ _
              · exact PyM.returns_pure _ _
            · exact PyM.returns_pure _ _
            · exact PyM.returns_pure _ _
        · rw [hfold] at h
          cases h
      | error err s₁ =>
        rw [PyM.returns_bind_ok (PyM.attempt_error hfold)]
        dsimp only
        by_cases herr : err = catchupTimeout
        · rw [if_pos herr]
          refine iff_of_true (PyM.returns_pure _ _) ⟨⟨use, huse⟩, fun _ err' s' h => ?_⟩
          rw [hfold] at h
          cases h
          exact herr
        · rw [if_neg herr]
          refine iff_of_false (PyM.not_returns_throw _ _) fun h => herr ?_
          refine h.fold (fun h' => hskipped ?_) err s₁ hfold
          rw [huse] at h'
          exact Except.ok.inj h'

/-- A turn returns when the record it finds is handled. -/
theorem scanTurn_returns_iff : (scanTurn E plan st e).Returns s ↔ ∀ st' record s',
    onLane (scanRecord plan host.campaign st e) s = .ok (st', .record record) s' →
      Handled E plan record s' := by
  obtain ⟨⟨st', found⟩, s₁, hscan, -⟩ :=
    onLane_returns (scanRecord_returns plan host.campaign st e s.2)
  unfold scanTurn
  rw [PyM.returns_bind_ok hscan, hscan]
  cases found with
  | aborted reason =>
    exact iff_of_true (PyM.returns_pure _ _) fun st' record s' h => by cases h
  | absent => exact iff_of_true (PyM.returns_pure _ _) fun st' record s' h => by cases h
  | broken => exact iff_of_true (PyM.returns_pure _ _) fun st' record s' h => by cases h
  | record record =>
    refine replayRecord_returns_iff.trans ⟨fun h st'' record' s' heq => ?_, fun h => h _ _ _ rfl⟩
    cases heq
    exact h

/-- The replay comes to an event, with some before it and some left. -/
def ComesTo (E : MinerEnv) (plan : ResumePlan ω) (s : Weights host × ω) (before : List ℤ) (e : ℤ)
    (after : List ℤ) (st : ScanState) (s₁ : Weights host × ω) : Prop :=
  ∃ events start s₀, acceptedEventsIn E plan.man host.campaign = .ok events
    ∧ events.take plan.bounds.maxRecords = before ++ e :: after
    ∧ onLane plan.bounded.lane.clock s = .ok start s₀
    ∧ PyM.loop (scanTurn E plan) before ⟨0, start, 0, 0, none, false⟩ s₀ = .ok (.next st) s₁

/-- The replay can read the names of the accepted records, and handles every record it fetches. -/
structure Replayable (E : MinerEnv) (plan : ResumePlan ω) (s : Weights host × ω) : Prop where
  names : ∃ events, acceptedEventsIn E plan.man host.campaign = .ok events
  handled : ∀ before e after st s₁ st' record s₂, ComesTo E plan s before e after st s₁ →
    onLane (scanRecord plan host.campaign st e) s₁ = .ok (st', .record record) s₂ →
      Handled E plan record s₂

theorem finishReplay_returns (own : Option OwnCoord) (snap : List (ℕ × Params PyFloat))
    (aborted : Option ResumeBound) (st : ScanState) (s : Weights host × ω) :
    (finishReplay (ω := ω) own snap aborted st).Returns s := by
  unfold finishReplay
  dsimp only
  split
  · exact PyM.returns_pure _ _
  · rw [PyM.returns_bind_ok (PyM.modify_run _ _)]
    cases aborted with
    | some reason => exact PyM.returns_pure _ _
    | none => exact PyM.returns_pure _ _

theorem endReplay_returns (own : Option OwnCoord) (snap : List (ℕ × Params PyFloat))
    (last : PyM.Turn ScanState (ScanEnd × ScanState)) (s : Weights host × ω) :
    (endReplay (ω := ω) own snap last).Returns s := by
  match last with
  | .next st => exact finishReplay_returns own snap none st s
  | .stop (.broken, st) => exact finishReplay_returns own snap none st s
  | .stop (.aborted bound, st) => exact finishReplay_returns own snap (some bound) st s
  | .stop (.rooted, st) => exact PyM.returns_pure _ _

/-- A replay that has records to replay. -/
theorem replay_run {events : List ℤ} (hevents : acceptedEventsIn E plan.man host.campaign = .ok events)
    (hne : events ≠ []) (s : Weights host × ω) :
    ∃ start s₀, onLane plan.bounded.lane.clock s = .ok start s₀
      ∧ replay E plan s = (PyM.loop (scanTurn E plan) (events.take plan.bounds.maxRecords)
          ⟨0, start, 0, 0, none, false⟩ >>= endReplay plan.own (snapshot host s.1)) s₀ := by
  obtain ⟨start, s₀, hstart, -⟩ := @onLane_returns host ω s _ plan.bounded.lane.clock
    ⟨_, _, Lane.clock_run _ _⟩
  refine ⟨start, s₀, hstart, ?_⟩
  unfold replay
  rw [hevents, PyM.bind_run_ok (PyM.ofExcept_ok _ _), if_neg hne, PyM.bind_run_ok (PyM.get_run _),
    PyM.bind_run_ok hstart]

theorem replay_nil (hevents : acceptedEventsIn E plan.man host.campaign = .ok []) :
    replay E plan s = .ok (.early .noRecords false) s := by
  unfold replay
  rw [hevents]
  rfl

theorem replay_returns_iff : (replay E plan).Returns s ↔ Replayable E plan s := by
  cases hevents : acceptedEventsIn E plan.man host.campaign with
  | error err =>
    unfold replay
    rw [hevents]
    refine iff_of_false (PyM.not_returns_bind (PyM.ofExcept_error _ _)) fun h => ?_
    obtain ⟨events, h⟩ := h.names
    rw [hevents] at h
    cases h
  | ok events =>
    by_cases hnil : events = []
    · rw [hnil] at hevents
      refine iff_of_true ⟨_, _, replay_nil hevents⟩ ⟨⟨_, hevents⟩, ?_⟩
      rintro before e after st s₁ st' record s₂ ⟨events', start, s₀, hevents', hsplit, -⟩
      rw [hevents] at hevents'
      cases hevents'
      simp at hsplit
    · obtain ⟨start, s₀, hstart, hrun⟩ := replay_run hevents hnil s
      unfold PyM.Returns
      rw [hrun]
      refine (PyM.returns_bind_iff (endReplay_returns _ _)).trans (PyM.loop_returns_iff.trans ?_)
      constructor
      · intro h
        refine ⟨⟨events, hevents⟩, ?_⟩
        rintro before e after st s₁ st' record s₂ ⟨events', start', s₀', hevents', hsplit,
          hstart', hloop⟩ hscan
        rw [hevents] at hevents'
        cases hevents'
        rw [hstart] at hstart'
        cases hstart'
        exact scanTurn_returns_iff.mp (h before e after st s₁ hsplit hloop) st' record s₂ hscan
      · intro h before e after st s₁ hsplit hloop
        refine scanTurn_returns_iff.mpr fun st' record s₂ hscan => ?_
        exact h.handled before e after st s₁ st' record s₂
          ⟨events, start, s₀, hevents, hsplit, hstart, hloop⟩ hscan

/-! ## What is written back -/

/-- **The copies restore every slot.** -/
theorem readSlot_restore (w w' : Weights host) {slot : ℕ} (hslot : slot < host.slots.length) :
    host.readSlot (restore host (snapshot host w) w') slot = host.readSlot w slot := by
  let saved : List (ℕ × SlotState host.dtype) :=
    (List.range host.slots.length).map fun j => (j, w (host.coordAt j))
  have hrestore : restore host (snapshot host w) w'
      = saved.foldl (fun w e => Function.update w (host.coordAt e.1) e.2) w' := by
    unfold restore snapshot
    rw [List.foldl_map, List.foldl_map]
    refine List.foldl_ext _ _ _ fun w₁ j _ => ?_
    show Function.update w₁ (host.coordAt j) (.of host.dtype (w (host.coordAt j)).params) = _
    rw [SlotState.of_params]
  have happly : restore host (snapshot host w) w' (host.coordAt slot) = w (host.coordAt slot) := by
    rw [hrestore]
    refine Journal.foldl_update_apply saved w' (host.coordAt slot) (fun e he => ?_) ?_
    · obtain ⟨j, -, rfl⟩ := List.mem_map.mp he
      rfl
    · refine Or.inr ⟨(slot, w (host.coordAt slot)), List.mem_map.mpr ⟨slot, ?_, rfl⟩, rfl⟩
      exact List.mem_range.mpr hslot
  unfold LaneHost.readSlot
  rw [happly]

/-- Every slot is as it was. -/
def SlotsKept (host : LaneHost) (w w' : Weights host) : Prop :=
  ∀ slot < host.slots.length, host.readSlot w' slot = host.readSlot w slot

theorem finishReplay_kept {own : Option OwnCoord} {w : Weights host}
    {aborted : Option ResumeBound} {outcome : ResumeOutcome}
    (h : finishReplay own (snapshot host w) aborted st s = .ok outcome s')
    (hreached : outcome.reached = false) : SlotsKept host w s'.1 := by
  unfold finishReplay at h
  dsimp only at h
  split at h
  · cases h
    cases hreached
  · rw [PyM.bind_run_ok (PyM.modify_run _ _)] at h
    have hs' : s' = (restore host (snapshot host w) s.1, s.2) := by
      cases aborted with
      | some reason =>
        cases h
        rfl
      | none =>
        cases h
        rfl
    rw [hs']
    exact fun slot hslot => readSlot_restore w s.1 hslot

theorem endReplay_kept {own : Option OwnCoord} {w : Weights host}
    {last : PyM.Turn ScanState (ScanEnd × ScanState)} {outcome : ResumeOutcome}
    (h : endReplay own (snapshot host w) last s = .ok outcome s')
    (hreached : outcome.reached = false) : SlotsKept host w s'.1 := by
  match last with
  | .next st => exact finishReplay_kept h hreached
  | .stop (.broken, st) => exact finishReplay_kept h hreached
  | .stop (.aborted bound, st) => exact finishReplay_kept h hreached
  | .stop (.rooted, st) =>
    cases h
    cases hreached

/-- A replay that does not reach its root leaves every slot. -/
theorem replay_kept {outcome : ResumeOutcome} (h : replay E plan s = .ok outcome s')
    (hreached : outcome.reached = false) : SlotsKept host s.1 s'.1 := by
  cases hevents : acceptedEventsIn E plan.man host.campaign with
  | error err =>
    unfold replay at h
    rw [hevents] at h
    cases h
  | ok events =>
    by_cases hnil : events = []
    · rw [hnil] at hevents
      rw [replay_nil hevents] at h
      cases h
      exact fun slot _ => rfl
    · obtain ⟨start, s₀, -, hrun⟩ := replay_run hevents hnil s
      rw [hrun, PyM.bind_run] at h
      split at h
      · exact endReplay_kept h hreached
      · cases h

/-! ## Before the replay -/

section Whole

variable {lane : Lane ω} {bounds : ResumeBounds} {targetRoot : Json} {own : Option Coord}
  {man : Option Manifest}

theorem readManifest_returns (bounded : BoundedLane ω) (man : Option Manifest) (world : ω) :
    (readManifest bounded man).Returns world := by
  unfold readManifest
  cases man with
  | some man => exact PyM.returns_pure _ _
  | none =>
    dsimp only
    cases hread : bounded.manifest world with
    | ok man world' =>
      rw [PyM.returns_bind_ok (PyM.attempt_ok hread)]
      exact PyM.returns_pure _ _
    | error err world' =>
      rw [PyM.returns_bind_ok (PyM.attempt_error hread)]
      exact PyM.returns_pure _ _

/-- The plan is made, whatever the lane does, and leaves the weights. -/
theorem resumePlan_returns (E : MinerEnv) (lane : Lane ω) (bounds : ResumeBounds)
    (targetRoot : Json) (own : Option Coord) (man : Option Manifest) (s : Weights host × ω) :
    ∃ r s', resumePlan E lane bounds targetRoot own man s = .ok r s' ∧ s'.1 = s.1 := by
  unfold resumePlan
  obtain ⟨t0, s₁, ht0, hs₁⟩ := @onLane_returns host ω s _ lane.clock ⟨_, _, Lane.clock_run _ _⟩
  rw [PyM.bind_run_ok ht0, PyM.bind_run_ok (PyM.get_run _)]
  split
  · exact ⟨_, s₁, rfl, hs₁⟩
  · cases ownSlot host own with
    | none => exact ⟨_, s₁, rfl, hs₁⟩
    | some own =>
      obtain ⟨r, s₂, hman, hs₂⟩ := onLane_returns
        (readManifest_returns ⟨lane, bounds.callTimeout, some (t0 + bounds.budget)⟩ man s₁.2)
      dsimp only
      rw [PyM.bind_run_ok hman]
      cases r with
      | error reason => exact ⟨_, s₂, rfl, hs₂.trans hs₁⟩
      | ok man => exact ⟨_, s₂, rfl, hs₂.trans hs₁⟩

/-- The plan of a resume that has a manifest and a root to reach. -/
theorem resumePlan_given {own' : Option OwnCoord} {man : Manifest}
    (htruthy : targetRoot.truthy = true) (hroot : modelRoot E s.1 ≠ targetRoot.toStr E.toPyText)
    (hslot : ownSlot host own = some own') :
    resumePlan E lane bounds targetRoot own (some man) s
      = .ok (.inr ⟨⟨lane, bounds.callTimeout, some (.fin (lane.now s.2).1 + bounds.budget)⟩, man,
          own', targetRoot.toStr E.toPyText, .fin (lane.now s.2).1, bounds⟩)
        (s.1, (lane.now s.2).2) := by
  obtain ⟨w, world⟩ := s
  have hclock : onLane lane.clock (w, world)
      = .ok (.fin (lane.now world).1) (w, (lane.now world).2) := rfl
  have hcond : ¬ (!targetRoot.truthy
      || decide (modelRoot E w = targetRoot.toStr E.toPyText)) = true := by
    rw [htruthy, decide_eq_false hroot]
    exact nofun
  unfold resumePlan
  rw [PyM.bind_run_ok hclock, PyM.bind_run_ok (PyM.get_run _), if_neg hcond, hslot]
  rfl

/-- **Fail-closed**: the resume returns, and one that does not reach the root leaves every slot. -/
def FailClosed (E : MinerEnv) (lane : Lane ω) (bounds : ResumeBounds) (targetRoot : Json)
    (own : Option Coord) (man : Option Manifest) (s : Weights host × ω) : Prop :=
  ∃ outcome s', resumeToRoot E lane bounds targetRoot own man s = .ok outcome s'
    ∧ (outcome.reached = false → SlotsKept host s.1 s'.1)

end Whole

end Resume

section NoDelta

def defaultBounds : ResumeBounds := ⟨.fin 180, .fin 30, .fin 90, 200000⟩

/-- The resume to a root with a lane that serves one record, and no delta. -/
def resumeOf (record : Json) : PyM (Weights oneIndex × Unit) ResumeOutcome :=
  resumeToRoot .digits (.still ∅ (.ofList [("s", record)]) ∅) defaultBounds (.str "root") none
    (some (oneListed 1))

theorem resumeOf_oneRow :
    (match resumeOf oneRow (zeroWeights oneIndex) with
      | .ok _ _ => false
      | .error _ _ => true) = true := by
  decide +kernel

end NoDelta

end NeuraHash
