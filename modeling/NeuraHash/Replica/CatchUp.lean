import NeuraHash.Replica.Checked

/-!
# Catching up with the accepted records (`catch_up_accepted`)

Between two rounds of training a miner folds the accepted records it can see, in the order of their
events and up to the pointer's. A record that is not to be had, or is off-lineage, ends the catch-up
where it stands, and one whose own row fails the re-gate aborts it.

What the catch-up promises is `CatchesUp`. Only a `CatchupTimeout` of a fold is handled, so any
other exception of a served record ends the miner (`catch_up_iff`).
-/

namespace NeuraHash

open Py

section CatchUp

variable {host : LaneHost} {ω : Type} (E : MinerEnv) (bounded : BoundedLane ω)
  (regate : Regate host ω) (man : Manifest)

/-- What `catch_up_accepted` returns, and the records it appends to `folded`. -/
structure CatchUp where
  lastApplied : ℤ
  appliedAny : Bool
  abort : Option ℤ
  folded : List Json

/-- `lane.get_json(entry["sha256"])`. -/
def fetchRecord (entry : Json) : PyM ω Json := do
  let sha ← PyM.ofExcept (entry.item "sha256")
  bounded.getJson sha

/-- A turn of the loop over the events. -/
def catchUpTurn (st : CatchUp) (e : ℤ) : PyM (Weights host × ω) (PyM.Turn CatchUp CatchUp) := do
  match man.get? (acceptedName host.campaign e) with
  | none => return .stop st
  | some entry =>
    if !entry.truthy then return .stop st
    match ← PyM.attempt (onLane (fetchRecord bounded entry)) with
    | .error _ => return .stop st
    | .ok record =>
      match ← PyM.attempt (foldAcceptedChecked E bounded regate record) with
      | .error err => if err = catchupTimeout then return .stop st else throw err
      | .ok (.poison _) => return .stop { st with abort := some 8 }
      | .ok .lineage => return .stop st
      | .ok .ok =>
        return .next
          { st with lastApplied := e, appliedAny := true, folded := st.folded ++ [record] }

/-- `catch_up_accepted(host, lane, man, last_applied, frontier, …)`. -/
def catchUpAccepted (lane : Lane ω) (callTimeout : PyFloat) (lastApplied : ℤ)
    (frontier : Option ℤ) : PyM (Weights host × ω) CatchUp := do
  let events := scanAcceptedEventsBounded man lastApplied frontier host.campaign
  match ← PyM.loop (catchUpTurn E ⟨lane, callTimeout, none⟩ regate man) events
      ⟨lastApplied, false, none, []⟩ with
  | .next st => return st
  | .stop st => return st

/-! ## A turn -/

variable {E bounded regate man} {st st' : CatchUp} {e : ℤ} {record : Json}
  {s s' s'' : Weights host × ω}

/-- The record of an event, as the lane serves it in this state. -/
def Fetched (host : LaneHost) (bounded : BoundedLane ω) (man : Manifest) (e : ℤ)
    (s : Weights host × ω) (record : Json) (s' : Weights host × ω) : Prop :=
  ∃ entry, man.get? (acceptedName host.campaign e) = some entry ∧ entry.truthy = true
    ∧ onLane (fetchRecord bounded entry) s = .ok record s'

theorem onLane_weights {α : Type} {x : PyM ω α} {a : α} (h : onLane x s = .ok a s') :
    s'.1 = s.1 := by
  obtain ⟨w, world⟩ := s
  rw [onLane_run] at h
  cases hx : x world with
  | ok a' world' =>
    rw [hx] at h
    cases h
    rfl
  | error err world' =>
    rw [hx] at h
    cases h

theorem Fetched.weights (h : Fetched host bounded man e s record s') : s'.1 = s.1 := by
  obtain ⟨entry, -, -, hrun⟩ := h
  exact onLane_weights hrun

theorem Fetched.unique {record' : Json} (h : Fetched host bounded man e s record s')
    (h' : Fetched host bounded man e s record' s'') : record' = record ∧ s'' = s' := by
  obtain ⟨entry, hentry, -, hrun⟩ := h
  obtain ⟨entry', hentry', -, hrun'⟩ := h'
  rw [hentry] at hentry'
  cases hentry'
  rw [hrun] at hrun'
  cases hrun'
  exact ⟨rfl, rfl⟩

/-- What a served record does to the catch-up. -/
theorem catchUpTurn_fetched (h : Fetched host bounded man e s record s') :
    catchUpTurn E bounded regate man st e s
      = match foldAcceptedChecked E bounded regate record s' with
        | .error err s'' => if err = catchupTimeout then .ok (.stop st) s'' else .error err s''
        | .ok (.poison _) s'' => .ok (.stop { st with abort := some 8 }) s''
        | .ok .lineage s'' => .ok (.stop st) s''
        | .ok .ok s'' => .ok (.next { st with
            lastApplied := e, appliedAny := true, folded := st.folded ++ [record] }) s'' := by
  obtain ⟨entry, hentry, htruthy, hrun⟩ := h
  unfold catchUpTurn
  rw [hentry]
  dsimp only
  rw [htruthy]
  show (PyM.attempt (onLane (fetchRecord bounded entry)) >>= _) s = _
  rw [PyM.bind_run_ok (PyM.attempt_ok hrun)]
  dsimp only
  cases hfold : foldAcceptedChecked E bounded regate record s' with
  | error err s'' =>
    rw [PyM.bind_run_ok (PyM.attempt_error hfold)]
    dsimp only
    split <;> rfl
  | ok verdict s'' =>
    rw [PyM.bind_run_ok (PyM.attempt_ok hfold)]
    cases verdict <;> rfl

/-- An event with no record to be had ends the catch-up. -/
theorem catchUpTurn_unfetched (h : ¬ ∃ record s', Fetched host bounded man e s record s') :
    ∃ world, catchUpTurn E bounded regate man st e s = .ok (.stop st) (s.1, world) := by
  obtain ⟨w, world⟩ := s
  unfold catchUpTurn
  cases hentry : man.get? (acceptedName host.campaign e) with
  | none => exact ⟨world, rfl⟩
  | some entry =>
    dsimp only
    cases htruthy : entry.truthy with
    | false => exact ⟨world, rfl⟩
    | true =>
      show ∃ world', (PyM.attempt (onLane (fetchRecord bounded entry)) >>= _) (w, world) = _
      cases hrun : onLane (fetchRecord bounded entry) (w, world) with
      | ok record s' => exact absurd ⟨record, s', entry, hentry, htruthy, hrun⟩ h
      | error err s' =>
        rw [PyM.bind_run_ok (PyM.attempt_error hrun)]
        rw [onLane_run] at hrun
        cases hlane : fetchRecord bounded entry world with
        | ok a world' =>
          rw [hlane] at hrun
          cases hrun
        | error err' world' =>
          rw [hlane] at hrun
          cases hrun
          exact ⟨world', rfl⟩

/-! ## The run -/

/-- The records of these events are served and folded one after the other. -/
inductive Folds (E : MinerEnv) (bounded : BoundedLane ω) (regate : Regate host ω) (man : Manifest)
    (s : Weights host × ω) : List ℤ → List Json → Weights host × ω → Prop where
  | nil : Folds E bounded regate man s [] [] s
  | snoc {events : List ℤ} {records : List Json} {s₁ s₂ s₃ : Weights host × ω} {e : ℤ}
      {record : Json} (h : Folds E bounded regate man s events records s₁)
      (hfetched : Fetched host bounded man e s₁ record s₂)
      (hfold : foldAcceptedChecked E bounded regate record s₂ = .ok .ok s₃) :
      Folds E bounded regate man s (events ++ [e]) (records ++ [record]) s₃

theorem Folds.unique {events : List ℤ} {records records' : List Json}
    (h : Folds E bounded regate man s events records s')
    (h' : Folds E bounded regate man s events records' s'') : records' = records ∧ s'' = s' := by
  induction h generalizing records' s'' with
  | nil =>
    generalize hevents : ([] : List ℤ) = events at h'
    cases h' with
    | nil => exact ⟨rfl, rfl⟩
    | snoc => simp at hevents
  | @snoc events records s₁ s₂ s₃ e record h hfetched hfold ih =>
    generalize hevents : events ++ [e] = events' at h'
    cases h' with
    | nil => simp at hevents
    | @snoc events' records' s₁' s₂' s₃' e' record' h' hfetched' hfold' =>
      obtain ⟨rfl, he⟩ := List.append_inj' hevents rfl
      cases he
      obtain ⟨rfl, rfl⟩ := ih h'
      obtain ⟨rfl, rfl⟩ := hfetched.unique hfetched'
      rw [hfold] at hfold'
      cases hfold'
      exact ⟨rfl, rfl⟩

/-- A loop that has come past some events has folded their records. -/
theorem folds_of_loop {events : List ℤ}
    (h : PyM.loop (catchUpTurn E bounded regate man) events st s = .ok (.next st') s') :
    ∃ records, Folds E bounded regate man s events records s'
      ∧ st'.folded = st.folded ++ records ∧ st'.lastApplied = events.getLastD st.lastApplied
      ∧ st'.abort = st.abort := by
  induction events using List.reverseRecOn generalizing st' s' with
  | nil =>
    cases h
    exact ⟨[], .nil, (List.append_nil _).symm, rfl, rfl⟩
  | append_singleton events e ih =>
    obtain ⟨st₁, s₁, hbefore, hlast⟩ := PyM.loop_concat h
    obtain ⟨records, hfolds, hfolded, hlastApplied, habort⟩ := ih hbefore
    by_cases hfetched : ∃ record s₂, Fetched host bounded man e s₁ record s₂
    · obtain ⟨record, s₂, hfetched⟩ := hfetched
      rw [catchUpTurn_fetched hfetched] at hlast
      cases hfold : foldAcceptedChecked E bounded regate record s₂ with
      | error err s₃ =>
        rw [hfold] at hlast
        dsimp only at hlast
        split at hlast <;> cases hlast
      | ok verdict s₃ =>
        rw [hfold] at hlast
        cases verdict with
        | ok =>
          cases hlast
          refine ⟨records ++ [record], hfolds.snoc hfetched hfold, ?_, by simp, habort⟩
          show st₁.folded ++ [record] = _
          rw [hfolded, List.append_assoc]
        | poison rejected => cases hlast
        | lineage => cases hlast
    · obtain ⟨world, hturn⟩ := @catchUpTurn_unfetched host ω E bounded regate man st₁ e s₁ hfetched
      rw [hturn] at hlast
      cases hlast

/-- A loop comes past events whose records it can fold. -/
theorem loop_of_folds {events : List ℤ} {records : List Json}
    (h : Folds E bounded regate man s events records s') :
    ∃ st', PyM.loop (catchUpTurn E bounded regate man) events st s = .ok (.next st') s' := by
  induction h with
  | nil => exact ⟨st, rfl⟩
  | @snoc events records s₁ s₂ s₃ e record h hfetched hfold ih =>
    obtain ⟨st₁, hloop⟩ := ih
    refine ⟨{ st₁ with lastApplied := e, appliedAny := true, folded := st₁.folded ++ [record] }, ?_⟩
    rw [PyM.loop_append hloop]
    refine PyM.loop_cons_next ?_
    rw [catchUpTurn_fetched hfetched, hfold]

section Whole

variable {lane : Lane ω} {callTimeout : PyFloat} {lastApplied : ℤ} {frontier : Option ℤ}

/-- A record the catch-up comes to: those before it are folded, and it is served. -/
def Reaches (E : MinerEnv) (lane : Lane ω) (callTimeout : PyFloat) (regate : Regate host ω)
    (man : Manifest) (lastApplied : ℤ) (frontier : Option ℤ) (s : Weights host × ω)
    (record : Json) (s₂ : Weights host × ω) : Prop :=
  ∃ events records e s₁,
    events ++ [e] <+: scanAcceptedEventsBounded man lastApplied frontier host.campaign
    ∧ Folds E ⟨lane, callTimeout, none⟩ regate man s events records s₁
    ∧ Fetched host ⟨lane, callTimeout, none⟩ man e s₁ record s₂

/-- The fold of a record raises `CatchupTimeout` only, and takes back what it does not keep. -/
structure Contained (E : MinerEnv) (bounded : BoundedLane ω) (regate : Regate host ω)
    (record : Json) (s : Weights host × ω) : Prop where
  raised : ∀ err s', foldAcceptedChecked E bounded regate record s = .error err s' →
    err = catchupTimeout ∧ s'.1 = s.1
  lineage : ∀ s', foldAcceptedChecked E bounded regate record s = .ok .lineage s' → s'.1 = s.1

/-- A record that writes no coordinate through two slots takes back what it does not keep. -/
theorem contained_of_placedApart {E : MinerEnv} {bounded : BoundedLane ω} {regate : Regate host ω}
    {record : Json} {s : Weights host × ω} (hapart : PlacedApart E.toPyText host record)
    (hraised : ∀ err s', foldAcceptedChecked E bounded regate record s = .error err s' →
      err = catchupTimeout) : Contained E bounded regate record s where
  raised err s' h := ⟨hraised err s' h, fold_raised hapart h⟩
  lineage _ h := fold_lineage hapart h

/-- **The promise of the catch-up**: it returns with an event no earlier than it had and no later
than the frontier, and has folded the records of the events between, in order; unless it aborts,
the weights are those after these records. -/
def CatchesUp (E : MinerEnv) (lane : Lane ω) (callTimeout : PyFloat) (regate : Regate host ω)
    (man : Manifest) (lastApplied : ℤ) (frontier : Option ℤ) (s : Weights host × ω) : Prop :=
  ∃ st s', catchUpAccepted E regate man lane callTimeout lastApplied frontier s = .ok st s'
    ∧ lastApplied ≤ st.lastApplied
    ∧ (∀ f, frontier = some f → st.lastApplied ≤ max lastApplied f)
    ∧ ∃ s₁, Folds E ⟨lane, callTimeout, none⟩ regate man s
        (eventsBetween lastApplied st.lastApplied) st.folded s₁
      ∧ (st.abort ≠ some 8 → s'.1 = s₁.1)

/-- Where the catch-up stands after the first events of its scan. -/
theorem standing {before : List ℤ} {st : CatchUp}
    (hinit : before <+: scanAcceptedEventsBounded man lastApplied frontier host.campaign)
    (h : PyM.loop (catchUpTurn E ⟨lane, callTimeout, none⟩ regate man) before
      ⟨lastApplied, false, none, []⟩ s = .ok (.next st) s') :
    Folds E ⟨lane, callTimeout, none⟩ regate man s (eventsBetween lastApplied st.lastApplied)
        st.folded s'
      ∧ before = eventsBetween lastApplied st.lastApplied ∧ lastApplied ≤ st.lastApplied
      ∧ (∀ f, frontier = some f → st.lastApplied ≤ max lastApplied f) ∧ st.abort = none := by
  obtain ⟨n, hn, hscan⟩ := scanAcceptedEventsBounded_eq man lastApplied frontier host.campaign
  obtain ⟨records, hfolds, hfolded, hlast, habort⟩ := folds_of_loop h
  rw [hscan] at hinit
  have hlen := hinit.length_le
  rw [length_eventsBetween] at hlen
  have hbefore := eventsBetween_prefix hinit
  have hlast' : st.lastApplied = lastApplied + before.length := by
    rw [hlast]
    show before.getLastD lastApplied = _
    rw [hbefore, getLastD_eventsBetween]
    simp
  rw [← hlast'] at hbefore
  refine ⟨?_, hbefore, by omega, fun f hf => ?_, habort⟩
  · rw [← hbefore, hfolded]
    exact hfolds
  · have hf' := hn f hf
    omega

theorem catchUpAccepted_run (s : Weights host × ω) :
    catchUpAccepted E regate man lane callTimeout lastApplied frontier s
      = match PyM.loop (catchUpTurn E ⟨lane, callTimeout, none⟩ regate man)
          (scanAcceptedEventsBounded man lastApplied frontier host.campaign)
          ⟨lastApplied, false, none, []⟩ s with
        | .ok (.next st) s' => .ok st s'
        | .ok (.stop st) s' => .ok st s'
        | .error err s' => .error err s' := by
  unfold catchUpAccepted
  rw [PyM.bind_run]
  cases PyM.loop (catchUpTurn E ⟨lane, callTimeout, none⟩ regate man)
      (scanAcceptedEventsBounded man lastApplied frontier host.campaign)
      ⟨lastApplied, false, none, []⟩ s with
  | error err s' => rfl
  | ok turn s' => cases turn <;> rfl

/-- The catch-up up to a record it comes to. -/
theorem reaches_run {record : Json} {s₂ : Weights host × ω}
    (h : Reaches E lane callTimeout regate man lastApplied frontier s record s₂) :
    ∃ st₁ s₁ e after, Folds E ⟨lane, callTimeout, none⟩ regate man s
        (eventsBetween lastApplied st₁.lastApplied) st₁.folded s₁
      ∧ Fetched host ⟨lane, callTimeout, none⟩ man e s₁ record s₂ ∧ st₁.abort = none
      ∧ PyM.loop (catchUpTurn E ⟨lane, callTimeout, none⟩ regate man)
          (scanAcceptedEventsBounded man lastApplied frontier host.campaign)
          ⟨lastApplied, false, none, []⟩ s
        = PyM.loop (catchUpTurn E ⟨lane, callTimeout, none⟩ regate man) (e :: after) st₁ s₁ := by
  obtain ⟨events, records, e, s₁, ⟨after, hscan⟩, hfolds, hfetched⟩ := h
  obtain ⟨st₁, hloop⟩ := @loop_of_folds host ω E ⟨lane, callTimeout, none⟩ regate man
    ⟨lastApplied, false, none, []⟩ s s₁ events records hfolds
  obtain ⟨hstanding, -, -, -, habort⟩ := standing ⟨e :: after, by rw [← hscan]; simp⟩ hloop
  refine ⟨st₁, s₁, e, after, hstanding, hfetched, habort, ?_⟩
  rw [← hscan, List.append_assoc, PyM.loop_append hloop]
  rfl

/-- A turn that comes to no record, or to one whose fold is contained, returns; where it stops, the
weights are as before, or the catch-up aborts. -/
theorem turn_returns {bounded : BoundedLane ω} {st : CatchUp} {e : ℤ}
    (hcontained : ∀ record s₂, Fetched host bounded man e s record s₂ →
      Contained E bounded regate record s₂) :
    (catchUpTurn E bounded regate man st e).Returns s
      ∧ ∀ st' s', catchUpTurn E bounded regate man st e s = .ok (.stop st') s' →
        st'.lastApplied = st.lastApplied ∧ st'.folded = st.folded
          ∧ (st'.abort ≠ some 8 → s'.1 = s.1) := by
  by_cases hfetched : ∃ record s₂, Fetched host bounded man e s record s₂
  · obtain ⟨record, s₂, hfetched⟩ := hfetched
    have hfold := hcontained record s₂ hfetched
    unfold PyM.Returns
    rw [catchUpTurn_fetched hfetched]
    cases hrun : foldAcceptedChecked E bounded regate record s₂ with
    | error err s₃ =>
      obtain ⟨herr, hsame⟩ := hfold.raised err s₃ hrun
      dsimp only
      rw [if_pos herr]
      refine ⟨⟨_, _, rfl⟩, fun st' s' h => ?_⟩
      cases h
      exact ⟨rfl, rfl, fun _ => hsame.trans hfetched.weights⟩
    | ok verdict s₃ =>
      cases verdict with
      | ok => exact ⟨⟨_, _, rfl⟩, fun st' s' h => by cases h⟩
      | poison rejected =>
        refine ⟨⟨_, _, rfl⟩, fun st' s' h => ?_⟩
        cases h
        exact ⟨rfl, rfl, fun habort => absurd rfl habort⟩
      | lineage =>
        refine ⟨⟨_, _, rfl⟩, fun st' s' h => ?_⟩
        cases h
        exact ⟨rfl, rfl, fun _ => (hfold.lineage s₃ hrun).trans hfetched.weights⟩
  · obtain ⟨world, hturn⟩ := @catchUpTurn_unfetched host ω E bounded regate man st e s hfetched
    refine ⟨⟨_, _, hturn⟩, fun st' s' h => ?_⟩
    rw [hturn] at h
    cases h
    exact ⟨rfl, rfl, fun _ => rfl⟩

end Whole

end CatchUp

section NoObject

/-- A manifest with one accepted record. -/
def oneListed (e : ℤ) : Manifest :=
  .ofList [(acceptedName none e, .obj [("sha256", .str "s")])]

/-- The catch-up with a lane that serves this record, from event zero to one. -/
def catchUpOf (record : Json) : PyM (Weights oneIndex × Unit) CatchUp :=
  catchUpAccepted .ideal (noRegate oneIndex) (oneListed 1) (oneDelta ∅ [("s", record)]).lane
    (.fin 90) 0 (some 1)

theorem catchUpOf_null :
    (match catchUpOf .null (zeroWeights oneIndex) with
      | .ok _ _ => false
      | .error _ _ => true) = true := by
  decide +kernel

end NoObject

end NeuraHash
