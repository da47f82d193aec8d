import NeuraHash.Platform
import NeuraHash.Python.Mutation
import NeuraHash.Systems.History

/-!
# Is the coordinator still moving

`LaneLiveness` remembers the highest value it has seen of three counters, and the time one of them
last rose. `observe` reports a lane as stale once nothing has risen for the threshold.

`observe_eq` is what one call does. `Tracks` says what a run of calls has left in the detector, in
terms of the calls alone: the maxima of the counters and the time of the last call that moved.
`publishStamp` is the coordinator's side: its stamps rise over any number of restarts
(`laneStamps_pairwise`), so each publish moves the detector once.
-/

namespace NeuraHash

open Py Systems

inductive Counter where
  | event
  | accepted
  | stamp
  deriving DecidableEq, Repr

inductive LaneState where
  | live
  | waiting
  | stale
  | recovered
  deriving DecidableEq, Repr

/-- `high k` is `high_event`, `high_accepted` or `high_stamp`. -/
structure LaneLiveness where
  thresholdS : PyFloat
  high : Counter → Option ℤ
  lastMoveT : PyFloat
  stale : Bool
  lastShoutT : Option PyFloat

/-- A call of `observe`: a clock reading, and what the tick read of each counter. -/
structure Observation where
  now : ℚ
  val : Counter → Json

namespace LaneLiveness

def init (thresholdS : PyFloat) (now : ℚ) : LaneLiveness :=
  ⟨thresholdS, fun _ => none, .fin now, false, none⟩

def enabled (s : LaneLiveness) : Bool := PyFloat.lt (.fin 0) s.thresholdS

def setHigh (k : Counter) (v : ℤ) (s : LaneLiveness) : LaneLiveness :=
  { s with high := Function.update s.high k (some v) }

/-- A turn of `observe`'s loop: did this counter move? -/
def watch (T : PyText) (k : Counter) (val : Json) : PyM LaneLiveness Bool := do
  match val.notNone, val.toInt T with
  | false, _ => return false
  | true, .error .typeError => return false
  | true, .error .valueError => return false
  | true, .error e => throw e
  | true, .ok v =>
    match (← get).high k with
    | none =>
      -- the first value seeds the maximum, and is no movement
      modify (setHigh k v)
      return false
    | some cur =>
      if cur < v then
        modify (setHigh k v)
        return true
      else
        return false

def observe (T : PyText) (c : Observation) : PyM LaneLiveness LaneState := do
  let event ← watch T .event (c.val .event)
  let accepted ← watch T .accepted (c.val .accepted)
  let stamp ← watch T .stamp (c.val .stamp)
  if event || accepted || stamp then
    modify fun s => { s with lastMoveT := .fin c.now }
    if (← get).stale then
      modify fun s => { s with stale := false, lastShoutT := none }
      return .recovered
    return .live
  let s ← get
  if !s.enabled then
    return .waiting
  if PyFloat.le s.thresholdS (.fin c.now - s.lastMoveT) then
    modify fun s => { s with stale := true }
    return .stale
  return .waiting

end LaneLiveness

/-! ## What a call reads -/

namespace Observation

variable (T : PyText) (c : Observation)

/-- The counter as a number, where the tick read one. -/
def value (k : Counter) : Option ℤ := ((c.val k).toInt T).toOption

/-- No counter is an infinite float. -/
def Readable : Prop := ∀ k, (c.val k).toInt T ≠ .error .overflowError

end Observation

/-- What `int` can raise. -/
theorem toInt_error {T : PyText} {j : Json} {e : PyErr} (h : j.toInt T = .error e) :
    e = .typeError ∨ e = .valueError ∨ e = .overflowError := by
  unfold Json.toInt at h
  split at h <;> first | simp_all | (split at h <;> simp_all)

/-- A running maximum after one more reading. -/
def raised (cur : Option ℤ) : Option ℤ → Option ℤ
  | none => cur
  | some v => some (cur.elim v (max · v))

@[simp] theorem raised_some (m v : ℤ) : raised (some m) (some v) = some (max m v) := rfl

/-- Is the reading above the running maximum? -/
def rises : Option ℤ → Option ℤ → Bool
  | some m, some v => decide (m < v)
  | _, _ => false

theorem rises_iff {cur val : Option ℤ} :
    rises cur val = true ↔ ∃ m v, cur = some m ∧ val = some v ∧ m < v := by
  cases cur <;> cases val <;> simp [rises]

namespace LaneLiveness

variable {T : PyText} {s : LaneLiveness} {c : Observation} {k : Counter}

/-- The detector with one counter read. -/
def note (k : Counter) (val : Option ℤ) (s : LaneLiveness) : LaneLiveness :=
  { s with high := Function.update s.high k (raised (s.high k) val) }

theorem note_none : s.note k none = s := by
  unfold note raised
  rw [Function.update_eq_self]

theorem rises_none (cur : Option ℤ) : rises cur none = false := by
  cases cur <;> rfl

theorem watch_of_error {e : PyErr} (h : (c.val k).toInt T = .error e) (he : e ≠ .overflowError) :
    watch T k (c.val k) s = .ok false s := by
  unfold watch
  rw [h]
  rcases toInt_error h with rfl | rfl | rfl
  · cases (c.val k).notNone <;> rfl
  · cases (c.val k).notNone <;> rfl
  · exact absurd rfl he

theorem watch_of_ok {v : ℤ} (h : (c.val k).toInt T = .ok v) :
    watch T k (c.val k) s = .ok (rises (s.high k) (some v)) (s.note k (some v)) := by
  have hsome : (c.val k).notNone = true := by
    cases hval : c.val k <;> first | rfl | (rw [hval] at h; cases h)
  unfold watch
  rw [h, hsome]
  show (match s.high k with | none => _ | some cur => _ : PyM LaneLiveness Bool) s = _
  cases hhigh : s.high k with
  | none =>
    show EStateM.Result.ok false (setHigh k v s) = .ok false (s.note k (some v))
    unfold note setHigh
    rw [hhigh]
    rfl
  | some cur =>
    by_cases hlt : cur < v
    · have hrise : rises (some cur) (some v) = true := decide_eq_true hlt
      simp only [if_pos hlt]
      show EStateM.Result.ok true (setHigh k v s) = _
      unfold note setHigh
      rw [hhigh, hrise, raised_some, max_eq_right hlt.le]
    · have hrise : rises (some cur) (some v) = false := decide_eq_false hlt
      simp only [if_neg hlt]
      show EStateM.Result.ok false s = _
      unfold note
      rw [hhigh, hrise, raised_some, max_eq_left (by omega), ← hhigh, Function.update_eq_self]

theorem watch_eq (h : (c.val k).toInt T ≠ .error .overflowError) :
    watch T k (c.val k) s = .ok (rises (s.high k) (c.value T k)) (s.note k (c.value T k)) := by
  cases hint : (c.val k).toInt T with
  | error e =>
    have hvalue : c.value T k = none := by
      unfold Observation.value
      rw [hint]
      rfl
    rw [watch_of_error hint (fun he => h (he ▸ hint)), hvalue, rises_none, note_none]
  | ok v =>
    have hvalue : c.value T k = some v := by
      unfold Observation.value
      rw [hint]
      rfl
    rw [watch_of_ok hint, hvalue]

theorem watch_of_overflow (h : (c.val k).toInt T = .error .overflowError) :
    watch T k (c.val k) s = .error .overflowError s := by
  unfold watch
  rw [h]
  cases hval : c.val k <;> first | rfl | (rw [hval] at h; cases h)

/-- What one call raises of the counters. -/
def noted (T : PyText) (c : Observation) (s : LaneLiveness) : LaneLiveness :=
  { s with high := fun k => raised (s.high k) (c.value T k) }

def moves (T : PyText) (c : Observation) (s : LaneLiveness) : Bool :=
  rises (s.high .event) (c.value T .event) || rises (s.high .accepted) (c.value T .accepted)
    || rises (s.high .stamp) (c.value T .stamp)

theorem moves_iff : s.moves T c = true ↔ ∃ k, rises (s.high k) (c.value T k) = true := by
  unfold moves
  rw [Bool.or_eq_true, Bool.or_eq_true]
  constructor
  · rintro ((h | h) | h)
    · exact ⟨.event, h⟩
    · exact ⟨.accepted, h⟩
    · exact ⟨.stamp, h⟩
  · rintro ⟨k, h⟩
    cases k with
    | event => exact Or.inl (Or.inl h)
    | accepted => exact Or.inl (Or.inr h)
    | stamp => exact Or.inr h

theorem note_note_note (T : PyText) (c : Observation) (s : LaneLiveness) :
    ((s.note .event (c.value T .event)).note .accepted (c.value T .accepted)).note .stamp
      (c.value T .stamp) = s.noted T c := by
  unfold note noted
  congr 1
  funext k
  cases k <;> rfl

/-- **What one call does**: it notes the counters; a movement restarts the clock, and a lane
without one is stale from the threshold on. -/
theorem observe_eq (h : c.Readable T) :
    observe T c s =
      if s.moves T c then
        .ok (if s.stale then .recovered else .live)
          { s.noted T c with
            lastMoveT := .fin c.now
            stale := false
            lastShoutT := if s.stale then none else s.lastShoutT }
      else if s.enabled && PyFloat.le s.thresholdS (.fin c.now - s.lastMoveT) then
        .ok .stale { s.noted T c with stale := true }
      else
        .ok .waiting (s.noted T c) := by
  unfold observe
  rw [PyM.bind_run_ok (watch_eq (h .event)), PyM.bind_run_ok (watch_eq (h .accepted)),
    PyM.bind_run_ok (watch_eq (h .stamp)), note_note_note]
  show (if s.moves T c = true then _ else _ : PyM LaneLiveness LaneState) (s.noted T c) = _
  by_cases hmoves : s.moves T c = true
  · rw [if_pos hmoves, if_pos hmoves]
    show (if s.stale = true then _ else _ : PyM LaneLiveness LaneState) _ = _
    cases hstale : s.stale with
    | true => rfl
    | false =>
      show EStateM.Result.ok LaneState.live { s.noted T c with lastMoveT := .fin c.now } = _
      unfold noted
      rw [hstale]
      rfl
  · rw [if_neg hmoves, if_neg hmoves]
    show (if (!s.enabled) = true then _ else _ : PyM LaneLiveness LaneState) (s.noted T c) = _
    cases henabled : s.enabled with
    | false => rfl
    | true =>
      rw [Bool.not_true, if_neg Bool.false_ne_true, Bool.true_and]
      show (if PyFloat.le s.thresholdS (.fin c.now - s.lastMoveT) = true then _ else _ :
        PyM LaneLiveness LaneState) (s.noted T c) = _
      split <;> rfl

theorem observe_of_not_readable (h : ¬ c.Readable T) :
    ∃ e s', observe T c s = .error e s' := by
  unfold observe
  by_cases hevent : (c.val .event).toInt T = .error .overflowError
  · exact ⟨_, _, PyM.bind_run_error (watch_of_overflow hevent)⟩
  rw [PyM.bind_run_ok (watch_eq hevent)]
  by_cases haccepted : (c.val .accepted).toInt T = .error .overflowError
  · exact ⟨_, _, PyM.bind_run_error (watch_of_overflow haccepted)⟩
  rw [PyM.bind_run_ok (watch_eq haccepted)]
  by_cases hstamp : (c.val .stamp).toInt T = .error .overflowError
  · exact ⟨_, _, PyM.bind_run_error (watch_of_overflow hstamp)⟩
  refine absurd (fun k => ?_) h
  cases k with
  | event => exact hevent
  | accepted => exact haccepted
  | stamp => exact hstamp

/-- The detector as a machine: a call answers or raises. -/
def step (T : PyText) (s : LaneLiveness) (c : Observation) : Except PyErr LaneState × LaneLiveness :=
  match observe T c s with
  | .ok state s' => (.ok state, s')
  | .error e s' => (.error e, s')

end LaneLiveness

/-! ## Runs of calls -/

/-- What the calls read of a counter. -/
def values (T : PyText) (k : Counter) (calls : List Observation) : List ℤ :=
  calls.filterMap fun c => c.value T k

/-- Some counter of the call is above everything the earlier calls read of it. -/
def Observation.Exceeds (T : PyText) (earlier : List Observation) (c : Observation) : Prop :=
  ∃ k v, c.value T k = some v ∧ values T k earlier ≠ [] ∧ ∀ w ∈ values T k earlier, w < v

/-- A call at the time `t` exceeded the calls before it. -/
def MovedAt (T : PyText) (calls : List Observation) (t : ℚ) : Prop :=
  ∃ earlier c later, calls = earlier ++ c :: later ∧ c.now = t ∧ c.Exceeds T earlier

section Runs

variable {T : PyText} {calls : List Observation} {c : Observation}

theorem values_concat (k : Counter) :
    values T k (calls ++ [c]) = values T k calls ++ (c.value T k).toList := by
  unfold values
  rw [List.filterMap_append]
  cases h : c.value T k <;> simp [h]

theorem raised_max? (k : Counter) :
    raised (values T k calls).max? (c.value T k) = (values T k (calls ++ [c])).max? := by
  rw [values_concat]
  cases c.value T k with
  | none => rw [Option.toList_none, List.append_nil]; rfl
  | some v =>
    cases hmax : (values T k calls).max? with
    | none =>
      rw [List.max?_eq_none_iff.mp hmax]
      rfl
    | some m =>
      obtain ⟨hmem, hle⟩ := List.max?_eq_some_iff.mp hmax
      show some (max m v) = _
      refine (List.max?_eq_some_iff.mpr ⟨?_, fun w hw => ?_⟩).symm
      · rcases max_choice m v with h | h
        · rw [h]
          exact List.mem_append_left _ hmem
        · rw [h]
          exact List.mem_append_right _ (List.mem_singleton_self v)
      · rcases List.mem_append.mp hw with hw | hw
        · exact le_max_of_le_left (hle w hw)
        · exact le_max_of_le_right (List.mem_singleton.mp hw).le

theorem rises_max?_iff {l : List ℤ} {v : ℤ} :
    rises l.max? (some v) = true ↔ l ≠ [] ∧ ∀ w ∈ l, w < v := by
  rw [rises_iff]
  constructor
  · rintro ⟨m, v', hmax, hv, hlt⟩
    cases hv
    obtain ⟨hmem, hle⟩ := List.max?_eq_some_iff.mp hmax
    exact ⟨List.ne_nil_of_mem hmem, fun w hw => lt_of_le_of_lt (hle w hw) hlt⟩
  · rintro ⟨hne, hlt⟩
    obtain ⟨m, hmax⟩ := Option.isSome_iff_exists.mp (List.isSome_max?_iff.mpr hne)
    exact ⟨m, v, hmax, rfl, hlt m (List.max?_eq_some_iff.mp hmax).1⟩

theorem movedAt_concat {t : ℚ} :
    MovedAt T (calls ++ [c]) t ↔ MovedAt T calls t ∨ (c.now = t ∧ c.Exceeds T calls) := by
  constructor
  · rintro ⟨earlier, d, later, heq, ht, hexceeds⟩
    rcases List.eq_nil_or_concat later with rfl | ⟨later, e, rfl⟩
    · obtain ⟨rfl, hd⟩ := List.append_inj' heq rfl
      cases hd
      exact Or.inr ⟨ht, hexceeds⟩
    · rw [List.concat_eq_append, ← List.cons_append, ← List.append_assoc] at heq
      obtain ⟨rfl, -⟩ := List.append_inj' heq rfl
      exact Or.inl ⟨earlier, d, later, rfl, ht, hexceeds⟩
  · rintro (⟨earlier, d, later, rfl, ht, hexceeds⟩ | ⟨ht, hexceeds⟩)
    · exact ⟨earlier, d, later ++ [c], by simp, ht, hexceeds⟩
    · exact ⟨calls, c, [], rfl, ht, hexceeds⟩

theorem movedAt_le {t : ℚ} (hmono : ((calls ++ [c]).map Observation.now).Pairwise (· ≤ ·))
    (h : MovedAt T calls t) : t ≤ c.now := by
  obtain ⟨earlier, d, later, rfl, rfl, -⟩ := h
  rw [List.map_append, List.pairwise_append] at hmono
  exact hmono.2.2 _ (List.mem_map_of_mem (by simp)) _ (List.mem_map_of_mem (by simp))

namespace LaneLiveness

/-- What the calls left in the detector. -/
structure Tracks (T : PyText) (thresholdS : PyFloat) (t₀ : ℚ) (calls : List Observation)
    (s : LaneLiveness) : Prop where
  thresholdS : s.thresholdS = thresholdS
  high : ∀ k, s.high k = (values T k calls).max?
  lastMove : ∃ t, s.lastMoveT = .fin t
    ∧ (MovedAt T calls t ∨ t = t₀ ∧ ∀ t', ¬ MovedAt T calls t')
    ∧ ∀ t', MovedAt T calls t' → t' ≤ t

variable {s : LaneLiveness} {thresholdS : PyFloat} {t₀ : ℚ}

theorem tracks_init : Tracks T thresholdS t₀ [] (init thresholdS t₀) := by
  have hnone : ∀ t, ¬ MovedAt T [] t := by
    rintro t ⟨earlier, d, later, heq, -⟩
    cases earlier <;> cases heq
  exact ⟨rfl, fun _ => rfl, t₀, rfl, Or.inr ⟨rfl, hnone⟩, fun t ht => absurd ht (hnone t)⟩

theorem Tracks.moves_iff (h : Tracks T thresholdS t₀ calls s) :
    s.moves T c = true ↔ c.Exceeds T calls := by
  rw [LaneLiveness.moves_iff]
  constructor
  · rintro ⟨k, hk⟩
    rw [h.high k] at hk
    cases hval : c.value T k with
    | none => rw [hval, rises_none] at hk; cases hk
    | some v =>
      rw [hval] at hk
      exact ⟨k, v, hval, rises_max?_iff.mp hk⟩
  · rintro ⟨k, v, hval, hk⟩
    refine ⟨k, ?_⟩
    rw [h.high k, hval]
    exact rises_max?_iff.mpr hk

theorem Tracks.high_noted (h : Tracks T thresholdS t₀ calls s) (k : Counter) :
    (s.noted T c).high k = (values T k (calls ++ [c])).max? := by
  show raised (s.high k) (c.value T k) = _
  rw [h.high k, raised_max?]

/-- **A call keeps track.** -/
theorem Tracks.step (h : Tracks T thresholdS t₀ calls s) (hread : c.Readable T)
    (hmono : ((calls ++ [c]).map Observation.now).Pairwise (· ≤ ·)) :
    Tracks T thresholdS t₀ (calls ++ [c]) (step T s c).2 := by
  unfold LaneLiveness.step
  rw [observe_eq hread]
  by_cases hmoves : s.moves T c = true
  · rw [if_pos hmoves]
    refine ⟨h.thresholdS, h.high_noted, c.now, rfl, Or.inl ?_, fun t ht => ?_⟩
    · exact movedAt_concat.mpr (Or.inr ⟨rfl, h.moves_iff.mp hmoves⟩)
    · rcases movedAt_concat.mp ht with ht | ⟨ht, -⟩
      · exact movedAt_le hmono ht
      · exact ht.ge
  · -- nothing moved: the last movement is the one before the call
    have hsame : ∀ t, MovedAt T (calls ++ [c]) t ↔ MovedAt T calls t := by
      intro t
      rw [movedAt_concat]
      exact or_iff_left fun hc => hmoves (h.moves_iff.mpr hc.2)
    have hlast : ∃ t, s.lastMoveT = .fin t
        ∧ (MovedAt T (calls ++ [c]) t ∨ t = t₀ ∧ ∀ t', ¬ MovedAt T (calls ++ [c]) t')
        ∧ ∀ t', MovedAt T (calls ++ [c]) t' → t' ≤ t := by
      simp only [hsame]
      exact h.lastMove
    rw [if_neg hmoves]
    cases s.enabled && PyFloat.le s.thresholdS (.fin c.now - s.lastMoveT) with
    | true => exact ⟨h.thresholdS, h.high_noted, hlast⟩
    | false => exact ⟨h.thresholdS, h.high_noted, hlast⟩

theorem readable_of_returned (h : ∃ state, (LaneLiveness.step T s c).1 = .ok state) :
    c.Readable T := by
  by_contra hread
  obtain ⟨e, s', hobs⟩ := observe_of_not_readable (s := s) hread
  obtain ⟨state, hstate⟩ := h
  unfold LaneLiveness.step at hstate
  rw [hobs] at hstate
  cases hstate

theorem exists_state (s : LaneLiveness) (hread : c.Readable T) :
    ∃ state, (LaneLiveness.step T s c).1 = .ok state := by
  unfold LaneLiveness.step
  rw [observe_eq hread]
  cases s.moves T c with
  | true => exact ⟨_, rfl⟩
  | false =>
    cases s.enabled && PyFloat.le s.thresholdS (.fin c.now - s.lastMoveT) with
    | true => exact ⟨_, rfl⟩
    | false => exact ⟨_, rfl⟩

/-- Every call returned. -/
def Returned (T : PyText) (s : LaneLiveness) (calls : List Observation) : Prop :=
  ∀ e ∈ history (LaneLiveness.step T) s calls, ∃ state, e.output = .ok state

theorem returned_of_readable (hread : ∀ c ∈ calls, c.Readable T) :
    Returned T s calls := by
  intro e he
  have hinput : e.input ∈ calls := by
    rw [← @map_input_history _ _ _ (LaneLiveness.step T) s calls]
    exact List.mem_map_of_mem he
  rw [of_mem_history he]
  exact exists_state e.before (hread _ hinput)

/-- **A run of calls that returned keeps track.** -/
theorem tracks_final (hreturned : Returned T (init thresholdS t₀) calls)
    (hmono : (calls.map Observation.now).Pairwise (· ≤ ·)) :
    Tracks T thresholdS t₀ calls (final (LaneLiveness.step T) (init thresholdS t₀) calls) := by
  induction calls using List.reverseRecOn with
  | nil => exact tracks_init
  | append_singleton calls c ih =>
    unfold Returned at hreturned ih
    rw [history_concat] at hreturned
    have hlast := hreturned _ (List.mem_append_right _ (List.mem_singleton_self _))
    have hbefore := ih (fun e he => hreturned e (List.mem_append_left _ he))
      (hmono.sublist (by rw [List.map_append]; exact List.sublist_append_left _ _))
    rw [final_append]
    exact hbefore.step (readable_of_returned hlast) hmono

end LaneLiveness

end Runs

/-! ## The coordinator's stamps -/

/-- A clock reading in whole milliseconds. -/
def clockMs (now : ℚ) : ℤ := if 0 ≤ now * 1000 then ⌊now * 1000⌋ else ⌈now * 1000⌉

/-- `sd_publish_stamp` in a process whose `_SD_LAST_STAMP` is `last`. -/
def publishStamp (last : ℤ) (now : ℚ) : ℤ := if clockMs now ≤ last then last + 1 else clockMs now

/-- The stamps of a process that publishes at these clock readings. -/
def stampsFrom (last : ℤ) : List ℚ → List ℤ
  | [] => []
  | now :: later => publishStamp last now :: stampsFrom (publishStamp last now) later

/-- The stamps of a lane whose coordinator ran these processes, one after the other. -/
def laneStamps (processes : List (List ℚ)) : List ℤ := processes.flatMap (stampsFrom 0)

/-- The first clock reading of every process is above every stamp emitted before it. -/
def ClockAhead (processes : List (List ℚ)) : Prop :=
  ∀ before first rest after, processes = before ++ (first :: rest) :: after →
    ∀ stamp ∈ laneStamps before, stamp < clockMs first

section Stamps

variable {processes : List (List ℚ)}

theorem lt_publishStamp (last : ℤ) (now : ℚ) : last < publishStamp last now := by
  unfold publishStamp
  split <;> omega

theorem clockMs_le_publishStamp (last : ℤ) (now : ℚ) : clockMs now ≤ publishStamp last now := by
  unfold publishStamp
  split <;> omega

/-- The stamps of a process rise from its first one. -/
theorem stampsFrom_pairwise (last : ℤ) (readings : List ℚ) :
    (last :: stampsFrom last readings).Pairwise (· < ·) := by
  induction readings generalizing last with
  | nil => exact List.pairwise_singleton _ _
  | cons now later ih =>
    have hlater := ih (publishStamp last now)
    have hlt := lt_publishStamp last now
    refine List.pairwise_cons.mpr ⟨fun stamp hstamp => ?_, hlater⟩
    rcases List.mem_cons.mp hstamp with rfl | hstamp
    · exact hlt
    · exact hlt.trans ((List.pairwise_cons.mp hlater).1 stamp hstamp)

theorem clockMs_le_of_mem {last : ℤ} {first : ℚ} {rest : List ℚ} {stamp : ℤ}
    (h : stamp ∈ stampsFrom last (first :: rest)) : clockMs first ≤ stamp := by
  have hle := clockMs_le_publishStamp last first
  rcases List.mem_cons.mp h with rfl | h
  · exact hle
  · have hlt := (List.pairwise_cons.mp
      (stampsFrom_pairwise (publishStamp last first) rest)).1 stamp h
    omega

/-- **The stamps of a lane rise over all its restarts.** -/
theorem laneStamps_pairwise (h : ClockAhead processes) :
    (laneStamps processes).Pairwise (· < ·) := by
  induction processes using List.reverseRecOn with
  | nil => exact List.Pairwise.nil
  | append_singleton before readings ih =>
    have hbefore : ClockAhead before := by
      intro b first rest after heq
      exact h b first rest (after ++ [readings]) (by rw [heq]; simp)
    unfold laneStamps at ih ⊢
    rw [List.flatMap_append, List.pairwise_append]
    refine ⟨ih hbefore, ?_, ?_⟩
    · rw [List.flatMap_singleton]
      exact (List.pairwise_cons.mp (stampsFrom_pairwise 0 readings)).2
    · intro old hold stamp hstamp
      rw [List.flatMap_singleton] at hstamp
      cases readings with
      | nil => cases hstamp
      | cons first rest =>
        have hfirst := h before first rest [] rfl old hold
        have hle := clockMs_le_of_mem hstamp
        omega

end Stamps

/-- The call is the first one to read a new publish of the lane: it read the `n`-th publish, every
call before it read an older one or none, and one of them read a stamp. -/
def FirstReading (T : PyText) (stamps : List ℤ) (calls : List Observation) (c : Observation) :
    Prop :=
  ∃ (n : ℕ) (v : ℤ), stamps[n]? = some v ∧ c.value T .stamp = some v ∧ values T .stamp calls ≠ []
    ∧ ∀ w ∈ values T .stamp calls, ∃ m : ℕ, m < n ∧ stamps[m]? = some w

/-- What the detector reports of a call: stale exactly when the last movement, or the construction
where there was none, is the threshold away; movement for a counter above its maximum only. -/
structure Exact (T : PyText) (thresholdS : PyFloat) (t₀ : ℚ) (calls : List Observation)
    (c : Observation) (state : LaneState) : Prop where
  stale_iff : state = .stale ↔
    (∀ t, MovedAt T (calls ++ [c]) t → PyFloat.le thresholdS (.fin (c.now - t)) = true)
      ∧ ((∀ t, ¬ MovedAt T (calls ++ [c]) t) →
        PyFloat.le thresholdS (.fin (c.now - t₀)) = true)
  moved_iff : state = .live ∨ state = .recovered ↔ c.Exceeds T calls
  reread : (∀ k v, c.value T k = some v → ∃ w ∈ values T k calls, v ≤ w) →
    state = .waiting ∨ state = .stale
  publish : ∀ processes, ClockAhead processes → FirstReading T (laneStamps processes) calls c →
    state = .live ∨ state = .recovered

section Detector

variable {T : PyText} {thresholdS : PyFloat} {t₀ : ℚ} {calls : List Observation} {c : Observation}

theorem le_fin_mono {x : PyFloat} {a b : ℚ} (h : PyFloat.le x (.fin a) = true) (hab : a ≤ b) :
    PyFloat.le x (.fin b) = true := by
  cases x with
  | fin q =>
    rw [PyFloat.fin_le, decide_eq_true_eq] at h ⊢
    exact h.trans hab
  | _ => first | rfl | cases h

theorem le_zero_of_pos {x : PyFloat} (h : PyFloat.lt (.fin 0) x = true) :
    PyFloat.le x (.fin 0) = false := by
  cases x with
  | fin q =>
    rw [PyFloat.fin_lt, decide_eq_true_eq] at h
    exact decide_eq_false (not_le.mpr h)
  | inf => rfl
  | negInf => cases h
  | nan => rfl

/-- A call that reads a new publish exceeds the calls before it. -/
theorem exceeds_of_firstReading {processes : List (List ℚ)} (hahead : ClockAhead processes)
    (hfirst : FirstReading T (laneStamps processes) calls c) : c.Exceeds T calls := by
  obtain ⟨n, v, hn, hval, hne, hold⟩ := hfirst
  refine ⟨.stamp, v, hval, hne, fun w hw => ?_⟩
  obtain ⟨m, hmn, hm⟩ := hold w hw
  have hsorted := laneStamps_pairwise hahead
  obtain ⟨hmlen, rfl⟩ := List.getElem?_eq_some_iff.mp hm
  obtain ⟨hnlen, rfl⟩ := List.getElem?_eq_some_iff.mp hn
  exact List.pairwise_iff_getElem.mp hsorted m n hmlen hnlen hmn

namespace LaneLiveness

variable {s : LaneLiveness}

/-- No movement for the threshold, in terms of the state and in terms of the calls. -/
theorem Tracks.elapsed_iff (h : Tracks T thresholdS t₀ calls s)
    (hno : ∀ t, MovedAt T (calls ++ [c]) t ↔ MovedAt T calls t) :
    PyFloat.le s.thresholdS (.fin c.now - s.lastMoveT) = true ↔
      (∀ t, MovedAt T (calls ++ [c]) t → PyFloat.le thresholdS (.fin (c.now - t)) = true)
        ∧ ((∀ t, ¬ MovedAt T (calls ++ [c]) t) →
          PyFloat.le thresholdS (.fin (c.now - t₀)) = true) := by
  simp only [hno]
  obtain ⟨last, hlast, hcases, hle⟩ := h.lastMove
  rw [h.thresholdS, hlast, PyFloat.fin_sub]
  constructor
  · intro helapsed
    refine ⟨fun t ht => ?_, fun hnone => ?_⟩
    · have := hle t ht
      exact le_fin_mono helapsed (by linarith)
    · rcases hcases with hmoved | ⟨rfl, -⟩
      · exact absurd hmoved (hnone last)
      · exact helapsed
  · rintro ⟨hmoved, hnone⟩
    rcases hcases with hlast | ⟨rfl, hlast⟩
    · exact hmoved last hlast
    · exact hnone hlast

/-- What a call that returned reports. -/
theorem Tracks.exact (h : Tracks T thresholdS t₀ calls s) (hread : c.Readable T)
    (hpos : PyFloat.lt (.fin 0) thresholdS = true) {state : LaneState}
    (hstate : (LaneLiveness.step T s c).1 = .ok state) : Exact T thresholdS t₀ calls c state := by
  have henabled : s.enabled = true := by
    unfold enabled
    rw [h.thresholdS]
    exact hpos
  unfold LaneLiveness.step at hstate
  rw [observe_eq hread, henabled, Bool.true_and] at hstate
  by_cases hmoves : s.moves T c = true
  · have hexceeds := h.moves_iff.mp hmoves
    have hreport : state = .live ∨ state = .recovered := by
      rw [if_pos hmoves] at hstate
      have hst : (if s.stale = true then LaneState.recovered else .live) = state :=
        Except.ok.inj hstate
      cases hstale : s.stale <;> rw [hstale] at hst <;> subst hst <;> simp
    have hnow : MovedAt T (calls ++ [c]) c.now := movedAt_concat.mpr (Or.inr ⟨rfl, hexceeds⟩)
    refine ⟨⟨fun heq => ?_, fun ⟨hmoved, _⟩ => ?_⟩, iff_of_true hreport hexceeds, fun hre => ?_,
      fun _ _ _ => hreport⟩
    · rw [heq] at hreport
      rcases hreport with hreport | hreport <;> cases hreport
    · -- a movement at the time of the call is no threshold away
      have helapsed := hmoved c.now hnow
      rw [sub_self, le_zero_of_pos hpos] at helapsed
      cases helapsed
    · obtain ⟨k, v, hval, -, hlt⟩ := hexceeds
      obtain ⟨w, hw, hle⟩ := hre k v hval
      exact absurd (hlt w hw) (not_lt.mpr hle)
  · have hexceeds : ¬ c.Exceeds T calls := fun hc => hmoves (h.moves_iff.mpr hc)
    have hno : ∀ t, MovedAt T (calls ++ [c]) t ↔ MovedAt T calls t := by
      intro t
      rw [movedAt_concat]
      exact or_iff_left fun hc => hexceeds hc.2
    have helapsed := h.elapsed_iff hno
    rw [if_neg hmoves] at hstate
    by_cases hle : PyFloat.le s.thresholdS (.fin c.now - s.lastMoveT) = true
    · rw [if_pos hle] at hstate
      obtain rfl : LaneState.stale = state := Except.ok.inj hstate
      refine ⟨iff_of_true rfl (helapsed.mp hle), iff_of_false (by simp) hexceeds,
        fun _ => Or.inr rfl, fun processes hahead hfirst => ?_⟩
      exact absurd (exceeds_of_firstReading hahead hfirst) hexceeds
    · rw [if_neg hle] at hstate
      obtain rfl : LaneState.waiting = state := Except.ok.inj hstate
      refine ⟨iff_of_false (by simp) (fun hq => hle (helapsed.mpr hq)),
        iff_of_false (by simp) hexceeds, fun _ => Or.inl rfl, fun processes hahead hfirst => ?_⟩
      exact absurd (exceeds_of_firstReading hahead hfirst) hexceeds

end LaneLiveness

end Detector

open LaneLiveness in
/-- **The stale-lane detector is exact and always recovers.** After any run of calls that
returned, a call returns when none of its counters is an infinite float, and then reports what
`Exact` says. -/
theorem lane_detector_exact (T : PyText) {thresholdS : PyFloat}
    (hpos : PyFloat.lt (.fin 0) thresholdS = true) (t₀ : ℚ) (calls : List Observation)
    (c : Observation) (hmono : ((calls ++ [c]).map Observation.now).Pairwise (· ≤ ·))
    (hreturned : Returned T (init thresholdS t₀) calls) :
    ((∃ state, (LaneLiveness.step T (final (LaneLiveness.step T) (init thresholdS t₀) calls) c).1
        = .ok state) ↔ c.Readable T)
      ∧ ∀ state, (LaneLiveness.step T
          (final (LaneLiveness.step T) (init thresholdS t₀) calls) c).1 = .ok state →
        Exact T thresholdS t₀ calls c state := by
  have htracks := tracks_final hreturned
    (hmono.sublist (by rw [List.map_append]; exact List.sublist_append_left _ _))
  generalize final (LaneLiveness.step T) (init thresholdS t₀) calls = s at htracks ⊢
  refine ⟨⟨readable_of_returned, exists_state s⟩, fun state hstate => ?_⟩
  exact htracks.exact (readable_of_returned ⟨state, hstate⟩) hpos hstate

/-- A tick that reads the pointer of event 579. -/
def tickAt579 (now : ℚ) (stamp : ℤ) : Observation where
  now := now
  val
    | .event => .int 579
    | .accepted => .int 579
    | .stamp => .int stamp

open LaneLiveness in
/-- A coordinator that resumes at the event it died at. -/
theorem lane_detector_exact_resumed :
    Exact Platform.ideal.toPyText (.fin 10800) 0 [tickAt579 0 1000, tickAt579 14400 1000]
      (tickAt579 14460 2000) .recovered := by
  have hread : ∀ now stamp, (tickAt579 now stamp).Readable Platform.ideal.toPyText := by
    intro now stamp k
    cases k <;> exact nofun
  refine (lane_detector_exact Platform.ideal.toPyText (by decide +kernel) 0
    [tickAt579 0 1000, tickAt579 14400 1000] (tickAt579 14460 2000) (by decide +kernel) ?_).2
    .recovered ?_
  · exact returned_of_readable (by simp [hread])
  · decide +kernel

end NeuraHash
