import NeuraHash.Miner.Names

/-!
# Parked coordinates and the claim-state file

`CoordCooldown` parks a coordinate until a time and an event, whichever is later. `ClaimState` saves
the table with the walk's cursor, and the next process restores it: the time half relative to the
moment of the save, the event half as it is. A save whose fingerprint is that of the last one
written is skipped.

`parks_survive_iff` says when a restart is faithful: the last save wrote the file, or found every
running park with the deadline it has in the file. A coordinate parked again at the same event
breaks it, since the fingerprint holds the event deadlines only.
-/

namespace NeuraHash

open Py

structure Park where
  reason : String
  untilT : PyFloat
  untilEvent : ℤ

structure CoordCooldown where
  seconds : PyFloat
  events : ℤ
  parked : Dict Coord Park

/-- A park as the file has it. -/
structure ParkRow where
  coord : Coord
  reason : String
  leftS : PyFloat
  untilEvent : ℤ

structure CooldownBlob where
  atEvent : Option ℤ
  parked : List ParkRow

namespace CoordCooldown

def fresh (seconds : PyFloat) (events : ℤ) : CoordCooldown := ⟨seconds, events, ∅⟩

def park (cd : CoordCooldown) (now : ℚ) (coord : Coord) (event : ℤ) (reason : String) :
    CoordCooldown :=
  { cd with parked := cd.parked.set coord ⟨reason, .fin now + cd.seconds, event + cd.events⟩ }

def blocked (cd : CoordCooldown) (now : ℚ) (coord : Coord) (event : ℤ) : Bool × CoordCooldown :=
  match cd.parked.get? coord with
  | none => (false, cd)
  | some p =>
    if PyFloat.le p.untilT (.fin now) && decide (p.untilEvent ≤ event) then
      (false, { cd with parked := cd.parked.erase coord })
    else
      (true, cd)

/-- Asking about a coordinate changes at most its own park. -/
theorem blocked_snd (cd : CoordCooldown) (now : ℚ) (coord : Coord) (event : ℤ) :
    (cd.blocked now coord event).2 = cd
      ∨ (cd.blocked now coord event).2 = { cd with parked := cd.parked.erase coord } := by
  unfold blocked
  cases cd.parked.get? coord with
  | none => exact Or.inl rfl
  | some p =>
    dsimp only
    split
    · exact Or.inr rfl
    · exact Or.inl rfl

theorem blocked_fst (cd : CoordCooldown) (now : ℚ) (coord : Coord) (event : ℤ) :
    (cd.blocked now coord event).1 = true ↔ ∃ p, cd.parked.get? coord = some p
      ∧ ¬ (PyFloat.le p.untilT (.fin now) = true ∧ p.untilEvent ≤ event) := by
  unfold blocked
  cases cd.parked.get? coord with
  | none => simp
  | some p =>
    simp only [Bool.and_eq_true, decide_eq_true_eq]
    split
    · next h => simp [h]
    · next h => exact iff_of_true rfl ⟨p, rfl, h⟩

/-- `not (left > 0.0) or not math.isfinite(left)` is false. -/
def running (left : PyFloat) : Bool := PyFloat.lt (.fin 0) left && left.isFinite

def exportRow (now : ℚ) (item : Coord × Park) : Option ParkRow :=
  let left := item.2.untilT - .fin now
  if running left then some ⟨item.1, item.2.reason, left, item.2.untilEvent⟩ else none

/-- `export(event)`. -/
def exportParks (cd : CoordCooldown) (now : ℚ) (event : Option ℤ) : CooldownBlob where
  atEvent := event
  parked := (cd.parked.entries.insertionSort fun a b => toLex a.1 ≤ toLex b.1).filterMap
    (exportRow now)

/-- A row of the file as `restore` parks it again. -/
def restoreRow (events : ℤ) (atEvent event : Option ℤ) (elapsedS now : ℚ) (r : ParkRow) :
    Option (Coord × Park) :=
  let left := r.leftS - .fin elapsedS
  let ue := min r.untilEvent (atEvent.getD 0 + events)
  -- the event half counts only against the counter it was measured with
  let keepEvents := match event, atEvent with
    | some ev, some at' => decide (at' ≤ ev)
    | _, _ => false
  if running left then
    some (r.coord, ⟨if r.reason = "" then "restored" else r.reason, .fin now + left,
      if keepEvents then ue else 0⟩)
  else
    none

/-- `restore(blob, event, elapsed_s)`: the table, and how many rows were restored and dropped. -/
def restore (cd : CoordCooldown) (blob : CooldownBlob) (event : Option ℤ) (elapsedS now : ℚ) :
    CoordCooldown × ℕ × ℕ :=
  let rows := blob.parked.filterMap (restoreRow cd.events blob.atEvent event elapsedS now)
  ({ cd with parked := rows.foldl (fun d r => d.set r.1 r.2) cd.parked },
    rows.length, blob.parked.length - rows.length)

end CoordCooldown

structure ClaimBlob where
  savedWall : ℚ
  coord : Option Coord
  cooldown : CooldownBlob
  /-- The `(L, rung)` of the dose ladder's layers. -/
  ladder : List (ℤ × ℤ)

/-- What `_fingerprint` compares. -/
structure Fingerprint where
  coord : Option Coord
  atEvent : Option ℤ
  parked : List (Coord × ℤ)
  ladder : List (ℤ × ℤ)
  deriving DecidableEq

namespace ClaimBlob

def fingerprint (blob : ClaimBlob) : Fingerprint where
  coord := blob.coord
  atEvent := blob.cooldown.atEvent
  parked := (blob.cooldown.parked.map fun r => (r.coord, r.untilEvent)).insertionSort
    fun a b => toLex (toLex a.1, a.2) ≤ toLex (toLex b.1, b.2)
  ladder := blob.ladder.insertionSort fun a b => toLex a ≤ toLex b

end ClaimBlob

/-- The file a miner's claim state is kept in, and the fingerprint of the last write. -/
structure ClaimState where
  file : Option ClaimBlob
  lastFp : Option Fingerprint

namespace ClaimState

/-- `save(cooldown, coord, event, ladder)` at the process's clock `now` and the wall clock `wall`. -/
def save (st : ClaimState) (cd : CoordCooldown) (coord : Option Coord) (event : Option ℤ)
    (ladder : List (ℤ × ℤ)) (now wall : ℚ) : Bool × ClaimState :=
  let blob : ClaimBlob := ⟨wall, coord, cd.exportParks now event, ladder⟩
  if st.lastFp = some blob.fingerprint then
    (false, st)
  else
    (true, ⟨some blob, some blob.fingerprint⟩)

/-- `restore_cooldown`, from the blob of the file. -/
def restoreCooldown (cd : CoordCooldown) (blob : ClaimBlob) (event : Option ℤ) (now wall : ℚ) :
    CoordCooldown × ℕ × ℕ :=
  cd.restore blob.cooldown event (max 0 (wall - blob.savedWall)) now

end ClaimState

/-! ## Runs of a process -/

inductive ClaimCall where
  | park (coord : Coord) (reason : String)
  | blocked (coord : Coord)
  | save (coord : Option Coord) (ladder : List (ℤ × ℤ))

/-- A call at a wall-clock time, with the pointer's event then. -/
structure TimedCall where
  time : ℚ
  event : ℤ
  call : ClaimCall

def TimedCall.saving (time : ℚ) (event : ℤ) (coord : Option Coord) (ladder : List (ℤ × ℤ)) :
    TimedCall :=
  ⟨time, event, .save coord ladder⟩

structure ClaimProcess where
  cooldown : CoordCooldown
  state : ClaimState

namespace ClaimProcess

def start (seconds : PyFloat) (events : ℤ) (file : Option ClaimBlob) : ClaimProcess :=
  ⟨.fresh seconds events, ⟨file, none⟩⟩

/-- A call in a process whose clock shows `off` more than the wall clock. -/
def step (off : ℚ) (s : ClaimProcess) (c : TimedCall) : ClaimProcess :=
  match c.call with
  | .park coord reason =>
    { s with cooldown := s.cooldown.park (c.time + off) coord c.event reason }
  | .blocked coord => { s with cooldown := (s.cooldown.blocked (c.time + off) coord c.event).2 }
  | .save coord ladder =>
    { s with
      state := (s.state.save s.cooldown coord (some c.event) ladder (c.time + off) c.time).2 }

def run (off : ℚ) (s : ClaimProcess) (calls : List TimedCall) : ClaimProcess :=
  calls.foldl (step off) s

end ClaimProcess

/-! ## The rows of a file -/

section Rows

variable {cd : CoordCooldown} {now : ℚ} {event : Option ℤ} {c : Coord} {p : Park}

theorem running_fin (q : ℚ) : CoordCooldown.running (.fin q) = decide (0 < q) := by
  unfold CoordCooldown.running
  rw [PyFloat.fin_lt]
  exact Bool.and_true _

theorem exportRow_of_fin {u : ℚ} (hu : p.untilT = .fin u) :
    CoordCooldown.exportRow now (c, p)
      = if now < u then some ⟨c, p.reason, .fin (u - now), p.untilEvent⟩ else none := by
  unfold CoordCooldown.exportRow
  dsimp only
  rw [hu, PyFloat.fin_sub, running_fin]
  simp only [decide_eq_true_eq, sub_pos]

theorem mem_exportParks {r : ParkRow} :
    r ∈ (cd.exportParks now event).parked ↔
      ∃ c p, cd.parked.get? c = some p ∧ CoordCooldown.exportRow now (c, p) = some r := by
  unfold CoordCooldown.exportParks
  rw [List.mem_filterMap]
  constructor
  · rintro ⟨⟨c, p⟩, hmem, hrow⟩
    exact ⟨c, p, Dict.mem_entries_iff.mp ((List.mem_insertionSort _).mp hmem), hrow⟩
  · rintro ⟨c, p, hget, hrow⟩
    exact ⟨(c, p), (List.mem_insertionSort _).mpr (Dict.mem_entries_iff.mpr hget), hrow⟩

/-- Choosing from a list keeps distinct names distinct. -/
theorem nodup_map_filterMap {α β : Type} {f : α → Option β} {n : α → Coord} {n' : β → Coord}
    (hf : ∀ a b, f a = some b → n' b = n a) {l : List α} (hl : (l.map n).Nodup) :
    ((l.filterMap f).map n').Nodup := by
  refine hl.sublist ?_
  clear hl
  induction l with
  | nil => exact List.Sublist.refl _
  | cons a l ih =>
    cases hfa : f a with
    | none =>
      rw [List.filterMap_cons_none hfa, List.map_cons]
      exact ih.cons _
    | some b =>
      rw [List.filterMap_cons_some hfa, List.map_cons, List.map_cons, hf a b hfa]
      exact ih.cons_cons _

theorem nodup_exportParks : ((cd.exportParks now event).parked.map ParkRow.coord).Nodup := by
  unfold CoordCooldown.exportParks
  apply nodup_map_filterMap (n := Prod.fst)
  · rintro ⟨c, p⟩ r hr
    unfold CoordCooldown.exportRow at hr
    dsimp only at hr
    split at hr
    · rw [← Option.some.inj hr]
    · cases hr
  · exact ((List.perm_insertionSort _ _).map _).nodup_iff.mpr cd.parked.nodup

/-- What a saved file says: rows of distinct coordinates, with finite seconds left. -/
structure ClaimBlob.WellFormed (blob : ClaimBlob) : Prop where
  nodup : (blob.cooldown.parked.map ParkRow.coord).Nodup
  finite : ∀ r ∈ blob.cooldown.parked, ∃ l, r.leftS = .fin l

/-- The file parks the coordinate until this wall-clock time and this event. -/
def ClaimBlob.Parks (blob : ClaimBlob) (c : Coord) (w : ℚ) (ue : ℤ) : Prop :=
  ∃ r ∈ blob.cooldown.parked, r.coord = c ∧ r.untilEvent = ue
    ∧ ∃ l, r.leftS = .fin l ∧ blob.savedWall + l = w

theorem ClaimBlob.WellFormed.row_unique {blob : ClaimBlob} (h : blob.WellFormed) {r r' : ParkRow}
    (hr : r ∈ blob.cooldown.parked) (hr' : r' ∈ blob.cooldown.parked) (hc : r.coord = r'.coord) :
    r = r' :=
  List.inj_on_of_nodup_map h.nodup hr hr' hc

theorem ClaimBlob.WellFormed.parks_unique {blob : ClaimBlob} (h : blob.WellFormed) {c : Coord}
    {w w' : ℚ} {ue ue' : ℤ} (hp : blob.Parks c w ue) (hp' : blob.Parks c w' ue') :
    w = w' ∧ ue = ue' := by
  obtain ⟨r, hr, hc, hue, l, hl, hw⟩ := hp
  obtain ⟨r', hr', hc', hue', l', hl', hw'⟩ := hp'
  obtain rfl := h.row_unique hr hr' (hc.trans hc'.symm)
  rw [hl] at hl'
  cases hl'
  exact ⟨hw.symm.trans hw', hue.symm.trans hue'⟩

end Rows

/-! ## The table after a restart -/

/-- The table of a process that restores the file at the wall-clock time `t`. -/
def restarted (seconds : PyFloat) (events : ℤ) (blob : ClaimBlob) (e : ℤ) (off t : ℚ) :
    CoordCooldown :=
  (ClaimState.restoreCooldown (.fresh seconds events) blob (some e) (t + off) t).1

section Restarted

variable {seconds : PyFloat} {events : ℤ} {blob : ClaimBlob} {e at' : ℤ} {off t : ℚ}

theorem restoreRow_of_fin {r : ParkRow} {l elapsedS now : ℚ} (hl : r.leftS = .fin l)
    (hat : at' ≤ e) (hue : r.untilEvent ≤ at' + events) :
    CoordCooldown.restoreRow events (some at') (some e) elapsedS now r
      = if elapsedS < l then
          some (r.coord, ⟨if r.reason = "" then "restored" else r.reason,
            .fin (now + (l - elapsedS)), r.untilEvent⟩)
        else none := by
  unfold CoordCooldown.restoreRow
  dsimp only
  rw [hl, PyFloat.fin_sub, running_fin, PyFloat.fin_add, decide_eq_true hat, if_pos rfl,
    Option.getD_some, min_eq_left hue]
  simp only [decide_eq_true_eq, sub_pos]

/-- **What a restart parks**: what the file parks beyond the time of the restart. -/
theorem get?_restarted (hwf : blob.WellFormed) (hwall : blob.savedWall ≤ t)
    (hatEvent : blob.cooldown.atEvent = some at') (hat : at' ≤ e)
    (hue : ∀ r ∈ blob.cooldown.parked, r.untilEvent ≤ at' + events) (c : Coord) (u : PyFloat)
    (ue : ℤ) :
    (∃ p, (restarted seconds events blob e off t).parked.get? c = some p ∧ p.untilT = u
        ∧ p.untilEvent = ue) ↔
      ∃ w, blob.Parks c w ue ∧ t < w ∧ u = .fin (w + off) := by
  have helapsed : max 0 (t - blob.savedWall) = t - blob.savedWall := max_eq_right (by linarith)
  have hrow : ∀ r ∈ blob.cooldown.parked, ∀ l, r.leftS = .fin l →
      CoordCooldown.restoreRow events (some at') (some e) (t - blob.savedWall) (t + off) r
        = if t < blob.savedWall + l then
            some (r.coord, ⟨if r.reason = "" then "restored" else r.reason,
              .fin (blob.savedWall + l + off), r.untilEvent⟩)
          else none := by
    intro r hr l hl
    rw [restoreRow_of_fin hl hat (hue r hr), show t + off + (l - (t - blob.savedWall))
      = blob.savedWall + l + off by ring]
    simp only [sub_lt_iff_lt_add, add_comm l]
  have hentries : (restarted seconds events blob e off t).parked.entries
      = blob.cooldown.parked.filterMap
          (CoordCooldown.restoreRow events (some at') (some e) (t - blob.savedWall) (t + off)) := by
    unfold restarted ClaimState.restoreCooldown CoordCooldown.restore CoordCooldown.fresh
    dsimp only
    rw [hatEvent, helapsed, Dict.foldl_set_entries]
    · rfl
    · show ((blob.cooldown.parked.filterMap _).map Prod.fst).Nodup
      refine nodup_map_filterMap (fun r q hq => ?_) hwf.nodup
      unfold CoordCooldown.restoreRow at hq
      dsimp only at hq
      split at hq
      · rw [← Option.some.inj hq]
      · cases hq
  constructor
  · rintro ⟨p, hget, rfl, rfl⟩
    rw [← Dict.mem_entries_iff, hentries, List.mem_filterMap] at hget
    obtain ⟨r, hr, hq⟩ := hget
    obtain ⟨l, hl⟩ := hwf.finite r hr
    rw [hrow r hr l hl] at hq
    split at hq
    · next hlt =>
      cases hq
      exact ⟨blob.savedWall + l, ⟨r, hr, rfl, rfl, l, hl, rfl⟩, hlt, rfl⟩
    · cases hq
  · rintro ⟨w, ⟨r, hr, rfl, rfl, l, hl, rfl⟩, hlt, rfl⟩
    refine ⟨⟨if r.reason = "" then "restored" else r.reason, .fin (blob.savedWall + l + off),
      r.untilEvent⟩, ?_, rfl, rfl⟩
    rw [← Dict.mem_entries_iff, hentries, List.mem_filterMap]
    exact ⟨r, hr, by rw [hrow r hr l hl, if_pos hlt]⟩

end Restarted

/-! ## What a call keeps -/

/-- What every call keeps: deadlines are finite and no later than the counter allows, and the last
write is the file. -/
structure ClaimProcess.Sound (sec : ℚ) (evs : ℤ) (time : ℚ) (event : ℤ)
    (s : ClaimProcess) : Prop where
  seconds : s.cooldown.seconds = .fin sec
  events : s.cooldown.events = evs
  deadlines : ∀ c p, s.cooldown.parked.get? c = some p →
    ∃ u, p.untilT = .fin u ∧ p.untilEvent ≤ event + evs
  written : ∀ fp, s.state.lastFp = some fp → ∃ blob, s.state.file = some blob
    ∧ blob.fingerprint = fp ∧ blob.WellFormed ∧ blob.savedWall ≤ time

namespace ClaimProcess

variable {sec : ℚ} {evs : ℤ} {off time : ℚ} {event : ℤ} {s : ClaimProcess}

/-- The blob a save would write. -/
def blobOf (off : ℚ) (s : ClaimProcess) (time : ℚ) (event : ℤ) (coord : Option Coord)
    (ladder : List (ℤ × ℤ)) : ClaimBlob :=
  ⟨time, coord, s.cooldown.exportParks (time + off) (some event), ladder⟩

theorem Sound.exportRow (h : s.Sound sec evs time event) {c : Coord} {p : Park}
    (hget : s.cooldown.parked.get? c = some p) {now : ℚ} {r : ParkRow}
    (hrow : CoordCooldown.exportRow now (c, p) = some r) :
    ∃ u, p.untilT = .fin u ∧ now < u ∧ r = ⟨c, p.reason, .fin (u - now), p.untilEvent⟩ := by
  obtain ⟨u, hu, -⟩ := h.deadlines c p hget
  rw [exportRow_of_fin hu] at hrow
  split at hrow
  · next hlt => exact ⟨u, hu, hlt, (Option.some.inj hrow).symm⟩
  · cases hrow

theorem Sound.wellFormed (h : s.Sound sec evs time event) {time' : ℚ} {event' : ℤ}
    {coord : Option Coord} {ladder : List (ℤ × ℤ)} :
    (blobOf off s time' event' coord ladder).WellFormed := by
  refine ⟨nodup_exportParks, fun r hr => ?_⟩
  obtain ⟨c, p, hget, hrow⟩ := mem_exportParks.mp hr
  obtain ⟨u, -, -, rfl⟩ := h.exportRow hget hrow
  exact ⟨_, rfl⟩

theorem Sound.mono (h : s.Sound sec evs time event) {time' : ℚ} {event' : ℤ}
    (htime : time ≤ time') (hevent : event ≤ event') : s.Sound sec evs time' event' := by
  refine ⟨h.seconds, h.events, fun c p hget => ?_, fun fp hfp => ?_⟩
  · obtain ⟨u, hu, hue⟩ := h.deadlines c p hget
    exact ⟨u, hu, by omega⟩
  · obtain ⟨blob, hfile, hblob, hwf, hwall⟩ := h.written fp hfp
    exact ⟨blob, hfile, hblob, hwf, hwall.trans htime⟩

theorem step_save {c : TimedCall} {coord : Option Coord} {ladder : List (ℤ × ℤ)}
    (hc : c.call = .save coord ladder) :
    step off s c = if s.state.lastFp = some (blobOf off s c.time c.event coord ladder).fingerprint
      then s
      else { s with
        state := ⟨some (blobOf off s c.time c.event coord ladder),
          some (blobOf off s c.time c.event coord ladder).fingerprint⟩ } := by
  unfold step ClaimState.save
  rw [hc]
  dsimp only
  unfold blobOf
  split <;> rfl

theorem step_saving (coord : Option Coord) (ladder : List (ℤ × ℤ)) :
    step off s (.saving time event coord ladder)
      = if s.state.lastFp = some (blobOf off s time event coord ladder).fingerprint
        then s
        else { s with
          state := ⟨some (blobOf off s time event coord ladder),
            some (blobOf off s time event coord ladder).fingerprint⟩ } :=
  step_save rfl

/-- **A call keeps the process sound.** -/
theorem Sound.step (h : s.Sound sec evs time event) (c : TimedCall)
    (htime : time ≤ c.time) (hevent : event ≤ c.event) :
    (step off s c).Sound sec evs c.time c.event := by
  have hs := h.mono htime hevent
  cases hcall : c.call with
  | park coord reason =>
    unfold ClaimProcess.step
    rw [hcall]
    refine ⟨hs.seconds, hs.events, fun c' p hget => ?_, hs.written⟩
    have hset : (s.cooldown.parked.set coord ⟨reason, .fin (c.time + off) + s.cooldown.seconds,
        c.event + s.cooldown.events⟩).get? c' = some p := hget
    rw [Dict.get?_set] at hset
    split at hset
    · cases hset
      rw [hs.seconds, hs.events]
      exact ⟨c.time + off + sec, PyFloat.fin_add _ _, le_refl _⟩
    · exact hs.deadlines c' p hset
  | blocked coord =>
    have hstep : ClaimProcess.step off s c = { s with
        cooldown := (s.cooldown.blocked (c.time + off) coord c.event).2 } := by
      unfold ClaimProcess.step
      rw [hcall]
    rw [hstep]
    rcases CoordCooldown.blocked_snd s.cooldown (c.time + off) coord c.event with hb | hb
    · rw [hb]
      exact hs
    · rw [hb]
      refine ⟨hs.seconds, hs.events, fun c' p' hget => ?_, hs.written⟩
      have herase : (s.cooldown.parked.erase coord).get? c' = some p' := hget
      rw [Dict.get?_erase] at herase
      split at herase
      · cases herase
      · exact hs.deadlines c' p' herase
  | save coord ladder =>
    rw [step_save hcall]
    split
    · exact hs
    · refine ⟨hs.seconds, hs.events, hs.deadlines, fun fp hfp => ?_⟩
      exact ⟨_, rfl, Option.some.inj hfp, hs.wellFormed, le_refl _⟩

theorem sound_start (file : Option ClaimBlob) :
    (start (.fin sec) evs file).Sound sec evs time event := by
  refine ⟨rfl, rfl, fun c p hget => ?_, fun fp hfp => by cases hfp⟩
  have hempty : (∅ : Dict Coord Park).get? c = some p := hget
  cases hempty

end ClaimProcess

/-! ## What a restart keeps -/

/-- The park's seconds have not elapsed at the wall-clock time `t`. -/
def ClaimProcess.Running (off : ℚ) (s : ClaimProcess) (c : Coord) (t : ℚ) : Prop :=
  ∃ p, s.cooldown.parked.get? c = some p ∧ PyFloat.lt (.fin (t + off)) p.untilT = true

/-- **A faithful restart.** Whenever the next process restores the file, and whatever its own clock
shows, it blocks a coordinate whose seconds have not elapsed exactly when the process before would,
and every other coordinate is free. -/
def ClaimProcess.Survives (off : ℚ) (s : ClaimProcess) (time : ℚ) (event : ℤ) : Prop :=
  ∃ blob, s.state.file = some blob ∧ ∀ off' t e, time ≤ t → event ≤ e → ∀ c t' e', t ≤ t' → e ≤ e' →
    (s.Running off c t →
      ((restarted s.cooldown.seconds s.cooldown.events blob e off' t).blocked (t' + off') c e').1
        = (s.cooldown.blocked (t' + off) c e').1)
    ∧ (¬ s.Running off c t →
      ((restarted s.cooldown.seconds s.cooldown.events blob e off' t).blocked (t' + off') c e').1
        = false)

/-- A save that writes nothing finds every running park with the deadline it has in the file. -/
def ClaimProcess.SaveKeeps (off : ℚ) (s : ClaimProcess) (time : ℚ) (event : ℤ)
    (coord : Option Coord) (ladder : List (ℤ × ℤ)) : Prop :=
  s.state.lastFp = some (s.blobOf off time event coord ladder).fingerprint →
    ∀ blob, s.state.file = some blob → ∀ c p u, s.cooldown.parked.get? c = some p →
      p.untilT = .fin u → time + off < u → blob.Parks c (u - off) p.untilEvent

namespace ClaimProcess

variable {sec : ℚ} {evs : ℤ} {off time : ℚ} {event : ℤ} {s : ClaimProcess} {blob : ClaimBlob}

/-- The file of a save parks the coordinates with seconds left, with their event deadlines. -/
structure Saved (off : ℚ) (s : ClaimProcess) (time : ℚ) (event : ℤ) (blob : ClaimBlob) : Prop where
  wellFormed : blob.WellFormed
  wall : blob.savedWall ≤ time
  atEvent : blob.cooldown.atEvent = some event
  rows : ∀ c ue, (∃ w, blob.Parks c w ue) ↔
    ∃ p u, s.cooldown.parked.get? c = some p ∧ p.untilT = .fin u ∧ time + off < u
      ∧ p.untilEvent = ue

theorem Saved.untilEvent_le (hsaved : Saved off s time event blob)
    (hs : s.Sound sec evs time event) :
    ∀ r ∈ blob.cooldown.parked, r.untilEvent ≤ event + evs := by
  intro r hr
  obtain ⟨l, hl⟩ := hsaved.wellFormed.finite r hr
  obtain ⟨p, u, hget, -, -, hue⟩ := (hsaved.rows r.coord r.untilEvent).mp
    ⟨_, r, hr, rfl, rfl, l, hl, rfl⟩
  obtain ⟨-, -, hle⟩ := hs.deadlines _ p hget
  omega

/-- What the next process blocks. -/
theorem Saved.blocked_restarted (hsaved : Saved off s time event blob)
    (hs : s.Sound sec evs time event) {off' t : ℚ} {e : ℤ} (ht : time ≤ t) (he : event ≤ e)
    (c : Coord) (t' : ℚ) (e' : ℤ) :
    ((restarted s.cooldown.seconds s.cooldown.events blob e off' t).blocked (t' + off') c e').1
        = true ↔
      ∃ w ue, blob.Parks c w ue ∧ t < w ∧ ¬ (w ≤ t' ∧ ue ≤ e') := by
  have hwall : blob.savedWall ≤ t := hsaved.wall.trans ht
  have hue := hsaved.untilEvent_le hs
  rw [hs.events, CoordCooldown.blocked_fst]
  have hget := @get?_restarted s.cooldown.seconds evs blob e event off' t hsaved.wellFormed hwall
    hsaved.atEvent he hue c
  constructor
  · rintro ⟨p, hp, hblock⟩
    obtain ⟨w, hparks, hlt, hu⟩ := (hget p.untilT p.untilEvent).mp ⟨p, hp, rfl, rfl⟩
    refine ⟨w, p.untilEvent, hparks, hlt, fun ⟨hw, hle⟩ => hblock ⟨?_, hle⟩⟩
    rw [hu, PyFloat.fin_le, decide_eq_true_eq]
    linarith
  · rintro ⟨w, ue, hparks, hlt, hblock⟩
    obtain ⟨p, hp, hu, hpe⟩ := (hget _ ue).mpr ⟨w, hparks, hlt, rfl⟩
    refine ⟨p, hp, fun ⟨hw, hle⟩ => hblock ⟨?_, hpe ▸ hle⟩⟩
    rw [hu, PyFloat.fin_le, decide_eq_true_eq] at hw
    linarith

theorem blocked_of_fin {c : Coord} {p : Park} {u : ℚ} (hget : s.cooldown.parked.get? c = some p)
    (hu : p.untilT = .fin u) (t' : ℚ) (e' : ℤ) :
    (s.cooldown.blocked (t' + off) c e').1 = true ↔ ¬ (u - off ≤ t' ∧ p.untilEvent ≤ e') := by
  rw [CoordCooldown.blocked_fst]
  constructor
  · rintro ⟨p', hp', hblock⟩ ⟨hw, hle⟩
    rw [hget] at hp'
    cases hp'
    refine hblock ⟨?_, hle⟩
    rw [hu, PyFloat.fin_le, decide_eq_true_eq]
    linarith
  · intro hblock
    refine ⟨p, hget, fun ⟨hw, hle⟩ => hblock ⟨?_, hle⟩⟩
    rw [hu, PyFloat.fin_le, decide_eq_true_eq] at hw
    linarith

theorem running_of_fin {c : Coord} {p : Park} {u : ℚ} (hget : s.cooldown.parked.get? c = some p)
    (hu : p.untilT = .fin u) (t : ℚ) : s.Running off c t ↔ t + off < u := by
  constructor
  · rintro ⟨p', hp', hlt⟩
    rw [hget] at hp'
    cases hp'
    rw [hu, PyFloat.fin_lt, decide_eq_true_eq] at hlt
    exact hlt
  · intro hlt
    exact ⟨p, hget, by rw [hu, PyFloat.fin_lt, decide_eq_true_eq]; exact hlt⟩

/-- **A restart is faithful exactly when the file has the deadline of every running park.** -/
theorem Saved.survives_iff (hsaved : Saved off s time event blob)
    (hs : s.Sound sec evs time event) (hfile : s.state.file = some blob) :
    s.Survives off time event ↔ ∀ c p u, s.cooldown.parked.get? c = some p → p.untilT = .fin u →
      time + off < u → blob.Parks c (u - off) p.untilEvent := by
  constructor
  · rintro ⟨blob', hfile', hsurvives⟩ c p u hget hu hlt
    rw [hfile] at hfile'
    cases hfile'
    obtain ⟨w, hparks⟩ := (hsaved.rows c p.untilEvent).mpr ⟨p, u, hget, hu, hlt, rfl⟩
    -- a restart at the moment of the save, asked at the earlier of the two deadlines
    have hrunning := (running_of_fin hget hu time).mpr hlt
    have hsame : ∀ t' e', time ≤ t' → event ≤ e' →
        ((∃ w ue, blob.Parks c w ue ∧ time < w ∧ ¬ (w ≤ t' ∧ ue ≤ e')) ↔
          ¬ (u - off ≤ t' ∧ p.untilEvent ≤ e')) := by
      intro t' e' ht' he'
      have heq := (hsurvives 0 time event le_rfl le_rfl c t' e' ht' he').1 hrunning
      rw [← hsaved.blocked_restarted hs le_rfl le_rfl, ← @blocked_of_fin off s c p u hget hu, heq]
    have hwt : time < w := by
      obtain ⟨w', ue', hparks', hlt', -⟩ := (hsame time event le_rfl le_rfl).mpr
        (fun h => by linarith [h.1])
      obtain ⟨rfl, -⟩ := hsaved.wellFormed.parks_unique hparks hparks'
      exact hlt'
    have hw : w = u - off := by
      by_contra hne
      rcases lt_or_gt_of_ne hne with hlt' | hlt'
      · -- the file's deadline is the earlier one
        have hblock := (hsame w (max event p.untilEvent) hwt.le (le_max_left _ _)).mpr
          (fun h => by linarith [h.1])
        obtain ⟨w', ue', hparks', -, hno⟩ := hblock
        obtain ⟨rfl, rfl⟩ := hsaved.wellFormed.parks_unique hparks hparks'
        exact hno ⟨le_rfl, le_max_right _ _⟩
      · have hfree := (hsame (u - off) (max event p.untilEvent) (by linarith) (le_max_left _ _)).mp
          ⟨w, p.untilEvent, hparks, hwt, fun h => by linarith [h.1]⟩
        exact hfree ⟨le_rfl, le_max_right _ _⟩
    exact hw ▸ hparks
  · intro hkeeps
    refine ⟨blob, hfile, fun off' t e ht he c t' e' ht' he' => ⟨fun hrunning => ?_, fun hno => ?_⟩⟩
    · obtain ⟨p, hget, -⟩ := id hrunning
      obtain ⟨u, hu, -⟩ := hs.deadlines c p hget
      have hlt := (running_of_fin hget hu t).mp hrunning
      have hparks := hkeeps c p u hget hu (by linarith)
      rw [Bool.eq_iff_iff, hsaved.blocked_restarted hs ht he, blocked_of_fin hget hu]
      constructor
      · rintro ⟨w, ue, hparks', -, hblock⟩
        obtain ⟨rfl, rfl⟩ := hsaved.wellFormed.parks_unique hparks hparks'
        exact hblock
      · intro hblock
        exact ⟨u - off, p.untilEvent, hparks, by linarith, hblock⟩
    · rw [Bool.eq_false_iff, ne_eq, hsaved.blocked_restarted hs ht he]
      rintro ⟨w, ue, hparks, hlt, -⟩
      obtain ⟨p, u, hget, hu, hltu, hue⟩ := (hsaved.rows c ue).mp ⟨w, hparks⟩
      have hkept := hkeeps c p u hget hu hltu
      obtain ⟨rfl, -⟩ := hsaved.wellFormed.parks_unique hparks (hue ▸ hkept)
      exact hno ((running_of_fin hget hu t).mpr (by linarith))

/-- A file with the fingerprint of the table is a file of the table. -/
theorem Sound.saved (hs : s.Sound sec evs time event) {coord : Option Coord}
    {ladder : List (ℤ × ℤ)} (hwf : blob.WellFormed) (hwall : blob.savedWall ≤ time)
    (hfp : blob.fingerprint = (s.blobOf off time event coord ladder).fingerprint) :
    Saved off s time event blob := by
  refine ⟨hwf, hwall, congrArg Fingerprint.atEvent hfp, fun c ue => ?_⟩
  have hrows : ∀ x : Coord × ℤ, x ∈ blob.cooldown.parked.map (fun r => (r.coord, r.untilEvent)) ↔
      x ∈ (s.cooldown.exportParks (time + off) (some event)).parked.map
        (fun r => (r.coord, r.untilEvent)) := by
    intro x
    have hsorted := congrArg (x ∈ ·) (congrArg Fingerprint.parked hfp)
    simpa only [ClaimBlob.fingerprint, blobOf, List.mem_insertionSort, eq_iff_iff] using hsorted
  have hfile : (∃ w, blob.Parks c w ue) ↔
      (c, ue) ∈ blob.cooldown.parked.map (fun r => (r.coord, r.untilEvent)) := by
    rw [List.mem_map]
    constructor
    · rintro ⟨w, r, hr, rfl, rfl, -⟩
      exact ⟨r, hr, rfl⟩
    · rintro ⟨r, hr, heq⟩
      cases heq
      obtain ⟨l, hl⟩ := hwf.finite r hr
      exact ⟨_, r, hr, rfl, rfl, l, hl, rfl⟩
  rw [hfile, hrows, List.mem_map]
  constructor
  · rintro ⟨r, hr, heq⟩
    obtain ⟨c', p, hget, hrow⟩ := mem_exportParks.mp hr
    obtain ⟨u, hu, hlt, rfl⟩ := hs.exportRow hget hrow
    cases heq
    exact ⟨p, u, hget, hu, hlt, rfl⟩
  · rintro ⟨p, u, hget, hu, hlt, rfl⟩
    refine ⟨⟨c, p.reason, .fin (u - (time + off)), p.untilEvent⟩, ?_, rfl⟩
    exact mem_exportParks.mpr ⟨c, p, hget, by rw [exportRow_of_fin hu, if_pos hlt]⟩

/-- **A save leaves a faithful file exactly when it keeps the deadlines.** -/
theorem Sound.survives_save_iff (hs : s.Sound sec evs time event) (coord : Option Coord)
    (ladder : List (ℤ × ℤ)) :
    (ClaimProcess.step off s (.saving time event coord ladder)).Survives off time event
      ↔ s.SaveKeeps off time event coord ladder := by
  rw [step_saving]
  by_cases hfp : s.state.lastFp = some (s.blobOf off time event coord ladder).fingerprint
  · -- skipped: the file is the one of an earlier save
    obtain ⟨blob, hfile, hblob, hwf, hwall⟩ := hs.written _ hfp
    rw [if_pos hfp, (hs.saved hwf hwall hblob).survives_iff hs hfile]
    unfold SaveKeeps
    constructor
    · intro hkeeps _ blob' hfile'
      rw [hfile] at hfile'
      cases hfile'
      exact hkeeps
    · intro hkeeps
      exact hkeeps hfp blob hfile
  · rw [if_neg hfp]
    refine iff_of_true ?_ (fun h => absurd h hfp)
    generalize hs' : ({ s with
      state := ⟨some (s.blobOf off time event coord ladder),
        some (s.blobOf off time event coord ladder).fingerprint⟩ } : ClaimProcess) = s'
    have hcd : s'.cooldown = s.cooldown := by rw [← hs']
    have hfile : s'.state.file = some (s.blobOf off time event coord ladder) := by rw [← hs']
    have hsound : s'.Sound sec evs time event := by
      have hstep : (ClaimProcess.step off s (.saving time event coord ladder)).Sound sec evs time
        event := hs.step (.saving time event coord ladder) le_rfl le_rfl
      rwa [step_saving, if_neg hfp, hs'] at hstep
    have hsame : s'.blobOf off time event coord ladder = s.blobOf off time event coord ladder := by
      unfold blobOf
      rw [hcd]
    have hsaved : Saved off s' time event (s.blobOf off time event coord ladder) :=
      hsound.saved hs.wellFormed le_rfl (by rw [hsame])
    refine (hsaved.survives_iff hsound hfile).mpr fun c p u hget hu hlt => ?_
    rw [hcd] at hget
    refine ⟨⟨c, p.reason, .fin (u - (time + off)), p.untilEvent⟩, ?_, rfl, rfl, _, rfl, ?_⟩
    · exact mem_exportParks.mpr ⟨c, p, hget, by rw [exportRow_of_fin hu, if_pos hlt]⟩
    · show time + (u - (time + off)) = u - off
      ring

/-- **Every run under a clock and a counter that never fall is sound.** -/
theorem sound_run (file : Option ClaimBlob) (calls : List TimedCall) (c : TimedCall)
    (htimes : ((calls ++ [c]).map TimedCall.time).Pairwise (· ≤ ·))
    (hevents : ((calls ++ [c]).map TimedCall.event).Pairwise (· ≤ ·)) :
    (run off (start (.fin sec) evs file) calls).Sound sec evs c.time c.event := by
  induction calls using List.reverseRecOn generalizing c with
  | nil => exact sound_start file
  | append_singleton calls d ih =>
    rw [List.map_append, List.pairwise_append] at htimes hevents
    have hd := ih d htimes.1 hevents.1
    have htime := htimes.2.2 d.time (List.mem_map_of_mem (by simp)) c.time (by simp)
    have hevent := hevents.2.2 d.event (List.mem_map_of_mem (by simp)) c.event (by simp)
    unfold run at hd ⊢
    rw [List.foldl_append]
    exact (hd.step d le_rfl le_rfl).mono htime hevent

end ClaimProcess

/-- A coordinate parked and saved, and parked again 100 s later at the same event: the second save
finds the fingerprint of the first. -/
def reparked : List TimedCall :=
  [⟨0, 30, .park (1, 8) "catch-up stall"⟩, .saving 0 30 (some (1, 12)) [],
    ⟨100, 30, .park (1, 8) "catch-up stall"⟩]

end NeuraHash
