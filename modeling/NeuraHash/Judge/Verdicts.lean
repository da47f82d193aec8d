import NeuraHash.Committee.Attestation
import NeuraHash.Judge.Rows
import NeuraHash.Platform
import NeuraHash.Python.Mutation
import NeuraHash.Systems.History
import NeuraHash.Systems.Overlay

/-!
# A pair of networks judged (`ProductJudge`)

The judge writes the rows of the base into the resident network, evaluates it, writes those of the
candidate, evaluates again, and leaves the network on the base. The rows of earlier bases stay, and
the base's evaluation is cached under the digest of its rows; `Standing` is what must hold of them
for a verdict to be that of a judge that was just built.
-/

namespace NeuraHash

open Py Systems

/-! ## What a built judge has -/

/-- `JudgeUnavailable`. -/
def judgeUnavailable : PyErr := .raised "JudgeUnavailable"

/-- A built judge, and what it computes with. -/
structure ProductJudge (σ : Type) where
  platform : Platform
  np : Numpy PyFloat
  /-- `(b.astype(np.float64) + d.astype(np.float64)).astype(b.dtype)`. -/
  addRow : Tensor PyFloat → Tensor PyFloat → Except PyErr (Tensor PyFloat)
  /-- Whether a layer's slab is resident. -/
  resident : ℤ → Bool
  /-- How many experts a slab holds. -/
  experts : ℕ
  /-- A row in the dtype of the slab; one that cannot be converted or has another shape raises. -/
  toSlab : Part → Tensor PyFloat → Except PyErr σ
  /-- `torch.equal`. -/
  torchEqual : σ → σ → Bool
  /-- `chunked_heldout_ce` of the network. -/
  heldoutCe : ExpertRows σ → PyFloat
  /-- The rows of the pack. -/
  pack : ExpertRows σ
  margin : PyFloat

/-- What of a judge changes. -/
structure JudgeState (σ : Type) where
  rows : ExpertRows σ
  /-- `_pristine`. -/
  pristine : Dict Coord (Part → σ)
  /-- `_base_ce`: the digest of the last base that was evaluated, and its CE. -/
  baseCe : Option (String × PyFloat)

/-- A call of `judge_pair`, with what its evaluations raise if they are made. -/
structure PairCall where
  base : StateArg (Tensor PyFloat)
  cand : StateArg (Tensor PyFloat)
  coord : Option CoordArg
  absolute : Bool
  margin : Option Json
  firstFault : Option PyErr
  secondFault : Option PyErr

/-- What `judge_pair` returns. -/
structure PairVerdict where
  margin : PyFloat
  coords : List String
  patched : ℕ
  ceBefore : PyFloat
  ceAfter : PyFloat
  delta : PyFloat
  fracDelta : PyFloat
  verdict : String
  accept : Bool
  baseDigest : String
  candidateDigest : String

/-! ## Digests -/

/-- The order of coordinates. -/
def coordLe (a b : Coord) : Bool := a.1 < b.1 || (a.1 = b.1 && a.2 ≤ b.2)

/-- `"%d:%d" % c`. -/
def coordText (c : Coord) : String := c.1.repr ++ ":" ++ c.2.repr

/-- `rows[k]`. -/
def rowItem (rows : Dict String (Tensor PyFloat)) (part : Part) :
    Except PyErr (Tensor PyFloat) :=
  match rows.get? part.key with
  | some t => .ok t
  | none => .error .keyError

namespace ProductJudge

variable {σ : Type} (J : ProductJudge σ)

/-- `add_delta(base, delta)`. -/
def addDelta (base delta : RowState (Tensor PyFloat)) :
    Except PyErr (RowState (Tensor PyFloat)) := do
  let pairs ← base.entries.mapM fun e =>
    match delta.get? e.1 with
    | none => return e
    | some d => do
      let rows ← Part.all.mapM fun part => do
        let b ← rowItem e.2 part
        let x ← rowItem d part
        let sum ← J.addRow b x
        return (part.key, sum)
      return (e.1, Dict.ofList rows)
  return Dict.ofList pairs

/-- `state_digest(state)`: the rows as `float32`, a scalar as an array of one element. -/
def stateDigest (state : RowState (Tensor PyFloat)) : Except PyErr String := do
  let coords ← (state.entries.mergeSort fun a b => coordLe a.1 b.1).mapM fun e => do
    let parts ← Part.all.mapM fun part => do
      let row ← rowItem e.2 part
      let shape := if row.shape = [] then [1] else row.shape
      return utf8 part.key ++ utf8 (shapeText shape)
        ++ row.data.flatMap fun x => J.np.tobytes (J.np.float32 x)
    return utf8 (coordText e.1 ++ "|") ++ parts.flatten
  return J.platform.sha256 coords.flatten

/-- The margin of a call. -/
def callMargin (call : PairCall) : Except PyErr PyFloat :=
  match call.margin with
  | none => .ok J.margin
  | some j => j.toFloat J.platform.toPyText

/-- The candidate of a call: what was passed, or the base with it added. -/
def candidate (call : PairCall) (base candIn : RowState (Tensor PyFloat)) :
    Except PyErr (RowState (Tensor PyFloat)) :=
  if call.absolute then .ok candIn else J.addDelta base candIn

/-- What `judge_pair` makes of its arguments. -/
def prepare (call : PairCall) :
    Except PyErr (RowState (Tensor PyFloat) × RowState (Tensor PyFloat) × PyFloat) := do
  let m ← J.callMargin call
  let base ← normalizeState J.platform.toPyText call.coord call.base
  let candIn ← normalizeState J.platform.toPyText call.coord call.cand
  if base.entries = [] then throw judgeUnavailable
  let cand ← J.candidate call base candIn
  if cand.keys.any fun c => !base.contains c then throw judgeUnavailable
  return (base, cand, m)

/-! ## Patches -/

/-- The place of a coordinate: a slab that is not resident is refused, a negative index counts from
the end. -/
def place (c : Coord) : Except PyErr Place :=
  if !J.resident c.1 then .error judgeUnavailable
  else if 0 ≤ c.2 ∧ c.2 < J.experts then .ok (c.1, c.2.toNat)
  else if -J.experts ≤ c.2 ∧ c.2 < 0 then .ok (c.1, (c.2 + J.experts).toNat)
  else .error (.raised "IndexError")

/-- `_snapshot_pristine(coords)`. -/
def snapshotPristine : List Coord → PyM (JudgeState σ) Unit
  | [] => pure ()
  | c :: rest => do
    if (← get).pristine.contains c then snapshotPristine rest
    else do
      let spot ← PyM.ofExcept (J.place c)
      modify fun s => { s with pristine := s.pristine.set c (s.rows spot) }
      snapshotPristine rest

/-- `dst.copy_(src)` of one row. -/
def patchPart (spot : Place) (rows : Dict String (Tensor PyFloat)) (part : Part) :
    PyM (JudgeState σ) σ := do
  let row ← PyM.ofExcept (rowItem rows part)
  let src ← PyM.ofExcept (J.toSlab part row)
  modify fun s => { s with
    rows := Function.update s.rows spot (Function.update (s.rows spot) part src) }
  return src

/-- The rows of one coordinate, and which of them do not read back. -/
def patchCoord (c : Coord) (rows : Dict String (Tensor PyFloat)) :
    PyM (JudgeState σ) (List (Coord × Part)) := do
  let spot ← PyM.ofExcept (J.place c)
  let gate ← J.patchPart spot rows .gate
  let up ← J.patchPart spot rows .up
  let down ← J.patchPart spot rows .down
  let got := (← get).rows spot
  return ([(Part.gate, gate), (Part.up, up), (Part.down, down)].filter
    fun w => !J.torchEqual (got w.1) w.2).map fun w => (c, w.1)

/-- The rows of several coordinates, one after the other. -/
def patchAll : List (Coord × Dict String (Tensor PyFloat)) →
    PyM (JudgeState σ) (List (Coord × Part))
  | [] => pure []
  | (c, rows) :: rest => do
    let bad ← J.patchCoord c rows
    let more ← patchAll rest
    return bad ++ more

/-- `_patch(state)`. -/
def patch (state : RowState (Tensor PyFloat)) : PyM (JudgeState σ) ℕ := do
  let bad ← J.patchAll state.entries
  if bad ≠ [] then throw judgeUnavailable
  return state.size

/-! ## The measurement -/

/-- `_ce(tag)`. -/
def evaluate (fault : Option PyErr) : PyM (JudgeState σ) PyFloat := do
  match fault with
  | some e => throw e
  | none => return J.heldoutCe (← get).rows

/-- The cached evaluation of a base. -/
def cached (s : JudgeState σ) (bdig : String) : Option PyFloat :=
  match s.baseCe with
  | some (d, ce) => if d = bdig then some ce else none
  | none => none

/-- The first arm: the cached evaluation of the base, or a new one. -/
def baseArm (base : RowState (Tensor PyFloat)) (bdig : String) (fault : Option PyErr) :
    PyM (JudgeState σ) PyFloat := do
  match cached (← get) bdig with
  | some ce => return ce
  | none => do
    let _ ← J.patch base
    let ce ← J.evaluate fault
    modify fun s => { s with baseCe := some (bdig, ce) }
    return ce

/-- The verdict on two evaluations. -/
def verdictOf (m : PyFloat) (cand : RowState (Tensor PyFloat)) (ceBefore ceAfter : PyFloat)
    (baseDigest candidateDigest : String) : PairVerdict :=
  let delta := ceAfter - ceBefore
  { margin := m
    coords := (cand.keys.map coordText).mergeSort fun a b => decide (a ≤ b)
    patched := cand.size
    ceBefore := ceBefore
    ceAfter := ceAfter
    delta := delta
    fracDelta := if ceBefore.eq 0 then 0 else (ceBefore - ceAfter) / ceBefore
    verdict := if delta.lt 0 then "IMPROVES" else "WORSENS"
    accept := delta.le m.neg
    baseDigest := baseDigest
    candidateDigest := candidateDigest }

/-- `judge_pair(...)` of a built judge. -/
def judgePair (call : PairCall) : PyM (JudgeState σ) PairVerdict := do
  let (base, cand, m) ← PyM.ofExcept (J.prepare call)
  J.snapshotPristine base.keys
  let bdig ← PyM.ofExcept (J.stateDigest base)
  let ceBefore ← J.baseArm base bdig call.firstFault
  let _ ← J.patch cand
  let ceAfter ← J.evaluate call.secondFault
  let _ ← J.patch base
  let cdig ← PyM.ofExcept (J.stateDigest cand)
  return verdictOf m cand ceBefore ceAfter bdig cdig

/-! ## What a patch leaves -/

/-- The place and the rows a coordinate's rows are stored at and as. -/
def storedRow (e : Coord × Dict String (Tensor PyFloat)) : Except PyErr (Place × (Part → σ)) := do
  let spot ← J.place e.1
  let gate ← rowItem e.2 .gate >>= J.toSlab .gate
  let up ← rowItem e.2 .up >>= J.toSlab .up
  let down ← rowItem e.2 .down >>= J.toSlab .down
  return (spot, fun
    | .gate => gate
    | .up => up
    | .down => down)

/-- Rows that are found equal to themselves when they are read back. -/
def readsBack (w : Place × (Part → σ)) : Bool :=
  Part.all.all fun part => J.torchEqual (w.2 part) (w.2 part)

/-- What a patch writes, where it returns. -/
def stored (state : RowState (Tensor PyFloat)) : Except PyErr (List (Place × (Part → σ))) := do
  let ws ← state.entries.mapM J.storedRow
  if ws.all J.readsBack then return ws else throw judgeUnavailable

section Patch

variable {J : ProductJudge σ} {s s' : JudgeState σ}

theorem patchPart_run (spot : Place) (rows : Dict String (Tensor PyFloat)) (part : Part) :
    J.patchPart spot rows part s = match rowItem rows part >>= J.toSlab part with
      | .error e => .error e s
      | .ok src => .ok src { s with
          rows := Function.update s.rows spot (Function.update (s.rows spot) part src) } := by
  unfold patchPart
  cases hrow : rowItem rows part with
  | error e => rfl
  | ok row =>
    cases hsrc : J.toSlab part row with
    | error e =>
      rw [PyM.bind_run, PyM.ofExcept_ok]
      simp only [ok_bind]
      rw [PyM.bind_run, hsrc, PyM.ofExcept_error]
    | ok src =>
      rw [PyM.bind_run, PyM.ofExcept_ok]
      simp only [ok_bind]
      rw [PyM.bind_run, hsrc, PyM.ofExcept_ok]
      rfl

/-- Three rows written one after the other are the rows of the expert. -/
theorem update_parts (f : ExpertRows σ) (spot : Place) (w : Part → σ) :
    Function.update (Function.update (Function.update f spot
        (Function.update (f spot) .gate (w .gate))) spot
        (Function.update (Function.update f spot
          (Function.update (f spot) .gate (w .gate)) spot) .up (w .up))) spot
      (Function.update (Function.update (Function.update f spot
        (Function.update (f spot) .gate (w .gate))) spot
        (Function.update (Function.update f spot
          (Function.update (f spot) .gate (w .gate)) spot) .up (w .up)) spot) .down (w .down))
      = Function.update f spot w := by
  rw [Function.update_idem, Function.update_idem, Function.update_self, Function.update_self]
  congr 1
  funext part
  cases part <;> simp [Function.update]

/-- **A coordinate is patched** where its rows can be stored, and reads back where they equal
themselves. -/
theorem patchCoord_run (c : Coord) (rows : Dict String (Tensor PyFloat)) :
    match J.storedRow (c, rows) with
    | .error _ => ∃ e s', J.patchCoord c rows s = .error e s'
    | .ok w => ∃ bad, J.patchCoord c rows s
        = .ok bad { s with rows := Function.update s.rows w.1 w.2 }
      ∧ (bad = [] ↔ J.readsBack w = true) := by
  unfold patchCoord storedRow
  cases hplace : J.place c with
  | error e => exact ⟨e, s, PyM.bind_run_error (by rw [PyM.ofExcept_error])⟩
  | ok spot =>
    rw [ok_bind]
    cases hgate : rowItem rows .gate >>= J.toSlab .gate with
    | error e =>
      simp only [PyM.bind_run, PyM.ofExcept_ok, patchPart_run, hgate]
      exact ⟨_, _, rfl⟩
    | ok gate =>
      rw [ok_bind]
      cases hup : rowItem rows .up >>= J.toSlab .up with
      | error e =>
        simp only [PyM.bind_run, PyM.ofExcept_ok, patchPart_run, hgate, hup]
        exact ⟨_, _, rfl⟩
      | ok up =>
        rw [ok_bind]
        cases hdown : rowItem rows .down >>= J.toSlab .down with
        | error e =>
          simp only [PyM.bind_run, PyM.ofExcept_ok, patchPart_run, hgate, hup, hdown]
          exact ⟨_, _, rfl⟩
        | ok down =>
          have hrows := update_parts s.rows spot fun
            | .gate => gate
            | .up => up
            | .down => down
          dsimp only at hrows
          simp only [PyM.bind_run, PyM.ofExcept_ok, patchPart_run, hgate, hup, hdown, hrows,
            PyM.get_run, PyM.pure_run, ok_bind]
          refine ⟨_, rfl, ?_⟩
          rw [List.map_eq_nil_iff, List.filter_eq_nil_iff]
          simp [readsBack, Part.all]

theorem patchAll_run (entries : List (Coord × Dict String (Tensor PyFloat))) :
    match entries.mapM J.storedRow with
    | .error _ => ∃ e s', J.patchAll entries s = .error e s'
    | .ok ws => ∃ bad, J.patchAll entries s = .ok bad { s with rows := overlay ws s.rows }
      ∧ (bad = [] ↔ ws.all J.readsBack = true) := by
  induction entries generalizing s with
  | nil => exact ⟨[], rfl, iff_of_true rfl rfl⟩
  | cons e entries ih =>
    obtain ⟨c, rows⟩ := e
    have hhead := patchCoord_run (J := J) (s := s) c rows
    rw [List.mapM_cons]
    cases hrow : J.storedRow (c, rows) with
    | error x =>
      rw [hrow] at hhead
      obtain ⟨x', s', hx⟩ := hhead
      exact ⟨x', s', PyM.bind_run_error hx⟩
    | ok w =>
      rw [hrow] at hhead
      obtain ⟨bad, hrun, hbad⟩ := hhead
      have htail := ih (s := { s with rows := Function.update s.rows w.1 w.2 })
      rw [ok_bind]
      cases hrest : entries.mapM J.storedRow with
      | error x =>
        rw [hrest] at htail
        obtain ⟨x', s', hx⟩ := htail
        refine ⟨x', s', ?_⟩
        unfold patchAll
        rw [PyM.bind_run_ok hrun]
        exact PyM.bind_run_error hx
      | ok ws =>
        rw [hrest] at htail
        obtain ⟨more, hrun', hmore⟩ := htail
        refine ⟨bad ++ more, ?_, ?_⟩
        · unfold patchAll
          rw [PyM.bind_run_ok hrun, PyM.bind_run_ok hrun']
          rfl
        · rw [List.append_eq_nil_iff, hbad, hmore, List.all_cons, Bool.and_eq_true]

/-- A patch that returns wrote the rows as they are stored. -/
theorem patch_ok {state : RowState (Tensor PyFloat)} {ws : List (Place × (Part → σ))}
    (h : J.stored state = .ok ws) :
    J.patch state s = .ok state.size { s with rows := overlay ws s.rows } := by
  unfold stored at h
  obtain ⟨ws', hws, h⟩ := bind_eq_ok.mp h
  have hrun := patchAll_run (J := J) (s := s) state.entries
  rw [hws] at hrun
  obtain ⟨bad, hrun, hbad⟩ := hrun
  split at h
  · next hall =>
    cases h
    unfold patch
    rw [PyM.bind_run_ok hrun, hbad.mpr hall]
    rfl
  · cases h

theorem stored_of_patch {state : RowState (Tensor PyFloat)} {n : ℕ}
    (h : J.patch state s = .ok n s') : ∃ ws, J.stored state = .ok ws := by
  have hrun := patchAll_run (J := J) (s := s) state.entries
  unfold patch at h
  unfold stored
  cases hws : state.entries.mapM J.storedRow with
  | error e =>
    rw [hws] at hrun
    obtain ⟨x, s'', hx⟩ := hrun
    rw [PyM.bind_run_error hx] at h
    cases h
  | ok ws =>
    rw [hws] at hrun
    obtain ⟨bad, hrun, hbad⟩ := hrun
    rw [PyM.bind_run_ok hrun] at h
    by_cases hall : ws.all J.readsBack = true
    · exact ⟨ws, if_pos hall⟩
    · rw [if_pos fun hnil => hall (hbad.mp hnil)] at h
      cases h

theorem storedRow_place {e : Coord × Dict String (Tensor PyFloat)} {w : Place × (Part → σ)}
    (h : J.storedRow e = .ok w) : J.place e.1 = .ok w.1 := by
  unfold storedRow at h
  obtain ⟨spot, hspot, h⟩ := bind_eq_ok.mp h
  obtain ⟨_, -, h⟩ := bind_eq_ok.mp h
  obtain ⟨_, -, h⟩ := bind_eq_ok.mp h
  obtain ⟨_, -, h⟩ := bind_eq_ok.mp h
  cases h
  exact hspot

theorem forall₂_of_stored {state : RowState (Tensor PyFloat)} {ws : List (Place × (Part → σ))}
    (h : J.stored state = .ok ws) :
    List.Forall₂ (fun e w => J.storedRow e = .ok w) state.entries ws := by
  unfold stored at h
  obtain ⟨ws', hws, h⟩ := bind_eq_ok.mp h
  split at h
  · cases h
    exact forall₂_of_mapM hws
  · cases h

theorem place_of_stored {state : RowState (Tensor PyFloat)} {ws : List (Place × (Part → σ))}
    (h : J.stored state = .ok ws) {c : Coord} (hc : c ∈ state.keys) :
    ∃ spot ∈ ws.map Prod.fst, J.place c = .ok spot := by
  obtain ⟨e, he, rfl⟩ := List.mem_map.mp hc
  obtain ⟨w, hw, hrow⟩ := exists_right_of_forall₂ (forall₂_of_stored h) he
  exact ⟨w.1, List.mem_map_of_mem hw, storedRow_place hrow⟩

/-- The rows of a state are stored at the places of its coordinates. -/
theorem mem_places_iff {state : RowState (Tensor PyFloat)} {ws : List (Place × (Part → σ))}
    (h : J.stored state = .ok ws) (spot : Place) :
    spot ∈ ws.map Prod.fst ↔ ∃ c ∈ state.keys, J.place c = .ok spot := by
  constructor
  · intro hin
    obtain ⟨w, hw, rfl⟩ := List.mem_map.mp hin
    obtain ⟨e, he, hrow⟩ := exists_left_of_forall₂ (forall₂_of_stored h) hw
    exact ⟨e.1, List.mem_map_of_mem he, storedRow_place hrow⟩
  · intro hin
    obtain ⟨c, hc, hspot⟩ := hin
    obtain ⟨spot', hin, hspot'⟩ := place_of_stored h hc
    rw [hspot] at hspot'
    cases hspot'
    exact hin

end Patch

/-! ## What a call does -/

/-- The coordinates that were snapshotted have places. -/
def Placed (s : JudgeState σ) : Prop := ∀ c ∈ s.pristine.keys, ∃ spot, J.place c = .ok spot

/-- What the first arm yields: the base's CE, and the rows the second arm starts from. -/
def firstArm (s : JudgeState σ) (bdig : String) (wsb : List (Place × (Part → σ))) :
    PyFloat × ExpertRows σ :=
  match cached s bdig with
  | some ce => (ce, s.rows)
  | none => (J.heldoutCe (overlay wsb s.rows), overlay wsb s.rows)

/-- What a call measures with, where nothing stops it. -/
structure Measures (call : PairCall) (base cand : RowState (Tensor PyFloat)) (m : PyFloat)
    (bdig cdig : String) (wsb wsc : List (Place × (Part → σ))) : Prop where
  prepared : J.prepare call = .ok (base, cand, m)
  baseDigest : J.stateDigest base = .ok bdig
  candDigest : J.stateDigest cand = .ok cdig
  baseRows : J.stored base = .ok wsb
  candRows : J.stored cand = .ok wsc
  second : call.secondFault = none

section Call

variable {J : ProductJudge σ} {s s' : JudgeState σ} {call : PairCall}
  {base cand : RowState (Tensor PyFloat)} {m : PyFloat} {bdig cdig : String}
  {wsb wsc : List (Place × (Part → σ))}

/-- Snapshots change no rows; they are refused where a coordinate has no place. -/
theorem snapshotPristine_run (hplaced : J.Placed s) (cs : List Coord) :
    ∃ pr, J.Placed { s with pristine := pr }
      ∧ ((∀ c ∈ cs, ∃ spot, J.place c = .ok spot) →
        J.snapshotPristine cs s = .ok () { s with pristine := pr })
      ∧ ((∃ c ∈ cs, ∃ e, J.place c = .error e) →
        ∃ e, J.snapshotPristine cs s = .error e { s with pristine := pr }) := by
  induction cs generalizing s with
  | nil => exact ⟨s.pristine, hplaced, fun _ => rfl, fun ⟨_, hc, _⟩ => absurd hc List.not_mem_nil⟩
  | cons c cs ih =>
    have hget : ∀ (f : JudgeState σ → PyM (JudgeState σ) Unit), ((get : PyM _ _) >>= f) s = f s s :=
      fun f => by rw [PyM.bind_run, PyM.get_run]
    by_cases hin : s.pristine.contains c = true
    · obtain ⟨pr, hpr, hok, herror⟩ := ih hplaced
      have hrun : J.snapshotPristine (c :: cs) s = J.snapshotPristine cs s := by
        rw [snapshotPristine, hget, if_pos hin]
      rw [hrun]
      refine ⟨pr, hpr, fun hall => hok fun c' hc' => hall c' (List.mem_cons_of_mem _ hc'),
        fun hex => herror ?_⟩
      obtain ⟨c', hc', e, he⟩ := hex
      rcases List.mem_cons.mp hc' with rfl | hc'
      · obtain ⟨spot, hspot⟩ := hplaced c' (Dict.mem_keys_iff.mpr (Dict.contains_iff.mp hin))
        rw [hspot] at he
        cases he
      · exact ⟨c', hc', e, he⟩
    · cases hplace : J.place c with
      | error e =>
        refine ⟨s.pristine, hplaced, fun hall => ?_, fun _ => ⟨e, ?_⟩⟩
        · obtain ⟨spot, hspot⟩ := hall c (List.mem_cons_self ..)
          rw [hplace] at hspot
          cases hspot
        · rw [snapshotPristine, hget, if_neg hin, hplace]
          exact PyM.bind_run_error (PyM.ofExcept_error _ _)
      | ok spot =>
        have hplaced' : J.Placed { s with pristine := s.pristine.set c (s.rows spot) } := by
          intro c' hc'
          rcases Dict.mem_keys_set.mp hc' with rfl | hc'
          · exact ⟨spot, hplace⟩
          · exact hplaced c' hc'
        obtain ⟨pr, hpr, hok, herror⟩ := ih hplaced'
        have hrun : J.snapshotPristine (c :: cs) s
            = J.snapshotPristine cs { s with pristine := s.pristine.set c (s.rows spot) } := by
          rw [snapshotPristine, hget, if_neg hin, hplace]
          rfl
        rw [hrun]
        refine ⟨pr, hpr, fun hall => hok fun c' hc' => hall c' (List.mem_cons_of_mem _ hc'),
          fun hex => herror ?_⟩
        obtain ⟨c', hc', e, he⟩ := hex
        rcases List.mem_cons.mp hc' with rfl | hc'
        · rw [hplace] at he
          cases he
        · exact ⟨c', hc', e, he⟩

theorem cached_eq_some {ce : PyFloat} : cached s bdig = some ce ↔ s.baseCe = some (bdig, ce) := by
  unfold cached
  cases s.baseCe with
  | none => exact iff_of_false nofun nofun
  | some e =>
    obtain ⟨d, ce'⟩ := e
    dsimp only
    by_cases hd : d = bdig
    · rw [if_pos hd, hd]
      simp
    · rw [if_neg hd]
      simp [hd]

/-- **The first arm** returns the base's CE, and leaves it cached. -/
theorem baseArm_run (hrows : J.stored base = .ok wsb) {fault : Option PyErr}
    (hfirst : fault = none ∨ (cached s bdig).isSome = true) :
    J.baseArm base bdig fault s = .ok (J.firstArm s bdig wsb).1
      ⟨(J.firstArm s bdig wsb).2, s.pristine, some (bdig, (J.firstArm s bdig wsb).1)⟩ := by
  unfold baseArm firstArm
  rw [PyM.bind_run, PyM.get_run]
  dsimp only
  cases hhit : cached s bdig with
  | some ce =>
    dsimp only
    rw [← cached_eq_some.mp hhit]
    rfl
  | none =>
    have hfault : fault = none := hfirst.resolve_right (by rw [hhit]; exact Bool.false_ne_true)
    rw [hfault]
    dsimp only
    rw [PyM.bind_run_ok (patch_ok hrows)]
    rfl

/-- **What a call returns and leaves**, where nothing stops it. -/
theorem judgePair_run (hplaced : J.Placed s)
    (hcall : J.Measures call base cand m bdig cdig wsb wsc)
    (hfirst : call.firstFault = none ∨ (cached s bdig).isSome = true) :
    ∃ pr, J.Placed { s with pristine := pr } ∧ J.judgePair call s
      = .ok (verdictOf m cand (J.firstArm s bdig wsb).1
          (J.heldoutCe (overlay wsc (J.firstArm s bdig wsb).2)) bdig cdig)
        ⟨overlay wsb (overlay wsc (J.firstArm s bdig wsb).2), pr,
          some (bdig, (J.firstArm s bdig wsb).1)⟩ := by
  obtain ⟨pr, hpr, hok, -⟩ := snapshotPristine_run hplaced base.keys
  have hsnap := hok fun c hc => (place_of_stored hcall.baseRows hc).imp fun _ h => h.2
  refine ⟨pr, hpr, ?_⟩
  unfold judgePair
  rw [hcall.prepared, PyM.bind_run, PyM.ofExcept_ok]
  dsimp only
  rw [PyM.bind_run_ok hsnap, hcall.baseDigest, PyM.bind_run, PyM.ofExcept_ok]
  dsimp only
  have harm := baseArm_run (J := J) (s := { s with pristine := pr }) hcall.baseRows hfirst
  rw [PyM.bind_run_ok harm, PyM.bind_run_ok (patch_ok hcall.candRows), hcall.second,
    PyM.bind_run_ok (show J.evaluate none _ = _ from rfl),
    PyM.bind_run_ok (patch_ok hcall.baseRows), hcall.candDigest, PyM.bind_run, PyM.ofExcept_ok]
  rfl

theorem evaluate_ok {fault : Option PyErr} {ce : PyFloat} (h : J.evaluate fault s = .ok ce s') :
    fault = none ∧ s' = s := by
  cases fault with
  | none =>
    cases h
    exact ⟨rfl, rfl⟩
  | some e => cases h

/-- **A call that returns** measured with something. -/
theorem measures_of_returns (hplaced : J.Placed s) {v : PairVerdict}
    (h : J.judgePair call s = .ok v s') (hprep : J.prepare call = .ok (base, cand, m)) :
    ∃ bdig cdig wsb wsc, J.Measures call base cand m bdig cdig wsb wsc
      ∧ (call.firstFault = none ∨ (cached s bdig).isSome = true) := by
  unfold judgePair at h
  rw [hprep, PyM.bind_run, PyM.ofExcept_ok] at h
  dsimp only at h
  obtain ⟨_, s₂, hsnap, h₂⟩ := PyM.of_bind_ok h
  obtain ⟨bdig, s₃, hdig, h₃⟩ := PyM.of_bind_ok h₂
  obtain ⟨ceBefore, s₄, harm, h₄⟩ := PyM.of_bind_ok h₃
  obtain ⟨_, s₅, hcand, h₅⟩ := PyM.of_bind_ok h₄
  obtain ⟨ceAfter, s₆, hsecond, h₆⟩ := PyM.of_bind_ok h₅
  obtain ⟨_, s₇, hbase, h₇⟩ := PyM.of_bind_ok h₆
  obtain ⟨cdig, s₈, hcdig, -⟩ := PyM.of_bind_ok h₇
  obtain ⟨hdigest, rfl⟩ := PyM.of_ofExcept_ok hdig
  obtain ⟨wsb, hwsb⟩ := stored_of_patch hbase
  obtain ⟨wsc, hwsc⟩ := stored_of_patch hcand
  refine ⟨bdig, cdig, wsb, wsc, ⟨hprep, hdigest, (PyM.of_ofExcept_ok hcdig).1, hwsb, hwsc,
    (evaluate_ok hsecond).1⟩, ?_⟩
  unfold baseArm at harm
  rw [PyM.bind_run, PyM.get_run] at harm
  dsimp only at harm
  have hce : cached s bdig = cached s₃ bdig := by
    obtain ⟨pr, -, hok, herror⟩ := snapshotPristine_run hplaced base.keys
    by_cases hall : ∀ c ∈ base.keys, ∃ spot, J.place c = .ok spot
    · rw [hok hall] at hsnap
      cases hsnap
      rfl
    · push Not at hall
      obtain ⟨c, hc, hno⟩ := hall
      obtain ⟨e, he⟩ := herror ⟨c, hc, by
        cases hplace : J.place c with
        | ok spot => exact absurd hplace (hno spot)
        | error e => exact ⟨e, rfl⟩⟩
      rw [he] at hsnap
      cases hsnap
  rw [hce]
  cases hhit : cached s₃ bdig with
  | some ce => exact Or.inr rfl
  | none =>
    rw [hhit] at harm
    obtain ⟨_, _, -, harm⟩ := PyM.of_bind_ok harm
    obtain ⟨_, _, heval, -⟩ := PyM.of_bind_ok harm
    exact Or.inl (evaluate_ok heval).1

/-- A call whose arguments are refused leaves the rows alone. -/
theorem judgePair_refused {e : PyErr} (h : J.prepare call = .error e) :
    J.judgePair call s = .error e s := by
  unfold judgePair
  rw [h]
  exact PyM.bind_run_error (PyM.ofExcept_error _ _)

/-- So does one whose base has no place or no digest. -/
theorem judgePair_stopped (hplaced : J.Placed s) (hprep : J.prepare call = .ok (base, cand, m))
    (hstop : (∃ c ∈ base.keys, ∃ e, J.place c = .error e) ∨ ∃ e, J.stateDigest base = .error e) :
    ∃ e pr, J.Placed { s with pristine := pr }
      ∧ J.judgePair call s = .error e { s with pristine := pr } := by
  obtain ⟨pr, hpr, hok, herror⟩ := snapshotPristine_run hplaced base.keys
  unfold judgePair
  rw [hprep, PyM.bind_run, PyM.ofExcept_ok]
  dsimp only
  by_cases hout : ∃ c ∈ base.keys, ∃ e, J.place c = .error e
  · obtain ⟨e, he⟩ := herror hout
    exact ⟨e, pr, hpr, PyM.bind_run_error he⟩
  · obtain ⟨e, hdig⟩ := hstop.resolve_left hout
    have hsnap := hok fun c hc => by
      cases hplace : J.place c with
      | ok spot => exact ⟨spot, rfl⟩
      | error e => exact absurd ⟨c, hc, e, hplace⟩ hout
    refine ⟨e, pr, hpr, ?_⟩
    rw [PyM.bind_run_ok hsnap, hdig]
    exact PyM.bind_run_error (PyM.ofExcept_error _ _)

/-- What a call's base and candidate are. -/
theorem prepare_ok (h : J.prepare call = .ok (base, cand, m)) : ∀ c ∈ cand.keys, c ∈ base.keys := by
  unfold prepare at h
  obtain ⟨m', -, h⟩ := bind_eq_ok.mp h
  obtain ⟨base', -, h⟩ := bind_eq_ok.mp h
  obtain ⟨candIn, -, h⟩ := bind_eq_ok.mp h
  dsimp only at h
  split at h
  · cases h
  · obtain ⟨cand', -, h⟩ := bind_eq_ok.mp h
    split at h
    · cases h
    · next hall =>
      cases h
      intro c hc
      by_contra hout
      refine hall (List.any_eq_true.mpr ⟨c, hc, ?_⟩)
      rw [Bool.not_eq_true']
      cases hget : base.contains c with
      | false => rfl
      | true => exact absurd (Dict.mem_keys_iff.mpr (Dict.contains_iff.mp hget)) hout

/-- The candidate's rows fall on the base's. -/
theorem Measures.absorb (hcall : J.Measures call base cand m bdig cdig wsb wsc)
    (f : ExpertRows σ) : overlay wsb (overlay wsc f) = overlay wsb f := by
  refine overlay_absorb fun spot hspot => ?_
  rw [mem_places_iff hcall.candRows] at hspot
  rw [mem_places_iff hcall.baseRows]
  obtain ⟨c, hc, hplace⟩ := hspot
  exact ⟨c, prepare_ok hcall.prepared c hc, hplace⟩

end Call

/-! ## Runs -/

/-- A judge that was just built. -/
def built : JudgeState σ := ⟨J.pack, ∅, none⟩

/-- A call, and what the judge is after it. -/
def step (s : JudgeState σ) (call : PairCall) : Except PyErr PairVerdict × JudgeState σ :=
  match J.judgePair call s with
  | .ok v s' => (.ok v, s')
  | .error e s' => (.error e, s')

/-- A call on a judge leaves nothing behind that a later call on the given base could see: it stops
before its first row is written, or it returns, its base's rows are those of the pack but where the
later base has rows of its own, and if its base has the later one's digest it is stored alike. -/
def Traceless (later : RowState (Tensor PyFloat)) (s : JudgeState σ) (call : PairCall) : Prop :=
  (∃ e, J.prepare call = .error e)
  ∨ ∃ base cand m, J.prepare call = .ok (base, cand, m)
    ∧ ((∃ c ∈ base.keys, ∃ e, J.place c = .error e) ∨ (∃ e, J.stateDigest base = .error e)
      ∨ ∃ bdig cdig wsb wsc, J.Measures call base cand m bdig cdig wsb wsc
        ∧ (call.firstFault = none ∨ (cached s bdig).isSome = true)
        ∧ (∀ spot, (∀ c ∈ later.keys, J.place c ≠ .ok spot) →
          overlay wsb J.pack spot = J.pack spot)
        ∧ (J.stateDigest later = .ok bdig → ∀ ws, J.stored later = .ok ws →
          ∀ f, overlay wsb f = overlay ws f))

/-- What must hold of a judge for its next call on a base to go as on one just built. -/
structure Standing (later : RowState (Tensor PyFloat)) (s : JudgeState σ) : Prop where
  placed : J.Placed s
  outside : ∀ spot, (∀ c ∈ later.keys, J.place c ≠ .ok spot) → s.rows spot = J.pack spot
  cache : ∀ bdig ce, s.baseCe = some (bdig, ce) → J.stateDigest later = .ok bdig →
    ∀ ws, J.stored later = .ok ws →
      ce = J.heldoutCe (overlay ws J.pack) ∧ s.rows = overlay ws J.pack

section Runs

variable {J : ProductJudge σ} {s s' : JudgeState σ} {call : PairCall}
  {later : RowState (Tensor PyFloat)} {ws : List (Place × (Part → σ))}

theorem standing_built : J.Standing later J.built where
  placed _ hc := absurd hc List.not_mem_nil
  outside _ _ := rfl
  cache _ _ h := nomatch h

/-- The rows of the later base hide what a standing judge has under them. -/
theorem Standing.overlay_rows (h : J.Standing later s) (hws : J.stored later = .ok ws) :
    overlay ws s.rows = overlay ws J.pack := by
  refine overlay_ext fun spot hspot => h.outside spot fun c hc hplace => hspot ?_
  exact (mem_places_iff hws spot).mpr ⟨c, hc, hplace⟩

/-- **A call that leaves no trace leaves a judge standing.** -/
theorem Standing.step (h : J.Standing later s) (hcall : J.Traceless later s call) :
    J.Standing later (J.step s call).2 := by
  unfold ProductJudge.step
  rcases hcall with ⟨e, he⟩ | ⟨base, cand, m, hprep, hcall⟩
  · rw [judgePair_refused he]
    exact h
  by_cases hstop : (∃ c ∈ base.keys, ∃ e, J.place c = .error e) ∨ ∃ e, J.stateDigest base = .error e
  · obtain ⟨e, pr, hpr, hrun⟩ := judgePair_stopped h.placed hprep hstop
    rw [hrun]
    exact ⟨hpr, h.outside, h.cache⟩
  · rw [← or_assoc] at hcall
    obtain ⟨bdig, cdig, wsb, wsc, hm, hfirst, hpack, halike⟩ := hcall.resolve_left hstop
    obtain ⟨pr, hpr, hrun⟩ := judgePair_run h.placed hm hfirst
    rw [hrun]
    -- the call leaves its base's rows over those it found
    have hrows : overlay wsb (overlay wsc (J.firstArm s bdig wsb).2) = overlay wsb s.rows := by
      rw [hm.absorb]
      unfold firstArm
      cases cached s bdig with
      | some ce => rfl
      | none => exact overlay_absorb fun _ hspot => hspot
    dsimp only
    rw [hrows]
    refine ⟨hpr, fun spot hspot => ?_, fun d ce hce hdig ws hws => ?_⟩
    · show overlay wsb s.rows spot = _
      by_cases hin : spot ∈ wsb.map Prod.fst
      · rw [overlay_of_mem hin, hpack spot hspot]
      · rw [overlay_of_not_mem hin, h.outside spot hspot]
    · obtain ⟨rfl, rfl⟩ := Prod.mk.inj (Option.some.inj hce)
      have hsame : overlay wsb s.rows = overlay ws J.pack := by
        rw [halike hdig ws hws, h.overlay_rows hws]
      refine ⟨?_, hsame⟩
      unfold firstArm
      cases hhit : cached s bdig with
      | some ce => exact (h.cache bdig ce (cached_eq_some.mp hhit) hdig ws hws).1
      | none =>
        show J.heldoutCe (overlay wsb s.rows) = _
        rw [hsame]

/-- A standing judge stays standing over calls that leave no trace. -/
theorem Standing.run (h : J.Standing later s) (calls : List PairCall)
    (hcalls : ∀ e ∈ history J.step s calls, J.Traceless later e.before e.input) :
    J.Standing later (final J.step s calls) := by
  induction calls generalizing s with
  | nil => exact h
  | cons call calls ih =>
    refine ih (h.step (hcalls (event J.step s call) (List.mem_cons_self ..))) fun e he => ?_
    exact hcalls e (List.mem_cons_of_mem _ he)

/-- **The first arm of a standing judge** is that of a judge just built. -/
theorem Standing.firstArm_eq {bdig : String} (h : J.Standing later s)
    (hdig : J.stateDigest later = .ok bdig) (hws : J.stored later = .ok ws) :
    J.firstArm s bdig ws = (J.heldoutCe (overlay ws J.pack), overlay ws J.pack) := by
  unfold firstArm
  cases hhit : cached s bdig with
  | some ce =>
    obtain ⟨hce, hrows⟩ := h.cache bdig ce (cached_eq_some.mp hhit) hdig ws hws
    exact Prod.ext hce hrows
  | none =>
    show (J.heldoutCe (overlay ws s.rows), overlay ws s.rows) = _
    rw [h.overlay_rows hws]

end Runs

/-- **A verdict does not depend on what was judged before**, where every earlier call left no trace
that its base could see: the same call of a judge just built returns it too. -/
theorem verdict_independent (calls : List PairCall) (last : PairCall)
    {base cand : RowState (Tensor PyFloat)} {m : PyFloat}
    (hlast : J.prepare last = .ok (base, cand, m))
    (hcalls : ∀ e ∈ history J.step J.built calls, J.Traceless base e.before e.input)
    {v : PairVerdict} {s' : JudgeState σ}
    (h : J.judgePair last (final J.step J.built calls) = .ok v s') :
    ∃ s'', J.judgePair { last with firstFault := none, secondFault := none } J.built
      = .ok v s'' := by
  have hbuilt : J.Standing base J.built := standing_built
  have hstand := hbuilt.run calls hcalls
  obtain ⟨bdig, cdig, wsb, wsc, hm, hfirst⟩ := measures_of_returns hstand.placed h hlast
  have hm' : J.Measures { last with firstFault := none, secondFault := none } base cand m bdig cdig
      wsb wsc := ⟨hm.prepared, hm.baseDigest, hm.candDigest, hm.baseRows, hm.candRows, rfl⟩
  obtain ⟨pr, -, hrun⟩ := judgePair_run hstand.placed hm hfirst
  obtain ⟨pr', -, hrun'⟩ := judgePair_run hbuilt.placed hm' (Or.inl rfl)
  rw [hrun, hstand.firstArm_eq hm.baseDigest hm.baseRows] at h
  rw [hrun', standing_built.firstArm_eq hm.baseDigest hm.baseRows]
  cases h
  exact ⟨_, rfl⟩

end ProductJudge

/-! ## Two coordinates of one layer -/

namespace ProductJudge

/-- A judge whose CE is the product of two gate rows of one number. -/
def smallJudge : ProductJudge PyFloat where
  platform := Platform.ideal
  np := exactNumpy
  addRow a b := .ok (.ofFn a.shape fun i => a.get i + b.get i)
  resident layer := layer = 1
  experts := 2
  toSlab _ t := match t.data with
    | [x] => .ok x
    | _ => .error judgeUnavailable
  torchEqual := PyFloat.eq
  heldoutCe rows := rows (1, 0) .gate * rows (1, 1) .gate
  pack _ _ := .fin 2
  margin := .fin 1

theorem length_number (x : ℚ) : [PyFloat.fin x].length = ([] : List ℕ).prod := rfl

/-- Rows of one number. -/
def numberRows (x : ℚ) : Dict String (Tensor PyFloat) :=
  Dict.ofList (rowKeys.map fun k => (k, ⟨[], [.fin x], length_number x⟩))

/-- A candidate for an expert, as its rows after the merge. -/
def numberCall (expert : ℤ) (base cand : ℚ) : PairCall :=
  ⟨.rows (numberRows base), .rows (numberRows cand), some (.of (1, expert)), true, none, none, none⟩

/-- The rows of an expert by its coordinate. -/
def numberState (expert : ℤ) (x : ℚ) : RowState (Tensor PyFloat) :=
  Dict.ofList [((1, expert), numberRows x)]

/-- Whether a call accepts, if it returns. -/
def acceptOf (calls : List PairCall) (last : PairCall) : Option Bool :=
  match smallJudge.judgePair last (final smallJudge.step smallJudge.built calls) with
  | .ok v _ => some v.accept
  | .error _ _ => none

theorem exists_of_acceptOf {calls : List PairCall} {last : PairCall} {b : Bool}
    (h : acceptOf calls last = some b) : ∃ v s',
      smallJudge.judgePair last (final smallJudge.step smallJudge.built calls) = .ok v s'
        ∧ v.accept = b := by
  unfold acceptOf at h
  split at h
  · next v s' hrun =>
    refine ⟨v, s', hrun, Option.some.inj h⟩
  · cases h

theorem digest_of_isOk {state : RowState (Tensor PyFloat)}
    (h : (smallJudge.stateDigest state).isOk = true) :
    ∃ d, smallJudge.stateDigest state = .ok d := by
  cases hd : smallJudge.stateDigest state with
  | ok d => exact ⟨d, rfl⟩
  | error e =>
    rw [hd] at h
    cases h

theorem traceless_pack : smallJudge.Traceless (numberState 1 3) smallJudge.built
    (numberCall 0 2 7) := by
  obtain ⟨bdig, hbase⟩ := digest_of_isOk
    (show (smallJudge.stateDigest (numberState 0 2)).isOk = true by decide +kernel)
  obtain ⟨cdig, hcand⟩ := digest_of_isOk
    (show (smallJudge.stateDigest (numberState 0 7)).isOk = true by decide +kernel)
  refine Or.inr ⟨numberState 0 2, numberState 0 7, .fin 1, rfl, Or.inr (Or.inr ⟨bdig, cdig, _, _,
    ⟨rfl, hbase, hcand, rfl, rfl, rfl⟩, Or.inl rfl, fun spot _ => ?_, fun hdig => ?_⟩)⟩
  · show Function.update smallJudge.pack (1, 0) _ spot = _
    by_cases hspot : spot = (1, 0)
    · rw [hspot, Function.update_self]
      funext part
      cases part <;> rfl
    · rw [Function.update_of_ne hspot]
  · exact absurd (hdig.trans hbase.symm) (by decide +kernel)

/-- After a base of the pack's own rows, the verdict is that of a judge just built. -/
theorem verdict_independent_pack : ∃ v s'',
    smallJudge.judgePair (numberCall 1 3 2) smallJudge.built = .ok v s'' ∧ v.accept = true := by
  obtain ⟨v, s', h, hacc⟩ := exists_of_acceptOf
    (show acceptOf [numberCall 0 2 7] (numberCall 1 3 2) = some true by decide +kernel)
  have hlast : smallJudge.prepare (numberCall 1 3 2)
      = .ok (numberState 1 3, numberState 1 2, .fin 1) := rfl
  have hcalls : ∀ e ∈ history smallJudge.step smallJudge.built [numberCall 0 2 7],
      smallJudge.Traceless (numberState 1 3) e.before e.input := by
    intro e he
    obtain rfl := List.mem_singleton.mp he
    exact traceless_pack
  obtain ⟨s'', hrun⟩ := verdict_independent smallJudge [numberCall 0 2 7] (numberCall 1 3 2) hlast
    hcalls h
  exact ⟨v, s'', hrun, hacc⟩

/-- The rows of a base that was judged before stay, and decide over a later candidate. -/
theorem verdict_depends_on_history :
    ¬ ∀ (calls : List PairCall) (last : PairCall) (v : PairVerdict) (s' : JudgeState PyFloat),
        smallJudge.judgePair last (final smallJudge.step smallJudge.built calls) = .ok v s' →
        ∃ v' s'', smallJudge.judgePair { last with firstFault := none, secondFault := none }
            smallJudge.built = .ok v' s''
          ∧ v'.ceBefore = v.ceBefore ∧ v'.ceAfter = v.ceAfter ∧ v'.accept = v.accept := by
  intro hall
  obtain ⟨v, s', h, hacc⟩ := exists_of_acceptOf
    (show acceptOf [numberCall 0 0 1] (numberCall 1 3 2) = some false by decide +kernel)
  obtain ⟨v', s'', h', hacc'⟩ := exists_of_acceptOf
    (show acceptOf [] (numberCall 1 3 2) = some true by decide +kernel)
  obtain ⟨w, t, hrun, -, -, hw⟩ := hall _ _ v s' h
  have hsame : w = v' := by
    have heq := hrun.symm.trans h'
    cases heq
    rfl
  rw [hsame, hacc', hacc] at hw
  cases hw

end ProductJudge

end NeuraHash
