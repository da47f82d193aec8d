import NeuraHash.Python.Mutation
import NeuraHash.Platform

/-!
# The dose ladder (`DoseLadder`, `parse_dose_ladder`, `validate_dose_ladder`)

A layer whose delta is rejected is trained at the next smaller multiplier of the campaign dose, an
accepted one goes back to the campaign dose. The rungs are saved as JSON, each with its multiplier,
so that a process with another ladder can find a rung of its own.

A `DoseLadder` has a valid ladder and rungs on it. `dose_restart_iff` compares a layer's multiplier
before and after a restart: it does not rise when the new ladder goes down to it.
-/

namespace NeuraHash

open Py

/-- `DoseConfigError`. -/
def doseConfigError : PyErr := .raised "DoseConfigError"

/-- From the campaign dose down, every rung positive. -/
structure ValidRungs (rungs : List ℚ) : Prop where
  top : rungs.head? = some 1
  decreasing : rungs.Pairwise (· > ·)
  positive : ∀ r ∈ rungs, 0 < r

/-- One pass of the loop of `validate_dose_ladder`. -/
def checkRung (prev : Option ℚ) : PyFloat → Except PyErr ℚ
  | .fin r =>
    if ¬ (0 < r ∧ r ≤ 1) then .error doseConfigError
    else match prev with
      | some p => if r < p then .ok r else .error doseConfigError
      | none => .ok r
  | _ => .error doseConfigError

def checkRungs : Option ℚ → List PyFloat → Except PyErr (List ℚ)
  | _, [] => .ok []
  | prev, x :: xs => do
    let r ← checkRung prev x
    let rs ← checkRungs (some r) xs
    return r :: rs

/-- `validate_dose_ladder(rungs)`. -/
def validateDoseLadder (rungs : List PyFloat) : Except PyErr (List ℚ) :=
  match rungs with
  | [] => .error doseConfigError
  | top :: _ => if PyFloat.eq top (.fin 1) then checkRungs none rungs else .error doseConfigError

/-- `DOSE_LADDER_DEFAULT`. -/
def doseLadderDefault : List ℚ := [1, 1 / 3, 1 / 10]

/-- `float(c)` of an item of the ladder's text. -/
def parseRung (T : PyText) (c : String) : Except PyErr PyFloat :=
  match T.parseFloat c with
  | some x => .ok x
  | none => .error doseConfigError

/-- `parse_dose_ladder(raw)`. -/
def parseDoseLadder (T : PyText) (raw : String) : Except PyErr (List ℚ) := do
  let text := raw.toList.map fun c => if c = ';' then ',' else c
  let items := ((text.splitOn ',').map fun c => T.strip (String.ofList c)).filter (· ≠ "")
  if items.isEmpty then return doseLadderDefault
  validateDoseLadder (← items.mapM (parseRung T))

theorem checkRung_ok {prev : Option ℚ} {x : PyFloat} {r : ℚ} (h : checkRung prev x = .ok r) :
    0 < r ∧ r ≤ 1 ∧ (∀ p ∈ prev, r < p) ∧ x = .fin r := by
  cases x with
  | fin q =>
    unfold checkRung at h
    dsimp only at h
    split at h
    · cases h
    · next hbounds =>
      rw [not_not] at hbounds
      cases prev with
      | none =>
        cases h
        exact ⟨hbounds.1, hbounds.2, fun p hp => (by cases hp), rfl⟩
      | some p =>
        dsimp only at h
        split at h
        · next hlt =>
          cases h
          refine ⟨hbounds.1, hbounds.2, fun p' hp => ?_, rfl⟩
          cases hp
          exact hlt
        · cases h
  | _ => cases h

theorem checkRungs_ok {prev : Option ℚ} {xs : List PyFloat} {rs : List ℚ}
    (h : checkRungs prev xs = .ok rs) :
    (∀ r ∈ rs, 0 < r ∧ ∀ p ∈ prev, r < p) ∧ rs.Pairwise (· > ·) ∧ xs = rs.map .fin := by
  induction xs generalizing prev rs with
  | nil =>
    cases h
    exact ⟨fun r hr => (by cases hr), .nil, rfl⟩
  | cons x xs ih =>
    obtain ⟨r, hr, h⟩ := bind_eq_ok.mp h
    obtain ⟨rest, hrest, h⟩ := bind_eq_ok.mp h
    cases h
    obtain ⟨hpos, -, hlt, rfl⟩ := checkRung_ok hr
    obtain ⟨hbelow, hdown, rfl⟩ := ih hrest
    refine ⟨fun q hq => ?_, List.pairwise_cons.mpr ⟨fun q hq => (hbelow q hq).2 r rfl, hdown⟩, rfl⟩
    rcases List.mem_cons.mp hq with rfl | hq
    · exact ⟨hpos, hlt⟩
    · exact ⟨(hbelow q hq).1, fun p hp => ((hbelow q hq).2 r rfl).trans (hlt p hp)⟩

/-- A ladder that passes goes down from 1. -/
theorem validateDoseLadder_ok {rungs : List PyFloat} {rs : List ℚ}
    (h : validateDoseLadder rungs = .ok rs) : ValidRungs rs := by
  cases rungs with
  | nil => cases h
  | cons top rungs =>
    unfold validateDoseLadder at h
    dsimp only at h
    split at h
    · next htop =>
      obtain ⟨hbounds, hdown, hmap⟩ := checkRungs_ok h
      cases rs with
      | nil => cases hmap
      | cons r rs =>
        obtain ⟨rfl, -⟩ := List.cons.inj hmap
        have hone : r = 1 := by simpa [PyFloat.eq] using htop
        exact ⟨by rw [hone]; rfl, hdown, fun q hq => (hbounds q hq).1⟩
    · cases h

/-! ## The ladder of a process -/

structure DoseLadder where
  rungs : List ℚ
  valid : ValidRungs rungs
  /-- `_rung`: the layers that are not at the campaign dose. -/
  rungOf : Dict ℤ ℕ
  inRange : ∀ L i, rungOf.get? L = some i → i < rungs.length

namespace ValidRungs

variable {rungs : List ℚ} (h : ValidRungs rungs)

include h

theorem pos : 0 < rungs.length := by
  cases rungs with
  | nil => cases h.top
  | cons r rs => simp

theorem le_one {i : ℕ} (hi : i < rungs.length) : rungs[i] ≤ 1 := by
  have hzero := h.pos
  have htop : rungs[0] = 1 := by
    have := h.top
    rw [List.head?_eq_getElem?, List.getElem?_eq_getElem hzero] at this
    exact Option.some.inj this
  rcases Nat.eq_zero_or_pos i with rfl | hpos
  · exact htop.le
  · rw [← htop]
    exact (List.pairwise_iff_getElem.mp h.decreasing 0 i hzero hi hpos).le

end ValidRungs

namespace DoseLadder

/-- `DoseLadder(rungs)`. -/
def init (rungs : List PyFloat) : Except PyErr DoseLadder :=
  match h : validateDoseLadder rungs with
  | .ok rs => .ok ⟨rs, validateDoseLadder_ok h, ∅, fun _ _ hget => by cases hget⟩
  | .error e => .error e

variable (d : DoseLadder)

def rung (L : ℤ) : ℕ := d.rungOf.getD L 0

theorem rung_lt (L : ℤ) : d.rung L < d.rungs.length := by
  unfold rung Dict.getD
  cases hget : d.rungOf.get? L with
  | none => exact d.valid.pos
  | some i => exact d.inRange L i hget

def multiplier (L : ℤ) : ℚ := d.rungs.get ⟨d.rung L, d.rung_lt L⟩

def atBottom (L : ℤ) : Bool := decide (d.rungs.length - 1 ≤ d.rung L)

/-- `self._rung[L] = i`. -/
def setRung (L : ℤ) (i : ℕ) (hi : i < d.rungs.length) : DoseLadder where
  rungs := d.rungs
  valid := d.valid
  rungOf := d.rungOf.set L i
  inRange L' i' hget := by
    rw [Dict.get?_set] at hget
    split at hget
    · cases hget
      exact hi
    · exact d.inRange L' i' hget

/-- `self._rung.pop(L, 0)`. -/
def popRung (L : ℤ) : DoseLadder where
  rungs := d.rungs
  valid := d.valid
  rungOf := d.rungOf.erase L
  inRange L' i' hget := by
    rw [Dict.get?_erase] at hget
    split at hget
    · cases hget
    · exact d.inRange L' i' hget

def onReject (L : ℤ) : Bool × DoseLadder :=
  if h : d.rungs.length - 1 ≤ d.rung L then (false, d)
  else (true, d.setRung L (d.rung L + 1) (by omega))

def onAccept (L : ℤ) : Bool × DoseLadder := (decide (d.rung L ≠ 0), d.popRung L)

/-! ## Saving and restoring -/

/-- A layer as `export` writes it. -/
def exportRow (d : DoseLadder) (L : ℤ) (i : ℕ) (hi : i < d.rungs.length) : Json :=
  .obj [("L", .int L), ("rung", .int i), ("mult", .float (.fin (d.rungs.get ⟨i, hi⟩)))]

/-- The layers below the campaign dose, by number. -/
def loweredLayers : List ℤ :=
  ((d.rungOf.entries.insertionSort fun a b => a.1 ≤ b.1).filter fun p => p.2 ≠ 0).map Prod.fst

/-- `export()`. -/
def exportRungs : Json :=
  .obj [("rungs", .arr (d.rungs.map fun r => .float (.fin r))),
    ("layers", .arr (d.loweredLayers.map fun L => d.exportRow L (d.rung L) (d.rung_lt L)))]

/-- What `except (TypeError, ValueError, KeyError, IndexError)` catches. -/
def badField : PyErr → Bool
  | .typeError | .valueError | .keyError => true
  | e => e == .raised "IndexError"

/-- `int(r["L"]), int(r["rung"]), float(r.get("mult", float("nan")))`. -/
def readRow (T : PyText) (r : Json) : Except PyErr (ℤ × ℤ × PyFloat) := do
  let L ← (← r.item "L").toInt T
  let idx ← (← r.item "rung").toInt T
  let mult ← (← r.getD "mult" (.float .nan)).toFloat T
  return (L, idx, mult)

/-- The first rung that is not above the saved multiplier, or the last one. -/
def pick (rungs : List ℚ) (mult : PyFloat) : ℕ :=
  (rungs.findIdx? fun v => PyFloat.le (.fin v) mult).getD (rungs.length - 1)

/-- The rung a saved one leads to; `none` is a dropped row. -/
def landing (rungs : List ℚ) (idx : ℤ) (mult : PyFloat) : Option ℕ :=
  if idx ≤ 0 then none
  else if (rungs[idx.toNat]?).any (fun v => PyFloat.eq mult (.fin v)) then some idx.toNat
  else if PyFloat.eq mult mult && PyFloat.lt (.fin 0) mult && PyFloat.le mult (.fin 1) then
    if pick rungs mult = 0 then none else some (pick rungs mult)
  else none

theorem pick_lt {rungs : List ℚ} (h : ValidRungs rungs) (mult : PyFloat) :
    pick rungs mult < rungs.length := by
  have hpos := h.pos
  unfold pick
  cases hfind : rungs.findIdx? fun v => PyFloat.le (.fin v) mult with
  | none =>
    show rungs.length - 1 < _
    omega
  | some i => exact (List.findIdx?_eq_some_iff_getElem.mp hfind).1

theorem landing_lt {rungs : List ℚ} (h : ValidRungs rungs) {idx : ℤ} {mult : PyFloat} {i : ℕ}
    (hi : landing rungs idx mult = some i) : i < rungs.length := by
  unfold landing at hi
  split at hi
  · cases hi
  · split at hi
    · next hsame =>
      cases hi
      by_contra hout
      rw [List.getElem?_eq_none (by omega)] at hsame
      cases hsame
    · split at hi
      · split at hi
        · cases hi
        · cases hi
          exact pick_lt h mult
      · cases hi

/-- The body of the loop of `restore`, on the values of a row. -/
def reseat (L idx : ℤ) (mult : PyFloat) : DoseLadder :=
  match h : landing d.rungs idx mult with
  | none => d
  | some i => d.setRung L i (landing_lt d.valid h)

/-- A row of the file: was it restored? -/
def restoreRow (T : PyText) (r : Json) : PyM DoseLadder Bool := do
  match readRow T r with
  | .error e => if badField e then return false else throw e
  | .ok (L, idx, mult) =>
    let d ← get
    set (d.reseat L idx mult)
    return (landing d.rungs idx mult).isSome

/-- The rows of a saved block. -/
def savedRows (key : String) (blob : Json) : List Json :=
  match blob.get? key with
  | some (.arr rows) => rows
  | _ => []

/-- `restored` or `dropped` goes up. -/
def tally (n : ℕ × ℕ) (restored : Bool) : ℕ × ℕ :=
  if restored then (n.1 + 1, n.2) else (n.1, n.2 + 1)

/-- The loop of `restore`, from the counts `n`. -/
def restoreRows (T : PyText) (rows : List Json) (n : ℕ × ℕ) : PyM DoseLadder (ℕ × ℕ) :=
  rows.foldlM (fun n r => do return tally n (← restoreRow T r)) n

/-- `restore(blob)`. -/
def restore (T : PyText) (blob : Json) : PyM DoseLadder (ℕ × ℕ) :=
  restoreRows T (savedRows "layers" blob) (0, 0)

/-! ## Runs -/

inductive DoseCall where
  | reject (L : ℤ)
  | accept (L : ℤ)

def step : DoseCall → DoseLadder
  | .reject L => (d.onReject L).2
  | .accept L => (d.onAccept L).2

def run (calls : List DoseCall) : DoseLadder := calls.foldl step d

/-- The smallest rung. -/
def floor : ℚ := d.rungs.get ⟨d.rungs.length - 1, Nat.sub_lt d.valid.pos one_pos⟩

variable {d}

@[simp] theorem rungs_step (c : DoseCall) : (d.step c).rungs = d.rungs := by
  cases c with
  | reject L =>
    show (d.onReject L).2.rungs = _
    unfold onReject
    split <;> rfl
  | accept L => rfl

@[simp] theorem rungs_run (calls : List DoseCall) : (d.run calls).rungs = d.rungs := by
  unfold run
  induction calls generalizing d with
  | nil => rfl
  | cons c calls ih =>
    rw [List.foldl_cons, ih, rungs_step]

theorem init_of_valid {rungs : List PyFloat} {rs : List ℚ} (h : validateDoseLadder rungs = .ok rs) :
    init rungs = .ok ⟨rs, validateDoseLadder_ok h, ∅, fun _ _ hget => by cases hget⟩ := by
  unfold init
  split
  · next rs' h' =>
    rw [h] at h'
    cases h'
    rfl
  · next e h' =>
    rw [h] at h'
    cases h'

theorem init_rungs {rungs : List PyFloat} (h : init rungs = .ok d) :
    validateDoseLadder rungs = .ok d.rungs ∧ d.rungOf = ∅ := by
  unfold init at h
  split at h
  · next hvalid =>
    cases h
    exact ⟨hvalid, rfl⟩
  · cases h

theorem rung_init {rungs : List PyFloat} (h : init rungs = .ok d) (L : ℤ) : d.rung L = 0 := by
  unfold rung
  rw [(init_rungs h).2]
  rfl

theorem rung_setRung {L L' : ℤ} {i : ℕ} {hi : i < d.rungs.length} :
    (d.setRung L i hi).rung L' = if L' = L then i else d.rung L' := by
  show (d.rungOf.set L i).getD L' 0 = _
  unfold Dict.getD
  rw [Dict.get?_set]
  by_cases hL : L' = L
  · simp [hL]
  · rw [if_neg hL, if_neg (Ne.symm hL)]
    rfl

/-! ## What a restart does -/

theorem mem_loweredLayers {L : ℤ} : L ∈ d.loweredLayers ↔ d.rung L ≠ 0 := by
  unfold loweredLayers rung Dict.getD
  simp only [List.mem_map, List.mem_filter, List.mem_insertionSort, decide_eq_true_eq,
    Prod.exists, exists_and_right, exists_eq_right]
  constructor
  · rintro ⟨i, hmem, hi⟩
    rw [Dict.mem_entries_iff.mp hmem]
    exact hi
  · intro hne
    cases hget : d.rungOf.get? L with
    | none => simp [hget] at hne
    | some i => exact ⟨i, Dict.mem_entries_iff.mpr hget, by simpa [hget] using hne⟩

theorem nodup_loweredLayers : d.loweredLayers.Nodup := by
  have hsorted : ((d.rungOf.entries.insertionSort fun a b => a.1 ≤ b.1).map Prod.fst).Nodup :=
    ((List.perm_insertionSort _ _).map _).nodup_iff.mpr d.rungOf.nodup
  exact hsorted.sublist (List.filter_sublist.map _)

theorem readRow_exportRow (T : PyText) (L : ℤ) {i : ℕ} (hi : i < d.rungs.length) :
    readRow T (d.exportRow L i hi) = .ok (L, i, .fin (d.rungs.get ⟨i, hi⟩)) := by
  unfold readRow exportRow
  simp [Json.item_obj, Json.getD_obj, Dict.lookup, Json.toFloat]

theorem rungs_reseat (L idx : ℤ) (mult : PyFloat) : (d.reseat L idx mult).rungs = d.rungs := by
  unfold reseat
  split <;> rfl

theorem rung_reseat {L L' idx : ℤ} {mult : PyFloat} :
    (d.reseat L idx mult).rung L'
      = if L' = L then (landing d.rungs idx mult).getD (d.rung L) else d.rung L' := by
  unfold reseat
  split
  · next h =>
    rw [h]
    by_cases hL : L' = L
    · simp [hL]
    · rw [if_neg hL]
  · next i h => rw [rung_setRung, h, Option.getD_some]

/-- The rows of an exported ladder are read without an exception, each for its own layer. -/
theorem restore_rows (T : PyText) (a : DoseLadder) {layers : List ℤ} (hd : layers.Nodup)
    (n : ℕ × ℕ) (b : DoseLadder) :
    ∃ n' b', restoreRows T (layers.map fun L => a.exportRow L (a.rung L) (a.rung_lt L)) n b
        = .ok n' b' ∧
      b'.rungs = b.rungs ∧
      ∀ L, b'.rung L = if L ∈ layers then
          (landing b.rungs (a.rung L) (.fin (a.multiplier L))).getD (b.rung L)
        else b.rung L := by
  induction layers generalizing n b with
  | nil => exact ⟨n, b, rfl, rfl, fun L => by simp⟩
  | cons L₀ layers ih =>
    rw [List.nodup_cons] at hd
    have hrow : restoreRow T (a.exportRow L₀ (a.rung L₀) (a.rung_lt L₀)) b
        = .ok (landing b.rungs (a.rung L₀) (.fin (a.multiplier L₀))).isSome
          (b.reseat L₀ (a.rung L₀) (.fin (a.multiplier L₀))) := by
      unfold restoreRow
      rw [readRow_exportRow]
      rfl
    obtain ⟨n', b', hrun, hrungs, hrung⟩ := ih hd.2
      (tally n (landing b.rungs (a.rung L₀) (.fin (a.multiplier L₀))).isSome)
      (b.reseat L₀ (a.rung L₀) (.fin (a.multiplier L₀)))
    refine ⟨n', b', ?_, by rw [hrungs, rungs_reseat], fun L => ?_⟩
    · have hcount : (restoreRow T (a.exportRow L₀ (a.rung L₀) (a.rung_lt L₀)) >>= fun r =>
          (pure (tally n r) : PyM DoseLadder (ℕ × ℕ))) b = .ok _ _ := PyM.bind_run_ok hrow
      unfold restoreRows
      rw [List.map_cons, List.foldlM_cons, PyM.bind_run_ok hcount]
      exact hrun
    · rw [hrung, rungs_reseat, rung_reseat]
      by_cases hL : L = L₀
      · subst hL
        simp [hd.1]
      · simp [hL]

theorem landing_getD {rungs : List ℚ} {idx : ℕ} (hidx : idx ≠ 0) {m : ℚ} (hm : 0 < m ∧ m ≤ 1) :
    (landing rungs idx (.fin m)).getD 0
      = if rungs[idx]? = some m then idx else pick rungs (.fin m) := by
  have hsame : (rungs[idx]?).any (fun v => PyFloat.eq (.fin m) (.fin v)) = true
      ↔ rungs[idx]? = some m := by
    cases rungs[idx]? with
    | none => simp
    | some v => simp [PyFloat.eq, eq_comm]
  have hdose : (PyFloat.eq (.fin m) (.fin m) && PyFloat.lt (.fin 0) (.fin m)
      && PyFloat.le (.fin m) (.fin 1)) = true := by
    simp [PyFloat.eq, hm.1, hm.2]
  unfold landing
  rw [if_neg (by omega), Int.toNat_natCast]
  by_cases h : rungs[idx]? = some m
  · rw [if_pos (hsame.mpr h), if_pos h]
    rfl
  · rw [if_neg (fun hany => h (hsame.mp hany)), if_neg h, if_pos hdose]
    -- the first rung is the default, so no row is the same as a row that leads to it
    split
    · next hpick => rw [hpick]; rfl
    · rfl

theorem getElem?_rung (L : ℤ) : d.rungs[d.rung L]? = some (d.multiplier L) :=
  List.getElem?_eq_getElem (d.rung_lt L)

theorem multiplier_bounds (L : ℤ) : 0 < d.multiplier L ∧ d.multiplier L ≤ 1 :=
  ⟨d.valid.positive _ (List.get_mem _ _), d.valid.le_one (d.rung_lt L)⟩

theorem floor_le {i : ℕ} {v : ℚ} (hv : d.rungs[i]? = some v) : d.floor ≤ v := by
  obtain ⟨hi, rfl⟩ := List.getElem?_eq_some_iff.mp hv
  have hlast : d.rungs.length - 1 < d.rungs.length := Nat.sub_lt d.valid.pos one_pos
  show d.rungs[d.rungs.length - 1] ≤ _
  rcases Nat.eq_or_lt_of_le (Nat.le_sub_one_of_lt hi) with heq | hlt
  · simp [heq]
  · exact (List.pairwise_iff_getElem.mp d.valid.decreasing i _ hi hlast hlt).le

/-- The rung picked for a multiplier is within it when some rung is. -/
theorem pick_le_iff {m v : ℚ} (hv : d.rungs[pick d.rungs (.fin m)]? = some v) :
    v ≤ m ↔ d.floor ≤ m := by
  refine ⟨(floor_le hv).trans, fun hfloor => ?_⟩
  unfold pick at hv
  cases hfind : d.rungs.findIdx? fun r => PyFloat.le (.fin r) (.fin m) with
  | none =>
    have hlast : d.rungs.length - 1 < d.rungs.length := Nat.sub_lt d.valid.pos one_pos
    rw [hfind, Option.getD_none, List.getElem?_eq_getElem hlast] at hv
    cases hv
    exact hfloor
  | some i =>
    obtain ⟨hi, hle, -⟩ := List.findIdx?_eq_some_iff_getElem.mp hfind
    rw [hfind, Option.getD_some, List.getElem?_eq_getElem hi] at hv
    cases hv
    simpa using hle

theorem multiplier_of_rung_zero {L : ℤ} (hzero : d.rung L = 0) : d.multiplier L = 1 := by
  have hget := getElem?_rung (d := d) L
  rw [hzero, ← List.head?_eq_getElem?, d.valid.top] at hget
  exact (Option.some.inj hget).symm

/-- **When a restart keeps the dose down**: exactly when the new ladder goes down to the multiplier
the layer had. With the same ladder every layer keeps its rung. -/
theorem dose_restart_iff (T : PyText) {ladderA ladderB : List PyFloat} {a₀ b₀ : DoseLadder}
    (hA : init ladderA = .ok a₀) (hB : init ladderB = .ok b₀) (calls : List DoseCall) :
    ∃ n b, b₀.restore T (a₀.run calls).exportRungs = .ok n b ∧
      (∀ L, b.multiplier L ≤ (a₀.run calls).multiplier L ↔
        b₀.floor ≤ (a₀.run calls).multiplier L) ∧
      (ladderA = ladderB → ∀ L, b.rung L = (a₀.run calls).rung L) := by
  generalize ha : a₀.run calls = a
  have hrungsA : a.rungs = a₀.rungs := ha ▸ rungs_run calls
  obtain ⟨n, b, hrun, hrungs, hrung⟩ := restore_rows T a (nodup_loweredLayers (d := a)) (0, 0) b₀
  have hrows : savedRows "layers" a.exportRungs
      = a.loweredLayers.map fun L => a.exportRow L (a.rung L) (a.rung_lt L) := by
    unfold savedRows exportRungs
    simp [Json.get?_obj, Dict.lookup]
  refine ⟨n, b, by rw [restore, hrows]; exact hrun, fun L => ?_, fun hsame L => ?_⟩
  · have hget := getElem?_rung (d := b) L
    rw [hrungs, hrung, rung_init hB] at hget
    by_cases hL : L ∈ a.loweredLayers
    · have hne := mem_loweredLayers.mp hL
      rw [if_pos hL, landing_getD hne (multiplier_bounds L)] at hget
      by_cases hown : b₀.rungs[a.rung L]? = some (a.multiplier L)
      · rw [if_pos hown, hown] at hget
        have hmult : b.multiplier L = a.multiplier L := (Option.some.inj hget).symm
        exact iff_of_true hmult.le (floor_le hown)
      · rw [if_neg hown] at hget
        exact pick_le_iff hget
    · -- a layer at the campaign dose is not saved, and starts at it again
      have hzero : a.rung L = 0 := by
        by_contra hne
        exact hL (mem_loweredLayers.mpr hne)
      rw [if_neg hL] at hget
      rw [multiplier_of_rung_zero hzero]
      exact iff_of_true (multiplier_bounds L).2
        ((floor_le hget).trans (multiplier_bounds L).2)
  · have hladder : a₀ = b₀ := by
      subst hsame
      rw [hA] at hB
      exact Except.ok.inj hB
    rw [hrung, rung_init hB]
    by_cases hL : L ∈ a.loweredLayers
    · have hown : b₀.rungs[a.rung L]? = some (a.multiplier L) := by
        rw [← hladder, ← hrungsA]
        exact getElem?_rung L
      rw [if_pos hL, landing_getD (mem_loweredLayers.mp hL) (multiplier_bounds L), if_pos hown]
    · rw [if_neg hL]
      by_contra hne
      exact hL (mem_loweredLayers.mpr (Ne.symm hne))

/-- Two ladders, the second down to a half only. -/
def toTenth : List PyFloat := [.fin 1, .fin (1 / 2), .fin (1 / 10)]

def toHalf : List PyFloat := [.fin 1, .fin (1 / 2)]

theorem validate_toTenth : validateDoseLadder toTenth = .ok [1, 1 / 2, 1 / 10] := by decide +kernel

theorem validate_toHalf : validateDoseLadder toHalf = .ok [1, 1 / 2] := by decide +kernel

def tenthLadder : DoseLadder :=
  ⟨[1, 1 / 2, 1 / 10], validateDoseLadder_ok validate_toTenth, ∅, fun _ _ hget => by cases hget⟩

def halfLadder : DoseLadder :=
  ⟨[1, 1 / 2], validateDoseLadder_ok validate_toHalf, ∅, fun _ _ hget => by cases hget⟩

/-- A layer rejected once keeps its half on the shorter ladder. -/
theorem dose_restart_half :
    ∃ n b, halfLadder.restore Platform.ideal.toPyText
        (tenthLadder.run [.reject 3]).exportRungs = .ok n b ∧
      b.multiplier 3 ≤ (tenthLadder.run [.reject 3]).multiplier 3 := by
  obtain ⟨n, b, hrun, hiff, -⟩ := dose_restart_iff Platform.ideal.toPyText
    (init_of_valid validate_toTenth) (init_of_valid validate_toHalf) [.reject 3]
  exact ⟨n, b, hrun, (hiff 3).mpr (by decide +kernel)⟩

/-- A layer rejected twice goes back up to a half. -/
theorem dose_restart_raises :
    ¬ ∀ (T : PyText) (ladderA ladderB : List PyFloat) (a₀ b₀ : DoseLadder) (calls : List DoseCall),
        init ladderA = .ok a₀ → init ladderB = .ok b₀ →
        ∃ n b, b₀.restore T (a₀.run calls).exportRungs = .ok n b ∧
          (∀ L, b.multiplier L ≤ (a₀.run calls).multiplier L) ∧
          (ladderA = ladderB → ∀ L, b.rung L = (a₀.run calls).rung L) := by
  intro hclaim
  obtain ⟨n, b, hrun, hle, -⟩ := hclaim Platform.ideal.toPyText toTenth toHalf tenthLadder
    halfLadder [.reject 3, .reject 3] (init_of_valid validate_toTenth)
    (init_of_valid validate_toHalf)
  have hafter : (match halfLadder.restore Platform.ideal.toPyText
      (tenthLadder.run [.reject 3, .reject 3]).exportRungs with
    | .ok _ b => b.multiplier 3
    | .error _ _ => 0) = 1 / 2 := by decide +kernel
  rw [hrun] at hafter
  have hbefore : (tenthLadder.run [.reject 3, .reject 3]).multiplier 3 = 1 / 10 := by
    decide +kernel
  have hup := hle 3
  rw [show b.multiplier 3 = 1 / 2 from hafter, hbefore] at hup
  norm_num at hup

end DoseLadder

end NeuraHash
