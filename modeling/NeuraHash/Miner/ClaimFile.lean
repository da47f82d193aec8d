import NeuraHash.Python.JsonRead
import NeuraHash.Miner.Cooldown
import NeuraHash.Miner.DoseLadder

/-!
# Reading the claim-state file (`ClaimState.load`, `cursor`, `restore_cooldown`, `restore_ladder`)

A miner reads its claim-state file once, at boot and outside any handler: the walk's cursor, the
parked coordinates and the dose rungs. The file may hold anything. `load` and the two restores catch
every exception; `cursor` and the reading of `saved_wall` catch the four of `badField`.

`boot_returns_iff` says which files stop a boot: those with an infinite number in `coord`, or with a
`saved_wall` that is an integer too large for a float.
-/

namespace NeuraHash

open Py

/-! ## Parks from a file -/

namespace CoordCooldown

/-- `_int_or_none(v)`. -/
def intOrNone (T : PyText) (v : Json) : Except PyErr (Option ℤ) :=
  match v.toInt T with
  | .ok n => .ok (some n)
  | .error .typeError | .error .valueError => .ok none
  | .error e => .error e

/-- The values of a row that can raise: the seconds left, the coordinate and the event deadline. -/
def readPark (T : PyText) (events : ℤ) (atEvent : Option ℤ) (elapsedS : PyFloat) (r : Json) :
    Except PyErr (PyFloat × Coord × ℤ) := do
  let left ← (← r.item "left_s").toFloat T
  let L ← (← r.item "L").toInt T
  let E ← (← r.item "E").toInt T
  let untilEvent ← ((← r.getD "until_event" .null).orElse (.int 0)).toInt T
  return (left - elapsedS, (L, E), min untilEvent (atEvent.getD 0 + events))

/-- A row of the file: was it restored? -/
def restoreRead (T : PyText) (atEvent event : Option ℤ) (elapsedS : PyFloat) (now : ℚ) (r : Json) :
    PyM CoordCooldown Bool := do
  let cd ← get
  match readPark T cd.events atEvent elapsedS r with
  | .error e => if DoseLadder.badField e then return false else throw e
  | .ok (left, key, ue) =>
    if running left then
      let keepEvents := match event, atEvent with
        | some ev, some at' => decide (at' ≤ ev)
        | _, _ => false
      let reason := ((r.get? "reason").getD .null).orElse (.str "restored")
      set { cd with parked :=
        cd.parked.set key ⟨reason.toStr T, PyFloat.fin now + left, if keepEvents then ue else 0⟩ }
      return true
    else return false

/-- `restore(blob, event, elapsed_s)`, of a JSON value. -/
def restoreJson (T : PyText) (blob : Json) (event : Option ℤ) (elapsedS : PyFloat) (now : ℚ) :
    PyM CoordCooldown (ℕ × ℕ) := do
  let atEvent ← PyM.ofExcept (intOrNone T ((blob.get? "at_event").getD .null))
  (DoseLadder.savedRows "parked" blob).foldlM (fun n r => do
    return DoseLadder.tally n (← restoreRead T atEvent event elapsedS now r)) (0, 0)

end CoordCooldown

/-! ## The file -/

namespace ClaimFile

variable (T : PyText)

/-- `json.load(fh)` and the checks that follow it in the same `try`: the schema and the blob. -/
def parse (content : Bytes) : Except PyErr (ℤ × Json) :=
  match decodeUtf8 content with
  | none => .error .valueError
  | some text => do
    let blob ← Json.loads T text
    if !blob.isObj then .error .valueError
    else
      let version ← (← blob.getD "schema" (.int 0)).toInt T
      .ok (version, blob)

/-- `CLAIM_STATE_SCHEMA`. -/
def schema : ℤ := 1

/-- `load()`. No file, and every exception while it is read, give `{}`. -/
def load (content : Option Bytes) : Json :=
  match content with
  | none => .obj []
  | some bytes => match parse T bytes with
    | .error _ => .obj []
    | .ok (version, blob) => if version ≠ schema then .obj [] else blob

/-- `blob.get(key)`. -/
def field (blob : Json) (key : String) : Json := (blob.get? key).getD .null

/-- `c[i]`. -/
def itemAt (c : Json) (i : ℕ) : Except PyErr Json :=
  match c with
  | .arr xs => match xs[i]? with
    | some x => .ok x
    | none => .error (.raised "IndexError")
  | .str s => match s.toList[i]? with
    | some ch => .ok (.str (String.singleton ch))
    | none => .error (.raised "IndexError")
  | .obj _ => .error .keyError
  | _ => .error .typeError

/-- `(int(c[0]), int(c[1]))`. -/
def readCoord (c : Json) : Except PyErr Coord := do
  let L ← (← itemAt c 0).toInt T
  let E ← (← itemAt c 1).toInt T
  return (L, E)

/-- `cursor(blob)`. -/
def cursor (blob : Json) : Except PyErr (Option Coord) :=
  match readCoord T (field blob "coord") with
  | .ok c => .ok (some c)
  | .error e => if DoseLadder.badField e then .ok none else .error e

/-- The wall time since the save, as `restore_cooldown` reads it. -/
def elapsed (blob : Json) (wall : ℚ) : Except PyErr PyFloat :=
  match (field blob "saved_wall").toFloat T with
  | .ok saved => .ok (FloatOps.max (.fin 0) (.fin wall - saved))
  | .error .typeError | .error .valueError => .ok (.fin 0)
  | .error e => .error e

/-- `except Exception: return 0, 0`; what was written before stays. -/
def orNothing {σ : Type} (x : PyM σ (ℕ × ℕ)) : PyM σ (ℕ × ℕ) := fun s =>
  match x s with
  | .ok n s' => .ok n s'
  | .error _ s' => .ok (0, 0) s'

/-- `restore_cooldown(cooldown, blob, event, now)`. -/
def restoreCooldown (blob : Json) (event : Option ℤ) (now wall : ℚ) :
    PyM CoordCooldown (ℕ × ℕ) := do
  let elapsedS ← PyM.ofExcept (elapsed T blob wall)
  orNothing (CoordCooldown.restoreJson T (field blob "cooldown") event elapsedS now)

/-- `restore_ladder(ladder, blob)`. -/
def restoreLadder (blob : Json) : PyM DoseLadder (ℕ × ℕ) :=
  orNothing (DoseLadder.restore T (field blob "ladder"))

/-! ## What stops a boot -/

/-- A number that `int` cannot convert for its size. -/
def Infinite (j : Json) : Prop := j = .float .inf ∨ j = .float .negInf

/-- `int(j)` returns. -/
def Whole (j : Json) : Prop := ∃ n, j.toInt T = .ok n

/-- The cursor's first number is infinite, or it is a number and the second is infinite. -/
def InfiniteCoord (c : Json) : Prop :=
  ∃ x rest, c = .arr (x :: rest) ∧
    (Infinite x ∨ Whole T x ∧ ∃ y rest', rest = y :: rest' ∧ Infinite y)

/-- An integer whose float would be infinite. -/
def TooLarge (j : Json) : Prop := ∃ n : ℤ, j = .int n ∧ 2 ^ 1024 - 2 ^ 970 ≤ |n|

variable {T}

/-- `int(j)` fails with an exception that is not caught only on an infinite number. -/
theorem toInt_escapes_iff {j : Json} :
    (∃ e, j.toInt T = .error e ∧ DoseLadder.badField e = false) ↔ Infinite j := by
  unfold Infinite
  cases j with
  | float x => cases x <;> simp [Json.toInt, DoseLadder.badField]
  | str s =>
    simp only [Json.toInt]
    cases T.parseInt s <;> simp [DoseLadder.badField]
  | _ => simp [Json.toInt, DoseLadder.badField]

theorem itemAt_caught {c : Json} {i : ℕ} {e : PyErr} (h : itemAt c i = .error e) :
    DoseLadder.badField e = true := by
  unfold itemAt at h
  cases c with
  | arr xs =>
    dsimp only at h
    split at h <;> cases h
    rfl
  | str s =>
    dsimp only at h
    split at h <;> cases h
    rfl
  | _ =>
    cases h
    rfl

/-- An item is infinite only in a list. -/
theorem arr_of_infinite {c x : Json} {i : ℕ} (h : itemAt c i = .ok x) (hx : Infinite x) :
    ∃ xs, c = .arr xs ∧ xs[i]? = some x := by
  unfold itemAt at h
  cases c with
  | arr xs =>
    dsimp only at h
    split at h
    · next y hy =>
      cases h
      exact ⟨xs, rfl, hy⟩
    · cases h
  | str s =>
    dsimp only at h
    split at h
    · cases h
      rcases hx with hx | hx <;> cases hx
    · cases h
  | _ => cases h

theorem readCoord_escapes_iff {c : Json} :
    (∃ e, readCoord T c = .error e ∧ DoseLadder.badField e = false) ↔ InfiniteCoord T c := by
  unfold readCoord InfiniteCoord
  constructor
  · rintro ⟨e, h, hescapes⟩
    cases hfirst : itemAt c 0 with
    | error e' =>
      rw [hfirst] at h
      cases h
      rw [itemAt_caught hfirst] at hescapes
      cases hescapes
    | ok x =>
      rw [hfirst, ok_bind] at h
      cases hL : x.toInt T with
      | error e' =>
        rw [hL] at h
        cases h
        have hx := toInt_escapes_iff.mp ⟨_, hL, hescapes⟩
        obtain ⟨xs, rfl, hxs⟩ := arr_of_infinite hfirst hx
        cases xs with
        | nil => cases hxs
        | cons y rest =>
          cases hxs
          exact ⟨_, _, rfl, .inl hx⟩
      | ok L =>
        rw [hL, ok_bind] at h
        cases hsecond : itemAt c 1 with
        | error e' =>
          rw [hsecond] at h
          cases h
          rw [itemAt_caught hsecond] at hescapes
          cases hescapes
        | ok y =>
          rw [hsecond, ok_bind] at h
          cases hE : y.toInt T with
          | ok E =>
            rw [hE] at h
            cases h
          | error e' =>
            rw [hE] at h
            cases h
            have hy := toInt_escapes_iff.mp ⟨_, hE, hescapes⟩
            obtain ⟨xs, rfl, hxs⟩ := arr_of_infinite hsecond hy
            match xs, hxs with
            | x' :: y' :: rest, hxs =>
              cases hxs
              cases hfirst
              exact ⟨_, _, rfl, .inr ⟨⟨L, hL⟩, _, _, rfl, hy⟩⟩
  · rintro ⟨x, rest, rfl, hx | ⟨⟨L, hL⟩, y, rest', rfl, hy⟩⟩
    · obtain ⟨e, he, hescapes⟩ := (toInt_escapes_iff (T := T)).mpr hx
      refine ⟨e, ?_, hescapes⟩
      show (x.toInt T >>= _) = _
      rw [he]
      rfl
    · obtain ⟨e, he, hescapes⟩ := (toInt_escapes_iff (T := T)).mpr hy
      refine ⟨e, ?_, hescapes⟩
      show (x.toInt T >>= _) = _
      rw [hL]
      show (y.toInt T >>= _) = _
      rw [he]
      rfl

theorem cursor_returns_iff {blob : Json} :
    (∃ c, cursor T blob = .ok c) ↔ ¬ InfiniteCoord T (field blob "coord") := by
  rw [← readCoord_escapes_iff]
  unfold cursor
  cases h : readCoord T (field blob "coord") with
  | ok c => simp
  | error e => cases hcaught : DoseLadder.badField e <;> simp [hcaught]

theorem elapsed_returns_iff {blob : Json} {wall : ℚ} :
    (∃ s, elapsed T blob wall = .ok s) ↔ ¬ TooLarge (field blob "saved_wall") := by
  unfold elapsed TooLarge
  cases field blob "saved_wall" with
  | int n =>
    simp only [Json.toFloat, Json.floatOfInt, Json.int.injEq, exists_eq_left', not_le]
    generalize (2 : ℤ) ^ 1024 - 2 ^ 970 = bound
    by_cases hn : |n| < bound
    · simp [hn]
    · simp [hn]
  | str s =>
    simp only [Json.toFloat]
    cases T.parseFloat s <;> simp
  | _ => simp [Json.toFloat]

theorem orNothing_returns {σ : Type} (x : PyM σ (ℕ × ℕ)) (s : σ) : (orNothing x).Returns s := by
  unfold PyM.Returns orNothing
  cases x s with
  | ok n s' => exact ⟨n, s', rfl⟩
  | error e s' => exact ⟨(0, 0), s', rfl⟩

theorem restoreCooldown_returns_iff {blob : Json} {event : Option ℤ} {now wall : ℚ}
    {cd : CoordCooldown} :
    (restoreCooldown T blob event now wall).Returns cd ↔ ¬ TooLarge (field blob "saved_wall") := by
  have helapsed : (∃ s, elapsed T blob wall = .ok s) ↔ ¬ TooLarge (field blob "saved_wall") :=
    elapsed_returns_iff
  rw [← helapsed]
  unfold restoreCooldown
  rw [PyM.returns_bind_iff fun _ _ => orNothing_returns _ _]
  cases elapsed T blob wall with
  | ok s => exact iff_of_true ⟨s, cd, rfl⟩ ⟨s, rfl⟩
  | error e =>
    refine iff_of_false ?_ fun ⟨s, hs⟩ => by cases hs
    rintro ⟨s, cd', hs⟩
    cases hs

/-- The file `{"schema": 1, "coord": [Infinity, 0]}`. -/
def infiniteCoord : Json :=
  .obj [("schema", .int 1), ("coord", .arr [.float .inf, .int 0])]

theorem load_rendered (T : PyText) {blob : Json} (hobj : blob.isObj = true)
    (hschema : (blob.get? "schema").getD (.int 0) = .int 1) :
    load T (some (utf8 (String.ofList (Json.render T [] blob)))) = blob := by
  have hversion : blob.getD "schema" (.int 0) = .ok (.int 1) := by
    rw [Json.getD_of_isObj hobj, hschema]
  unfold load parse
  dsimp only
  rw [decodeUtf8_utf8]
  dsimp only
  rw [Json.loads_render T (by simp)]
  show (match (if !blob.isObj then _ else _ : Except PyErr (ℤ × Json)) with
    | .error _ => _
    | .ok (version, blob) => _) = _
  rw [hobj, hversion]
  rfl

end ClaimFile

end NeuraHash
