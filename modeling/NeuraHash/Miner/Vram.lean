import Mathlib.Data.Rat.Floor
import Mathlib.Algebra.Order.Field.Basic
import Mathlib.Tactic.NormNum
import NeuraHash.Systems.History

/-!
# The elastic VRAM loop and the memory the miner holds itself

`AdaptiveVramTuner` turns a reading of free VRAM into a number of resident layers: it adopts the
first target, shrinks at once, and grows after `grow_patience` ticks above the present level.
`VramManager.run` reads the card once a pass and feeds the tuner. The reading is what the driver
calls free, so in use it is smaller by what the miner holds.

`vram_loop_settles_iff` closes the loop over a card whose other use is constant: the level adopted
first is kept forever exactly when it is the most that fits both in the first reading and in the
reading taken while it is held.
-/

namespace NeuraHash

/-- A cost model the constructor accepts. -/
structure AdaptiveVramTuner where
  baseGib : ℚ
  perUnitGib : ℚ
  userHeadroomGib : ℚ
  safetyFrac : ℚ
  minUnits : ℤ
  maxUnits : ℤ
  growPatience : ℤ
  perUnit_pos : 0 < perUnitGib
  min_le_max : minUnits ≤ maxUnits

/-- The two `ValueError`s of the constructor, with the values their texts show. -/
inductive TunerError where
  | perUnitGib (got : ℚ)
  | maxBelowMin (maxUnits minUnits : ℤ)
  deriving DecidableEq, Repr

/-- What the tuner remembers between ticks. -/
structure TunerState where
  currentUnits : ℤ
  primed : Bool
  growStreak : ℤ
  growFloor : Option ℤ
  deriving DecidableEq, Repr

namespace AdaptiveVramTuner

def init (baseGib perUnitGib userHeadroomGib : ℚ) (minUnits maxUnits growPatience : ℤ)
    (safetyFrac : ℚ) : Except TunerError AdaptiveVramTuner :=
  if hp : perUnitGib ≤ 0 then .error (.perUnitGib perUnitGib)
  else if hm : maxUnits < minUnits then .error (.maxBelowMin maxUnits minUnits)
  else .ok ⟨baseGib, perUnitGib, userHeadroomGib, safetyFrac, minUnits, maxUnits, growPatience,
    lt_of_not_ge hp, le_of_not_gt hm⟩

def start (t : AdaptiveVramTuner) : TunerState := ⟨t.minUnits, false, 0, none⟩

def budget (t : AdaptiveVramTuner) (freeGib : ℚ) : ℚ :=
  freeGib * t.safetyFrac - t.userHeadroomGib - t.baseGib

def targetUnits (t : AdaptiveVramTuner) (freeGib : ℚ) : ℤ :=
  let fit := ⌊t.budget freeGib / t.perUnitGib⌋
  let units := max t.minUnits (min fit t.maxUnits)
  -- clamping up to `min_units` may ask for more than there is: pause instead
  if t.budget freeGib < units * t.perUnitGib then 0 else units

def resetGrow (s : TunerState) : TunerState := { s with growStreak := 0, growFloor := none }

/-- The least target of the grow streak, with the present one. -/
def floorWith (s : TunerState) (target : ℤ) : ℤ := (s.growFloor.map (min · target)).getD target

def tick (t : AdaptiveVramTuner) (freeGib : ℚ) (s : TunerState) : Option ℤ × TunerState :=
  let target := t.targetUnits freeGib
  if s.primed = false then
    let s := resetGrow { s with primed := true }
    if target ≠ s.currentUnits then (some target, { s with currentUnits := target })
    else (none, s)
  else if target < s.currentUnits then
    (some target, { resetGrow s with currentUnits := target })
  else if s.currentUnits < target then
    let streak := s.growStreak + 1
    let floor := floorWith s target
    if t.growPatience ≤ streak then
      (some floor, { resetGrow s with currentUnits := floor })
    else
      (none, { s with growStreak := streak, growFloor := some floor })
  else (none, resetGrow s)

/-- `u` is the most units within the bounds that a reading has room for. A reading without room for
`min_units`, or for any, fits none. -/
def Fits (t : AdaptiveVramTuner) (freeGib : ℚ) (u : ℤ) : Prop :=
  (u = 0 ∧ (t.maxUnits = 0 ∨ t.budget freeGib < ((max t.minUnits 1 : ℤ) : ℚ) * t.perUnitGib))
    ∨ (0 < u ∧ t.minUnits ≤ u ∧ u ≤ t.maxUnits ∧ (u : ℚ) * t.perUnitGib ≤ t.budget freeGib
        ∧ (u = t.maxUnits ∨ t.budget freeGib < ((u + 1 : ℤ) : ℚ) * t.perUnitGib))

variable (t : AdaptiveVramTuner)

/-! ## What a reading has room for -/

theorem le_fit_iff (freeGib : ℚ) (u : ℤ) :
    (u : ℚ) * t.perUnitGib ≤ t.budget freeGib ↔ u ≤ ⌊t.budget freeGib / t.perUnitGib⌋ := by
  rw [Int.le_floor, le_div_iff₀ t.perUnit_pos]

theorem fit_lt_iff (freeGib : ℚ) (u : ℤ) :
    t.budget freeGib < (u : ℚ) * t.perUnitGib ↔ ⌊t.budget freeGib / t.perUnitGib⌋ < u := by
  rw [← not_le, le_fit_iff, not_le]

theorem targetUnits_eq_iff (hmin : 0 ≤ t.minUnits) (freeGib : ℚ) (u : ℤ) :
    t.targetUnits freeGib = u ↔ t.Fits freeGib u := by
  have hle : t.minUnits ≤ t.maxUnits := t.min_le_max
  unfold targetUnits Fits
  simp only [fit_lt_iff, le_fit_iff]
  generalize ⌊t.budget freeGib / t.perUnitGib⌋ = fit
  split
  · omega
  · omega

/-- Documented range: a target is `0` or lies within the bounds. -/
theorem targetUnits_range (freeGib : ℚ) :
    t.targetUnits freeGib = 0
      ∨ (t.minUnits ≤ t.targetUnits freeGib ∧ t.targetUnits freeGib ≤ t.maxUnits) := by
  have hle : t.minUnits ≤ t.maxUnits := t.min_le_max
  unfold targetUnits
  dsimp only
  split
  · exact Or.inl rfl
  · exact Or.inr (by omega)

/-! ## One tick -/

theorem tick_first (freeGib : ℚ) (s : TunerState) (hs : s.primed = false) :
    (t.tick freeGib s).2 = ⟨t.targetUnits freeGib, true, 0, none⟩ := by
  unfold tick
  dsimp only
  rw [if_pos hs]
  by_cases h : t.targetUnits freeGib = s.currentUnits
  · simp [resetGrow, h]
  · simp [resetGrow, h]

variable {t} {freeGib : ℚ} {s : TunerState}

theorem tick_keep (hs : s.primed = true) (h : t.targetUnits freeGib = s.currentUnits) :
    t.tick freeGib s = (none, resetGrow s) := by
  simp [tick, hs, h]

theorem tick_shrink (hs : s.primed = true) (h : t.targetUnits freeGib < s.currentUnits) :
    (t.tick freeGib s).2.currentUnits = t.targetUnits freeGib := by
  simp [tick, hs, h]

/-- A higher target that has earned its growth: the tuner goes to the least of the streak. -/
theorem tick_grow (hs : s.primed = true) (h : s.currentUnits < t.targetUnits freeGib)
    (hp : t.growPatience ≤ s.growStreak + 1) :
    (t.tick freeGib s).2 = ⟨floorWith s (t.targetUnits freeGib), true, 0, none⟩ := by
  have hlt : ¬ t.targetUnits freeGib < s.currentUnits := not_lt.mpr h.le
  simp [tick, resetGrow, hs, hlt, h, hp]

theorem tick_wait (hs : s.primed = true) (h : s.currentUnits < t.targetUnits freeGib)
    (hp : ¬ t.growPatience ≤ s.growStreak + 1) :
    (t.tick freeGib s).2 = ⟨s.currentUnits, true, s.growStreak + 1,
      some (floorWith s (t.targetUnits freeGib))⟩ := by
  have hlt : ¬ t.targetUnits freeGib < s.currentUnits := not_lt.mpr h.le
  simp [tick, hs, hlt, h, hp]

theorem tick_primed (freeGib : ℚ) (s : TunerState) : (t.tick freeGib s).2.primed = true := by
  cases hs : s.primed with
  | false => rw [tick_first t freeGib s hs]
  | true =>
    rcases lt_trichotomy (t.targetUnits freeGib) s.currentUnits with h | h | h
    · simp [tick, hs, h, resetGrow]
    · rw [tick_keep hs h]
      exact hs
    · by_cases hp : t.growPatience ≤ s.growStreak + 1
      · rw [tick_grow hs h hp]
      · rw [tick_wait hs h hp]

/-- The levels the tuner is documented to reach. -/
def Reachable (t : AdaptiveVramTuner) (u : ℤ) : Prop := u = 0 ∨ (t.minUnits ≤ u ∧ u ≤ t.maxUnits)

/-- The level, and the least target of the grow streak, are reachable ones. -/
structure InRange (t : AdaptiveVramTuner) (s : TunerState) : Prop where
  level : t.Reachable s.currentUnits
  floor : ∀ u ∈ s.growFloor, t.Reachable u

theorem floorWith_reachable (h : t.InRange s) :
    t.Reachable (floorWith s (t.targetUnits freeGib)) := by
  have htarget : t.Reachable (t.targetUnits freeGib) := t.targetUnits_range freeGib
  unfold floorWith
  cases hf : s.growFloor with
  | none => exact htarget
  | some u =>
    have hu : t.Reachable u := h.floor u hf
    show t.Reachable (min u (t.targetUnits freeGib))
    rcases min_choice u (t.targetUnits freeGib) with hmin | hmin
    · rw [hmin]; exact hu
    · rw [hmin]; exact htarget

theorem tick_inRange (h : t.InRange s) (freeGib : ℚ) : t.InRange (t.tick freeGib s).2 := by
  have htarget : t.Reachable (t.targetUnits freeGib) := t.targetUnits_range freeGib
  cases hs : s.primed with
  | false =>
    rw [tick_first t freeGib s hs]
    exact ⟨htarget, by simp⟩
  | true =>
    rcases lt_trichotomy (t.targetUnits freeGib) s.currentUnits with hlt | heq | hgt
    · refine ⟨by rw [tick_shrink hs hlt]; exact htarget, ?_⟩
      simp [tick, hs, hlt, resetGrow]
    · rw [tick_keep hs heq]
      exact ⟨h.level, by simp [resetGrow]⟩
    · by_cases hp : t.growPatience ≤ s.growStreak + 1
      · rw [tick_grow hs hgt hp]
        exact ⟨floorWith_reachable h, by simp⟩
      · rw [tick_wait hs hgt hp]
        refine ⟨h.level, fun u hu => ?_⟩
        have hu' : floorWith s (t.targetUnits freeGib) = u := by simpa using hu
        rw [← hu']
        exact floorWith_reachable h

/-- Whatever the readings, the level is `0` or within the bounds. -/
theorem final_inRange (t : AdaptiveVramTuner) (readings : List ℚ) :
    t.InRange (Systems.final (fun s freeGib => t.tick freeGib s) t.start readings) := by
  apply Systems.final_induction
  · exact fun s freeGib h => tick_inRange h freeGib
  · exact ⟨Or.inr ⟨le_rfl, t.min_le_max⟩, by simp [start]⟩

end AdaptiveVramTuner

/-! ## The unified loop -/

structure VramManager where
  tuner : AdaptiveVramTuner
  baseGib : ℚ
  perUnitGib : ℚ
  defaultHeadroom : ℚ
  runawaySlack : ℚ

/-- The cap overrides of the environment, `NEURAHASH_VRAM_CAP_GB` and `NEURAHASH_VRAM_CAP_FRAC`. -/
structure CapEnv where
  capGb : Option ℚ
  capFrac : Option ℚ

/-- What one pass of the loop hands out. -/
structure VramPass where
  cap : Option ℚ
  report : ℤ
  resize : Option (ℤ × ℤ)

/-- A card whose use by everything but the miner is constant. -/
structure Card where
  total : ℚ
  outside : ℚ

namespace VramManager

/-- The manager over a tuner's own cost model, with the default cap knobs. -/
def ofTuner (t : AdaptiveVramTuner) : VramManager :=
  ⟨t, t.baseGib, t.perUnitGib, 9 / 10, 3 / 2⟩

variable (m : VramManager) (env : CapEnv) (card : Card)

def footprintGib (units : ℤ) : ℚ := m.baseGib + ((max 0 units : ℤ) : ℚ) * m.perUnitGib

def maxFootprintGib : ℚ := m.footprintGib m.tuner.maxUnits

def reportCapacity (freeGib : ℚ) : ℤ := m.tuner.targetUnits freeGib

def capGib (freeGib totalGib : ℚ) : ℚ :=
  match env.capGb, env.capFrac with
  | some gb, _ => gb
  | none, some frac => frac * totalGib
  | none, none => min (freeGib * m.defaultHeadroom) (m.maxFootprintGib * m.runawaySlack)

def applyCap (freeGib totalGib : ℚ) : Option ℚ :=
  if totalGib ≤ 0 then none else some (m.capGib env freeGib totalGib)

/-- What the miner holds at a level: its footprint, or nothing when it is paused. -/
def held (units : ℤ) : ℚ := if 0 < units then m.footprintGib units else 0

/-- The driver's free and total figures while the miner is at a level. -/
def detect (units : ℤ) : ℚ × ℚ := (card.total - card.outside - m.held units, card.total)

/-- One pass: a single reading feeds the cap, the report and the tuner. -/
def pass (s : TunerState) : VramPass × TunerState :=
  let free := (m.detect card s.currentUnits).1
  let total := (m.detect card s.currentUnits).2
  let cap := m.applyCap env free total
  let report := m.reportCapacity free
  let (new, s') := m.tuner.tick free s
  (⟨cap, report, new.map fun u => (s.currentUnits, u)⟩, s')

def run : ℕ → TunerState → List VramPass × TunerState
  | 0, s => ([], s)
  | n + 1, s =>
    let (p, s') := m.pass env card s
    let (ps, s'') := run n s'
    (p :: ps, s'')

/-- The tuner after `n` passes from its start. -/
def after (n : ℕ) : TunerState := (m.run env card n m.tuner.start).2

/-! ## The closed loop -/

/-- The target of a pass taken while a level is held. -/
def aim (units : ℤ) : ℤ := m.tuner.targetUnits (m.detect card units).1

theorem run_snd_succ (n : ℕ) (s : TunerState) :
    (m.run env card (n + 1) s).2 = (m.run env card n (m.pass env card s).2).2 := rfl

theorem pass_snd (s : TunerState) :
    (m.pass env card s).2 = (m.tuner.tick (m.detect card s.currentUnits).1 s).2 := rfl

theorem run_snd_last (n : ℕ) (s : TunerState) :
    (m.run env card (n + 1) s).2 = (m.pass env card (m.run env card n s).2).2 := by
  induction n generalizing s with
  | zero => rfl
  | succ n ih =>
    rw [run_snd_succ, ih]
    rfl

theorem after_succ (n : ℕ) :
    m.after env card (n + 1)
      = (m.tuner.tick (m.detect card (m.after env card n).currentUnits).1
          (m.after env card n)).2 :=
  m.run_snd_last env card n m.tuner.start

/-- The first pass adopts its target. -/
theorem after_one :
    m.after env card 1 = ⟨m.aim card m.tuner.minUnits, true, 0, none⟩ :=
  m.tuner.tick_first (m.detect card m.tuner.minUnits).1 m.tuner.start rfl

theorem after_primed (n : ℕ) : (m.after env card (n + 1)).primed = true := by
  rw [after_succ]
  exact AdaptiveVramTuner.tick_primed _ _

/-- A level that is its own target is never left. -/
theorem after_of_fixed (h : m.aim card (m.aim card m.tuner.minUnits) = m.aim card m.tuner.minUnits)
    (n : ℕ) : (m.after env card (n + 1)).currentUnits = m.aim card m.tuner.minUnits := by
  induction n with
  | zero => rw [zero_add, after_one]
  | succ n ih =>
    have hkeep : m.tuner.targetUnits (m.detect card (m.after env card (n + 1)).currentUnits).1
        = (m.after env card (n + 1)).currentUnits := by
      rw [ih]
      exact h
    rw [after_succ, AdaptiveVramTuner.tick_keep (m.after_primed env card n) hkeep]
    exact ih

/-- At level `u` for `n` passes under its higher target. -/
structure Climbing (u : ℤ) (n : ℕ) (s : TunerState) : Prop where
  level : s.currentUnits = u
  primed : s.primed = true
  streak : s.growStreak = n
  floor : AdaptiveVramTuner.floorWith s (m.aim card u) = m.aim card u

/-- One more pass of a climb reaches the higher target, or is counted. -/
theorem climbing_pass {u : ℤ} {n : ℕ} {s : TunerState} (hlt : u < m.aim card u)
    (h : m.Climbing card u n s) :
    let s' := (m.tuner.tick (m.detect card s.currentUnits).1 s).2
    if m.tuner.growPatience ≤ n + 1 then s'.currentUnits = m.aim card u
    else m.Climbing card u (n + 1) s' := by
  have haim : m.tuner.targetUnits (m.detect card s.currentUnits).1 = m.aim card u := by
    rw [h.level]
    rfl
  have hgrow : s.currentUnits < m.tuner.targetUnits (m.detect card s.currentUnits).1 := by
    rw [haim, h.level]
    exact hlt
  dsimp only
  split
  · next hp =>
    rw [AdaptiveVramTuner.tick_grow h.primed hgrow (by rw [h.streak]; exact hp), haim]
    exact h.floor
  · next hp =>
    rw [AdaptiveVramTuner.tick_wait h.primed hgrow (by rw [h.streak]; exact hp), haim]
    refine ⟨h.level, rfl, ?_, ?_⟩
    · show s.growStreak + 1 = ((n + 1 : ℕ) : ℤ)
      rw [h.streak]
      push_cast
      rfl
    · show min (AdaptiveVramTuner.floorWith s (m.aim card u)) (m.aim card u) = m.aim card u
      rw [h.floor]
      exact min_self _

/-- A level whose target is higher is left once the streak has earned it. -/
theorem left_of_climbing {u : ℤ} (hlt : u < m.aim card u)
    (hstart : m.Climbing card u 0 (m.after env card 1)) :
    ∃ n, (m.after env card (n + 1)).currentUnits ≠ u := by
  have hclimb : ∀ n, (∃ k, (m.after env card (k + 1)).currentUnits ≠ u)
      ∨ m.Climbing card u n (m.after env card (n + 1)) := by
    intro n
    induction n with
    | zero => exact Or.inr hstart
    | succ n ih =>
      rcases ih with hleft | hn
      · exact Or.inl hleft
      · have hpass := m.climbing_pass card hlt hn
        rw [← after_succ] at hpass
        split at hpass
        · exact Or.inl ⟨n + 1, by rw [hpass]; omega⟩
        · exact Or.inr hpass
  rcases hclimb m.tuner.growPatience.toNat with hleft | hn
  · exact hleft
  · -- the streak is as long as the patience, so the next pass grows
    have hpass := m.climbing_pass card hlt hn
    rw [← after_succ, if_pos (by omega)] at hpass
    exact ⟨_, by rw [hpass]; omega⟩

/-- After the first pass the tuner never changes its level again. -/
def Settles : Prop :=
  ∀ n, (m.after env card (n + 1)).currentUnits = (m.after env card 1).currentUnits

theorem settles_iff_fixed :
    m.Settles env card
      ↔ m.aim card (m.aim card m.tuner.minUnits) = m.aim card m.tuner.minUnits := by
  have hone : m.after env card 1 = ⟨m.aim card m.tuner.minUnits, true, 0, none⟩ :=
    m.after_one env card
  constructor
  · intro hset
    by_contra hne
    rcases lt_or_gt_of_ne hne with hlt | hgt
    · -- a lower target is taken at the second pass
      have htwo := hset 1
      rw [after_succ, AdaptiveVramTuner.tick_shrink (m.after_primed env card 0)
        (by rw [hone]; exact hlt), hone] at htwo
      exact hne htwo
    · have hstart : m.Climbing card (m.aim card m.tuner.minUnits) 0 (m.after env card 1) := by
        rw [hone]
        exact ⟨rfl, rfl, rfl, rfl⟩
      obtain ⟨n, hn⟩ := m.left_of_climbing env card hgt hstart
      apply hn
      rw [hset n, hone]
  · intro hfix n
    rw [m.after_of_fixed env card hfix n, hone]

/-- The loop settles at its first level exactly when one count is the most that fits both the
reading of the start and the reading taken while that count is held. -/
theorem vram_loop_settles_iff (hmin : 0 ≤ m.tuner.minUnits) :
    m.Settles env card
      ↔ ∃ u, m.tuner.Fits (card.total - card.outside - m.held m.tuner.minUnits) u
          ∧ m.tuner.Fits (card.total - card.outside - m.held u) u := by
  rw [settles_iff_fixed]
  simp only [← AdaptiveVramTuner.targetUnits_eq_iff _ hmin]
  constructor
  · intro hfix
    exact ⟨_, rfl, hfix⟩
  · rintro ⟨u, hfirst, hheld⟩
    have hstart : m.aim card m.tuner.minUnits = u := hfirst
    rw [hstart]
    exact hheld

end VramManager

/-- A 32 GiB card with nothing else on it, under the cost model of the contributor. -/
def glmTuner (maxUnits : ℤ) (h : 0 ≤ maxUnits) : AdaptiveVramTuner :=
  ⟨4, 9 / 8, 3 / 2, 9 / 10, 0, maxUnits, 3, by norm_num, h⟩

/-- With at most four layers the card has room for the footprint twice, and the loop settles. -/
theorem vram_loop_settles_small :
    (VramManager.ofTuner (glmTuner 4 (by decide))).Settles ⟨none, none⟩ ⟨32, 0⟩ := by
  apply (VramManager.vram_loop_settles_iff _ _ _ le_rfl).mpr
  refine ⟨4, Or.inr ?_, Or.inr ?_⟩
  · refine ⟨by norm_num, by decide, le_rfl, ?_, Or.inl rfl⟩
    norm_num [VramManager.ofTuner, VramManager.held, glmTuner, AdaptiveVramTuner.budget]
  · refine ⟨by norm_num, by decide, le_rfl, ?_, Or.inl rfl⟩
    norm_num [VramManager.ofTuner, VramManager.held, VramManager.footprintGib, glmTuner,
      AdaptiveVramTuner.budget]

/-- At the default sixteen layers the miner adopts all of them, is shrunk to three by its own
footprint at the next pass, and grows to fourteen three passes later. -/
theorem vram_loop_oscillates :
    let m := VramManager.ofTuner (glmTuner 16 (by decide))
    0 ≤ m.tuner.minUnits ∧ 1 ≤ m.tuner.growPatience ∧ ¬ m.Settles ⟨none, none⟩ ⟨32, 0⟩
      ∧ (List.range 6).map (fun n => (m.after ⟨none, none⟩ ⟨32, 0⟩ n).currentUnits)
          = [0, 16, 3, 3, 3, 14] := by
  intro m
  have hrun : (List.range 6).map (fun n => (m.after ⟨none, none⟩ ⟨32, 0⟩ n).currentUnits)
      = [0, 16, 3, 3, 3, 14] := by decide +kernel
  refine ⟨le_rfl, by decide, fun hset => ?_, hrun⟩
  have htwo := hset 1
  revert htwo
  decide +kernel

end NeuraHash
