import NeuraHash.Ledger.Minting
import NeuraHash.Ledger.Outcomes
import NeuraHash.Systems.Ewma

/-!
# The difficulty retarget over a chain

The integers of the retarget are a part of the state (`State.retarget`) that only the fold of a
block touches (`applyBlock_folds`). `Retarget.fold` is the fold on these integers: the ring of the last
timestamps, the average of the observed work and, at the end of a window, the work floor.

* `retarget_stays_in_bounds` — the bounds hold along every run, whatever the timestamps and scores.
* `retarget_follows_work` — under constant work the average settles, and the floor is below it.
-/

namespace NeuraHash

open Py Ewma

/-- The difficulty retarget of a state. -/
@[ext]
structure Retarget where
  enabled : Bool
  workFloorQ : ℤ
  anchorTs : ℤ
  anchorH : ℤ
  lastBlockTs : ℤ
  workEwmaQ : ℤ
  tsRing : List ℤ

namespace Retarget

/-- The ring with one more timestamp. -/
def nextRing (r : Retarget) (headerTs : ℤ) : List ℤ :=
  let ring := r.tsRing ++ [headerTs]
  ring.drop (ring.length - mtpWindow)

/-- The median of the next ring. -/
def medianTimePast (r : Retarget) (headerTs : ℤ) : ℤ :=
  ((r.nextRing headerTs).insertionSort (· ≤ ·)).getD ((r.nextRing headerTs).length / 2) 0

/-- The duration of a window, within a factor of four of the intended one. -/
def clampedTimespan (raw : ℤ) : ℤ :=
  min (targetTimespan * retargetClampNum)
    (max (targetTimespan / retargetClampNum)
      (if 0 < raw then raw else targetTimespan / retargetClampNum))

/-- What the observed work allows as a floor. -/
def ceiling (ewma : ℤ) : ℤ :=
  max workFloorMinUnits (ewma * observedWorkCeilNum / observedWorkCeilDen)

/-- The floor of the next window, from the duration of this one. -/
def nextFloor (floor timespan ewma : ℤ) : ℤ :=
  min (min workFloorMaxUnits (max workFloorMinUnits (floor * targetTimespan / timespan)))
    (ceiling ewma)

/-- The end of a window. -/
def AtBoundary (height : ℤ) : Prop :=
  retargetActivationHeight ≤ height ∧ height % retargetWindow = 0

instance (height : ℤ) : Decidable (AtBoundary height) := inferInstanceAs (Decidable (_ ∧ _))

/-- One block of quantised work `sampleQ`, at an active height. -/
def fold (r : Retarget) (height headerTs sampleQ : ℤ) : Retarget :=
  let ewma := towards workEwmaDen r.workEwmaQ sampleQ
  let r' := { r with
    tsRing := r.nextRing headerTs
    workEwmaQ := ewma
    lastBlockTs := headerTs }
  if height % retargetWindow = 0 then
    { r' with
      workFloorQ := nextFloor r.workFloorQ
        (clampedTimespan (r.medianTimePast headerTs - r.anchorTs)) ewma
      anchorTs := r.medianTimePast headerTs
      anchorH := height }
  else r'

end Retarget

namespace State

variable {F : Type} [FloatOps F]

/-- The retarget part of a state. -/
def retarget (s : State F) : Retarget where
  enabled := s.retargetEnabled
  workFloorQ := s.workFloorQ
  anchorTs := s.retargetAnchorTs
  anchorH := s.retargetAnchorH
  lastBlockTs := s.lastBlockTs
  workEwmaQ := s.workEwmaQ
  tsRing := s.tsRing

/-- `max(WORK_FLOOR_MIN_UNITS, round(max(0.0, work_score) * WORK_FLOOR_SCALE))`. -/
def quantisedWork (workScore : F) : Except PyErr ℤ := do
  let sample ← FloatOps.round (FloatOps.max 0 workScore * FloatOps.lit workFloorScale)
  return max workFloorMinUnits sample

/-! ## The fold -/

/-- A fold that is not active leaves the child as it is. -/
theorem foldRetarget_inactive {parent s : State F} {height : ℤ}
    (h : parent.retargetEnabled = false ∨ height < retargetActivationHeight) (headerTs : ℤ)
    (workScore : F) : foldRetarget parent s height headerTs workScore = .ok s := by
  unfold foldRetarget
  rw [if_pos]
  rcases h with h | h
  · rw [h]
    rfl
  · rw [decide_eq_true h, Bool.or_true]

/-- An active fold is the fold of the integers, once the work is quantised. -/
theorem foldRetarget_active {parent s : State F} {height : ℤ}
    (henabled : parent.retargetEnabled = true) (hactive : retargetActivationHeight ≤ height)
    (hsame : s.retarget = parent.retarget) (headerTs : ℤ) (workScore : F) :
    (foldRetarget parent s height headerTs workScore).map retarget
      = (quantisedWork workScore).map (parent.retarget.fold height headerTs) := by
  unfold foldRetarget quantisedWork
  rw [if_neg (by rw [henabled, Bool.not_true, Bool.false_or, decide_eq_true_eq]; omega)]
  cases hround : FloatOps.round (FloatOps.max 0 workScore * FloatOps.lit workFloorScale) with
  | error e => rfl
  | ok sample =>
    have hweight : ∀ x : ℤ, x * workEwmaNum = x := Int.mul_one
    have henabled' : s.retargetEnabled = parent.retargetEnabled := congrArg Retarget.enabled hsame
    have hfloor : s.workFloorQ = parent.workFloorQ := congrArg Retarget.workFloorQ hsame
    have hanchorTs : s.retargetAnchorTs = parent.retargetAnchorTs :=
      congrArg Retarget.anchorTs hsame
    have hanchorH : s.retargetAnchorH = parent.retargetAnchorH := congrArg Retarget.anchorH hsame
    rw [ok_bind, ok_bind]
    by_cases hboundary : height % retargetWindow = 0
    · rw [if_pos hboundary]
      refine congrArg Except.ok ?_
      unfold Retarget.fold
      rw [if_pos hboundary]
      simp only [hweight]
      exact Retarget.ext henabled' rfl rfl rfl rfl rfl rfl
    · -- the floor and its anchors are those of the child
      rw [if_neg hboundary]
      refine congrArg Except.ok ?_
      unfold Retarget.fold
      rw [if_neg hboundary]
      simp only [hweight]
      exact Retarget.ext henabled' hfloor hanchorTs hanchorH rfl rfl rfl

/-! ## Only the fold touches the retarget -/

section frame

variable (s : State F)

theorem retarget_foldl_credit (addr : Key) (entries : List (F × ℤ)) :
    (entries.foldl (fun s e => s.credit addr e.1) s).retarget = s.retarget := by
  induction entries generalizing s with
  | nil => rfl
  | cons e entries ih => exact ih (s.credit addr e.1)

theorem retarget_matureOne (height : ℤ) (addr : Key) :
    (matureOne height s addr).retarget = s.retarget := by
  unfold matureOne
  cases s.unbonding.get? addr with
  | none => rfl
  | some entries => exact retarget_foldl_credit s addr _

theorem retarget_matureUnbonding (height : ℤ) :
    (s.matureUnbonding height).retarget = s.retarget := by
  unfold matureUnbonding
  induction s.unbonding.keys generalizing s with
  | nil => rfl
  | cons addr addrs ih =>
    exact (ih (matureOne height s addr)).trans (retarget_matureOne s height addr)

theorem retarget_seize (addr : Key) (amount : Option F) :
    (s.seize addr amount).1.retarget = s.retarget := by
  have hstake : ∀ remaining, (s.seizeStake addr remaining).retarget = s.retarget := by
    intro remaining
    unfold seizeStake
    dsimp only
    split_ifs
    · rfl
    · rfl
  have hunbonding : ∀ (s' : State F) remaining seized,
      (s'.seizeUnbonding addr remaining seized).1.retarget = s'.retarget := by
    intro s' remaining seized
    unfold seizeUnbonding
    cases s'.unbonding.get? addr with
    | none => rfl
    | some entries =>
      dsimp only
      split_ifs
      · rfl
      · rfl
  unfold seize
  dsimp only
  split_ifs
  · rw [hunbonding, hstake]
  · rw [hunbonding, hstake]

theorem retarget_payBond (sender : Key) (bond bounty : F) (fault : String) :
    (s.payBond sender bond bounty fault).retarget = s.retarget := by
  unfold payBond
  dsimp only
  split_ifs
  · rfl
  · rfl

theorem retarget_applyTx (P : Platform) (tx : Tx F) (height : Option ℤ) :
    (s.applyTx P tx height).1.retarget = s.retarget := by
  have hstep := applyTx_step P s tx height
  generalize s.applyTx P tx height = p at hstep
  cases hstep with
  | burn h hsender hbounty => exact (retarget_payBond _ _ _ _ _).trans (retarget_seize s _ none)
  | burnRaises h hsender => exact retarget_seize s _ none
  | _ => rfl

theorem retarget_applyTxs (P : Platform) (height : ℤ) (txs : List (Tx F)) {s s' : State F}
    (h : applyTxs P height s txs = .ok s') : s'.retarget = s.retarget := by
  induction txs generalizing s with
  | nil =>
    cases h
    rfl
  | cons tx txs ih =>
    have hframe := retarget_applyTx s P tx (some height)
    unfold applyTxs at h
    split at h
    · cases h
    · cases h
    · next s₁ r hcall =>
      rw [hcall] at hframe
      exact (ih h).trans hframe

theorem retarget_mintReward (headerReward : F) (agg : Dict String F) :
    (s.mintReward headerReward agg).retarget = s.retarget := by
  rw [mintReward_eq]
  rfl

theorem retarget_upgradeStep (headerVersion height : ℤ) :
    (s.upgradeStep headerVersion height).retarget = s.retarget := by
  unfold upgradeStep
  split
  · rfl
  · split
    · rfl
    · rfl

end frame

/-! ## Runs -/

/-- What a fold reads of a block. -/
structure FoldInput (F : Type) where
  height : ℤ
  headerTs : ℤ
  workScore : F

/-- A fold that returns. The child is a copy of the parent in which the rest may have changed. -/
def FoldsTo (s : State F) (b : FoldInput F) (s' : State F) : Prop :=
  ∃ ns : State F, ns.retarget = s.retarget ∧
    foldRetarget s ns b.height b.headerTs b.workScore = .ok s'

/-- **Of the retarget, a block does what its fold does.** -/
theorem applyBlock_folds {W : Type} {P : Platform} {toWeight : W → Except PyErr F} {s s' : State F}
    {block : Block F} {contributors : Dict String W}
    (h : s.applyBlock P toWeight block contributors = .ok s') :
    FoldsTo s ⟨block.header.height, block.header.timestamp, FloatOps.max 0 block.header.workScore⟩
      s' := by
  obtain ⟨root, ns, agg, -, -, htxs, -, hfold⟩ := applyBlock_eq_ok.mp h
  refine ⟨_, ?_, hfold⟩
  have hminted := retarget_mintReward
    (ns.upgradeStep block.header.protocolVersion block.header.height) block.header.reward agg
  have hupgraded := retarget_upgradeStep ns block.header.protocolVersion block.header.height
  have happlied := retarget_applyTxs P _ _ htxs
  exact hminted.trans (hupgraded.trans (happlied.trans (retarget_matureUnbonding s _)))

/-- Blocks folded one after the other. A block whose fold raises is not one of them: the state it
would have changed is the copy. -/
inductive FoldRun : State F → List (FoldInput F) → State F → Prop where
  | nil (s : State F) : FoldRun s [] s
  | cons {s s₁ s' : State F} {b : FoldInput F} {bs : List (FoldInput F)}
      (hstep : FoldsTo s b s₁) (hrun : FoldRun s₁ bs s') : FoldRun s (b :: bs) s'

theorem quantisedWork_pos {workScore : F} {q : ℤ} (h : quantisedWork workScore = .ok q) :
    1 ≤ q := by
  obtain ⟨sample, -, h⟩ := bind_eq_ok.mp h
  cases h
  exact le_max_left _ _

/-- A fold does nothing below the activation height, and otherwise folds the quantised work. -/
theorem FoldsTo.retarget {s s' : State F} {b : FoldInput F} (henabled : s.retargetEnabled = true)
    (h : FoldsTo s b s') :
    b.height < retargetActivationHeight ∧ s'.retarget = s.retarget ∨
      retargetActivationHeight ≤ b.height ∧ ∃ q, quantisedWork b.workScore = .ok q ∧
        s'.retarget = s.retarget.fold b.height b.headerTs q := by
  obtain ⟨ns, hsame, hfold⟩ := h
  rcases Int.lt_or_le b.height retargetActivationHeight with hlt | hle
  · rw [foldRetarget_inactive (.inr hlt)] at hfold
    cases hfold
    exact .inl ⟨hlt, hsame⟩
  · have hactive := foldRetarget_active henabled hle hsame b.headerTs b.workScore
    rw [hfold] at hactive
    cases hq : quantisedWork b.workScore with
    | error e =>
      rw [hq] at hactive
      cases hactive
    | ok q =>
      rw [hq] at hactive
      exact .inr ⟨hle, q, rfl, Except.ok.inj hactive⟩

theorem FoldsTo.enabled {s s' : State F} {b : FoldInput F} (henabled : s.retargetEnabled = true)
    (h : FoldsTo s b s') : s'.retargetEnabled = true := by
  rcases h.retarget henabled with ⟨-, hsame⟩ | ⟨-, q, -, hfold⟩
  · exact (congrArg Retarget.enabled hsame).trans henabled
  · refine (congrArg Retarget.enabled hfold).trans ?_
    unfold Retarget.fold
    dsimp only
    split
    · exact henabled
    · exact henabled

end State

/-! ## Bounds -/

namespace Retarget

variable {r : Retarget} {height headerTs q : ℤ}

/-- The bounds of the floor and of the average. -/
structure InBounds (r : Retarget) : Prop where
  atLeast : workFloorMinUnits ≤ r.workFloorQ
  atMost : r.workFloorQ ≤ workFloorMaxUnits
  ewma : 1 ≤ r.workEwmaQ

/-- What one fold does to the retarget of its parent. -/
structure FoldRight (r r' : Retarget) (height : ℤ) : Prop where
  ring : r'.tsRing.length ≤ mtpWindow
  /-- Within a window the floor and its anchors stay. -/
  within : ¬ AtBoundary height → r'.workFloorQ = r.workFloorQ ∧ r'.anchorTs = r.anchorTs ∧
    r'.anchorH = r.anchorH
  /-- At its end the floor is divided by a positive duration. -/
  divides : AtBoundary height → ∃ timespan, 0 < timespan ∧
    r'.workFloorQ = nextFloor r.workFloorQ timespan r'.workEwmaQ
  rises : AtBoundary height → r'.workFloorQ ≤ 4 * r.workFloorQ
  ceiling : AtBoundary height → r'.workFloorQ ≤ max 1 (3 * r'.workEwmaQ / 4)
  falls : AtBoundary height →
    min (max 1 (3 * r'.workEwmaQ / 4)) (max workFloorMinUnits (r.workFloorQ / 4))
      ≤ r'.workFloorQ

theorem length_nextRing : (r.nextRing headerTs).length ≤ mtpWindow := by
  unfold nextRing
  dsimp only
  rw [List.length_drop]
  omega

/-- The duration that is divided by is within a factor of four of the intended one. -/
theorem clampedTimespan_bounds (raw : ℤ) :
    30240 ≤ clampedTimespan raw ∧ clampedTimespan raw ≤ 483840 := by
  have hlow : targetTimespan / retargetClampNum = 30240 := by decide
  have hhigh : targetTimespan * retargetClampNum = 483840 := by decide
  unfold clampedTimespan
  rw [hlow, hhigh]
  omega

theorem ceiling_eq (ewma : ℤ) : ceiling ewma = max 1 (3 * ewma / 4) := by
  unfold ceiling
  rw [Int.mul_comm]
  rfl

/-- A window changes the floor by a factor of four at most. -/
theorem quotient_bounds {floor timespan : ℤ} (hfloor : 1 ≤ floor) (hlow : 30240 ≤ timespan)
    (hhigh : timespan ≤ 483840) :
    floor / 4 ≤ floor * targetTimespan / timespan ∧
      floor * targetTimespan / timespan ≤ 4 * floor := by
  have hspan : targetTimespan = 120960 := by decide
  rw [hspan]
  constructor
  · refine Int.le_ediv_of_mul_le (by omega) ?_
    have hfourth : floor / 4 * timespan ≤ floor / 4 * 483840 :=
      Int.mul_le_mul_of_nonneg_left hhigh (by omega)
    omega
  · refine Int.ediv_le_of_le_mul (by omega) ?_
    have hfour : 4 * floor * 30240 ≤ 4 * floor * timespan :=
      Int.mul_le_mul_of_nonneg_left hlow (by omega)
    omega

/-- At the end of a window the floor is below what the observed work allows. -/
theorem fold_le_ceiling (r : Retarget) (headerTs q : ℤ) (hboundary : height % retargetWindow = 0) :
    (r.fold height headerTs q).workFloorQ
      ≤ max 1 (3 * (r.fold height headerTs q).workEwmaQ / 4) := by
  unfold fold
  dsimp only
  rw [if_pos hboundary, ← ceiling_eq]
  exact min_le_right _ _

theorem fold_spec (hbounds : r.InBounds) (hq : 1 ≤ q)
    (hactive : retargetActivationHeight ≤ height) :
    (r.fold height headerTs q).InBounds ∧ FoldRight r (r.fold height headerTs q) height := by
  have hewma : 1 ≤ towards workEwmaDen r.workEwmaQ q := by
    have hbetween := @between_towards workEwmaDen r.workEwmaQ q (by decide)
    have := hbounds.ewma
    omega
  have hmin : workFloorMinUnits = 1 := rfl
  have hmax : workFloorMaxUnits = 1000000000000 := rfl
  have hfloorMin := hbounds.atLeast
  have hfloorMax := hbounds.atMost
  unfold fold
  dsimp only
  by_cases hboundary : height % retargetWindow = 0
  · rw [if_pos hboundary]
    obtain ⟨hlow, hhigh⟩ := clampedTimespan_bounds (r.medianTimePast headerTs - r.anchorTs)
    generalize clampedTimespan (r.medianTimePast headerTs - r.anchorTs) = timespan at *
    have hquotient := @quotient_bounds r.workFloorQ timespan (by omega) hlow hhigh
    have hfloor : nextFloor r.workFloorQ timespan (towards workEwmaDen r.workEwmaQ q)
        = min (min workFloorMaxUnits
            (max workFloorMinUnits (r.workFloorQ * targetTimespan / timespan)))
          (max 1 (3 * towards workEwmaDen r.workEwmaQ q / 4)) := by
      unfold nextFloor
      rw [ceiling_eq]
    have hwithin : ¬ AtBoundary height → False := fun h => h ⟨hactive, hboundary⟩
    refine ⟨⟨?_, ?_, hewma⟩, ⟨length_nextRing, fun h => (hwithin h).elim,
      fun _ => ⟨timespan, by omega, rfl⟩, fun _ => ?_, fun _ => ?_, fun _ => ?_⟩⟩
    all_goals
      dsimp only
      rw [hfloor]
      omega
  · rw [if_neg hboundary]
    have hat : AtBoundary height → False := fun h => hboundary h.2
    exact ⟨⟨hfloorMin, hfloorMax, hewma⟩, ⟨length_nextRing, fun _ => ⟨rfl, rfl, rfl⟩,
      fun h => (hat h).elim, fun h => (hat h).elim, fun h => (hat h).elim, fun h => (hat h).elim⟩⟩

end Retarget

namespace State

variable {F : Type} [FloatOps F]

theorem FoldsTo.inBounds {s s' : State F} {b : FoldInput F} (henabled : s.retargetEnabled = true)
    (hbounds : s.retarget.InBounds) (h : FoldsTo s b s') :
    s'.retarget.InBounds ∧
      (retargetActivationHeight ≤ b.height →
        Retarget.FoldRight s.retarget s'.retarget b.height) := by
  rcases h.retarget henabled with ⟨hlt, hsame⟩ | ⟨hle, q, hq, hfold⟩
  · rw [hsame]
    exact ⟨hbounds, fun hle => absurd hle (Int.not_le.mpr hlt)⟩
  · have hspec := @Retarget.fold_spec s.retarget b.height b.headerTs q hbounds
      (quantisedWork_pos hq) hle
    rw [hfold]
    exact ⟨hspec.1, fun _ => hspec.2⟩

theorem FoldRun.inBounds {s s' : State F} {bs : List (FoldInput F)}
    (henabled : s.retargetEnabled = true) (hbounds : s.retarget.InBounds) (h : FoldRun s bs s') :
    s'.retargetEnabled = true ∧ s'.retarget.InBounds := by
  induction h with
  | nil s => exact ⟨henabled, hbounds⟩
  | cons hstep _ ih => exact ih (hstep.enabled henabled) (hstep.inBounds henabled hbounds).1

/-- **The difficulty stays in its bounds**, whatever the blocks of a run. From each state of a run
each fold keeps the bounds and does what it is to do; it raises only where the work cannot be
quantised. -/
theorem retarget_stays_in_bounds {s s₁ : State F} {bs : List (FoldInput F)}
    (henabled : s.retargetEnabled = true) (hbounds : s.retarget.InBounds)
    (hrun : FoldRun s bs s₁) :
    s₁.retarget.InBounds ∧ ∀ b : FoldInput F,
      (∀ s₂, FoldsTo s₁ b s₂ → s₂.retarget.InBounds ∧
        (retargetActivationHeight ≤ b.height →
          Retarget.FoldRight s₁.retarget s₂.retarget b.height)) ∧
      ∀ ns e, ns.retarget = s₁.retarget →
        foldRetarget s₁ ns b.height b.headerTs b.workScore = .error e →
        quantisedWork b.workScore = .error e := by
  obtain ⟨henabled₁, hbounds₁⟩ := hrun.inBounds henabled hbounds
  refine ⟨hbounds₁, fun b => ⟨fun s₂ hstep => hstep.inBounds henabled₁ hbounds₁, ?_⟩⟩
  intro ns e hsame herror
  rcases Int.lt_or_le b.height retargetActivationHeight with hlt | hle
  · rw [foldRetarget_inactive (.inr hlt)] at herror
    cases herror
  · have hactive := foldRetarget_active henabled₁ hle hsame b.headerTs b.workScore
    rw [herror] at hactive
    cases hq : quantisedWork b.workScore with
    | error e' =>
      rw [hq] at hactive
      cases hactive
      rfl
    | ok q =>
      rw [hq] at hactive
      cases hactive

/-- A block without work at the end of a window: a window that lasted long lowers the floor to a
quarter. -/
theorem retarget_stays_in_bounds_window :
    ∃ s₁ : State ℚ, s₁.workFloorQ = 250000 ∧ s₁.retarget.InBounds := by
  have hstep : ∃ s₁ : State ℚ,
      FoldsTo { (genesis .null : State ℚ) with retargetEnabled := true } ⟨2016, 1000000, 0⟩ s₁ ∧
        s₁.workFloorQ = 250000 :=
    ⟨_, ⟨_, rfl, by with_unfolding_all rfl⟩, by with_unfolding_all rfl⟩
  obtain ⟨s₁, hstep, hfloor⟩ := hstep
  exact ⟨s₁, hfloor, (retarget_stays_in_bounds rfl ⟨by decide, by decide, by decide⟩
    (.cons hstep (.nil s₁))).1⟩

/-! ## Constant work -/

/-- The average after a fold of known work. -/
theorem FoldsTo.ewma {s s' : State F} {b : FoldInput F} {q : ℤ}
    (henabled : s.retargetEnabled = true) (h : FoldsTo s b s')
    (hactive : retargetActivationHeight ≤ b.height) (hq : quantisedWork b.workScore = .ok q) :
    s'.workEwmaQ = towards workEwmaDen s.workEwmaQ q := by
  rcases h.retarget henabled with ⟨hlt, -⟩ | ⟨-, q', hq', hfold⟩
  · omega
  · rw [hq] at hq'
    cases hq'
    refine (congrArg Retarget.workEwmaQ hfold).trans ?_
    unfold Retarget.fold
    dsimp only
    split
    · rfl
    · rfl

/-- Over blocks of one work the average is iterated. -/
theorem FoldRun.ewma {s s' : State F} {bs : List (FoldInput F)} {q : ℤ} (h : FoldRun s bs s')
    (henabled : s.retargetEnabled = true)
    (hwork : ∀ b ∈ bs, retargetActivationHeight ≤ b.height ∧ quantisedWork b.workScore = .ok q) :
    s'.retargetEnabled = true ∧
      s'.workEwmaQ = (towards workEwmaDen · q)^[bs.length] s.workEwmaQ := by
  induction h with
  | nil s => exact ⟨henabled, rfl⟩
  | cons hstep _ ih =>
    obtain ⟨hactive, hq⟩ := hwork _ (List.mem_cons_self ..)
    have hrest := ih (hstep.enabled henabled) fun b hb => hwork b (List.mem_cons_of_mem _ hb)
    rw [hstep.ewma henabled hactive hq] at hrest
    exact hrest

/-- **The average of the observed work lies between its last value and the sample; under constant
work it settles** at most 15 units below, and every floor that is set from then on is at most three
quarters of that work. -/
theorem retarget_follows_work {s : State F} (henabled : s.retargetEnabled = true) :
    (∀ b s₁ q, FoldsTo s b s₁ → retargetActivationHeight ≤ b.height →
      quantisedWork b.workScore = .ok q →
      min s.workEwmaQ q ≤ s₁.workEwmaQ ∧ s₁.workEwmaQ ≤ max s.workEwmaQ q) ∧
    ∀ q, 1 ≤ q → ∃ n, ∀ bs s₁, FoldRun s bs s₁ →
      (∀ b ∈ bs, retargetActivationHeight ≤ b.height ∧ quantisedWork b.workScore = .ok q) →
      n ≤ bs.length →
      (q - 15 ≤ s₁.workEwmaQ ∧ s₁.workEwmaQ ≤ q) ∧
        ∀ b s₂, FoldsTo s₁ b s₂ → quantisedWork b.workScore = .ok q →
          Retarget.AtBoundary b.height → s₂.workFloorQ ≤ max 1 (3 * q / 4) := by
  constructor
  · intro b s₁ q hstep hactive hq
    rw [hstep.ewma henabled hactive hq]
    exact between_towards (by decide)
  · intro q hq
    refine ⟨(q - s.workEwmaQ).natAbs, fun bs s₁ hrun hwork hlong => ?_⟩
    obtain ⟨henabled₁, hewma⟩ := hrun.ewma henabled hwork
    have hsettled := settled_iterate (d := workEwmaDen) (by decide) bs.length s.workEwmaQ hlong
    rw [← hewma] at hsettled
    have hlow : q - 15 ≤ s₁.workEwmaQ := hsettled.1
    refine ⟨⟨hlow, hsettled.2⟩, fun b s₂ hstep hq₂ hboundary => ?_⟩
    -- the average of the boundary block is still at most the work
    have hbetween := @between_towards workEwmaDen s₁.workEwmaQ q (by decide)
    rw [← hstep.ewma henabled₁ hboundary.1 hq₂] at hbetween
    have hle : s₂.workEwmaQ ≤ q := hbetween.2.trans (max_le hsettled.2 le_rfl)
    rcases hstep.retarget henabled₁ with ⟨hlt, -⟩ | ⟨-, q', -, hfold⟩
    · exact absurd hboundary.1 (Int.not_le.mpr hlt)
    · have hfloor : s₂.retarget.workFloorQ ≤ max 1 (3 * s₂.retarget.workEwmaQ / 4) := by
        rw [hfold]
        exact Retarget.fold_le_ceiling _ _ _ hboundary.2
      have hfloor' : s₂.workFloorQ ≤ max 1 (3 * s₂.workEwmaQ / 4) := hfloor
      omega

/-- From the genesis, a work of one unit. -/
theorem retarget_follows_work_genesis :
    ∃ n, ∀ bs s₁, FoldRun { (genesis .null : State ℚ) with retargetEnabled := true } bs s₁ →
      (∀ b ∈ bs, retargetActivationHeight ≤ b.height ∧ quantisedWork b.workScore = .ok 1) →
      n ≤ bs.length → s₁.workEwmaQ ≤ 1 := by
  obtain ⟨n, hn⟩ := (@retarget_follows_work ℚ _
    { (genesis .null : State ℚ) with retargetEnabled := true } rfl).2 1 (by decide)
  exact ⟨n, fun bs s₁ hrun hwork hlong => (hn bs s₁ hrun hwork hlong).1.2⟩

end State

end NeuraHash
