import NeuraHash.Merge.ShardRound
import NeuraHash.Merge.Gains

/-!
# Paying the held-out gain (`neurahash/diloco_merge.py`)

`attributeMinted` splits the held-out gain of a round among its accepted rows, in proportion to
their probe gains. In exact arithmetic what it pays adds up to the gain (`paid_equals_gain`): the
shares are not negative, add up to one and follow the probe gains.
-/

namespace NeuraHash

open Py

/-- What `attribute_minted` reads of a row of `per_expert`; a key may be missing. -/
structure PayRow (F : Type) where
  accepted : Option Json
  gain : Option F

/-- A row with its `paid` field. -/
structure PaidRow (F : Type) extends PayRow F where
  paid : F

section

variable {F : Type} [FloatOps F]

/-- `pe.get("accepted")`, as a condition. -/
def PayRow.isAccepted (pe : PayRow F) : Bool := pe.accepted.any Json.truthy

/-- `float(pe.get("gain", 0.0))`. -/
def PayRow.gainOrZero (pe : PayRow F) : F := pe.gain.getD 0

/-- `max(0.0, gain)`. -/
def PayRow.weight (pe : PayRow F) : F := FloatOps.max 0 pe.gainOrZero

/-- The part of the gain that goes to an accepted row; equal parts when no row weighs anything. -/
def PayRow.share (accepted : List (PayRow F)) (pe : PayRow F) : F :=
  let wsum := FloatOps.sum (accepted.map PayRow.weight)
  if FloatOps.lt 0 wsum then pe.weight / wsum
  else FloatOps.lit 1 / FloatOps.lit accepted.length

/-- `attribute_minted(per_expert, heldout_gain)`: the rows with their `paid` fields, the total. -/
def attributeMinted (perExpert : List (PayRow F)) (heldoutGain : F) : List (PaidRow F) × F :=
  let hg := FloatOps.max 0 heldoutGain
  let accepted := perExpert.filter PayRow.isAccepted
  if FloatOps.le hg 0 || accepted.isEmpty then (perExpert.map fun pe => ⟨pe, 0⟩, 0)
  else
    (perExpert.map fun pe => ⟨pe, if pe.isAccepted then hg * pe.share accepted else 0⟩,
      FloatOps.sum (accepted.map fun pe => hg * pe.share accepted))

/-- A row of a merge round, as `attribute_minted` reads it. -/
def RoundRow.toPay (row : RoundRow F) : PayRow F := ⟨some (.bool row.accepted), some row.gain⟩

end

/-! ## The shares -/

section Shares

variable {rows accepted : List (PayRow ℚ)} {pe pe' : PayRow ℚ}

theorem weight_rat (pe : PayRow ℚ) : pe.weight = max 0 pe.gainOrZero := by
  unfold PayRow.weight
  exact FloatOps.max_rat 0 pe.gainOrZero

theorem weight_nonneg (pe : PayRow ℚ) : 0 ≤ pe.weight := by
  rw [weight_rat]
  exact le_max_left 0 _

theorem weight_mono (h : pe.gainOrZero ≤ pe'.gainOrZero) : pe.weight ≤ pe'.weight := by
  rw [weight_rat, weight_rat]
  exact max_le_max le_rfl h

/-- What all accepted rows weigh. -/
theorem share_eq (accepted : List (PayRow ℚ)) (pe : PayRow ℚ) :
    pe.share accepted = if 0 < (accepted.map PayRow.weight).sum
      then pe.weight / (accepted.map PayRow.weight).sum else 1 / accepted.length := by
  unfold PayRow.share
  rw [FloatOps.sum_rat]
  by_cases h : 0 < (accepted.map PayRow.weight).sum
  · rw [if_pos h]
    exact if_pos (decide_eq_true h)
  · rw [if_neg h]
    exact if_neg (by simpa using h)

theorem share_nonneg (accepted : List (PayRow ℚ)) (pe : PayRow ℚ) : 0 ≤ pe.share accepted := by
  rw [share_eq]
  split
  · next hpos => exact div_nonneg (weight_nonneg pe) hpos.le
  · exact div_nonneg zero_le_one (Nat.cast_nonneg _)

theorem share_mono (accepted : List (PayRow ℚ)) (h : pe.gainOrZero ≤ pe'.gainOrZero) :
    pe.share accepted ≤ pe'.share accepted := by
  rw [share_eq, share_eq]
  split
  · next hpos => exact div_le_div_of_nonneg_right (weight_mono h) hpos.le
  · exact le_rfl

/-- **The shares of the accepted rows add up to one.** -/
theorem sum_shares (h : accepted ≠ []) : (accepted.map fun pe => pe.share accepted).sum = 1 := by
  by_cases hpos : 0 < (accepted.map PayRow.weight).sum
  · have hshare : ∀ pe ∈ accepted,
        pe.share accepted = pe.weight * ((accepted.map PayRow.weight).sum)⁻¹ := by
      intro pe _
      rw [share_eq, if_pos hpos, div_eq_mul_inv]
    rw [List.map_congr_left hshare, List.sum_map_mul_right]
    exact mul_inv_cancel₀ hpos.ne'
  · have hshare : ∀ pe ∈ accepted, pe.share accepted = 1 / accepted.length := by
      intro pe _
      rw [share_eq, if_neg hpos]
    have hlen : (accepted.length : ℚ) ≠ 0 := by
      rw [Nat.cast_ne_zero]
      exact (List.length_pos_of_ne_nil h).ne'
    rw [List.map_congr_left hshare, List.map_const', List.sum_replicate, nsmul_eq_mul]
    exact mul_one_div_cancel hlen

end Shares

/-! ## What is paid -/

/-- No row is paid less than nothing, a rejected row is paid nothing, the total is what is paid and
is the held-out gain when a row is accepted, and among accepted rows the pay follows the gain. -/
structure PaidRight (perExpert : List (PayRow ℚ)) (heldoutGain : ℚ) (r : List (PaidRow ℚ) × ℚ) :
    Prop where
  same : r.1.map PaidRow.toPayRow = perExpert
  nonneg : ∀ pe ∈ r.1, 0 ≤ pe.paid
  rejected : ∀ pe ∈ r.1, pe.isAccepted = false → pe.paid = 0
  sum : (r.1.map PaidRow.paid).sum = r.2
  total : r.2 = if perExpert.any PayRow.isAccepted then max 0 heldoutGain else 0
  monotone : ∀ pe ∈ r.1, ∀ pe' ∈ r.1, pe.isAccepted = true → pe'.isAccepted = true →
    pe.gainOrZero ≤ pe'.gainOrZero → pe.paid ≤ pe'.paid

/-- No row without a gain is paid more than a row with one. -/
def GainFirst (rows : List (PaidRow ℚ)) : Prop :=
  ∀ pe ∈ rows, ∀ pe' ∈ rows, pe.gainOrZero ≤ 0 → 0 < pe'.gainOrZero → pe.paid ≤ pe'.paid

/-- Nothing is paid when nothing improved or no row is accepted. -/
theorem paidRight_of_none {perExpert : List (PayRow ℚ)} {heldoutGain : ℚ}
    (h : heldoutGain ≤ 0 ∨ perExpert.filter PayRow.isAccepted = []) :
    PaidRight perExpert heldoutGain (perExpert.map fun pe => ⟨pe, 0⟩, 0) := by
  have hzero : ∀ pe ∈ perExpert.map fun pe => (⟨pe, 0⟩ : PaidRow ℚ), pe.paid = 0 := by
    intro pe hpe
    obtain ⟨row, -, rfl⟩ := List.mem_map.mp hpe
    rfl
  refine ⟨?_, fun pe hpe => (hzero pe hpe).ge, fun pe hpe _ => hzero pe hpe, ?_, ?_, ?_⟩
  · rw [List.map_map]
    exact List.map_id _
  · exact List.sum_eq_zero fun x hx => by
      obtain ⟨pe, hpe, rfl⟩ := List.mem_map.mp hx
      exact hzero pe hpe
  · rcases h with hgain | hnone
    · rw [max_eq_left hgain, ite_self]
    · have hany : perExpert.any PayRow.isAccepted = false := by
        rw [List.any_eq_false]
        exact fun pe hpe => List.filter_eq_nil_iff.mp hnone pe hpe
      rw [hany]
      rfl
  · intro pe hpe pe' hpe' _ _ _
    rw [hzero pe hpe, hzero pe' hpe']

theorem paidRight_of_split {perExpert : List (PayRow ℚ)} {heldoutGain : ℚ} (hgain : 0 < heldoutGain)
    (hsome : perExpert.filter PayRow.isAccepted ≠ []) :
    PaidRight perExpert heldoutGain
      (perExpert.map fun pe => ⟨pe, if pe.isAccepted then
          heldoutGain * pe.share (perExpert.filter PayRow.isAccepted) else 0⟩,
        ((perExpert.filter PayRow.isAccepted).map fun pe =>
          heldoutGain * pe.share (perExpert.filter PayRow.isAccepted)).sum) := by
  refine ⟨?_, ?_, ?_, ?_, ?_, ?_⟩
  · rw [List.map_map]
    exact List.map_id _
  · intro pe hpe
    obtain ⟨row, -, rfl⟩ := List.mem_map.mp hpe
    dsimp only
    split
    · exact mul_nonneg hgain.le (share_nonneg _ row)
    · exact le_rfl
  · intro pe hpe hrejected
    obtain ⟨row, -, rfl⟩ := List.mem_map.mp hpe
    exact if_neg (by simpa using hrejected)
  · rw [List.map_map]
    have hoff : ∀ pe ∈ perExpert, pe.isAccepted = false →
        (if pe.isAccepted then heldoutGain * pe.share (perExpert.filter PayRow.isAccepted) else 0)
          = 0 :=
      fun pe _ hrejected => if_neg (by simpa using hrejected)
    have hon : ∀ pe ∈ perExpert.filter PayRow.isAccepted,
        (if pe.isAccepted then heldoutGain * pe.share (perExpert.filter PayRow.isAccepted) else 0)
          = heldoutGain * pe.share (perExpert.filter PayRow.isAccepted) :=
      fun pe hpe => if_pos (List.mem_filter.mp hpe).2
    exact (sum_map_eq_sum_filter hoff).trans (congrArg List.sum (List.map_congr_left hon))
  · have hany : perExpert.any PayRow.isAccepted = true := by
      obtain ⟨pe, hpe⟩ := List.exists_mem_of_ne_nil _ hsome
      exact List.any_eq_true.mpr ⟨pe, (List.mem_filter.mp hpe).1, (List.mem_filter.mp hpe).2⟩
    rw [hany, if_pos rfl, max_eq_right hgain.le, List.sum_map_mul_left, sum_shares hsome, mul_one]
  · intro pe hpe pe' hpe' hacc hacc' hle
    obtain ⟨row, -, rfl⟩ := List.mem_map.mp hpe
    obtain ⟨row', -, rfl⟩ := List.mem_map.mp hpe'
    have hrow : row.isAccepted = true := hacc
    have hrow' : row'.isAccepted = true := hacc'
    dsimp only
    rw [if_pos hrow, if_pos hrow']
    exact mul_le_mul_of_nonneg_left (share_mono _ hle) hgain.le

theorem paidRight (perExpert : List (PayRow ℚ)) (heldoutGain : ℚ) :
    PaidRight perExpert heldoutGain (attributeMinted perExpert heldoutGain) := by
  unfold attributeMinted
  dsimp only
  rw [FloatOps.max_rat, FloatOps.sum_rat]
  split
  · next hnone =>
    apply paidRight_of_none
    rcases Bool.or_eq_true_iff.mp hnone with hgain | hempty
    · left
      exact (le_max_right 0 heldoutGain).trans (by simpa using hgain)
    · exact .inr (List.isEmpty_iff.mp hempty)
  · next hsplit =>
    obtain ⟨hgain, hempty⟩ := Bool.or_eq_false_iff.mp (Bool.not_eq_true _ ▸ hsplit)
    have hpos : 0 < heldoutGain := by
      by_contra hneg
      have hmax : max 0 heldoutGain = 0 := max_eq_left (not_lt.mp hneg)
      rw [hmax] at hgain
      exact absurd hgain (by decide)
    rw [max_eq_right hpos.le]
    exact paidRight_of_split hpos (List.isEmpty_eq_false_iff.mp hempty)

/-! ## After a merge round -/

section Round

variable {R L : Type} {S : RoundSetup ℚ R L} {rnd : ℤ}

/-- A row with a gain is accepted. -/
def RoundRow.GainAccepted (row : RoundRow ℚ) : Prop := 0 < row.gain → row.accepted = true

theorem verdictGain_pos {verdict : GateVerdict ℚ} (h : 0 < verdictGain verdict) :
    verdict.accepted = true := by
  unfold verdictGain at h
  split at h
  · assumption
  · exact absurd h (lt_irrefl _)

theorem gateExpert_gainAccepted {c : Contribution ℚ} {g g' : GateState ℚ} {row : RoundRow ℚ}
    (h : S.gateExpert rnd c g = .ok row g') : row.GainAccepted := by
  unfold RoundSetup.gateExpert at h
  obtain ⟨e, g₁, -, h⟩ := PyM.of_bind_ok h
  obtain ⟨batch, g₂, -, h⟩ := PyM.of_bind_ok h
  obtain ⟨before, g₃, -, h⟩ := PyM.of_bind_ok h
  obtain ⟨i, g₄, -, h⟩ := PyM.of_bind_ok h
  obtain ⟨⟨verdict, expert⟩, g₅, -, h⟩ := PyM.of_bind_ok h
  obtain ⟨_, g₆, -, h⟩ := PyM.of_bind_ok h
  obtain ⟨after, g₇, -, h⟩ := PyM.of_bind_ok h
  obtain ⟨trainFlops, g₈, -, h⟩ := PyM.of_bind_ok h
  cases h
  exact verdictGain_pos

theorem gateAll_gainAccepted {cs : List (Contribution ℚ)} {tally tally' : RoundTally ℚ}
    {g g' : GateState ℚ} (h : S.gateAll rnd tally cs g = .ok tally' g')
    (hrows : ∀ row ∈ tally.perExpert, row.GainAccepted) :
    ∀ row ∈ tally'.perExpert, row.GainAccepted := by
  induction cs generalizing tally g with
  | nil =>
    cases h
    exact hrows
  | cons c cs ih =>
    unfold RoundSetup.gateAll at h
    rw [List.foldlM_cons] at h
    obtain ⟨tally₁, g₁, hone, h⟩ := PyM.of_bind_ok h
    obtain ⟨row, g₂, hgate, hadd⟩ := PyM.of_bind_ok hone
    cases hadd
    refine ih h fun row' hrow' => ?_
    rcases List.mem_append.mp hrow' with hrow' | hrow'
    · exact hrows row' hrow'
    · rw [List.mem_singleton.mp hrow']
      exact gateExpert_gainAccepted hgate

theorem round_gainAccepted {contributions : List (Contribution ℚ)} {s s' : RoundState ℚ}
    {report : RoundReport ℚ} (h : shardMergeRound S contributions rnd s = .ok report s') :
    ∀ row ∈ report.perExpert, row.GainAccepted := by
  unfold shardMergeRound at h
  obtain ⟨⟨valid, staled⟩, s₁, -, h⟩ := PyM.of_bind_ok h
  obtain ⟨_, s₂, -, h⟩ := PyM.of_bind_ok h
  obtain ⟨tally, s₃, hgates, h⟩ := PyM.of_bind_ok h
  cases h
  unfold PyM.zoom at hgates
  cases hrun : S.gateAll rnd (startTally contributions staled) valid s₂.gates with
  | ok tally' g =>
    rw [hrun] at hgates
    cases hgates
    exact gateAll_gainAccepted hrun fun _ hrow => absurd hrow List.not_mem_nil
  | error e g =>
    rw [hrun] at hgates
    cases hgates

end Round

/-- **Paid amounts equal the held-out gain**, and after a merge round no row without a gain is paid
more than a row with one. -/
theorem paid_equals_gain {R L : Type} (S : RoundSetup ℚ R L) (heldoutGain : ℚ) :
    (∀ perExpert, PaidRight perExpert heldoutGain (attributeMinted perExpert heldoutGain)) ∧
    ∀ contributions rnd s report s',
      shardMergeRound S contributions rnd s = .ok report s' →
      GainFirst (attributeMinted (report.perExpert.map RoundRow.toPay) heldoutGain).1 := by
  refine ⟨fun perExpert => paidRight perExpert heldoutGain, ?_⟩
  intro contributions rnd s report s' hrun pe hpe pe' hpe' hnone hsome
  have hpaid := paidRight (report.perExpert.map RoundRow.toPay) heldoutGain
  have hrows : ∀ pe ∈ (attributeMinted (report.perExpert.map RoundRow.toPay) heldoutGain).1,
      ∃ row ∈ report.perExpert, row.toPay = pe.toPayRow := by
    intro pe hpe
    have hmem := List.mem_map_of_mem (f := PaidRow.toPayRow) hpe
    rw [hpaid.same] at hmem
    exact List.mem_map.mp hmem
  cases hacc : pe.isAccepted with
  | false =>
    rw [hpaid.rejected pe hpe hacc]
    exact hpaid.nonneg pe' hpe'
  | true =>
    -- the gain of a row is positive only where the gate accepted
    obtain ⟨row, hrow, heq⟩ := hrows pe' hpe'
    have hgain : row.gain = pe'.gainOrZero := congrArg PayRow.gainOrZero heq
    have haccepted : row.accepted = true := round_gainAccepted hrun row hrow (hgain ▸ hsome)
    have hacc' : pe'.isAccepted = true := by
      rw [← show row.toPay.isAccepted = pe'.isAccepted from congrArg PayRow.isAccepted heq]
      show (Json.bool row.accepted).truthy = true
      rw [haccepted]
      rfl
    exact hpaid.monotone pe hpe pe' hpe' hacc hacc' (hnone.trans hsome.le)

end NeuraHash
