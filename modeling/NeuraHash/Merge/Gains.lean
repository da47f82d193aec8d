import NeuraHash.Merge.Downhill

/-!
# Attributed gains

In exact arithmetic the gains a batched merge attributes to its candidates add up to the drop of the
held-out loss (`batch_gains_conserved`): the combined step splits the drop by weights that add up to
one, the serial fallback telescopes, and a rejected candidate is attributed nothing.
-/

namespace NeuraHash

open Py

/-! ## Sums over some of the rows -/

/-- What is zero off a selection sums to the sum over the selection. -/
theorem sum_map_eq_sum_filter {α : Type} {c : α → Bool} {f : α → ℚ} {l : List α}
    (h : ∀ a ∈ l, c a = false → f a = 0) :
    (l.map f).sum = ((l.filter c).map f).sum := by
  induction l with
  | nil => rfl
  | cons a l ih =>
    have hrest := ih fun b hb => h b (by simp [hb])
    cases hc : c a with
    | true => rw [List.filter_cons_of_pos hc, List.map_cons, List.sum_cons, hrest, List.map_cons,
        List.sum_cons]
    | false => rw [List.filter_cons_of_neg (by simp [hc]), List.map_cons, List.sum_cons, hrest,
        h a (by simp) hc, zero_add]

/-- An entry found by its index, among distinct indices. -/
theorem find?_idx {l : List (SerialStep ℚ)} (hnodup : (l.map SerialStep.idx).Nodup)
    {s : SerialStep ℚ} (hs : s ∈ l) : l.find? (fun t => t.idx == s.idx) = some s := by
  induction l with
  | nil => cases hs
  | cons t l ih =>
    rw [List.map_cons, List.nodup_cons] at hnodup
    by_cases heq : t.idx = s.idx
    · rw [List.find?_cons_of_pos (by simpa using heq)]
      rcases List.mem_cons.mp hs with rfl | hs
      · rfl
      · exact absurd (List.mem_map.mpr ⟨s, hs, heq.symm⟩) hnodup.1
    · rw [List.find?_cons_of_neg (by simpa using heq)]
      rcases List.mem_cons.mp hs with rfl | hs
      · exact absurd rfl heq
      · exact ih hnodup.2 hs

variable {np : Numpy ℚ} {T : PyText} {trunk : Params ℚ} {candidates : List (MergeCandidate ℚ)}
  {evalFn : Params ℚ → ℚ} {outer margin : ℚ} {probes : List (MergeProbe ℚ)}

/-! ## The claim -/

/-- No gain is negative, a rejected candidate has none, and the gains add up to the drop of the
loss. -/
structure GainsConserved (trunk : Params ℚ) (evalFn : Params ℚ → ℚ)
    (r : BatchResult ℚ × Params ℚ) : Prop where
  nonneg : ∀ row ∈ r.1.perCandidate, 0 ≤ row.gain
  rejected : ∀ row ∈ r.1.perCandidate, row.accepted = false → row.gain = 0
  sum : (r.1.perCandidate.map CandidateRow.gain).sum = evalFn trunk - evalFn r.2

/-! ## One candidate -/

theorem gainsConserved_mergeSingle (hmargin : 0 ≤ margin) (c : MergeCandidate ℚ) :
    GainsConserved trunk evalFn (mergeSingle np trunk c evalFn outer margin true) := by
  unfold mergeSingle
  cases haccepted : (gate np trunk c.delta evalFn outer margin true).1.accepted with
  | true =>
    obtain ⟨merged, hbase, hmerged, hafter, hlt⟩ := gate_accepted haccepted
    have hdrop : evalFn merged < evalFn trunk - margin := by simpa using hlt
    dsimp only
    rw [haccepted, hbase, hmerged, hafter]
    refine ⟨?_, ?_, ?_⟩
    · simp only [List.mem_singleton, forall_eq]
      linarith
    · simp
    · simp
  | false =>
    have hafter := gate_rejected haccepted
    dsimp only
    rw [haccepted, hafter]
    exact ⟨by simp, by simp, by simp⟩

/-! ## The combined step -/

/-- The weights of the improving candidates add up to one. -/
theorem sum_weights (h : positives probes ≠ []) :
    ((positives probes).map (MergeProbe.weight probes)).sum = 1 := by
  have hpos : ∀ g ∈ (positives probes).map MergeProbe.gain, 0 < g := by
    intro g hg
    obtain ⟨p, hp, rfl⟩ := List.mem_map.mp hg
    simpa [positives] using (List.mem_filter.mp hp).2
  have hsum : 0 < ((positives probes).map MergeProbe.gain).sum :=
    List.sum_pos _ hpos (by simpa using h)
  have hweight : ∀ p : MergeProbe ℚ,
      p.weight probes = p.gain * (((positives probes).map MergeProbe.gain).sum)⁻¹ := by
    intro p
    rw [MergeProbe.weight, gainSum, FloatOps.sum_rat, div_eq_mul_inv]
  rw [List.map_congr_left fun p _ => hweight p, List.sum_map_mul_right]
  exact mul_inv_cancel₀ hsum.ne'

/-- A weight of an improving candidate is not negative. -/
theorem weight_nonneg_of_gain {p : MergeProbe ℚ} (hp : 0 < p.gain) : 0 ≤ p.weight probes := by
  have hsum : 0 ≤ ((positives probes).map MergeProbe.gain).sum := by
    refine List.sum_nonneg fun g hg => ?_
    obtain ⟨q, hq, rfl⟩ := List.mem_map.mp hg
    have hgain : 0 < q.gain := by simpa [positives] using (List.mem_filter.mp hq).2
    exact hgain.le
  rw [MergeProbe.weight, gainSum, FloatOps.sum_rat]
  exact div_nonneg hp.le hsum

theorem gain_combinedRow (drop : ℚ) (p : MergeProbe ℚ) :
    (combinedRow probes drop p).gain = if 0 < p.gain then drop * p.weight probes else 0 := by
  unfold combinedRow
  by_cases h : 0 < p.gain <;> simp [h, blankRow]

/-- **The combined step splits the drop.** -/
theorem gainsConserved_combined (h : positives probes ≠ []) {base : ℚ} {after : Params ℚ}
    (hbase : base = evalFn trunk) (hdrop : evalFn after ≤ base) (mode : MergeMode)
    (merged : Option ℚ) (order : List String) :
    GainsConserved trunk evalFn
      (⟨mode, true, some base, merged, probes.map (combinedRow probes (base - evalFn after)), order⟩,
        after) := by
  refine ⟨?_, ?_, ?_⟩
  · intro row hrow
    obtain ⟨p, -, rfl⟩ := List.mem_map.mp hrow
    rw [gain_combinedRow]
    split
    · next hp => exact mul_nonneg (sub_nonneg.mpr hdrop) (weight_nonneg_of_gain hp)
    · exact le_rfl
  · intro row hrow hrejected
    obtain ⟨p, -, rfl⟩ := List.mem_map.mp hrow
    unfold combinedRow at hrejected ⊢
    split at hrejected
    · cases hrejected
    · next hp => rw [if_neg hp]; rfl
  · have hzero : ∀ p ∈ probes, (FloatOps.lt 0 p.gain) = false →
        (combinedRow probes (base - evalFn after) p).gain = 0 := by
      intro p _ hp
      rw [gain_combinedRow, if_neg (by simpa using hp)]
    have hshare : ∀ p ∈ positives probes,
        (combinedRow probes (base - evalFn after) p).gain
          = (base - evalFn after) * p.weight probes := by
      intro p hp
      rw [gain_combinedRow, if_pos (by simpa [positives] using (List.mem_filter.mp hp).2)]
    rw [List.map_map]
    calc (probes.map (CandidateRow.gain ∘ combinedRow probes (base - evalFn after))).sum
        = ((positives probes).map
            (CandidateRow.gain ∘ combinedRow probes (base - evalFn after))).sum :=
          sum_map_eq_sum_filter hzero
      _ = ((positives probes).map
            (fun p => (base - evalFn after) * p.weight probes)).sum :=
          congrArg List.sum (List.map_congr_left hshare)
      _ = base - evalFn after := by
          rw [List.sum_map_mul_left, sum_weights h, mul_one]
      _ = evalFn trunk - evalFn after := by rw [hbase]

/-! ## The serial fallback -/

/-- What a step attributes: the drop it made, or nothing. -/
theorem serialMerge_gain (np : Numpy ℚ) (outer : ℚ) (hmargin : 0 ≤ margin) {work : Params ℚ}
    {running : ℚ} (hrunning : running = evalFn work) (ps : List (MergeProbe ℚ)) :
    ∀ s ∈ (serialMerge np evalFn outer margin work running ps).2.2,
      0 ≤ s.gain ∧ (s.accepted = false → s.gain = 0) := by
  induction ps generalizing work running with
  | nil =>
    intro s hs
    cases hs
  | cons p ps ih =>
    intro s hs
    rcases serialMerge_cons np evalFn outer margin work running p ps with
      ⟨work', merged, hmerged, hlt, heq⟩ | heq
    · rw [heq] at hs
      have hdrop : merged < evalFn work - margin := by simpa using hlt
      rcases List.mem_cons.mp hs with rfl | hs
      · refine ⟨?_, by simp⟩
        dsimp only
        linarith
      · exact ih hmerged s hs
    · rw [heq] at hs
      rcases List.mem_cons.mp hs with rfl | hs
      · exact ⟨le_rfl, fun _ => rfl⟩
      · exact ih hrunning s hs

/-- **The steps telescope.** -/
theorem sum_serialMerge (work : Params ℚ) (running : ℚ) (ps : List (MergeProbe ℚ)) :
    ((serialMerge np evalFn outer margin work running ps).2.2.map SerialStep.gain).sum
      = running - (serialMerge np evalFn outer margin work running ps).2.1 := by
  induction ps generalizing work running with
  | nil => simp [serialMerge]
  | cons p ps ih =>
    rcases serialMerge_cons np evalFn outer margin work running p ps with
      ⟨work', merged, -, -, heq⟩ | heq
    · have hrest := ih work' merged
      rw [heq]
      simp only [List.map_cons, List.sum_cons]
      linarith
    · have hrest := ih work running
      rw [heq]
      simp only [List.map_cons, List.sum_cons]
      linarith

/-- What the steps attribute to an index. -/
def attributed (steps : List (SerialStep ℚ)) (idx : ℕ) : ℚ :=
  ((steps.find? (fun s => s.idx == idx)).map SerialStep.gain).getD 0

theorem gain_serialRow (steps : List (SerialStep ℚ)) (p : MergeProbe ℚ) :
    (serialRow probes steps p).gain = attributed steps p.idx := by
  unfold serialRow attributed
  cases steps.find? (fun s => s.idx == p.idx) <;> rfl

/-- Over the indices of the steps, what is attributed adds up to the steps. -/
theorem sum_attributed {steps : List (SerialStep ℚ)} {order : List (MergeProbe ℚ)}
    (hidx : steps.map SerialStep.idx = order.map MergeProbe.idx)
    (hnodup : (order.map MergeProbe.idx).Nodup) :
    (order.map (fun p => attributed steps p.idx)).sum = (steps.map SerialStep.gain).sum := by
  have hgain : ∀ s ∈ steps, attributed steps s.idx = s.gain := by
    intro s hs
    rw [attributed, find?_idx (by rwa [hidx]) hs]
    rfl
  calc (order.map (fun p => attributed steps p.idx)).sum
      = ((order.map MergeProbe.idx).map (attributed steps)).sum := by rw [List.map_map]; rfl
    _ = (steps.map (fun s => attributed steps s.idx)).sum := by
        rw [← hidx, List.map_map]
        rfl
    _ = (steps.map SerialStep.gain).sum := congrArg List.sum (List.map_congr_left hgain)

/-- The probes have distinct indices. -/
theorem nodup_idx_probeAll (np : Numpy ℚ) (trunk : Params ℚ) (evalFn : Params ℚ → ℚ)
    (outer margin base : ℚ) (candidates : List (MergeCandidate ℚ)) :
    ((probeAll np trunk evalFn outer margin base candidates).map MergeProbe.idx).Nodup := by
  have hidx : (probeAll np trunk evalFn outer margin base candidates).map MergeProbe.idx
      = candidates.zipIdx.map Prod.snd := by
    rw [probeAll, List.map_map]
    rfl
  rw [hidx, List.zipIdx_map_snd]
  exact List.nodup_range'

/-- **The serial fallback attributes the whole drop.** -/
theorem gainsConserved_serial (hmargin : 0 ≤ margin)
    (hnodup : (probes.map MergeProbe.idx).Nodup) :
    let run := serialMerge np evalFn outer margin trunk (evalFn trunk) (serialOrder T probes)
    ∀ order : List String, GainsConserved trunk evalFn
      (⟨.serialFallback, run.2.2.any SerialStep.accepted, some (evalFn trunk), some run.2.1,
        probes.map (serialRow probes run.2.2), order⟩, run.1) := by
  intro run names
  have hsteps := serialMerge_gain np outer hmargin (rfl : evalFn trunk = evalFn trunk)
    (serialOrder T probes)
  have hidx : run.2.2.map SerialStep.idx = (serialOrder T probes).map MergeProbe.idx :=
    map_idx_serialMerge _ _ _
  have hperm : (serialOrder T probes).Perm (positives probes) := List.perm_insertionSort _ _
  have hpositives : ((positives probes).map MergeProbe.idx).Nodup :=
    hnodup.sublist (List.filter_sublist.map _)
  have horder : ((serialOrder T probes).map MergeProbe.idx).Nodup :=
    ((hperm.map _).nodup_iff).mpr hpositives
  -- a probe that does not improve has no step
  have hzero : ∀ p ∈ probes, FloatOps.lt 0 p.gain = false → attributed run.2.2 p.idx = 0 := by
    intro p hp hgain
    have hfind : run.2.2.find? (fun s => s.idx == p.idx) = none := by
      rw [List.find?_eq_none]
      intro s hs hsp
      have hmem : p.idx ∈ (serialOrder T probes).map MergeProbe.idx := by
        rw [← hidx]
        exact List.mem_map.mpr ⟨s, hs, by simpa using hsp⟩
      obtain ⟨q, hq, hqp⟩ := List.mem_map.mp hmem
      have hq := List.mem_filter.mp (hperm.mem_iff.mp hq)
      have hsame : q = p := List.inj_on_of_nodup_map hnodup hq.1 hp hqp
      rw [hsame, hgain] at hq
      exact absurd hq.2 (by simp)
    rw [attributed, hfind]
    rfl
  refine ⟨?_, ?_, ?_⟩
  · intro row hrow
    obtain ⟨p, -, rfl⟩ := List.mem_map.mp hrow
    rw [gain_serialRow, attributed]
    cases hfind : run.2.2.find? (fun s => s.idx == p.idx) with
    | none => exact le_rfl
    | some s => exact (hsteps s (List.mem_of_find?_eq_some hfind)).1
  · intro row hrow hrejected
    obtain ⟨p, -, rfl⟩ := List.mem_map.mp hrow
    unfold serialRow at hrejected ⊢
    cases hfind : run.2.2.find? (fun s => s.idx == p.idx) with
    | none => rfl
    | some s =>
      rw [hfind] at hrejected
      exact (hsteps s (List.mem_of_find?_eq_some hfind)).2 hrejected
  · rw [List.map_map]
    calc (probes.map (CandidateRow.gain ∘ serialRow probes run.2.2)).sum
        = (probes.map (fun p => attributed run.2.2 p.idx)).sum :=
          congrArg List.sum (List.map_congr_left fun p _ => gain_serialRow _ p)
      _ = ((positives probes).map (fun p => attributed run.2.2 p.idx)).sum :=
          sum_map_eq_sum_filter hzero
      _ = ((serialOrder T probes).map (fun p => attributed run.2.2 p.idx)).sum :=
          ((hperm.map _).sum_eq).symm
      _ = (run.2.2.map SerialStep.gain).sum := sum_attributed hidx horder
      _ = evalFn trunk - run.2.1 := sum_serialMerge _ _ _
      _ = evalFn trunk - evalFn run.1 := by rw [show run.2.1 = evalFn run.1 from serialMerge_loss rfl _]

/-! ## Every mode -/

/-- **Attributed gain is conserved.** -/
theorem batch_gains_conserved (np : Numpy ℚ) (T : PyText) (trunk : Params ℚ)
    (candidates : List (MergeCandidate ℚ)) (evalFn : Params ℚ → ℚ) (outer margin : ℚ)
    (hmargin : 0 ≤ margin) :
    GainsConserved trunk evalFn
      (applyDeltasWeightedGated np T trunk candidates evalFn outer margin true) := by
  unfold applyDeltasWeightedGated
  split
  · exact gainsConserved_mergeSingle hmargin _
  · have hnodup := nodup_idx_probeAll np trunk evalFn outer margin (evalFn trunk) candidates
    dsimp only
    generalize probeAll np trunk evalFn outer margin (evalFn trunk) candidates = probes at hnodup ⊢
    by_cases hpositives : positives probes = []
    · rw [if_pos hpositives]
      refine ⟨?_, ?_, ?_⟩ <;> simp [blankRow, Function.comp_def]
    · rw [if_neg hpositives]
      by_cases hle : evalFn (combinedTrunk np trunk outer probes) ≤ evalFn trunk - margin
      · rw [if_pos (by simpa using hle)]
        exact gainsConserved_combined hpositives rfl (by linarith) _ _ _
      · rw [if_neg (by simpa using hle)]
        exact gainsConserved_serial hmargin hnodup _

/-- The loss is two at 0, three at 2 and one elsewhere. -/
def conflictLoss (trunk : Params ℚ) : ℚ :=
  match trunk.get? "w" with
  | some t => if t.get 0 = 0 then 2 else if t.get 0 = 2 then 3 else 1
  | none => 0

/-- Two deltas that conflict: the fallback keeps the first and pays it the whole drop. -/
theorem batch_gains_conserved_conflict :
    GainsConserved (scalar 0) conflictLoss
      (applyDeltasWeightedGated ⟨id, id, fun _ => []⟩ Platform.ideal.toPyText (scalar 0)
        [⟨∅, scalar 1⟩, ⟨∅, scalar 3⟩] conflictLoss 1 0 true) :=
  batch_gains_conserved ⟨id, id, fun _ => []⟩ Platform.ideal.toPyText (scalar 0)
    [⟨∅, scalar 1⟩, ⟨∅, scalar 3⟩] conflictLoss 1 0 le_rfl

example :
    (applyDeltasWeightedGated ⟨id, id, fun _ => []⟩ Platform.ideal.toPyText (scalar 0)
      [⟨∅, scalar 1⟩, ⟨∅, scalar 3⟩] conflictLoss 1 0 true).1.mode = .serialFallback := by
  decide +kernel

end NeuraHash
