import NeuraHash.Merge.Gains

/-!
# The order of the candidates of a batch

The combination of a batch adds up in the order of the list, and the fallback sorts what it applies.
In exact arithmetic neither lets the order of the list through when no two candidates share a
`delta_cid` (`batch_order_independent`).

A probe is compared without its index: `MergeProbe.body`.
-/

namespace NeuraHash

open Py

/-! ## Probes without their places -/

section

variable {F : Type} [FloatOps F] {np : Numpy F} {trunk : Params F} {evalFn : Params F → F}
  {outer margin base : F} {candidates : List (MergeCandidate F)}

/-- A probe without its place in the list. -/
def MergeProbe.body (p : MergeProbe F) : MergeProbe F := { p with idx := 0 }

/-- What a step of the fallback attributed, without the place. -/
def SerialStep.body (s : SerialStep F) : SerialStep F := { s with idx := 0 }

/-- The probe of one candidate. -/
def probeBody (np : Numpy F) (trunk : Params F) (evalFn : Params F → F) (outer margin base : F)
    (c : MergeCandidate F) : MergeProbe F where
  idx := 0
  candidate := c
  gain := match (gate np trunk c.delta evalFn outer margin false).1.mergedVal with
    | some merged => base - merged
    | none => 0
  keys := matchedKeys trunk c.delta
  verdict := (gate np trunk c.delta evalFn outer margin false).1

theorem map_body_probeAll : (probeAll np trunk evalFn outer margin base candidates).map
    MergeProbe.body = candidates.map (probeBody np trunk evalFn outer margin base) := by
  conv_rhs => rw [← List.zipIdx_map_fst 0 candidates]
  rw [probeAll, List.map_map, List.map_map]
  refine List.map_congr_left fun e _ => ?_
  obtain ⟨c, idx⟩ := e
  rfl

end

/-! ## The combination, key by key -/

section

variable {F : Type} [FloatOps F] {np : Numpy F} {trunk : Params F} {outer : F}
  {probes : List (MergeProbe F)}

/-- One term of the weighted sum, at one key. -/
def addTerm (trunk : Params F) (total : F) (k : String) (acc : Option (Tensor F))
    (p : MergeProbe F) : Option (Tensor F) :=
  if k ∈ p.keys then
    match trunk.get? k, p.candidate.delta.get? k with
    | some t, some d =>
      some (.ofFn t.shape fun i =>
        (acc.getD (.ofFn t.shape fun _ => 0)).get i + p.gain / total * d.get i)
    | _, _ => acc
  else acc

/-- The keys of one probe, at one key. -/
theorem get?_addKeys {p : MergeProbe F} {total : F} (k : String) (acc : Params F)
    (hnodup : p.keys.Nodup) :
    (p.keys.foldl (fun acc k => match trunk.get? k, p.candidate.delta.get? k with
      | some t, some d =>
        let a := (acc.get? k).getD (.ofFn t.shape (fun _ => 0))
        acc.set k (.ofFn t.shape (fun i => a.get i + p.gain / total * d.get i))
      | _, _ => acc) acc).get? k = addTerm trunk total k (acc.get? k) p := by
  unfold addTerm
  generalize p.keys = keys at hnodup
  induction keys generalizing acc with
  | nil => rfl
  | cons k' keys ih =>
    obtain ⟨hfresh, hnodup⟩ := List.nodup_cons.mp hnodup
    rw [List.foldl_cons, ih _ hnodup]
    by_cases hk : k' = k
    · subst hk
      rw [if_neg hfresh, if_pos (List.mem_cons_self ..)]
      cases trunk.get? k' with
      | none => rfl
      | some t =>
        cases p.candidate.delta.get? k' with
        | none => rfl
        | some d => exact Dict.get?_set_self _ _ _
    · have hmem : k ∈ k' :: keys ↔ k ∈ keys := by simp [Ne.symm hk]
      have hsame : (match trunk.get? k', p.candidate.delta.get? k' with
          | some t, some d =>
            acc.set k' (.ofFn t.shape (fun i => ((acc.get? k').getD (.ofFn t.shape (fun _ => 0))).get i
              + p.gain / total * d.get i))
          | _, _ => acc).get? k = acc.get? k := by
        cases trunk.get? k' with
        | none => rfl
        | some t =>
          cases p.candidate.delta.get? k' with
          | none => rfl
          | some d => exact Dict.get?_set_of_ne _ _ hk
      rw [hsame]
      simp only [hmem]

/-- The weighted sum, at one key. -/
theorem get?_weightedDelta (hnodup : ∀ p ∈ probes, p.keys.Nodup) (k : String) :
    (weightedDelta trunk probes).get? k
      = (positives probes).foldl (addTerm trunk (gainSum probes) k) none := by
  have hfold : ∀ (l : List (MergeProbe F)) (acc : Params F), (∀ p ∈ l, p.keys.Nodup) →
      (l.foldl (fun acc p => p.keys.foldl (fun acc k =>
        match trunk.get? k, p.candidate.delta.get? k with
        | some t, some d =>
          let a := (acc.get? k).getD (.ofFn t.shape (fun _ => 0))
          acc.set k (.ofFn t.shape (fun i => a.get i + p.weight probes * d.get i))
        | _, _ => acc) acc) acc).get? k
        = l.foldl (addTerm trunk (gainSum probes) k) (acc.get? k) := by
    intro l
    induction l with
    | nil => exact fun acc _ => rfl
    | cons p l ih =>
      intro acc hl
      obtain ⟨hp, hl⟩ := List.forall_mem_cons.mp hl
      rw [List.foldl_cons, List.foldl_cons, ih _ hl]
      exact congrArg (fun a => l.foldl (addTerm trunk (gainSum probes) k) a) (get?_addKeys k acc hp)
  exact hfold (positives probes) ∅ fun p hp => hnodup p (List.mem_of_mem_filter hp)

/-- One key of the combination. -/
def combineKey (np : Numpy F) (trunk : Params F) (outer : F) (combined : Params F)
    (e : String × Tensor F) : Params F :=
  match trunk.get? e.1 with
  | some t => combined.set e.1 (.ofFn t.shape (fun i => np.float32 (t.get i + outer * e.2.get i)))
  | none => combined

/-- The combination, at one key. -/
theorem get?_combinedTrunk (k : String) :
    (combinedTrunk np trunk outer probes).get? k
      = match (weightedDelta trunk probes).get? k, trunk.get? k with
        | some a, some t => some (.ofFn t.shape fun i => np.float32 (t.get i + outer * a.get i))
        | _, t => t := by
  have hfold : ∀ (l : List (String × Tensor F)) (combined : Params F), (l.map Prod.fst).Nodup →
      (l.foldl (combineKey np trunk outer) combined).get? k
      = ((Dict.lookup k l).bind fun a => (trunk.get? k).map fun t =>
          Tensor.ofFn t.shape fun i => np.float32 (t.get i + outer * a.get i)).or (combined.get? k) := by
    intro l
    induction l with
    | nil => exact fun combined _ => rfl
    | cons e l ih =>
      intro combined hnodup
      obtain ⟨hfresh, hnodup⟩ := List.nodup_cons.mp hnodup
      rw [List.foldl_cons, ih _ hnodup, Dict.lookup]
      by_cases hk : e.1 = k
      · subst hk
        rw [Dict.lookup_eq_none_iff.mpr hfresh, if_pos rfl]
        unfold combineKey
        cases trunk.get? e.1 with
        | none => rfl
        | some t => exact Dict.get?_set_self _ _ _
      · rw [if_neg hk]
        have hsame : (combineKey np trunk outer combined e).get? k = combined.get? k := by
          unfold combineKey
          cases trunk.get? e.1 with
          | none => rfl
          | some t => exact Dict.get?_set_of_ne _ _ hk
        rw [hsame]
  refine (hfold _ trunk (weightedDelta trunk probes).nodup).trans ?_
  unfold Dict.get?
  cases Dict.lookup k (weightedDelta trunk probes).entries with
  | none => rfl
  | some a => cases Dict.lookup k trunk.entries <;> rfl

/-- The combination has the keys of the trunk. -/
theorem keys_combinedTrunk : (combinedTrunk np trunk outer probes).keys = trunk.keys := by
  have hfold : ∀ (l : List (String × Tensor F)) (combined : Params F), combined.keys = trunk.keys →
      (l.foldl (combineKey np trunk outer) combined).keys = trunk.keys := by
    intro l
    induction l with
    | nil => exact fun combined h => h
    | cons e l ih =>
      intro combined h
      refine ih _ ?_
      unfold combineKey
      cases ht : trunk.get? e.1 with
      | none => exact h
      | some t =>
        refine (Dict.keys_set _ _ _).trans ?_
        rw [if_pos, h]
        rw [h]
        exact Dict.mem_keys_iff.mpr ⟨t, ht⟩
  exact hfold _ trunk rfl

end

/-! ## Two lists of the same candidates -/

/-- The `delta_cid` of a probe. -/
def MergeProbe.cid (T : PyText) (p : MergeProbe ℚ) : String := p.candidate.deltaCid T

variable {np : Numpy ℚ} {T : PyText} {trunk : Params ℚ} {evalFn : Params ℚ → ℚ}
  {outer margin base : ℚ} {candidates candidates' : List (MergeCandidate ℚ)}
  {probes probes' : List (MergeProbe ℚ)}

theorem map_cid_probeAll : (probeAll np trunk evalFn outer margin base candidates).map
    (MergeProbe.cid T) = candidates.map (MergeCandidate.deltaCid T) := by
  conv_rhs => rw [← List.zipIdx_map_fst 0 candidates]
  rw [probeAll, List.map_map, List.map_map]
  rfl

theorem map_body_positives (probes : List (MergeProbe ℚ)) :
    (positives probes).map MergeProbe.body = positives (probes.map MergeProbe.body) := by
  unfold positives
  rw [List.filter_map]
  rfl

/-- Two lists of probes of the same candidates. -/
def SameProbes (probes probes' : List (MergeProbe ℚ)) : Prop :=
  (probes.map MergeProbe.body).Perm (probes'.map MergeProbe.body)

theorem sameProbes_probeAll (h : candidates.Perm candidates') :
    SameProbes (probeAll np trunk evalFn outer margin base candidates)
      (probeAll np trunk evalFn outer margin base candidates') := by
  unfold SameProbes
  rw [map_body_probeAll, map_body_probeAll]
  exact h.map _

theorem SameProbes.positives (h : SameProbes probes probes') :
    ((NeuraHash.positives probes).map MergeProbe.body).Perm
      ((NeuraHash.positives probes').map MergeProbe.body) := by
  rw [map_body_positives, map_body_positives]
  exact h.filter _

theorem SameProbes.positives_nil (h : SameProbes probes probes') :
    NeuraHash.positives probes = [] ↔ NeuraHash.positives probes' = [] := by
  have hlength := h.positives.length_eq
  rw [List.length_map, List.length_map] at hlength
  rw [← List.length_eq_zero_iff, hlength, List.length_eq_zero_iff]

theorem SameProbes.gainSum (h : SameProbes probes probes') :
    NeuraHash.gainSum probes = NeuraHash.gainSum probes' := by
  have hgains := (h.positives.map MergeProbe.gain).sum_eq
  rw [List.map_map, List.map_map] at hgains
  unfold NeuraHash.gainSum
  rw [FloatOps.sum_rat, FloatOps.sum_rat]
  exact hgains

/-! ## The combination -/

/-- Terms may be added in any order. -/
theorem addTerm_comm (total : ℚ) (k : String) (acc : Option (Tensor ℚ)) (p q : MergeProbe ℚ) :
    addTerm trunk total k (addTerm trunk total k acc p) q
      = addTerm trunk total k (addTerm trunk total k acc q) p := by
  unfold addTerm
  cases trunk.get? k with
  | none => simp
  | some t =>
    cases p.candidate.delta.get? k with
    | none => simp
    | some d =>
      cases q.candidate.delta.get? k with
      | none => simp
      | some e =>
        dsimp only
        by_cases hp : k ∈ p.keys
        · by_cases hq : k ∈ q.keys
          · simp only [if_pos hp, if_pos hq, Option.getD_some]
            refine congrArg some (Tensor.ofFn_congr fun i hi => ?_)
            rw [Tensor.get_ofFn hi, Tensor.get_ofFn hi]
            ring
          · simp only [if_pos hp, if_neg hq]
        · simp only [if_neg hp]

/-- **The weighted sum does not depend on the order.** -/
theorem SameProbes.get?_weightedDelta (h : SameProbes probes probes')
    (hnodup : ∀ p ∈ probes, p.keys.Nodup) (hnodup' : ∀ p ∈ probes', p.keys.Nodup) (k : String) :
    (weightedDelta trunk probes).get? k = (weightedDelta trunk probes').get? k := by
  rw [NeuraHash.get?_weightedDelta hnodup, NeuraHash.get?_weightedDelta hnodup', h.gainSum]
  have hbody : ∀ l : List (MergeProbe ℚ), l.foldl (addTerm trunk (NeuraHash.gainSum probes') k) none
      = (l.map MergeProbe.body).foldl (addTerm trunk (NeuraHash.gainSum probes') k) none := by
    intro l
    rw [List.foldl_map]
    rfl
  rw [hbody (NeuraHash.positives probes), hbody (NeuraHash.positives probes')]
  exact h.positives.foldl_eq' (fun p _ q _ acc => addTerm_comm _ _ acc p q) none

/-- **The combination does not depend on the order.** -/
theorem SameProbes.combinedTrunk (h : SameProbes probes probes')
    (hnodup : ∀ p ∈ probes, p.keys.Nodup) (hnodup' : ∀ p ∈ probes', p.keys.Nodup) :
    NeuraHash.combinedTrunk np trunk outer probes = NeuraHash.combinedTrunk np trunk outer probes' := by
  refine Dict.ext_get? (keys_combinedTrunk.trans keys_combinedTrunk.symm) fun k => ?_
  rw [get?_combinedTrunk, get?_combinedTrunk, h.get?_weightedDelta hnodup hnodup']

/-! ## The fallback -/

instance : Std.Total (serialBefore (F := ℚ) T) where
  total p q := by
    unfold serialBefore
    simp only [FloatOps.lt_rat, decide_eq_true_eq, decide_eq_false_iff_not, not_lt]
    rcases lt_trichotomy p.gain q.gain with h | h | h
    · exact .inr (.inl h)
    · rcases le_total (p.candidate.deltaCid T) (q.candidate.deltaCid T) with hcid | hcid
      · exact .inl (.inr ⟨h.ge, hcid⟩)
      · exact .inr (.inr ⟨h.le, hcid⟩)
    · exact .inl (.inl h)

instance : IsTrans (MergeProbe ℚ) (serialBefore T) where
  trans p q r hpq hqr := by
    unfold serialBefore at *
    simp only [FloatOps.lt_rat, decide_eq_true_eq, decide_eq_false_iff_not, not_lt] at *
    rcases hpq with hpq | ⟨hpq, hcid⟩
    · rcases hqr with hqr | ⟨hqr, -⟩
      · exact .inl (hqr.trans hpq)
      · exact .inl (hqr.trans_lt hpq)
    · rcases hqr with hqr | ⟨hqr, hcid'⟩
      · exact .inl (hqr.trans_le hpq)
      · exact .inr ⟨hqr.trans hpq, hcid.trans hcid'⟩

/-- The order of the fallback, without places. -/
theorem map_body_serialOrder (probes : List (MergeProbe ℚ)) :
    (serialOrder T probes).map MergeProbe.body
      = ((positives probes).map MergeProbe.body).insertionSort (serialBefore T) :=
  List.map_insertionSort _ _ _ _ fun _ _ _ _ => Iff.rfl

/-- **The order of the fallback does not depend on the order of the list.** -/
theorem SameProbes.serialOrder (h : SameProbes probes probes')
    (hnodup : (probes.map (MergeProbe.cid T)).Nodup) :
    (NeuraHash.serialOrder T probes).map MergeProbe.body
      = (NeuraHash.serialOrder T probes').map MergeProbe.body := by
  rw [map_body_serialOrder, map_body_serialOrder]
  have hleft := List.perm_insertionSort (serialBefore T)
    ((NeuraHash.positives probes).map MergeProbe.body)
  have hright := List.perm_insertionSort (serialBefore T)
    ((NeuraHash.positives probes').map MergeProbe.body)
  refine List.Perm.eq_of_pairwise ?_ (List.pairwise_insertionSort _ _)
    (List.pairwise_insertionSort _ _) (hleft.trans (h.positives.trans hright.symm))
  -- two of them in either order have one cid
  intro p q hp hq hpq hqp
  obtain ⟨p', hp', rfl⟩ := List.mem_map.mp (hleft.mem_iff.mp hp)
  obtain ⟨q', hq', rfl⟩ := List.mem_map.mp (h.positives.mem_iff.mpr (hright.mem_iff.mp hq))
  have hcid : p'.cid T = q'.cid T := by
    unfold serialBefore at hpq hqp
    simp only [FloatOps.lt_rat, decide_eq_true_eq, decide_eq_false_iff_not, not_lt] at hpq hqp
    rcases hpq with hpq | ⟨hpq, hcid⟩
    · rcases hqp with hqp | ⟨hqp, -⟩
      · exact absurd hpq (not_lt_of_gt hqp)
      · exact absurd hpq (not_lt_of_ge hqp)
    · rcases hqp with hqp | ⟨-, hcid'⟩
      · exact absurd hqp (not_lt_of_ge hpq)
      · exact le_antisymm hcid hcid'
  rw [List.inj_on_of_nodup_map hnodup (List.mem_of_mem_filter hp') (List.mem_of_mem_filter hq') hcid]

/-- The fallback reads no place. -/
theorem serialMerge_map_body (work : Params ℚ) (running : ℚ) (order : List (MergeProbe ℚ)) :
    serialMerge np evalFn outer margin work running (order.map MergeProbe.body)
      = ((serialMerge np evalFn outer margin work running order).1,
        (serialMerge np evalFn outer margin work running order).2.1,
        (serialMerge np evalFn outer margin work running order).2.2.map SerialStep.body) := by
  induction order generalizing work running with
  | nil => rfl
  | cons p ps ih =>
    rw [List.map_cons, serialMerge, serialMerge]
    dsimp only
    have hdelta : p.body.candidate.delta = p.candidate.delta := rfl
    rw [hdelta]
    cases (gate np work p.candidate.delta evalFn outer margin true).1.accepted with
    | false =>
      dsimp only
      rw [ih]
      rfl
    | true =>
      cases (gate np work p.candidate.delta evalFn outer margin true).1.mergedVal with
      | none =>
        dsimp only
        rw [ih]
        rfl
      | some merged =>
        dsimp only
        rw [ih]
        rfl

/-! ## The rows -/

/-- The row of a probe, from the cids and the steps of the fallback. -/
def rowByCid (T : PyText) (total : ℚ) (cids : List String) (steps : List (SerialStep ℚ))
    (p : MergeProbe ℚ) : CandidateRow ℚ :=
  match (cids.zip steps).find? fun e => e.1 == p.cid T with
  | some e => blankRow p e.2.gain (p.gain / total) e.2.accepted
  | none => blankRow p 0 0 false

/-- **A step is found by its cid as by its place.** -/
theorem serialRow_eq {order : List (MergeProbe ℚ)} {steps : List (SerialStep ℚ)}
    {p : MergeProbe ℚ} (hidx : (probes.map MergeProbe.idx).Nodup)
    (hcid : (probes.map (MergeProbe.cid T)).Nodup) (horder : ∀ q ∈ order, q ∈ probes)
    (hsteps : steps.map SerialStep.idx = order.map MergeProbe.idx) (hp : p ∈ probes) :
    serialRow probes steps p
      = rowByCid T (gainSum probes) (order.map (MergeProbe.cid T)) (steps.map SerialStep.body) p := by
  unfold serialRow rowByCid
  have hfind : ((order.map (MergeProbe.cid T)).zip (steps.map SerialStep.body)).find?
        (fun e => e.1 == p.cid T)
      = (steps.find? fun s => s.idx == p.idx).map fun s => (p.cid T, s.body) := by
    induction order generalizing steps with
    | nil =>
      rw [List.map_nil, List.map_eq_nil_iff] at hsteps
      rw [hsteps]
      rfl
    | cons q order ih =>
      obtain ⟨hq, horder⟩ := List.forall_mem_cons.mp horder
      cases steps with
      | nil => cases hsteps
      | cons s steps =>
        rw [List.map_cons, List.map_cons, List.cons.injEq] at hsteps
        rw [List.map_cons, List.map_cons, List.zip_cons_cons, List.find?_cons, List.find?_cons]
        -- one place, one cid
        by_cases hsame : q = p
        · subst hsame
          simp [hsteps.1]
        · have hplace : s.idx ≠ p.idx := fun h =>
            hsame (List.inj_on_of_nodup_map hidx hq hp (hsteps.1.symm.trans h))
          have hother : q.cid T ≠ p.cid T := fun h =>
            hsame (List.inj_on_of_nodup_map hcid hq hp h)
          rw [beq_false_of_ne hother, beq_false_of_ne hplace]
          exact ih horder hsteps.2
  rw [hfind]
  cases steps.find? fun s => s.idx == p.idx with
  | none => rfl
  | some s => rfl

/-! ## The batch -/

/-- What a batch attributes to a cid. -/
def attributedTo (T : PyText) (cid : String) (r : BatchResult ℚ) : ℚ :=
  ((r.perCandidate.filter fun row => (row.record.getD "delta_cid" (.str "")).toStr T == cid).map
    CandidateRow.gain).sum

/-- Two outcomes of a batch that differ in the order of the rows alone. -/
structure SameOutcome (r r' : BatchResult ℚ × Params ℚ) : Prop where
  trunk : r.2 = r'.2
  mode : r.1.mode = r'.1.mode
  accepted : r.1.accepted = r'.1.accepted
  rows : r.1.perCandidate.Perm r'.1.perCandidate

/-- Rows that are made from the probes without their places. -/
theorem SameProbes.rows {row row' : MergeProbe ℚ → CandidateRow ℚ} (h : SameProbes probes probes')
    {f : MergeProbe ℚ → CandidateRow ℚ} (hrow : ∀ p ∈ probes, row p = f p.body)
    (hrow' : ∀ p ∈ probes', row' p = f p.body) : (probes.map row).Perm (probes'.map row') := by
  have hmap := List.Perm.map f h
  rw [List.map_map, List.map_map] at hmap
  rw [List.map_congr_left hrow, List.map_congr_left hrow']
  exact hmap

/-- **The fallback of the same candidates.** -/
theorem SameProbes.serial (h : SameProbes probes probes')
    (hidx : (probes.map MergeProbe.idx).Nodup) (hidx' : (probes'.map MergeProbe.idx).Nodup)
    (hcid : (probes.map (MergeProbe.cid T)).Nodup) (hcid' : (probes'.map (MergeProbe.cid T)).Nodup)
    (trunk : Params ℚ) (running : ℚ) :
    let run := serialMerge np evalFn outer margin trunk running (NeuraHash.serialOrder T probes)
    let run' := serialMerge np evalFn outer margin trunk running (NeuraHash.serialOrder T probes')
    run.1 = run'.1 ∧ run.2.2.any SerialStep.accepted = run'.2.2.any SerialStep.accepted ∧
      (probes.map (serialRow probes run.2.2)).Perm (probes'.map (serialRow probes' run'.2.2)) := by
  intro run run'
  have horder := h.serialOrder hcid
  have hruns := @serialMerge_map_body np evalFn outer margin trunk running
    (NeuraHash.serialOrder T probes)
  rw [horder, serialMerge_map_body] at hruns
  rw [Prod.mk.injEq, Prod.mk.injEq] at hruns
  have hwork : run'.1 = run.1 := hruns.1
  have hsteps : run'.2.2.map SerialStep.body = run.2.2.map SerialStep.body := hruns.2.2
  have hmem : ∀ (ps : List (MergeProbe ℚ)), ∀ q ∈ NeuraHash.serialOrder T ps, q ∈ ps := by
    intro ps q hq
    exact List.mem_of_mem_filter ((List.perm_insertionSort _ _).mem_iff.mp hq)
  have hcids : (NeuraHash.serialOrder T probes).map (MergeProbe.cid T)
      = (NeuraHash.serialOrder T probes').map (MergeProbe.cid T) := by
    have hbody := congrArg (List.map (MergeProbe.cid T)) horder
    rw [List.map_map, List.map_map] at hbody
    exact hbody
  refine ⟨hwork.symm, ?_, ?_⟩
  · have hany : ∀ steps : List (SerialStep ℚ), steps.any SerialStep.accepted
        = (steps.map SerialStep.body).any SerialStep.accepted := by
      intro steps
      rw [List.any_map]
      rfl
    rw [hany run.2.2, hany run'.2.2, hsteps]
  · refine h.rows (f := rowByCid T (NeuraHash.gainSum probes)
      ((NeuraHash.serialOrder T probes).map (MergeProbe.cid T)) (run.2.2.map SerialStep.body))
      (fun p hp => ?_) fun p hp => ?_
    · rw [serialRow_eq hidx hcid (hmem probes) (map_idx_serialMerge _ _ _) hp]
      rfl
    · rw [serialRow_eq hidx' hcid' (hmem probes') (map_idx_serialMerge _ _ _) hp, hsteps, h.gainSum,
        hcids]
      rfl

/-- **The same candidates in another order.** -/
theorem sameOutcome_of_perm (np : Numpy ℚ) (T : PyText) (trunk : Params ℚ)
    (evalFn : Params ℚ → ℚ) (outer margin : ℚ) (apply : Bool)
    (hperm : candidates.Perm candidates')
    (hnodup : (candidates.map (MergeCandidate.deltaCid T)).Nodup) :
    SameOutcome (applyDeltasWeightedGated np T trunk candidates evalFn outer margin apply)
      (applyDeltasWeightedGated np T trunk candidates' evalFn outer margin apply) := by
  by_cases hsingle : ∃ c, candidates = [c]
  · obtain ⟨c, rfl⟩ := hsingle
    rw [List.perm_singleton.mp hperm.symm]
    exact ⟨rfl, rfl, rfl, .refl _⟩
  have hsingle' : ¬ ∃ c, candidates' = [c] := by
    rintro ⟨c, rfl⟩
    exact hsingle ⟨c, List.perm_singleton.mp hperm⟩
  rw [batch_several hsingle, batch_several hsingle']
  have h := @sameProbes_probeAll np trunk evalFn outer margin (evalFn trunk) candidates candidates'
    hperm
  have hidx := nodup_idx_probeAll np trunk evalFn outer margin (evalFn trunk) candidates
  have hidx' := nodup_idx_probeAll np trunk evalFn outer margin (evalFn trunk) candidates'
  have hcid : ((probeAll np trunk evalFn outer margin (evalFn trunk) candidates).map
      (MergeProbe.cid T)).Nodup := by
    rw [map_cid_probeAll]
    exact hnodup
  have hcid' : ((probeAll np trunk evalFn outer margin (evalFn trunk) candidates').map
      (MergeProbe.cid T)).Nodup := by
    rw [map_cid_probeAll]
    exact (hperm.map _).nodup_iff.mp hnodup
  have hkeys : ∀ cs : List (MergeCandidate ℚ),
      ∀ p ∈ probeAll np trunk evalFn outer margin (evalFn trunk) cs, p.keys.Nodup := by
    intro cs p hp
    obtain ⟨e, -, rfl⟩ := List.mem_map.mp hp
    exact trunk.nodup.filter _
  have hcombined := @SameProbes.combinedTrunk np trunk outer _ _ h (hkeys candidates)
    (hkeys candidates')
  dsimp only
  generalize probeAll np trunk evalFn outer margin (evalFn trunk) candidates = probes at *
  generalize probeAll np trunk evalFn outer margin (evalFn trunk) candidates' = probes' at *
  by_cases hnil : positives probes = []
  · rw [if_pos hnil, if_pos (h.positives_nil.mp hnil)]
    exact ⟨rfl, rfl, rfl, h.rows (f := fun p => blankRow p 0 0 false) (fun _ _ => rfl)
      fun _ _ => rfl⟩
  rw [if_neg hnil, if_neg fun h' => hnil (h.positives_nil.mpr h'), ← hcombined]
  by_cases hle : FloatOps.le (evalFn (combinedTrunk np trunk outer probes)) (evalFn trunk - margin)
      = true
  · rw [if_pos hle, if_pos hle]
    refine ⟨rfl, rfl, rfl, h.rows (f := combinedRow probes
      (evalFn trunk - evalFn (combinedTrunk np trunk outer probes))) (fun _ _ => rfl) fun p _ => ?_⟩
    unfold combinedRow MergeProbe.weight
    rw [← h.gainSum]
    rfl
  · rw [if_neg hle, if_neg hle]
    obtain ⟨hwork, haccepted, hrows⟩ := @SameProbes.serial np T evalFn outer margin probes probes' h
      hidx hidx' hcid hcid' trunk (evalFn trunk)
    exact ⟨by dsimp only; rw [hwork], rfl, haccepted, hrows⟩

/-- **A batch merge does not depend on the order of its candidates.** -/
theorem batch_order_independent (np : Numpy ℚ) (T : PyText) (trunk : Params ℚ)
    (candidates candidates' : List (MergeCandidate ℚ)) (evalFn : Params ℚ → ℚ) (outer margin : ℚ)
    (apply : Bool) (hperm : candidates.Perm candidates')
    (hnodup : (candidates.map (MergeCandidate.deltaCid T)).Nodup) :
    let r := applyDeltasWeightedGated np T trunk candidates evalFn outer margin apply
    let r' := applyDeltasWeightedGated np T trunk candidates' evalFn outer margin apply
    r.2 = r'.2 ∧ r.1.mode = r'.1.mode ∧ r.1.accepted = r'.1.accepted ∧
      ∀ cid, attributedTo T cid r.1 = attributedTo T cid r'.1 := by
  intro r r'
  have h := sameOutcome_of_perm np T trunk evalFn outer margin apply hperm hnodup
  refine ⟨h.trunk, h.mode, h.accepted, fun cid => ?_⟩
  unfold attributedTo
  exact ((h.rows.filter _).map _).sum_eq

/-- A candidate of one weight. -/
def scalarCandidate (cid : String) (x : ℚ) : MergeCandidate ℚ :=
  ⟨Dict.ofList [("delta_cid", .str cid)], scalar x⟩

/-- Two candidates that conflict, in either order. -/
theorem batch_order_independent_conflict :
    let r := applyDeltasWeightedGated ⟨id, id, fun _ => []⟩ Platform.ideal.toPyText (scalar 0)
      [scalarCandidate "a" 1, scalarCandidate "b" 3] conflictLoss 1 0 true
    let r' := applyDeltasWeightedGated ⟨id, id, fun _ => []⟩ Platform.ideal.toPyText (scalar 0)
      [scalarCandidate "b" 3, scalarCandidate "a" 1] conflictLoss 1 0 true
    r.2 = r'.2 ∧ r.1.mode = r'.1.mode ∧ r.1.accepted = r'.1.accepted ∧
      ∀ cid, attributedTo Platform.ideal.toPyText cid r.1
        = attributedTo Platform.ideal.toPyText cid r'.1 :=
  batch_order_independent ⟨id, id, fun _ => []⟩ Platform.ideal.toPyText (scalar 0)
    [scalarCandidate "a" 1, scalarCandidate "b" 3] [scalarCandidate "b" 3, scalarCandidate "a" 1]
    conflictLoss 1 0 true (List.Perm.swap _ _ _) (by decide +kernel)

end NeuraHash
