import NeuraHash.Ledger.Minting

/-!
# Shares of a reward

The weights a block aggregates are positive (`aggregate_positive`), so a contributor's share of the
total is at most one and no positive credit exceeds the header reward (`credit_le_reward`). An
infinite weight makes every share zero or `nan`, which is credited to nobody.
-/

namespace NeuraHash

open Py

namespace PyFloat

/-- The positive floats. -/
theorem lt_zero_iff {x : PyFloat} :
    FloatOps.lt 0 x = true ↔ x = .inf ∨ ∃ q, 0 < q ∧ x = .fin q := by
  cases x with
  | fin q => simp
  | inf => simp [FloatOps.lt, PyFloat.lt]
  | negInf => simp [FloatOps.lt, PyFloat.lt]
  | nan => simp [FloatOps.lt, PyFloat.lt]

theorem lt_zero_add {x w : PyFloat} (hx : x = 0 ∨ FloatOps.lt 0 x = true)
    (hw : FloatOps.lt 0 w = true) : FloatOps.lt 0 (x + w) = true := by
  rw [lt_zero_iff] at hw ⊢
  have hx' : x = .inf ∨ ∃ p, 0 ≤ p ∧ x = .fin p := by
    rcases hx with rfl | hx
    · exact Or.inr ⟨0, le_rfl, rfl⟩
    · exact (lt_zero_iff.mp hx).imp id fun ⟨p, hp, hxp⟩ => ⟨p, hp.le, hxp⟩
  rcases hx' with rfl | ⟨p, hp, rfl⟩ <;> rcases hw with rfl | ⟨q, hq, rfl⟩
  · exact Or.inl rfl
  · exact Or.inl rfl
  · exact Or.inl rfl
  · exact Or.inr ⟨p + q, by linarith, by simp⟩

/-- A positive factor does not change the sign. -/
theorem lt_zero_mul {c : ℚ} (hc : 0 < c) (x : PyFloat) :
    FloatOps.lt 0 (PyFloat.fin c * x) = FloatOps.lt 0 x := by
  cases x with
  | fin q => simp [mul_pos_iff_of_pos_left hc]
  | inf =>
    have : PyFloat.fin c * .inf = .inf := by
      show PyFloat.scaleInf c = .inf
      rw [PyFloat.scaleInf, if_pos hc]
    rw [this]
  | negInf =>
    have : PyFloat.fin c * .negInf = .negInf := by
      show PyFloat.neg (PyFloat.scaleInf c) = .negInf
      rw [PyFloat.scaleInf, if_pos hc]
      rfl
    rw [this]
  | nan => rfl

/-- The sum of positive floats is infinite, or an upper bound of all of them. -/
theorem sum_positive {l : List PyFloat} (hl : ∀ x ∈ l, FloatOps.lt 0 x = true) :
    FloatOps.sum l = .inf ∨ ∃ t, FloatOps.sum l = .fin t ∧ ∀ x ∈ l, ∃ q, x = .fin q ∧ q ≤ t := by
  have hinf : ∀ l : List PyFloat, (∀ x ∈ l, FloatOps.lt 0 x = true) →
      l.foldl (· + ·) PyFloat.inf = .inf := by
    intro l
    induction l with
    | nil => exact fun _ => rfl
    | cons x l ih =>
      intro h
      have hx : PyFloat.inf + x = .inf := by
        rcases lt_zero_iff.mp (h x (by simp)) with rfl | ⟨q, _, rfl⟩ <;> rfl
      rw [List.foldl_cons, hx]
      exact ih fun y hy => h y (by simp [hy])
  -- the running sum is finite and nonnegative until an infinite term comes
  have hfin : ∀ l : List PyFloat, (∀ x ∈ l, FloatOps.lt 0 x = true) → ∀ s : ℚ, 0 ≤ s →
      l.foldl (· + ·) (PyFloat.fin s) = .inf ∨
        ∃ t, s ≤ t ∧ l.foldl (· + ·) (PyFloat.fin s) = .fin t
          ∧ ∀ x ∈ l, ∃ q, x = .fin q ∧ q ≤ t := by
    intro l
    induction l with
    | nil => exact fun _ s _ => Or.inr ⟨s, le_rfl, rfl, by simp⟩
    | cons x l ih =>
      intro h s hs
      have hl : ∀ y ∈ l, FloatOps.lt 0 y = true := fun y hy => h y (by simp [hy])
      rcases lt_zero_iff.mp (h x (by simp)) with rfl | ⟨q, hq, rfl⟩
      · exact Or.inl (hinf l hl)
      · rw [List.foldl_cons, PyFloat.fin_add]
        rcases ih hl (s + q) (by linarith) with hsum | ⟨t, hst, hsum, hall⟩
        · exact Or.inl hsum
        · refine Or.inr ⟨t, by linarith, hsum, fun y hy => ?_⟩
          rcases List.mem_cons.mp hy with rfl | hy
          · exact ⟨q, rfl, by linarith⟩
          · exact hall y hy
  rcases hfin l hl 0 le_rfl with hsum | ⟨t, _, hsum, hall⟩
  · exact Or.inl hsum
  · exact Or.inr ⟨t, hsum, hall⟩

end PyFloat

namespace State

/-- The aggregated weights are positive. -/
theorem aggregate_positive {W : Type} {toWeight : W → Except PyErr PyFloat}
    {l : List (String × W)} {agg agg' : Dict String PyFloat}
    (h : aggregate toWeight agg l = .ok agg') (hagg : agg.All (fun w => FloatOps.lt 0 w = true)) :
    agg'.All (fun w => FloatOps.lt 0 w = true) := by
  induction l generalizing agg with
  | nil =>
    cases h
    exact hagg
  | cons e l ih =>
    obtain ⟨addr, w⟩ := e
    obtain ⟨x, _, _, h⟩ := aggregate_cons_eq_ok.mp h
    refine ih h ?_
    split
    · next hpos =>
      refine hagg.set (PyFloat.lt_zero_add ?_ hpos)
      unfold Dict.getD
      cases hget : agg.get? addr with
      | none => exact Or.inl rfl
      | some v => exact Or.inr (hagg _ _ hget)
    · exact hagg

/-- The aggregated addresses come from the contributors. -/
theorem mem_keys_of_aggregate {W : Type} {toWeight : W → Except PyErr PyFloat}
    {l : List (String × W)} {agg agg' : Dict String PyFloat}
    (h : aggregate toWeight agg l = .ok agg') {a : String} (ha : a ∈ agg'.keys) :
    a ∈ agg.keys ∨ a ∈ l.map Prod.fst := by
  induction l generalizing agg with
  | nil =>
    cases h
    exact Or.inl ha
  | cons e l ih =>
    obtain ⟨addr, w⟩ := e
    obtain ⟨x, _, _, h⟩ := aggregate_cons_eq_ok.mp h
    rcases ih h with hmem | hmem
    · split at hmem
      · rw [Dict.keys_set] at hmem
        split at hmem
        · exact Or.inl hmem
        · rcases List.mem_append.mp hmem with hmem | hmem
          · exact Or.inl hmem
          · exact Or.inr (by simp [List.mem_singleton.mp hmem])
      · exact Or.inl hmem
    · exact Or.inr (List.mem_cons_of_mem _ hmem)

/-- A positive share of a total of positive weights is at most one. -/
theorem share_le_one {agg : Dict String PyFloat} (hagg : agg.All (fun w => FloatOps.lt 0 w = true))
    {e : String × PyFloat} (he : e ∈ agg.entries)
    (hpos : FloatOps.lt 0 (e.2 / totalWeight agg) = true) :
    ∃ y, e.2 / totalWeight agg = .fin y ∧ y ≤ 1 := by
  have hvalues : ∀ x ∈ agg.values, FloatOps.lt 0 x = true := by
    intro x hx
    obtain ⟨p, hp, rfl⟩ := List.mem_map.mp hx
    exact hagg p.1 p.2 (Dict.mem_entries_iff.mp hp)
  have hw : e.2 ∈ agg.values := List.mem_map_of_mem he
  unfold totalWeight at hpos ⊢
  rcases PyFloat.sum_positive hvalues with hsum | ⟨t, hsum, hall⟩
  · rw [hsum] at hpos ⊢
    rcases PyFloat.lt_zero_iff.mp (hvalues _ hw) with hw | ⟨q, _, hw⟩
    · rw [hw] at hpos
      cases hpos
    · rw [hw] at hpos
      exact absurd hpos (by show ¬ FloatOps.lt 0 (PyFloat.fin 0) = true; simp)
  · obtain ⟨q, hq, hle⟩ := hall _ hw
    have hqpos : 0 < q := by
      have := hvalues _ hw
      rw [hq] at this
      simpa using this
    have ht : 0 < t := lt_of_lt_of_le hqpos hle
    rw [hsum, hq, PyFloat.fin_div q ht.ne']
    exact ⟨q / t, rfl, (div_le_one ht).mpr hle⟩

/-- The clamped reward is finite and never above a header reward it keeps positive. -/
theorem clampReward_fin (s : State PyFloat) (q : ℚ) :
    ∃ c, s.clampReward (.fin q) = .fin c ∧ (0 < c → c ≤ q) := by
  unfold clampReward
  cases FloatOps.lit maxSupply - s.minted with
  | fin y =>
    refine ⟨max 0 (min q y), by rw [FloatOps.min_fin, PyFloat.zero_def, FloatOps.max_fin], ?_⟩
    intro hpos
    rcases max_choice 0 (min q y) with h | h
    · rw [h] at hpos
      exact absurd hpos (lt_irrefl 0)
    · rw [h]
      exact min_le_left q y
  | negInf => exact ⟨0, rfl, fun h => absurd h (lt_irrefl 0)⟩
  | inf =>
    refine ⟨max 0 q, by rw [← FloatOps.max_fin]; rfl, fun hpos => ?_⟩
    exact max_le (by_contra fun h => by simp [max_eq_left (not_le.mp h).le] at hpos) le_rfl
  | nan =>
    refine ⟨max 0 q, by rw [← FloatOps.max_fin]; rfl, fun hpos => ?_⟩
    exact max_le (by_contra fun h => by simp [max_eq_left (not_le.mp h).le] at hpos) le_rfl

/-- **A positive credit is a positive share of the total weight, and at most the header
reward.** -/
theorem credit_le_reward {s : State PyFloat} {q : ℚ} {agg : Dict String PyFloat}
    (hagg : agg.All (fun w => FloatOps.lt 0 w = true)) {a : String} {amount : PyFloat}
    (h : (a, amount) ∈ s.credits (.fin q) agg) (hpos : FloatOps.lt 0 amount = true) :
    FloatOps.le amount (.fin q) = true
      ∧ ∃ w, (a, w) ∈ agg.entries ∧ FloatOps.lt 0 (totalWeight agg) = true
          ∧ FloatOps.lt 0 (w / totalWeight agg) = true := by
  obtain ⟨c, hc, hcq⟩ := s.clampReward_fin q
  unfold credits at h
  rw [hc] at h
  split at h
  · next hguard =>
    rw [Bool.and_eq_true] at hguard
    have hcpos : 0 < c := by simpa using hguard.2
    obtain ⟨e, he, heq⟩ := List.mem_map.mp h
    have hentry : e ∈ agg.entries := agg.sortedItems_perm.mem_iff.mp he
    obtain ⟨addr, w⟩ := e
    cases heq
    rw [PyFloat.lt_zero_mul hcpos] at hpos
    refine ⟨?_, w, hentry, hguard.1, hpos⟩
    obtain ⟨y, hy, hle⟩ := share_le_one hagg hentry hpos
    dsimp only at hy
    rw [hy, PyFloat.fin_mul, FloatOps.le_fin, decide_eq_true_eq]
    exact (mul_le_of_le_one_right hcpos.le hle).trans (hcq hcpos)
  · cases h

/-- While the cap leaves room, a positive share of the weight is credited. -/
theorem mem_credits {s : State PyFloat} {q m : ℚ} (hminted : s.minted = .fin m) (hq : 0 < q)
    (hcap : m < maxSupply) {agg : Dict String PyFloat} {a : String} {w : PyFloat}
    (hw : (a, w) ∈ agg.entries) (htotal : FloatOps.lt 0 (totalWeight agg) = true)
    (hpos : FloatOps.lt 0 (w / totalWeight agg) = true) :
    ∃ amount, (a, amount) ∈ s.credits (.fin q) agg ∧ FloatOps.lt 0 amount = true := by
  have hclamp : s.clampReward (.fin q) = .fin (min q (maxSupply - m)) := by
    unfold clampReward
    rw [hminted, FloatOps.lit_pyFloat, PyFloat.fin_sub, FloatOps.min_fin, PyFloat.zero_def,
      FloatOps.max_fin, max_eq_right (le_min hq.le (sub_nonneg.mpr hcap.le))]
  have hcpos : 0 < min q (maxSupply - m) := lt_min hq (sub_pos.mpr hcap)
  refine ⟨.fin (min q (maxSupply - m)) * (w / totalWeight agg), ?_, ?_⟩
  · unfold credits
    rw [hclamp, htotal, Bool.true_and, if_pos (by simpa using hcpos)]
    exact List.mem_map.mpr ⟨(a, w), agg.sortedItems_perm.mem_iff.mpr hw, rfl⟩
  · rw [PyFloat.lt_zero_mul hcpos, hpos]

end State

end NeuraHash
