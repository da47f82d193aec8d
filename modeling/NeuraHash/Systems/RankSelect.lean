import Mathlib.Data.List.Perm.Basic
import Mathlib.Data.List.Sort
import Mathlib.Tactic

/-!
# Selecting the `k` largest keys by digits

`IsRank keys k t` says that `t` is the `k`-th largest key, by two counts. It is found digit by digit
(`isRank_digits`), each digit from the counts of the keys at or above it
(`lt_countP_range`). With it the `k` largest are taken without sorting: all above it, and as many of
the equal ones as are still needed (`selected`), which are the first `k` of the sorted order
(`selected_perm_take`).
-/

namespace RankSelect

/-! ## A loop over blocks -/

section blocks

variable {α β : Type}

/-- The starts of the blocks of length `c` of a list of length `n`. -/
def blockStarts (n c : ℕ) : List ℕ := List.range' 0 ((n + c - 1) / c) c

/-- The entries from `s` up to `e`. -/
def slice (l : List α) (s e : ℕ) : List α := (l.drop s).take (e - s)

theorem take_append_slice (l : List α) {s e : ℕ} (h : s ≤ e) :
    l.take s ++ slice l s e = l.take e := by
  rw [slice, ← List.take_add, Nat.add_sub_cancel' h]

/-- **What each block carries on holds after the last one.** -/
theorem blocks_invariant {c : ℕ} (hc : 0 < c) {step : β → ℕ → β} {l : List α}
    (P : List α → β → Prop) {b : β} (hstart : P [] b)
    (hstep : ∀ done b s, done.length = s → P done b →
      P (done ++ slice l s (min (s + c) l.length)) (step b s)) :
    P l ((blockStarts l.length c).foldl step b) := by
  -- after `j` blocks the first `j * c` entries are done
  have hrun : ∀ j, j ≤ (l.length + c - 1) / c →
      P (l.take (j * c)) ((List.range' 0 j c).foldl step b) := by
    intro j
    induction j with
    | zero =>
      intro _
      simpa using hstart
    | succ j ih =>
      intro hj
      have hstarts : j * c < l.length := by
        have hmul : (j + 1) * c ≤ (l.length + c - 1) / c * c := Nat.mul_le_mul_right c hj
        have hdiv : (l.length + c - 1) / c * c ≤ l.length + c - 1 := Nat.div_mul_le_self _ _
        rw [Nat.add_mul, Nat.one_mul] at hmul
        omega
      have hlen : (l.take (j * c)).length = j * c := by
        rw [List.length_take]
        omega
      have hnext := hstep _ _ (j * c) hlen (ih (by omega))
      rw [take_append_slice l (by omega)] at hnext
      have htake : l.take (min (j * c + c) l.length) = l.take ((j + 1) * c) := by
        rw [Nat.add_mul, Nat.one_mul, List.take_eq_take_iff]
        omega
      rw [htake] at hnext
      rw [List.range'_concat, List.foldl_append, List.foldl_cons, List.foldl_nil, Nat.zero_add,
        Nat.mul_comm c j]
      exact hnext
  have hall := hrun _ (le_refl _)
  have hcover : l.length ≤ (l.length + c - 1) / c * c := by
    have hmod := Nat.div_add_mod (l.length + c - 1) c
    have hlt := Nat.mod_lt (l.length + c - 1) hc
    rw [Nat.mul_comm] at hmod
    omega
  rwa [List.take_of_length_le hcover] at hall

end blocks

/-! ## The rank of a key -/

/-- `t` is the `k`-th largest key: fewer than `k` keys are above it, `k` are at it or above. -/
structure IsRank (keys : List ℕ) (k t : ℕ) : Prop where
  above : keys.countP (fun x => t < x) < k
  reach : k ≤ keys.countP (fun x => t ≤ x)

theorem count_add_above (keys : List ℕ) (t : ℕ) :
    keys.count t + keys.countP (fun x => t < x) = keys.countP (fun x => t ≤ x) := by
  induction keys with
  | nil => rfl
  | cons x keys ih =>
    rw [List.count_cons, List.countP_cons, List.countP_cons, ← ih]
    simp only [beq_iff_eq, decide_eq_true_eq]
    split_ifs <;> omega

/-- A condition that holds up to some bound holds at the numbers below its count. -/
theorem lt_countP_range {p : ℕ → Bool} (hdown : ∀ a b, a ≤ b → p b = true → p a = true) (m b : ℕ) :
    b < (List.range m).countP p ↔ b < m ∧ p b = true := by
  induction m with
  | zero => simp
  | succ m ih =>
    rw [List.range_succ, List.countP_append, List.countP_singleton]
    cases hm : p m with
    | false =>
      rw [if_neg (by simp), Nat.add_zero, ih]
      constructor
      · exact fun h => ⟨by omega, h.2⟩
      · intro h
        have hne : b ≠ m := by
          rintro rfl
          rw [hm] at h
          exact absurd h.2 (by simp)
        exact ⟨by omega, h.2⟩
    | true =>
      -- all numbers up to `m` count
      have hall : (List.range m).countP p = m := by
        have hlen := List.countP_eq_length.mpr fun a ha =>
          hdown a m (Nat.le_of_lt (List.mem_range.mp ha)) hm
        rw [hlen, List.length_range]
      rw [if_pos rfl, hall]
      exact ⟨fun h => ⟨h, hdown b m (by omega) hm⟩, fun h => h.1⟩

/-- The largest number at which at least `k` keys are, from the counts at all numbers below `m`. -/
theorem isRank_of_counts {keys : List ℕ} {m k : ℕ} (hk : 0 < k) (hlen : k ≤ keys.length)
    (hbound : ∀ x ∈ keys, x < m) :
    IsRank keys k ((List.range m).countP (fun b => k ≤ keys.countP (fun x => b ≤ x)) - 1)
      ∧ (List.range m).countP (fun b => k ≤ keys.countP (fun x => b ≤ x)) - 1 < m := by
  have hanti : ∀ a b, a ≤ b → decide (k ≤ keys.countP (fun x => b ≤ x)) = true →
      decide (k ≤ keys.countP (fun x => a ≤ x)) = true := by
    intro a b hab h
    rw [decide_eq_true_eq] at h ⊢
    refine h.trans (List.countP_mono_left fun x _ hx => ?_)
    rw [decide_eq_true_eq] at hx ⊢
    omega
  have hiff := lt_countP_range hanti m
  -- there is a key, so zero counts
  have hm : 0 < m := by
    cases keys with
    | nil =>
      rw [List.length_nil] at hlen
      omega
    | cons x _ =>
      have := hbound x (by simp)
      omega
  have hzero : 0 < (List.range m).countP (fun b => k ≤ keys.countP (fun x => b ≤ x)) := by
    refine (hiff 0).mpr ⟨hm, ?_⟩
    simpa using hlen
  generalize hn : (List.range m).countP (fun b => k ≤ keys.countP (fun x => b ≤ x)) = n at *
  have hat := (hiff (n - 1)).mp (by omega)
  refine ⟨⟨?_, of_decide_eq_true hat.2⟩, hat.1⟩
  have hsame : keys.countP (fun x => n - 1 < x) = keys.countP (fun x => n ≤ x) := by
    refine List.countP_congr fun x _ => ?_
    rw [decide_eq_true_eq, decide_eq_true_eq]
    omega
  rw [hsame]
  rcases Nat.lt_or_ge n m with hlt | hge
  · have hnot := mt (hiff n).mpr (lt_irrefl n)
    by_contra hle
    exact hnot ⟨hlt, decide_eq_true (by omega)⟩
  · -- no key is as large as `m`
    have hnone : keys.countP (fun x => n ≤ x) = 0 := by
      refine List.countP_eq_zero.mpr fun x hx => ?_
      have := hbound x hx
      rw [decide_eq_true_eq]
      omega
    omega

/-! ## Two digits -/

section digits

variable {base : ℕ} (keys : List ℕ) (high low : ℕ)

/-- The low digits of the keys with the given high digit. -/
def lowDigits (base : ℕ) (keys : List ℕ) (high : ℕ) : List ℕ :=
  (keys.filter (fun x => x / base = high)).map (· % base)

/-- A test that the high digit decides, and the low one where the high digit is the given one. -/
theorem countP_digits {p q : ℕ → Bool}
    (hp : ∀ x, p x = true ↔ high < x / base ∨ x / base = high ∧ q (x % base) = true) :
    keys.countP p
      = (keys.map (· / base)).countP (fun x => high < x) + (lowDigits base keys high).countP q := by
  induction keys with
  | nil => rfl
  | cons x keys ih =>
    rw [List.countP_cons, List.map_cons, List.countP_cons, ih, lowDigits, lowDigits,
      List.filter_cons]
    have hx := hp x
    rcases Nat.lt_trichotomy high (x / base) with hlt | heq | hgt
    · rw [if_pos (hx.mpr (.inl hlt)), if_pos (decide_eq_true hlt),
        if_neg (by rw [decide_eq_true_eq]; omega)]
      omega
    · rw [if_neg (show ¬ decide (high < x / base) = true by rw [decide_eq_true_eq]; omega),
        if_pos (decide_eq_true heq.symm), List.map_cons, List.countP_cons]
      have hsame : (p x = true) ↔ (q (x % base) = true) := by
        rw [hx]
        constructor
        · rintro (h | h)
          · omega
          · exact h.2
        · exact fun h => .inr ⟨heq.symm, h⟩
      simp only [hsame]
      omega
    · rw [if_neg (show ¬ p x = true by rw [hx]; omega),
        if_neg (show ¬ decide (high < x / base) = true by rw [decide_eq_true_eq]; omega),
        if_neg (by rw [decide_eq_true_eq]; omega)]
      omega

theorem above_digits (hlow : low < base) (x : ℕ) :
    high * base + low < x ↔ high < x / base ∨ x / base = high ∧ low < x % base := by
  have hx := Nat.div_add_mod x base
  have hr := Nat.mod_lt x (show 0 < base by omega)
  rcases Nat.lt_trichotomy high (x / base) with hlt | heq | hgt
  · have hmul := Nat.mul_le_mul_right base hlt
    rw [Nat.succ_mul, Nat.mul_comm (x / base)] at hmul
    omega
  · rw [heq, Nat.mul_comm (x / base)]
    omega
  · have hmul := Nat.mul_le_mul_right base hgt
    rw [Nat.succ_mul, Nat.mul_comm (x / base)] at hmul
    omega

theorem countP_above_digits (hlow : low < base) :
    keys.countP (fun x => high * base + low < x)
      = (keys.map (· / base)).countP (fun x => high < x)
        + (lowDigits base keys high).countP (fun x => low < x) := by
  refine countP_digits keys high fun x => ?_
  rw [decide_eq_true_eq, decide_eq_true_eq]
  exact above_digits high low hlow x

theorem countP_atLeast_digits (hlow : low < base) :
    keys.countP (fun x => high * base + low ≤ x)
      = (keys.map (· / base)).countP (fun x => high < x)
        + (lowDigits base keys high).countP (fun x => low ≤ x) := by
  refine countP_digits keys high fun x => ?_
  rw [decide_eq_true_eq, decide_eq_true_eq]
  have hx := Nat.div_add_mod x base
  have habove := above_digits high low hlow x
  constructor
  · intro h
    rcases Nat.lt_or_eq_of_le h with hlt | heq
    · rcases habove.mp hlt with h | h
      · exact .inl h
      · exact .inr ⟨h.1, by omega⟩
    · have hdiv : x / base = high := by
        rw [← heq, Nat.mul_comm, Nat.mul_add_div (by omega), Nat.div_eq_of_lt hlow, Nat.add_zero]
      rw [hdiv, Nat.mul_comm] at hx
      exact .inr ⟨hdiv, by omega⟩
  · rintro (h | h)
    · exact Nat.le_of_lt (habove.mpr (.inl h))
    · rw [h.1, Nat.mul_comm] at hx
      omega

/-- The number of keys with the given high digit. -/
theorem length_lowDigits :
    (lowDigits base keys high).length = (keys.map (· / base)).count high := by
  rw [lowDigits, List.length_map, List.count_eq_countP, List.countP_map,
    List.countP_eq_length_filter]
  rfl

end digits

/-- **The rank of a key, from the ranks of its digits.** -/
theorem isRank_digits {base : ℕ} {keys : List ℕ} {k high low : ℕ} (hlow : low < base)
    (hhigh : IsRank (keys.map (· / base)) k high)
    (hlowRank : IsRank (lowDigits base keys high)
      (k - (keys.map (· / base)).countP (fun x => high < x)) low) :
    IsRank keys k (high * base + low) := by
  have habove := hhigh.above
  have hlowAbove := hlowRank.above
  have hreach := hlowRank.reach
  refine ⟨?_, ?_⟩
  · rw [countP_above_digits keys high low hlow]
    omega
  · rw [countP_atLeast_digits keys high low hlow]
    omega

/-! ## The selection -/

section selection

variable {n k t : ℕ} (w : ℕ → ℕ)

/-- The indices above the threshold, and the first of those at it. -/
def selected (n k t : ℕ) : List ℕ :=
  (List.range n).filter (fun i => t < w i)
    ++ ((List.range n).filter (fun i => w i = t)).take
        (k - ((List.range n).filter (fun i => t < w i)).length)

/-- The order in which indices are kept: the larger key first, then the lower index. -/
def before (i j : ℕ) : Bool := w j < w i || (w i == w j && i ≤ j)

theorem before_iff {i j : ℕ} : before w i j = true ↔ w j < w i ∨ w i = w j ∧ i ≤ j := by
  unfold before
  rw [Bool.or_eq_true, Bool.and_eq_true, decide_eq_true_eq, decide_eq_true_eq, beq_iff_eq]

theorem before_trans (i j l : ℕ) (hij : before w i j = true) (hjl : before w j l = true) :
    before w i l = true := by
  rw [before_iff] at *
  omega

theorem before_total (i j : ℕ) : before w i j = true ∨ before w j i = true := by
  rw [before_iff, before_iff]
  omega

theorem before_antisymm {i j : ℕ} (hij : before w i j = true) (hji : before w j i = true) :
    i = j := by
  rw [before_iff] at *
  omega

end selection

/-- Entries of a list without duplicates that come before all the others are the first ones of the
sorted list. -/
theorem perm_take_sorted {α : Type} {le : α → α → Bool} {l m s : List α}
    (hanti : ∀ a b, le a b = true → le b a = true → a = b)
    (hsorted : m.Pairwise (fun a b => le a b = true)) (hperm : m.Perm l)
    (hl : l.Nodup) (hs : s.Nodup) (hsub : s ⊆ l)
    (hfirst : ∀ a ∈ s, ∀ b ∈ l, b ∉ s → le a b = true) :
    s.Perm (m.take s.length) := by
  have hnodup : m.Nodup := hperm.nodup_iff.mpr hl
  have hsplit := List.take_append_drop s.length m
  have hlen : (m.take s.length).length = s.length := by
    rw [List.length_take, Nat.min_eq_left]
    rw [hperm.length_eq]
    exact (hs.subperm hsub).length_le
  -- an entry behind the first ones would be before them all, and they would all be kept besides it
  have hin : s ⊆ m.take s.length := by
    intro a ha
    by_contra hnot
    have hbehind : a ∈ m.drop s.length := by
      have hmem := hperm.mem_iff.mpr (hsub ha)
      rw [← hsplit, List.mem_append] at hmem
      exact hmem.resolve_left hnot
    rw [← hsplit] at hsorted hnodup
    have hfirsts : m.take s.length ⊆ s := by
      intro b hb
      by_contra hout
      have hab := hfirst a ha b (hperm.mem_iff.mp (List.mem_of_mem_take hb)) hout
      have hba := (List.pairwise_append.mp hsorted).2.2 b hb a hbehind
      exact hout (hanti a b hab hba ▸ ha)
    have hcons : (a :: m.take s.length) ⊆ s := List.cons_subset.mpr ⟨ha, hfirsts⟩
    have hnodup' : (a :: m.take s.length).Nodup :=
      List.nodup_cons.mpr ⟨hnot, (List.nodup_append.mp hnodup).1⟩
    have hle := (hnodup'.subperm hcons).length_le
    rw [List.length_cons, hlen] at hle
    omega
  exact (hs.subperm hin).perm_of_length_le (by rw [hlen])

section selection

variable {n k t : ℕ} {w : ℕ → ℕ}

theorem nodup_selected : (selected w n k t).Nodup := by
  have hrange := @List.nodup_range n
  refine List.nodup_append.mpr ⟨hrange.filter _, (hrange.filter _).sublist (List.take_sublist _ _),
    fun i hi j hj hij => ?_⟩
  have habove := (List.mem_filter.mp hi).2
  have hat := (List.mem_filter.mp (List.mem_of_mem_take hj)).2
  rw [decide_eq_true_eq] at habove hat
  rw [hij] at habove
  omega

theorem lt_of_mem_selected {i : ℕ} (h : i ∈ selected w n k t) : i < n := by
  rcases List.mem_append.mp h with h | h
  · exact List.mem_range.mp (List.mem_filter.mp h).1
  · exact List.mem_range.mp (List.mem_filter.mp (List.mem_of_mem_take h)).1

theorem length_selected (h : IsRank ((List.range n).map w) k t) :
    (selected w n k t).length = k := by
  have habove := h.above
  have hreach := h.reach
  rw [List.countP_map] at habove hreach
  have hcount := count_add_above ((List.range n).map w) t
  rw [List.countP_map, List.countP_map, List.count_eq_countP, List.countP_map] at hcount
  have hat : (List.range n).countP ((fun x => x == t) ∘ w)
      = ((List.range n).filter (fun i => w i = t)).length := by
    rw [List.countP_eq_length_filter]
    rfl
  have habove' : (List.range n).countP ((fun x => decide (t < x)) ∘ w)
      = ((List.range n).filter (fun i => t < w i)).length := by
    rw [List.countP_eq_length_filter]
    rfl
  rw [selected, List.length_append, List.length_take]
  omega

/-- **The selection takes the first `k` indices of the sorted order.** -/
theorem selected_perm_take (h : IsRank ((List.range n).map w) k t) :
    (selected w n k t).Perm
      (((List.range n).insertionSort (fun i j => before w i j = true)).take k) := by
  have : Std.Total (fun i j => before w i j = true) := ⟨before_total w⟩
  have : IsTrans ℕ (fun i j => before w i j = true) := ⟨before_trans w⟩
  have hperm := @perm_take_sorted ℕ (before w) (List.range n) _ (selected w n k t)
    (fun a b => before_antisymm w) (List.pairwise_insertionSort _ _) (List.perm_insertionSort _ _)
    List.nodup_range nodup_selected ?_ ?_
  · rwa [length_selected h] at hperm
  · intro i hi
    rcases List.mem_append.mp hi with hi | hi
    · exact (List.mem_filter.mp hi).1
    · exact (List.mem_filter.mp (List.mem_of_mem_take hi)).1
  · intro i hi j hj hout
    have hnotAbove : ¬ t < w j := fun hlt => hout
      (List.mem_append_left _ (List.mem_filter.mpr ⟨hj, decide_eq_true hlt⟩))
    rw [before_iff]
    rcases List.mem_append.mp hi with hi | hi
    · have hlt := of_decide_eq_true (List.mem_filter.mp hi).2
      omega
    · have heq := of_decide_eq_true (List.mem_filter.mp (List.mem_of_mem_take hi)).2
      rcases Nat.lt_or_eq_of_le (Nat.le_of_not_lt hnotAbove) with hlt | hj'
      · omega
      · -- both are at the threshold: the indices are taken in ascending order
        refine .inr ⟨by omega, ?_⟩
        have hjmem : j ∈ (List.range n).filter (fun i => w i = t) :=
          List.mem_filter.mpr ⟨hj, decide_eq_true hj'⟩
        have hasc : ((List.range n).filter (fun i => w i = t)).Pairwise (· < ·) :=
          (List.pairwise_lt_range).filter _
        have hnot : j ∉ ((List.range n).filter (fun i => w i = t)).take
            (k - ((List.range n).filter (fun i => t < w i)).length) :=
          fun hin => hout (List.mem_append_right _ hin)
        generalize (List.range n).filter (fun i => decide (w i = t)) = l at *
        generalize k - ((List.range n).filter (fun i => t < w i)).length = m at *
        have hdrop : j ∈ l.drop m := by
          rw [← List.take_append_drop m l, List.mem_append] at hjmem
          exact hjmem.resolve_left hnot
        rw [← List.take_append_drop m l] at hasc
        exact Nat.le_of_lt ((List.pairwise_append.mp hasc).2.2 i hi j hdrop)

end selection

end RankSelect
