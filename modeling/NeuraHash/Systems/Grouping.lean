import Mathlib.Data.List.Sort
import Mathlib.Algebra.BigOperators.Group.List.Basic
import Mathlib.Data.List.GetD
import Mathlib.Tactic.Linarith

/-!
# Grouping by a stable sort

The positions of a list of keys, sorted by key and within a key by position, are the groups of the
keys one after the other (`argsort_eq_flatMap`). The running sums of the group sizes say where each
group begins, so cutting the sorted positions at them gives the groups back (`segment_argsort`).
-/

namespace Systems

/-! ## Cutting a concatenation -/

section segments

variable {α : Type}

/-- Where the `e`-th part of a concatenation begins. -/
def offset (parts : ℕ → List α) (e : ℕ) : ℕ := ((List.range e).map fun i => (parts i).length).sum

theorem offset_succ (parts : ℕ → List α) (e : ℕ) :
    offset parts (e + 1) = offset parts e + (parts e).length := by
  unfold offset
  rw [List.range_succ, List.map_append, List.sum_append]
  simp

theorem length_flatMap_range (parts : ℕ → List α) (e : ℕ) :
    ((List.range e).flatMap parts).length = offset parts e := by
  rw [List.length_flatMap]
  rfl

/-- **Cutting a concatenation at the offsets gives its parts.** -/
theorem segment_flatMap {parts : ℕ → List α} {e E : ℕ} (he : e < E) :
    (((List.range E).flatMap parts).drop (offset parts e)).take (parts e).length = parts e := by
  obtain ⟨d, rfl⟩ : ∃ d, E = e + 1 + d := ⟨E - (e + 1), by omega⟩
  have hsplit : (List.range (e + 1 + d)).flatMap parts
      = (List.range e).flatMap parts ++ (parts e
        ++ ((List.range d).map (e + 1 + ·)).flatMap parts) := by
    rw [List.range_add, List.flatMap_append, List.range_succ, List.flatMap_append,
      List.append_assoc]
    simp
  rw [hsplit, ← length_flatMap_range parts e, List.drop_left, List.take_left]

end segments

/-! ## Sorted positions -/

section argsort

variable {keys : List ℕ} {E : ℕ}

/-- The key at a position. -/
def keyAt (keys : List ℕ) (i : ℕ) : ℕ := keys.getD i 0

/-- By key, and at one key by position. -/
def StableLe (keys : List ℕ) (i j : ℕ) : Prop :=
  keyAt keys i < keyAt keys j ∨ keyAt keys i = keyAt keys j ∧ i ≤ j

instance (keys : List ℕ) : DecidableRel (StableLe keys) := fun i j =>
  inferInstanceAs (Decidable (keyAt keys i < keyAt keys j ∨ keyAt keys i = keyAt keys j ∧ i ≤ j))

/-- The positions in a stable sort of the keys. -/
def argsort (keys : List ℕ) : List ℕ := (List.range keys.length).insertionSort (StableLe keys)

/-- The positions of a key, in order. -/
def group (keys : List ℕ) (e : ℕ) : List ℕ :=
  (List.range keys.length).filter fun i => keyAt keys i = e

instance : IsTrans ℕ (StableLe keys) where
  trans i j k hij hjk := by
    unfold StableLe at *
    omega

instance : Std.Total (StableLe keys) where
  total i j := by
    unfold StableLe
    omega

instance : Std.Antisymm (StableLe keys) where
  antisymm i j hij hji := by
    unfold StableLe at *
    omega

theorem mem_group {e i : ℕ} : i ∈ group keys e ↔ i < keys.length ∧ keyAt keys i = e := by
  unfold group
  rw [List.mem_filter, List.mem_range, decide_eq_true_eq]

theorem length_group (e : ℕ) : (group keys e).length = keys.count e := by
  unfold group
  rw [← List.countP_eq_length_filter, List.count_eq_countP]
  have hmap : keys = (List.range keys.length).map (keyAt keys) := by
    refine List.ext_getElem (by simp) fun i hi _ => ?_
    rw [List.getElem_map, List.getElem_range, keyAt, List.getD_eq_getElem _ _ hi]
  conv_rhs => rw [hmap, List.countP_map]
  exact List.countP_congr fun i _ => by simp

theorem pairwise_groups (E : ℕ) : ((List.range E).flatMap (group keys)).Pairwise (StableLe keys) := by
  rw [List.pairwise_flatMap]
  constructor
  · intro e _
    -- the positions of one key ascend
    refine (List.pairwise_le_range.filter _).imp_of_mem fun {i j} hi hj hle => ?_
    have hi' := (mem_group.mp hi).2
    have hj' := (mem_group.mp hj).2
    exact Or.inr ⟨hi'.trans hj'.symm, hle⟩
  · refine List.pairwise_lt_range.imp fun {e e'} hlt i hi j hj => ?_
    have hi' := (mem_group.mp hi).2
    have hj' := (mem_group.mp hj).2
    exact Or.inl (by omega)

/-- **A stable sort puts the groups one after the other.** -/
theorem argsort_eq_flatMap (h : ∀ x ∈ keys, x < E) :
    argsort keys = (List.range E).flatMap (group keys) := by
  have hnodup : ((List.range E).flatMap (group keys)).Nodup := by
    rw [List.nodup_flatMap]
    refine ⟨fun e _ => List.nodup_range.filter _, List.pairwise_lt_range.imp fun {e e'} hlt => ?_⟩
    intro i hi hi'
    have := (mem_group.mp hi).2
    have := (mem_group.mp hi').2
    omega
  have hperm : (argsort keys).Perm ((List.range E).flatMap (group keys)) := by
    refine (List.perm_insertionSort _ _).trans ?_
    rw [List.perm_ext_iff_of_nodup List.nodup_range hnodup]
    intro i
    rw [List.mem_range, List.mem_flatMap]
    constructor
    · intro hi
      have hmem : keyAt keys i ∈ keys := by
        rw [keyAt, List.getD_eq_getElem _ _ hi]
        exact List.getElem_mem hi
      exact ⟨keyAt keys i, List.mem_range.mpr (h _ hmem), mem_group.mpr ⟨hi, rfl⟩⟩
    · rintro ⟨e, -, hi⟩
      exact (mem_group.mp hi).1
  exact hperm.eq_of_pairwise' (List.pairwise_insertionSort _ _) (pairwise_groups E)

/-- How often each number below `minlength` stands in a list; larger numbers lengthen the answer. -/
def bincount (keys : List ℕ) (minlength : ℕ) : List ℕ :=
  (List.range (keys.foldl (fun m x => max m (x + 1)) minlength)).map fun e => keys.count e

theorem bincount_of_lt (h : ∀ x ∈ keys, x < E) :
    bincount keys E = (List.range E).map fun e => keys.count e := by
  have hmax : keys.foldl (fun m x => max m (x + 1)) E = E := by
    induction keys with
    | nil => rfl
    | cons x keys ih =>
      have hx : x < E := h x List.mem_cons_self
      rw [List.foldl_cons, Nat.max_eq_left hx]
      exact ih fun y hy => h y (List.mem_cons_of_mem x hy)
  unfold bincount
  rw [hmax]

/-- The running sums of a list, from zero. -/
def offsets (counts : List ℕ) : List ℕ := counts.scanl (· + ·) 0

theorem getD_offsets (counts : ℕ → ℕ) {e : ℕ} (he : e ≤ E) :
    (offsets ((List.range E).map counts)).getD e 0 = ((List.range e).map counts).sum := by
  unfold offsets
  have hlt : e < (((List.range E).map counts).scanl (· + ·) 0).length := by
    rw [List.length_scanl, List.length_map, List.length_range]
    omega
  rw [List.getD_eq_getElem _ _ hlt, List.getElem_scanl, ← List.map_take, List.take_range,
    Nat.min_eq_left he, List.sum_eq_foldl]

theorem offsets_bincount (h : ∀ x ∈ keys, x < E) {e : ℕ} (he : e ≤ E) :
    (offsets (bincount keys E)).getD e 0 = offset (group keys) e := by
  rw [bincount_of_lt h, getD_offsets _ he]
  unfold offset
  simp only [length_group]

/-- **Between two offsets stand the positions of one key, in order.** -/
theorem segment_argsort (h : ∀ x ∈ keys, x < E) {e : ℕ} (he : e < E) :
    ((argsort keys).drop ((offsets (bincount keys E)).getD e 0)).take
        ((offsets (bincount keys E)).getD (e + 1) 0 - (offsets (bincount keys E)).getD e 0)
      = group keys e := by
  rw [offsets_bincount h he.le, offsets_bincount h he, offset_succ, Nat.add_sub_cancel_left,
    argsort_eq_flatMap h]
  exact segment_flatMap he

end argsort

end Systems
