import NeuraHash.Python.Matmul
import NeuraHash.Systems.Grouping
import NeuraHash.Systems.Chunks
import Mathlib

/-!
# The layer step over cached gradients (`tools/glm_grad_cache.py`)

A cached unit holds the routed (token, slot) pairs of one batch sorted by expert, with offsets that
cut them into one segment for each expert. `inner_step` goes through the experts `K` at a time,
builds the surrogate of a chunk from the segments that are not empty, and moves each expert of the
chunk by its gradient.

`sliced_cacheSlice` says what the segments are and `inner_step_of_slice` what one step does: every
expert moves by the gradient of its own term at the weights before the step, whatever `K` is. Token
numbers are 32-bit, so both are about batches of at most `2 ** 31` tokens.
-/

namespace NeuraHash.GradCache

open Py Systems

/-! ## Sorting the pairs by expert -/

section slice

variable {R : Type} [Inhabited R] {n k E : ℕ}

/-- `.to(int32)`. -/
def toInt32 (x : ℤ) : ℤ := x.bmod (2 ^ 32)

theorem toInt32_of_lt {x : ℕ} (h : x < 2 ^ 31) : toInt32 x = x := by
  unfold toInt32
  rw [Int.bmod_def]
  omega

/-- `a.reshape(-1)`. -/
def flat {α : Type} (a : Fin n → Fin k → α) : List α :=
  List.ofFn fun p : Fin (n * k) => a p.divNat p.modNat

/-- The pairs of a unit: token numbers and weights, sorted by expert, and the offsets. -/
structure RoutedPairs (R : Type) where
  tk : List ℤ
  w : List R
  off : List ℕ

/-- `cache_slice(idx_s, w_s, experts, top_k)`. -/
def cacheSlice (idx : Fin n → Fin k → Fin E) (w : Fin n → Fin k → R) : RoutedPairs R :=
  let keys := flat fun t s => (idx t s : ℕ)
  let order := argsort keys
  { tk := order.map fun p => toInt32 (p / k : ℕ)
    w := order.map fun p => (flat w).getD p default
    off := offsets (bincount keys E) }

/-- What the offsets give for an expert. -/
def RoutedPairs.segment (p : RoutedPairs R) (e : ℕ) : List (ℤ × R) :=
  ((p.tk.zip p.w).drop (p.off.getD e 0)).take (p.off.getD (e + 1) 0 - p.off.getD e 0)

/-- The pairs routed to an expert, in row-major order. -/
def pairsOf (idx : Fin n → Fin k → Fin E) (e : ℕ) : List (Fin n × Fin k) :=
  ((List.finRange n).product (List.finRange k)).filter fun p => (idx p.1 p.2 : ℕ) = e

/-- Each pair is in the segment of its expert, once, in row-major order and with its weight. -/
structure Sliced (idx : Fin n → Fin k → Fin E) (w : Fin n → Fin k → R) (p : RoutedPairs R) :
    Prop where
  length_off : p.off.length = E + 1
  first : p.off.getD 0 0 = 0
  last : p.off.getD E 0 = n * k
  length_tk : p.tk.length = n * k
  length_w : p.w.length = n * k
  off_succ : ∀ e < E, p.off.getD (e + 1) 0 = p.off.getD e 0 + (pairsOf idx e).length
  segment : ∀ e < E, p.segment e = (pairsOf idx e).map fun q => ((q.1 : ℤ), w q.1 q.2)

/-- Row-major positions are the pairs in order. -/
theorem map_product_finRange (n k : ℕ) :
    ((List.finRange n).product (List.finRange k)).map (fun q => k * q.1 + q.2)
      = List.range (n * k) := by
  have hval : ∀ m : ℕ, (List.finRange m).map Fin.val = List.range m := by
    intro m
    refine List.ext_getElem (by simp) fun i _ _ => by simp
  have hrow : ∀ t : ℕ, (List.finRange k).map (fun s : Fin k => k * t + s)
      = (List.range k).map (k * t + ·) := by
    intro t
    rw [← hval k, List.map_map]
    rfl
  have hrows : ∀ m : ℕ, (List.range m).flatMap (fun t => (List.range k).map (k * t + ·))
      = List.range (m * k) := by
    intro m
    induction m with
    | zero => simp
    | succ m ih =>
      rw [List.range_succ, List.flatMap_append, ih, Nat.succ_mul, List.range_add,
        List.flatMap_singleton, Nat.mul_comm]
  rw [← hrows n, ← hval n, List.flatMap_map]
  show List.map _ ((List.finRange n).flatMap fun t => (List.finRange k).map (Prod.mk t)) = _
  rw [List.map_flatMap]
  refine List.flatMap_congr fun t _ => ?_
  rw [List.map_map, ← hrow]
  rfl

/-- A flat table at the position of a pair. -/
theorem getD_flat {α : Type} [Inhabited α] (a : Fin n → Fin k → α) (t : Fin n) (s : Fin k) :
    (flat a).getD (k * t + s) default = a t s :=
  Tensor.get_ofMatrix a t s

theorem group_flat (idx : Fin n → Fin k → Fin E) (e : ℕ) :
    group (flat fun t s => (idx t s : ℕ)) e = (pairsOf idx e).map fun q => k * q.1 + q.2 := by
  have hlen : (flat fun t s => (idx t s : ℕ)).length = n * k := List.length_ofFn
  unfold group pairsOf
  rw [hlen, ← map_product_finRange, List.filter_map]
  refine congrArg _ (List.filter_congr fun q _ => ?_)
  have hkey : keyAt (flat fun t s => (idx t s : ℕ)) (k * q.1 + q.2) = idx q.1 q.2 :=
    getD_flat (fun t s => (idx t s : ℕ)) q.1 q.2
  show decide (keyAt _ _ = e) = decide _
  rw [hkey]

theorem flat_lt (idx : Fin n → Fin k → Fin E) : ∀ x ∈ flat fun t s => (idx t s : ℕ), x < E := by
  intro x hx
  obtain ⟨p, rfl⟩ := (List.mem_ofFn' _ _).mp hx
  exact (idx p.divNat p.modNat).isLt

/-- A segment, with the token numbers as they are stored. -/
theorem segment_cacheSlice (idx : Fin n → Fin k → Fin E) (w : Fin n → Fin k → R) {e : ℕ}
    (he : e < E) : (cacheSlice idx w).segment e
      = (pairsOf idx e).map fun q => (toInt32 ((q.1 : ℕ) : ℤ), w q.1 q.2) := by
  have hseg := segment_argsort (flat_lt idx) he
  unfold RoutedPairs.segment
  show List.take _ (List.drop _ ((List.map _ (argsort _)).zip (List.map _ (argsort _)))) = _
  rw [List.zip_map', ← List.map_drop, ← List.map_take]
  show List.map _ (((argsort _).drop ((offsets (bincount _ E)).getD e 0)).take
    ((offsets (bincount _ E)).getD (e + 1) 0 - (offsets (bincount _ E)).getD e 0)) = _
  rw [hseg, group_flat, List.map_map]
  refine List.map_congr_left fun q _ => ?_
  have hdiv : (k * q.1 + q.2) / k = q.1 := by
    rw [Nat.mul_add_div q.2.pos, Nat.div_eq_of_lt q.2.isLt, Nat.add_zero]
  show (toInt32 ((k * q.1 + q.2) / k : ℕ), (flat w).getD (k * q.1 + q.2) default) = _
  rw [hdiv, getD_flat]

/-- **What the segments of a slice are.** -/
theorem sliced_cacheSlice (hn : n ≤ 2 ^ 31) (idx : Fin n → Fin k → Fin E) (w : Fin n → Fin k → R) :
    Sliced idx w (cacheSlice idx w) := by
  have hlt := flat_lt idx
  have hlen : (argsort (flat fun t s => (idx t s : ℕ))).length = n * k := by
    rw [argsort, List.length_insertionSort, List.length_range]
    exact List.length_ofFn
  have hoff : ∀ e ≤ E, (cacheSlice idx w).off.getD e 0
      = offset (group (flat fun t s => (idx t s : ℕ))) e := fun e he => offsets_bincount hlt he
  refine ⟨?_, ?_, ?_, ?_, ?_, ?_, ?_⟩
  · show (offsets (bincount _ E)).length = E + 1
    rw [bincount_of_lt hlt, offsets, List.length_scanl, List.length_map, List.length_range]
  · rw [hoff 0 (Nat.zero_le E)]
    rfl
  · rw [hoff E le_rfl, ← length_flatMap_range, ← argsort_eq_flatMap hlt, hlen]
  · rw [cacheSlice, List.length_map, hlen]
  · rw [cacheSlice, List.length_map, hlen]
  · intro e he
    rw [hoff e he.le, hoff (e + 1) he, offset_succ, group_flat, List.length_map]
  · intro e he
    rw [segment_cacheSlice idx w he]
    refine List.map_congr_left fun q _ => ?_
    rw [toInt32_of_lt (Nat.lt_of_lt_of_le q.1.isLt hn)]

/-- Every token routed to the one expert. -/
def oneExpert (n : ℕ) : Fin n → Fin 1 → Fin 1 := fun _ _ => 0

/-- With more tokens a number overflows. -/
theorem cacheSlice_overflow :
    ¬ Sliced (oneExpert (2 ^ 31 + 1)) (fun _ _ => (1 : ℤ))
      (cacheSlice (oneExpert (2 ^ 31 + 1)) fun _ _ => (1 : ℤ)) := by
  intro h
  have hseg := h.segment 0 Nat.one_pos
  rw [segment_cacheSlice _ _ Nat.one_pos] at hseg
  have hlast : ((⟨2 ^ 31, Nat.lt_succ_self _⟩ : Fin (2 ^ 31 + 1)), (0 : Fin 1))
      ∈ pairsOf (oneExpert (2 ^ 31 + 1)) 0 := by
    unfold pairsOf
    rw [List.mem_filter, List.pair_mem_product]
    exact ⟨⟨List.mem_finRange _, List.mem_finRange _⟩, rfl⟩
  have hmem := List.mem_map_of_mem (f := fun q : Fin (2 ^ 31 + 1) × Fin 1 =>
    (toInt32 ((q.1 : ℕ) : ℤ), (1 : ℤ))) hlast
  rw [hseg] at hmem
  obtain ⟨q, -, hq⟩ := List.mem_map.mp hmem
  have htoken : ((q.1 : ℕ) : ℤ) = toInt32 ((2 ^ 31 : ℕ) : ℤ) := (Prod.ext_iff.mp hq).1
  have hneg : toInt32 ((2 ^ 31 : ℕ) : ℤ) < 0 := by decide
  omega

end slice

/-! ## One step -/

/-- What `backward` computes of a scalar at a leaf. -/
structure Autograd (R : Type) [CommRing R] where
  grad : ∀ {m n : ℕ}, (Matrix (Fin m) (Fin n) R → R) → Matrix (Fin m) (Fin n) R →
    Matrix (Fin m) (Fin n) R
  /-- Terms without the leaf do not count. -/
  grad_add_const : ∀ {m n : ℕ} (L : Matrix (Fin m) (Fin n) R → R) (c : R),
    grad (fun W => L W + c) = grad L
  grad_const : ∀ {m n : ℕ} (c : R), grad (fun _ : Matrix (Fin m) (Fin n) R => c) = 0

/-- The gate and up weights and the down weights of the experts of a layer. -/
structure LayerWeights (R : Type) (H I : ℕ) where
  gu : ℕ → Matrix (Fin (I + I)) (Fin H) R
  dn : ℕ → Matrix (Fin H) (Fin I) R

/-- `[(c0, c1)]` of `chunk_bounds(E, K)`. -/
def chunkBounds (E K : ℕ) : List (ℕ × ℕ) :=
  (starts E (max 1 K)).map fun c => (c, min E (c + max 1 K))

section step

variable {R : Type} [CommRing R] {n k E H I : ℕ}

/-- `f_e(h)`: the gate half through the activation, times the up half, through the down rows. -/
def ffn (actFn : R → R) (Wg : Matrix (Fin (I + I)) (Fin H) R) (Wd : Matrix (Fin H) (Fin I) R)
    (h : Fin H → R) : Fin H → R :=
  let gup := Wg.mulVec h
  Wd.mulVec fun i => actFn (gup (Fin.castAdd I i)) * gup (Fin.natAdd I i)

/-- The term of an expert, over its rows of hidden states, cached gradients and weights. -/
def term (actFn : R → R) (rows : List ((Fin H → R) × (Fin H → R) × R))
    (Wg : Matrix (Fin (I + I)) (Fin H) R) (Wd : Matrix (Fin H) (Fin I) R) : R :=
  (rows.map fun r => r.2.2 * ∑ j, ffn actFn Wg Wd r.1 j * r.2.1 j).sum

/-- `x[i]` of a tensor with `n` rows; a negative index counts from the end. -/
def rowAt {α : Type} (x : Fin n → α) (i : ℤ) : Except PyErr α :=
  if h : 0 ≤ i ∧ i < n then .ok (x ⟨i.toNat, by omega⟩)
  else if h : -n ≤ i ∧ i < 0 then .ok (x ⟨(i + n).toNat, by omega⟩)
  else .error (.raised "IndexError")

/-- The rows of an expert's segment. -/
def segmentRows (h g : Fin n → Fin H → R) (p : RoutedPairs R) (e : ℕ) :
    Except PyErr (List ((Fin H → R) × (Fin H → R) × R)) :=
  (p.segment e).mapM fun s => do return (← rowAt h s.1, ← rowAt g s.1, s.2)

/-- The weights an expert is materialised with. -/
def LayerWeights.plus (W D : LayerWeights R H I) : LayerWeights R H I :=
  ⟨fun e => W.gu e + D.gu e, fun e => W.dn e + D.dn e⟩

/-- The surrogate of a chunk: the sum of the terms of its experts with pairs. -/
def surrogate (actFn : R → R) (rows : List (ℕ × List ((Fin H → R) × (Fin H → R) × R)))
    (Wg : ℕ → Matrix (Fin (I + I)) (Fin H) R) (Wd : ℕ → Matrix (Fin H) (Fin I) R) : R :=
  (rows.map fun r => term actFn r.2 (Wg r.1) (Wd r.1)).sum

/-- `surr.backward()`, and the gradients of the leaves added to the weights. -/
def addGradients (A : Autograd R) (actFn : R → R) (lr : R)
    (rows : List (ℕ × List ((Fin H → R) × (Fin H → R) × R))) (leaves D : LayerWeights R H I) :
    LayerWeights R H I :=
  rows.foldl (fun D r =>
    { gu := Function.update D.gu r.1 (D.gu r.1 + (-lr) • A.grad
        (fun X => surrogate actFn rows (Function.update leaves.gu r.1 X) leaves.dn) (leaves.gu r.1))
      dn := Function.update D.dn r.1 (D.dn r.1 + (-lr) • A.grad
        (fun X => surrogate actFn rows leaves.gu (Function.update leaves.dn r.1 X)) (leaves.dn r.1)) })
    D

/-- One pass of the loop over the chunks. -/
def chunkStep (A : Autograd R) (actFn : R → R) (lr : R) (W : LayerWeights R H I)
    (h g : Fin n → Fin H → R) (p : RoutedPairs R) (D : LayerWeights R H I) (c : ℕ × ℕ) :
    Except PyErr (LayerWeights R H I) := do
  if p.off.getD c.2 0 = p.off.getD c.1 0 then return D
  let rows ← ((List.range' c.1 (c.2 - c.1)).filter fun e =>
    p.off.getD (e + 1) 0 ≠ p.off.getD e 0).mapM fun e => do return (e, ← segmentRows h g p e)
  return addGradients A actFn lr rows (W.plus D) D

/-- `inner_step(unit, gu_all, dn_all, Dgu, Ddn, act_fn, K, lr)`. -/
def innerStep (A : Autograd R) (actFn : R → R) (E K : ℕ) (lr : R) (W : LayerWeights R H I)
    (h g : Fin n → Fin H → R) (p : RoutedPairs R) (D : LayerWeights R H I) :
    Except PyErr (LayerWeights R H I) :=
  (chunkBounds E K).foldlM (chunkStep A actFn lr W h g p) D

/-- The rows of an expert's pairs. -/
def rowsOf (idx : Fin n → Fin k → Fin E) (w : Fin n → Fin k → R) (h g : Fin n → Fin H → R)
    (e : ℕ) : List ((Fin H → R) × (Fin H → R) × R) :=
  (pairsOf idx e).map fun q => (h q.1, g q.1, w q.1 q.2)

/-- **A leaf's gradient is that of its own term.** -/
theorem grad_sum_of_mem (A : Autograd R) {m' n' : ℕ} {es : List ℕ} (hnd : es.Nodup) {e : ℕ}
    (he : e ∈ es) (L : ℕ → Matrix (Fin m') (Fin n') R → R)
    (V : ℕ → Matrix (Fin m') (Fin n') R) :
    A.grad (fun X => (es.map fun i => L i (Function.update V e X i)).sum) = A.grad (L e) := by
  have hsplit : (fun X => (es.map fun i => L i (Function.update V e X i)).sum)
      = fun X => L e X + ((es.erase e).map fun i => L i (V i)).sum := by
    funext X
    rw [← List.sum_map_erase (fun i => L i (Function.update V e X i)) he, Function.update_self]
    congr 2
    -- the other leaves stay as they are
    refine List.map_congr_left fun i hi => ?_
    have hne : i ≠ e := (hnd.mem_erase_iff.mp hi).1
    rw [Function.update_of_ne hne]
  rw [hsplit]
  exact A.grad_add_const (L e) _

omit [CommRing R] in
theorem segmentRows_of_sliced [Inhabited R] {idx : Fin n → Fin k → Fin E} {w : Fin n → Fin k → R}
    {p : RoutedPairs R} (hp : Sliced idx w p) (h g : Fin n → Fin H → R) {e : ℕ} (he : e < E) :
    segmentRows h g p e = .ok (rowsOf idx w h g e) := by
  have hrow : ∀ (x : Fin n → Fin H → R) (t : Fin n), rowAt x ((t : ℕ) : ℤ) = .ok (x t) := by
    intro x t
    unfold rowAt
    rw [dif_pos ⟨by omega, by omega⟩]
    rfl
  unfold segmentRows rowsOf
  rw [hp.segment e he]
  generalize pairsOf idx e = l
  induction l with
  | nil => rfl
  | cons q l ih =>
    rw [List.map_cons, List.mapM_cons, ih, hrow, hrow]
    rfl

omit [CommRing R] in
theorem Sliced.off_mono [Inhabited R] {idx : Fin n → Fin k → Fin E} {w : Fin n → Fin k → R}
    {p : RoutedPairs R} (hp : Sliced idx w p) {a b : ℕ} (hab : a ≤ b) (hb : b ≤ E) :
    p.off.getD a 0 ≤ p.off.getD b 0 := by
  induction b, hab using Nat.le_induction with
  | base => exact le_rfl
  | succ b hab ih =>
    have hstep := hp.off_succ b (by omega)
    have hle := ih (by omega)
    omega

/-- The weights with the experts of a list moved. -/
def moved (A : Autograd R) (actFn : R → R) (lr : R) (W : LayerWeights R H I)
    (rows : ℕ → List ((Fin H → R) × (Fin H → R) × R)) (D : LayerWeights R H I) (es : List ℕ) :
    LayerWeights R H I where
  gu := fun e => if e ∈ es ∧ rows e ≠ [] then D.gu e + (-lr) • A.grad
    (fun X => term actFn (rows e) X (W.dn e + D.dn e)) (W.gu e + D.gu e) else D.gu e
  dn := fun e => if e ∈ es ∧ rows e ≠ [] then D.dn e + (-lr) • A.grad
    (fun X => term actFn (rows e) (W.gu e + D.gu e) X) (W.dn e + D.dn e) else D.dn e

theorem moved_congr {A : Autograd R} {actFn : R → R} {lr : R} {W D : LayerWeights R H I}
    {rows : ℕ → List ((Fin H → R) × (Fin H → R) × R)} {es es' : List ℕ}
    (h : ∀ e, rows e ≠ [] → (e ∈ es ↔ e ∈ es')) :
    moved A actFn lr W rows D es = moved A actFn lr W rows D es' := by
  have hiff : ∀ e, (e ∈ es ∧ rows e ≠ []) = (e ∈ es' ∧ rows e ≠ []) :=
    fun e => propext ⟨fun hl => ⟨(h e hl.2).mp hl.1, hl.2⟩, fun hr => ⟨(h e hr.2).mpr hr.1, hr.2⟩⟩
  unfold moved
  simp only [hiff]

/-- Updates at different experts. -/
theorem foldl_updates (u : ℕ → Matrix (Fin (I + I)) (Fin H) R) (v : ℕ → Matrix (Fin H) (Fin I) R)
    {es : List ℕ} (hnd : es.Nodup) (D : LayerWeights R H I) :
    es.foldl (fun D e => { gu := Function.update D.gu e (D.gu e + u e)
                           dn := Function.update D.dn e (D.dn e + v e) : LayerWeights R H I }) D
      = { gu := fun e => if e ∈ es then D.gu e + u e else D.gu e
          dn := fun e => if e ∈ es then D.dn e + v e else D.dn e } := by
  induction es generalizing D with
  | nil => simp
  | cons a es ih =>
    obtain ⟨ha, hnd⟩ := List.nodup_cons.mp hnd
    rw [List.foldl_cons, ih hnd]
    congr 1
    all_goals
      funext e
      by_cases hea : e = a
      · subst hea
        simp [ha]
      · simp [hea]

theorem mapM_eq_ok_map {α β ε : Type} {f : α → Except ε β} {F : α → β} {l : List α}
    (h : ∀ a ∈ l, f a = .ok (F a)) : l.mapM f = .ok (l.map F) := by
  induction l with
  | nil => rfl
  | cons a l ih =>
    rw [List.mapM_cons, h a List.mem_cons_self, ih fun b hb => h b (List.mem_cons_of_mem a hb)]
    rfl

omit [CommRing R] in
theorem LayerWeights.ext_at {W W' : LayerWeights R H I} (hgu : ∀ e, W.gu e = W'.gu e)
    (hdn : ∀ e, W.dn e = W'.dn e) : W = W' := by
  cases W
  cases W'
  congr 1
  · exact funext hgu
  · exact funext hdn

/-- What one `backward` adds. -/
theorem addGradients_eq (A : Autograd R) (actFn : R → R) (lr : R) {live : List ℕ}
    (hnd : live.Nodup) (rows : ℕ → List ((Fin H → R) × (Fin H → R) × R))
    (leaves D : LayerWeights R H I) :
    addGradients A actFn lr (live.map fun e => (e, rows e)) leaves D
      = { gu := fun e => if e ∈ live then D.gu e + (-lr) • A.grad
            (fun X => term actFn (rows e) X (leaves.dn e)) (leaves.gu e) else D.gu e
          dn := fun e => if e ∈ live then D.dn e + (-lr) • A.grad
            (fun X => term actFn (rows e) (leaves.gu e) X) (leaves.dn e) else D.dn e } := by
  unfold addGradients surrogate
  simp only [List.foldl_map, List.map_map, Function.comp_def]
  rw [foldl_updates (fun e => (-lr) • A.grad (fun X => (live.map fun i =>
      term actFn (rows i) (Function.update leaves.gu e X i) (leaves.dn i)).sum) (leaves.gu e))
    (fun e => (-lr) • A.grad (fun X => (live.map fun i =>
      term actFn (rows i) (leaves.gu i) (Function.update leaves.dn e X i)).sum) (leaves.dn e)) hnd]
  refine LayerWeights.ext_at (fun e => ?_) (fun e => ?_)
  · by_cases he : e ∈ live
    · simp only [he, if_true]
      rw [grad_sum_of_mem A hnd he (fun i X => term actFn (rows i) X (leaves.dn i)) leaves.gu]
    · simp only [he, if_false]
  · by_cases he : e ∈ live
    · simp only [he, if_true]
      rw [grad_sum_of_mem A hnd he (fun i X => term actFn (rows i) (leaves.gu i) X) leaves.dn]
    · simp only [he, if_false]

section run

variable [Inhabited R] {idx : Fin n → Fin k → Fin E} {w : Fin n → Fin k → R} {p : RoutedPairs R}
  (hp : Sliced idx w p) (A : Autograd R) (actFn : R → R) (lr : R) (W D : LayerWeights R H I)
  (h g : Fin n → Fin H → R)

include hp in
/-- **A chunk moves its experts, each from the weights before the step.** -/
theorem chunkStep_moved {es : List ℕ} {c0 c1 : ℕ} (hc : c1 ≤ E)
    (hdisj : ∀ e ∈ List.range' c0 (c1 - c0), e ∉ es) :
    chunkStep A actFn lr W h g p (moved A actFn lr W (rowsOf idx w h g) D es) (c0, c1)
      = .ok (moved A actFn lr W (rowsOf idx w h g) D (es ++ List.range' c0 (c1 - c0))) := by
  have hempty : ∀ e, rowsOf idx w h g e = [] ↔ pairsOf idx e = [] := fun e => List.map_eq_nil_iff
  have hblock : ∀ {e}, e ∈ List.range' c0 (c1 - c0) ↔ c0 ≤ e ∧ e < c1 := by
    intro e
    rw [List.mem_range'_1]
    omega
  unfold chunkStep
  split
  · rename_i hskip
    -- no expert of the chunk has pairs
    refine congrArg Except.ok (moved_congr fun e hne => ?_)
    rw [List.mem_append, or_iff_left_of_imp]
    intro he
    obtain ⟨hlo, hhi⟩ := hblock.mp he
    exfalso
    have hfirst := hp.off_mono hlo (by omega)
    have hlast := hp.off_mono (show e + 1 ≤ c1 by omega) hc
    have hsucc := hp.off_succ e (by omega)
    have hlen : (pairsOf idx e).length ≠ 0 := by
      rw [Ne, List.length_eq_zero_iff, ← hempty e]
      exact hne
    dsimp only at hskip
    omega
  · rename_i hgo
    have hlive : ∀ e ∈ List.range' c0 (c1 - c0),
        (p.off.getD (e + 1) 0 ≠ p.off.getD e 0 ↔ rowsOf idx w h g e ≠ []) := by
      intro e he
      obtain ⟨-, hhi⟩ := hblock.mp he
      have hsucc := hp.off_succ e (by omega)
      have hzero : rowsOf idx w h g e = [] ↔ (pairsOf idx e).length = 0 := by
        rw [hempty, List.length_eq_zero_iff]
      rw [Ne, Ne, hzero]
      omega
    set live := (List.range' c0 (c1 - c0)).filter fun e =>
      p.off.getD (e + 1) 0 ≠ p.off.getD e 0 with hdef
    have hmem : ∀ {e}, e ∈ live ↔ e ∈ List.range' c0 (c1 - c0) ∧ rowsOf idx w h g e ≠ [] := by
      intro e
      rw [hdef, List.mem_filter, decide_eq_true_eq]
      exact and_congr_right fun he => hlive e he
    have hrows : (live.mapM fun e => do return (e, ← segmentRows h g p e))
        = .ok (live.map fun e => (e, rowsOf idx w h g e)) := by
      refine mapM_eq_ok_map fun e he => ?_
      obtain ⟨-, hhi⟩ := hblock.mp (hmem.mp he).1
      rw [segmentRows_of_sliced hp h g (by omega)]
      rfl
    rw [hrows, ok_bind]
    refine congrArg Except.ok ?_
    have hnd : live.Nodup := (List.nodup_range' ..).filter _
    clear_value live
    rw [addGradients_eq A actFn lr hnd]
    -- the leaves of the chunk are not in the list, so they are those before the step
    have hleaf : ∀ e ∈ live, e ∉ es := fun e he => hdisj e (hmem.mp he).1
    refine LayerWeights.ext_at (fun e => ?_) (fun e => ?_)
    all_goals
      by_cases he : e ∈ live
      · obtain ⟨hblk, hne⟩ := hmem.mp he
        have hin : e ∈ es ++ List.range' c0 (c1 - c0) := List.mem_append_right es hblk
        simp only [moved, LayerWeights.plus, he, hne, hleaf e he, hin, if_true, if_false, ne_eq,
          not_false_eq_true, and_true]
      · by_cases hne : rowsOf idx w h g e = []
        · simp only [moved, he, hne, if_false, ne_eq, not_true_eq_false, and_false]
        · have hblk : e ∉ List.range' c0 (c1 - c0) := fun hb => he (hmem.mpr ⟨hb, hne⟩)
          simp only [moved, he, if_false, List.mem_append, hblk, or_false]

include hp in
/-- The loop over some chunks. -/
theorem foldlM_chunks {K : ℕ} (cs es : List ℕ)
    (hnd : (es ++ cs.flatMap fun c => List.range' c (min E (c + K) - c)).Nodup) :
    (cs.map fun c => (c, min E (c + K))).foldlM (chunkStep A actFn lr W h g p)
        (moved A actFn lr W (rowsOf idx w h g) D es)
      = .ok (moved A actFn lr W (rowsOf idx w h g) D
          (es ++ cs.flatMap fun c => List.range' c (min E (c + K) - c))) := by
  induction cs generalizing es with
  | nil => rw [List.flatMap_nil, List.append_nil]; rfl
  | cons c cs ih =>
    rw [List.flatMap_cons, ← List.append_assoc] at hnd ⊢
    have hfirst := (List.nodup_append.mp hnd).1
    have hdisj : ∀ e ∈ List.range' c (min E (c + K) - c), e ∉ es :=
      fun e he hes => (List.nodup_append.mp hfirst).2.2 e hes e he rfl
    rw [List.map_cons, List.foldlM_cons,
      chunkStep_moved hp A actFn lr W D h g (Nat.min_le_left ..) hdisj, ok_bind]
    exact ih _ hnd

include hp in
/-- **A step moves every expert with pairs, whatever the chunk size.** -/
theorem innerStep_eq (K : ℕ) :
    innerStep A actFn E K lr W h g p D
      = .ok (moved A actFn lr W (rowsOf idx w h g) D (List.range E)) := by
  have hcover := flatMap_blocks E (Nat.le_max_left 1 K)
  have hrun := foldlM_chunks hp A actFn lr W D h g (starts E (max 1 K)) []
    (K := max 1 K) (by rw [List.nil_append, hcover]; exact List.nodup_range)
  have hnone : moved A actFn lr W (rowsOf idx w h g) D [] = D := by
    refine LayerWeights.ext_at (fun e => ?_) (fun e => ?_)
    · simp [moved]
    · simp [moved]
  rw [List.nil_append, hcover, hnone] at hrun
  exact hrun

end run

end step

/-! ## Partial derivatives -/

/-- The partial derivatives of a scalar by the entries of a matrix. -/
noncomputable def partials {m n : ℕ} (L : Matrix (Fin m) (Fin n) ℝ → ℝ)
    (W : Matrix (Fin m) (Fin n) ℝ) : Matrix (Fin m) (Fin n) ℝ :=
  fun i j => deriv (fun x => L (W.updateRow i (Function.update (W i) j x))) (W i j)

noncomputable def Autograd.real : Autograd ℝ where
  grad := partials
  grad_add_const L c := by
    funext W i j
    exact congrFun (deriv_add_const' c) (W i j)
  grad_const c := by
    funext W i j
    exact deriv_const (W i j) c

section claim

variable {n k E H I : ℕ}

/-- The sum over an expert's pairs of the weight times `f_e(h) . g`. -/
def pairTerm (idx : Fin n → Fin k → Fin E) (w : Fin n → Fin k → ℝ) (h g : Fin n → Fin H → ℝ)
    (actFn : ℝ → ℝ) (e : ℕ) (Wg : Matrix (Fin (I + I)) (Fin H) ℝ) (Wd : Matrix (Fin H) (Fin I) ℝ) :
    ℝ :=
  ∑ t, ∑ s, if (idx t s : ℕ) = e then w t s * ∑ j, ffn actFn Wg Wd (h t) j * g t j else 0

theorem term_rowsOf (idx : Fin n → Fin k → Fin E) (w : Fin n → Fin k → ℝ)
    (h g : Fin n → Fin H → ℝ) (actFn : ℝ → ℝ) (e : ℕ) (Wg : Matrix (Fin (I + I)) (Fin H) ℝ)
    (Wd : Matrix (Fin H) (Fin I) ℝ) :
    term actFn (rowsOf idx w h g e) Wg Wd = pairTerm idx w h g actFn e Wg Wd := by
  unfold term rowsOf pairTerm pairsOf
  rw [List.map_map, ← Fintype.sum_prod_type' (f := fun t s => if (idx t s : ℕ) = e then
    w t s * ∑ j, ffn actFn Wg Wd (h t) j * g t j else 0), ← Finset.sum_filter]
  have hnd : (((List.finRange n).product (List.finRange k)).filter fun q =>
      (idx q.1 q.2 : ℕ) = e).Nodup :=
    ((List.nodup_finRange n).product (List.nodup_finRange k)).filter _
  rw [← List.sum_toFinset _ hnd]
  refine Finset.sum_congr (Finset.ext fun q => ?_) fun q _ => rfl
  rw [List.mem_toFinset, List.mem_filter, Finset.mem_filter, decide_eq_true_eq]
  refine and_congr_left fun _ => iff_of_true ?_ (Finset.mem_univ q)
  exact List.pair_mem_product.mpr ⟨List.mem_finRange q.1, List.mem_finRange q.2⟩

/-- **The chunked layer step equals the per-expert definition.** -/
theorem inner_step_of_slice (hn : n ≤ 2 ^ 31) (idx : Fin n → Fin k → Fin E)
    (w : Fin n → Fin k → ℝ) :
    Sliced idx w (cacheSlice idx w)
    ∧ ∀ (actFn : ℝ → ℝ) (lr : ℝ) (W D : LayerWeights ℝ H I) (h g : Fin n → Fin H → ℝ),
      ∃ D', (∀ K, 1 ≤ K →
          innerStep Autograd.real actFn E K lr W h g (cacheSlice idx w) D = .ok D')
        ∧ ∀ e < E,
          D'.gu e = D.gu e + (-lr) • partials
            (fun X => pairTerm idx w h g actFn e X (W.dn e + D.dn e)) (W.gu e + D.gu e)
          ∧ D'.dn e = D.dn e + (-lr) • partials
            (fun X => pairTerm idx w h g actFn e (W.gu e + D.gu e) X) (W.dn e + D.dn e)
          ∧ ((∀ t s, (idx t s : ℕ) ≠ e) → D'.gu e = D.gu e ∧ D'.dn e = D.dn e) := by
  have hsliced := sliced_cacheSlice hn idx w
  refine ⟨hsliced, fun actFn lr W D h g => ⟨_, fun K _ =>
    innerStep_eq hsliced Autograd.real actFn lr W D h g K, fun e he => ?_⟩⟩
  have hin : e ∈ List.range E := List.mem_range.mpr he
  -- an expert without pairs has a constant term
  have hnil : rowsOf idx w h g e = [] → ∀ Wg : Matrix (Fin (I + I)) (Fin H) ℝ,
      ∀ Wd : Matrix (Fin H) (Fin I) ℝ, pairTerm idx w h g actFn e Wg Wd = 0 := by
    intro hrows Wg Wd
    rw [← term_rowsOf, hrows]
    rfl
  refine ⟨?_, ?_, fun hno => ?_⟩
  · by_cases hrows : rowsOf idx w h g e = []
    · simp only [hnil hrows]
      rw [show partials (fun _ : Matrix (Fin (I + I)) (Fin H) ℝ => (0 : ℝ)) = 0 from
        Autograd.real.grad_const 0]
      simp [moved, hrows]
    · simp only [← term_rowsOf]
      exact if_pos ⟨hin, hrows⟩
  · by_cases hrows : rowsOf idx w h g e = []
    · simp only [hnil hrows]
      rw [show partials (fun _ : Matrix (Fin H) (Fin I) ℝ => (0 : ℝ)) = 0 from
        Autograd.real.grad_const 0]
      simp [moved, hrows]
    · simp only [← term_rowsOf]
      exact if_pos ⟨hin, hrows⟩
  · have hrows : rowsOf idx w h g e = [] := by
      unfold rowsOf pairsOf
      rw [List.map_eq_nil_iff, List.filter_eq_nil_iff]
      intro q _
      simpa using hno q.1 q.2
    exact ⟨if_neg fun h => h.2 hrows, if_neg fun h => h.2 hrows⟩

/-- The first slot of each token goes to the first expert and the second to the second. -/
def slotRouting : Fin 2 → Fin 2 → Fin 2 := fun _ s => s

theorem inner_step_of_slice_two :
    Sliced slotRouting (fun _ _ => (1 : ℝ)) (cacheSlice slotRouting fun _ _ => (1 : ℝ))
      ∧ ∃ D' : LayerWeights ℝ 1 1, innerStep Autograd.real id 2 1 1
          ⟨fun _ => !![1; 1], fun _ => !![1]⟩ (fun (_ : Fin 2) _ => 1) (fun _ _ => 1)
          (cacheSlice slotRouting fun _ _ => (1 : ℝ)) ⟨fun _ => 0, fun _ => 0⟩ = .ok D' := by
  obtain ⟨hsliced, hstep⟩ := inner_step_of_slice (n := 2) (H := 1) (I := 1) (by decide)
    slotRouting fun _ _ => 1
  obtain ⟨D', hD', -⟩ := hstep id 1 ⟨fun _ => !![1; 1], fun _ => !![1]⟩ ⟨fun _ => 0, fun _ => 0⟩
    (fun _ _ => 1) fun _ _ => 1
  exact ⟨hsliced, D', hD' 1 le_rfl⟩

end claim

end NeuraHash.GradCache
