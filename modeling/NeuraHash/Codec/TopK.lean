import NeuraHash.Python.Float32
import NeuraHash.Systems.RankSelect

/-!
# The largest entries of a delta (`neurahash/delta_codec.py`)

`quantizeTopk` keeps the `k` entries of a tensor with the largest absolute value. It reads the
tensor in blocks: two histograms of 16 bits each give the key of the `k`-th largest entry
(`kthLargestAbsKey`), a third pass gathers what is above it and the first of what is at it. The
outcome is what a sort would give, whatever the length of a block (`quantizeTopk_keeps_first`).
-/

namespace NeuraHash

open Py RankSelect

/-! ## Arrays of counts -/

/-- `np.bincount(xs, minlength=minlength)`. -/
def bincount (xs : List ℕ) (minlength : ℕ) : List ℕ :=
  (List.range (max minlength (xs.foldr (fun x m => max (x + 1) m) 0))).map (fun b => xs.count b)

/-- `h += counts`, of one length. -/
def addCounts (h counts : List ℕ) : List ℕ := List.zipWith (· + ·) h counts

/-- `np.cumsum`. -/
def cumsum (l : List ℕ) : List ℕ := (l.scanl (· + ·) 0).tail

/-- `np.cumsum(h[::-1])[::-1]`. -/
def suffixSums (h : List ℕ) : List ℕ := (cumsum h.reverse).reverse

/-- `np.flatnonzero` of a condition on the entries. -/
def flatnonzero {α : Type} (p : α → Bool) (xs : List α) : List ℕ :=
  (List.range xs.length).filter (fun i => (xs[i]?).any p)

/-! ## The threshold -/

/-- `np.abs(a[s:min(s + _CHUNK, n)]).view(np.uint32)`. -/
def chunkKeys (chunk : ℕ) (a : List NpFloat32) (s : ℕ) : List (BitVec 32) :=
  (slice a s (min (s + chunk) a.length)).map (fun x => x.abs.view)

/-- The high 16 bits of keys. -/
def highHalves (key : List (BitVec 32)) : List ℕ := key.map fun x : BitVec 32 => (x >>> 16).toNat

/-- The low 16 bits of the keys of bucket `H`. -/
def lowHalves (H : ℕ) (key : List (BitVec 32)) : List ℕ :=
  (key.filter (fun x : BitVec 32 => x >>> 16 == BitVec.ofNat 32 H)).map
    (fun x => (x &&& 0xFFFF#32).toNat)

/-- `_kth_largest_abs_key(a, k)`, for `0 < k < n`: the key of the `k`-th largest absolute value, the
number of entries above it, and how many at it are still to be kept. -/
def kthLargestAbsKey (chunk : ℕ) (a : List NpFloat32) (k : ℕ) : BitVec 32 × ℕ × ℕ :=
  let starts := blockStarts a.length chunk
  let histA := starts.foldl (fun hist s =>
    addCounts hist (bincount (highHalves (chunkKeys chunk a s)) (2 ^ 16)))
    (List.replicate (2 ^ 16) 0)
  let cntA := suffixSums histA
  let H := cntA.countP (fun c => k ≤ c) - 1
  let nAbove := cntA.getD H 0 - histA.getD H 0
  let kk2 := k - nAbove
  let histB := starts.foldl (fun hist s =>
    let lo := lowHalves H (chunkKeys chunk a s)
    if lo.isEmpty then hist else addCounts hist (bincount lo (2 ^ 16)))
    (List.replicate (2 ^ 16) 0)
  let cntB := suffixSums histB
  let L := cntB.countP (fun c => kk2 ≤ c) - 1
  let nAboveB := cntB.getD L 0 - histB.getD L 0
  (BitVec.ofNat 32 (H <<< 16 ||| L), nAbove + nAboveB, kk2 - nAboveB)

/-! ## The kept entries -/

/-- What the third pass carries: the parts with a larger key, those with an equal one, and how many
of these are still missing. -/
structure TopkParts where
  gtParts : List (List ℕ)
  eqParts : List (List ℕ)
  eqLeft : ℕ

/-- The third pass over one block. -/
def gatherBlock (chunk : ℕ) (a : List NpFloat32) (T : BitVec 32) (parts : TopkParts) (s : ℕ) :
    TopkParts :=
  let key := chunkKeys chunk a s
  let g := flatnonzero (fun x => T < x) key
  let gtParts := if g.isEmpty then parts.gtParts else parts.gtParts ++ [g.map (· + s)]
  if parts.eqLeft = 0 then { parts with gtParts := gtParts }
  else
    let eqp := (flatnonzero (fun x => x == T) key).take parts.eqLeft
    if eqp.isEmpty then { parts with gtParts := gtParts }
    else
      { gtParts := gtParts
        eqParts := parts.eqParts ++ [eqp.map (· + s)]
        eqLeft := parts.eqLeft - eqp.length }

/-- The indices that are kept, in ascending order. -/
def keptIndices (chunk : ℕ) (a : List NpFloat32) (k : ℕ) : List ℕ :=
  if a.length ≤ k then List.range a.length
  else
    let (T, _, needEq) := kthLargestAbsKey chunk a k
    let parts := (blockStarts a.length chunk).foldl (gatherBlock chunk a T) ⟨[], [], needEq⟩
    (parts.gtParts ++ parts.eqParts).flatten.insertionSort (· ≤ ·)

/-- `min(max(1, int(round(topk_fraction * n))), n)`. -/
def keptCount (topkFraction : PyFloat) (n : ℕ) : Except PyErr ℕ :=
  match topkFraction * .fin n with
  | .fin x => .ok (min (max 1 (roundHalfEven x)).toNat n)
  | .nan => .error .valueError
  | _ => .error .overflowError

/-- `float(np.max(np.abs(vals)))`, of at least one entry. -/
def maxAbs (vals : List NpFloat32) : PyFloat :=
  (vals.map fun x => x.toFloat.abs).foldl
    (fun m x => if m = .nan ∨ x = .nan then .nan else if m.lt x then x else m) 0

/-- What `quantize_topk` returns. -/
structure Quantized where
  idx : List ℕ
  q : List ℤ
  scale : PyFloat

/-- `quantize_topk(arr, topk_fraction, bits=bits)` of a tensor that is flat. `onGrid` is
`np.clip(np.round(v / scale), -qmax, qmax).astype(np.int8)`. -/
def quantizeTopk (onGrid : ℤ → PyFloat → NpFloat32 → ℤ) (chunk : ℕ) (a : List NpFloat32)
    (topkFraction : PyFloat) (bits : ℤ) : Except PyErr Quantized := do
  if bits ≠ 4 ∧ bits ≠ 8 then throw .valueError
  if a.length = 0 then return ⟨[], [], .fin 1⟩
  let k ← keptCount topkFraction a.length
  let idx := keptIndices chunk a k
  let vals := idx.filterMap (a[·]?)
  if (maxAbs vals).eq 0 then return ⟨idx, List.replicate idx.length 0, .fin 1⟩
  let qmax : ℤ := if bits = 8 then 127 else 7
  let scale := maxAbs vals / .fin qmax
  return ⟨idx, vals.map (onGrid qmax scale), scale⟩

/-! ## Histograms -/

theorem foldr_bound {xs : List ℕ} {m : ℕ} (h : ∀ x ∈ xs, x < m) :
    xs.foldr (fun x b => max (x + 1) b) 0 ≤ m := by
  induction xs with
  | nil => exact Nat.zero_le m
  | cons x xs ih =>
    have hx := h x (by simp)
    have hxs := ih fun y hy => h y (List.mem_cons_of_mem x hy)
    rw [List.foldr_cons]
    omega

/-- The counts of keys below the length. -/
theorem bincount_eq {xs : List ℕ} {m : ℕ} (h : ∀ x ∈ xs, x < m) :
    bincount xs m = (List.range m).map (fun b => xs.count b) := by
  rw [bincount, Nat.max_eq_left (foldr_bound h)]

theorem addCounts_count (m : ℕ) (xs ys : List ℕ) :
    addCounts ((List.range m).map (fun b => xs.count b)) ((List.range m).map (fun b => ys.count b))
      = (List.range m).map (fun b => (xs ++ ys).count b) := by
  simp only [addCounts, List.count_append, List.zipWith_map, List.zipWith_self]

theorem cumsum_concat (h : List ℕ) (x : ℕ) : cumsum (h ++ [x]) = cumsum h ++ [h.sum + x] := by
  rw [cumsum, List.scanl_append, List.tail_append_of_ne_nil List.scanl_ne_nil,
    ← List.sum_eq_foldl]
  rfl

theorem suffixSums_cons (x : ℕ) (h : List ℕ) :
    suffixSums (x :: h) = (h.sum + x) :: suffixSums h := by
  rw [suffixSums, suffixSums, List.reverse_cons, cumsum_concat, List.reverse_append,
    List.sum_reverse]
  rfl

/-- The counts of the keys from each number on. -/
theorem suffixSums_count {xs : List ℕ} (m : ℕ) :
    ∀ s, (∀ x ∈ xs, x < s + m) →
      suffixSums ((List.range' s m).map (fun b => xs.count b))
        = (List.range' s m).map (fun b => xs.countP (fun x => b ≤ x)) ∧
      ((List.range' s m).map (fun b => xs.count b)).sum = xs.countP (fun x => s ≤ x) := by
  induction m with
  | zero =>
    intro s hbound
    refine ⟨rfl, ?_⟩
    show 0 = _
    refine (List.countP_eq_zero.mpr fun x hx => ?_).symm
    have := hbound x hx
    rw [decide_eq_true_eq]
    omega
  | succ m ih =>
    intro s hbound
    have hrest := ih (s + 1) fun x hx => by
      have := hbound x hx
      omega
    have hsplit : xs.count s + xs.countP (fun x => s + 1 ≤ x) = xs.countP (fun x => s ≤ x) :=
      count_add_above xs s
    rw [List.range'_succ, List.map_cons, List.map_cons, suffixSums_cons, List.sum_cons, hrest.1,
      hrest.2, Nat.add_comm _ (xs.count s), hsplit]
    exact ⟨rfl, rfl⟩

/-- The histogram of keys below `m`. -/
def histogram (m : ℕ) (xs : List ℕ) : List ℕ := (List.range m).map (fun b => xs.count b)

/-- The rank that the counts of a histogram give: its number, what is above it, and what remains. -/
theorem isRank_of_histogram (xs : List ℕ) {m k : ℕ} (hk : 0 < k) (hlen : k ≤ xs.length)
    (hbound : ∀ x ∈ xs, x < m) :
    let b := (suffixSums (histogram m xs)).countP (fun c => k ≤ c) - 1
    IsRank xs k b ∧ b < m ∧
      (suffixSums (histogram m xs)).getD b 0 - (histogram m xs).getD b 0
        = xs.countP (fun x => b < x) := by
  have hsums : suffixSums (histogram m xs)
      = (List.range m).map (fun b => xs.countP (fun x => b ≤ x)) := by
    rw [histogram, List.range_eq_range']
    exact (suffixSums_count m 0 fun x hx => (Nat.zero_add m).symm ▸ hbound x hx).1
  intro b
  have hb : b = (List.range m).countP (fun b => k ≤ xs.countP (fun x => b ≤ x)) - 1 := by
    show (suffixSums (histogram m xs)).countP _ - 1 = _
    rw [hsums, List.countP_map]
    rfl
  have hrank := isRank_of_counts hk hlen hbound
  rw [← hb] at hrank
  refine ⟨hrank.1, hrank.2, ?_⟩
  have hcount := count_add_above xs b
  rw [hsums, histogram, List.getD_eq_getElem?_getD, List.getD_eq_getElem?_getD, List.getElem?_map,
    List.getElem?_map, List.getElem?_range hrank.2]
  show xs.countP _ - xs.count b = _
  omega

/-! ## The two passes -/

section passes

variable {chunk : ℕ} {a : List NpFloat32}

/-- The keys of all entries. -/
def absKeys (a : List NpFloat32) : List (BitVec 32) := a.map (fun x => x.abs.view)

theorem absKeys_append_chunk (done : List NpFloat32) (s : ℕ) :
    absKeys (done ++ slice a s (min (s + chunk) a.length))
      = absKeys done ++ chunkKeys chunk a s := by
  rw [absKeys, List.map_append]
  rfl

/-- **A histogram that is summed over the blocks is the histogram of all keys.** A block without
digits may be passed over. -/
theorem foldl_histogram (hchunk : 0 < chunk) {m : ℕ} (digits : List (BitVec 32) → List ℕ)
    {step : List ℕ → ℕ → List ℕ} (hnil : digits [] = [])
    (happend : ∀ xs ys, digits (xs ++ ys) = digits xs ++ digits ys)
    (hbound : ∀ xs, ∀ x ∈ digits xs, x < m)
    (hstep : ∀ hist s, step hist s = addCounts hist (bincount (digits (chunkKeys chunk a s)) m) ∨
      digits (chunkKeys chunk a s) = [] ∧ step hist s = hist) :
    (blockStarts a.length chunk).foldl step (List.replicate m 0)
      = histogram m (digits (absKeys a)) := by
  refine blocks_invariant hchunk (l := a)
    (fun done hist => hist = histogram m (digits (absKeys done))) ?_ ?_
  · show List.replicate m 0 = histogram m (digits [])
    rw [hnil, histogram]
    simp only [List.count_nil, List.map_const', List.length_range]
  · rintro done hist s - rfl
    rw [absKeys_append_chunk, happend]
    rcases hstep (histogram m (digits (absKeys done))) s with h | ⟨hempty, h⟩
    · rw [h, bincount_eq (hbound _)]
      exact addCounts_count m _ _
    · rw [h, hempty, List.append_nil]

theorem highHalves_eq (key : List (BitVec 32)) :
    highHalves key = (key.map BitVec.toNat).map (· / 2 ^ 16) := by
  unfold highHalves
  rw [List.map_map]
  refine List.map_congr_left fun x _ => ?_
  rw [BitVec.toNat_ushiftRight, Nat.shiftRight_eq_div_pow]
  rfl

theorem lowHalves_eq {H : ℕ} (hH : H < 2 ^ 16) (key : List (BitVec 32)) :
    lowHalves H key = lowDigits (2 ^ 16) (key.map BitVec.toNat) H := by
  unfold lowHalves lowDigits
  rw [List.filter_map, List.map_map]
  have hmask : ∀ x : BitVec 32, (x &&& 0xFFFF#32).toNat = x.toNat % 2 ^ 16 := by
    intro x
    rw [BitVec.toNat_and]
    exact Nat.and_two_pow_sub_one_eq_mod x.toNat 16
  have hbucket : ∀ x : BitVec 32,
      (x >>> 16 == BitVec.ofNat 32 H) = decide (x.toNat / 2 ^ 16 = H) := by
    intro x
    rw [Bool.eq_iff_iff, beq_iff_eq, decide_eq_true_eq, ← BitVec.toNat_inj,
      BitVec.toNat_ushiftRight, Nat.shiftRight_eq_div_pow, BitVec.toNat_ofNat,
      Nat.mod_eq_of_lt (by omega)]
  rw [List.filter_congr fun x _ => hbucket x]
  exact List.map_congr_left fun x _ => hmask x

theorem highHalves_lt (key : List (BitVec 32)) : ∀ x ∈ highHalves key, x < 2 ^ 16 := by
  intro x hx
  rw [highHalves_eq] at hx
  simp only [List.mem_map] at hx
  obtain ⟨-, ⟨b, -, rfl⟩, rfl⟩ := hx
  have := b.isLt
  omega

theorem lowHalves_lt (H : ℕ) (key : List (BitVec 32)) : ∀ x ∈ lowHalves H key, x < 2 ^ 16 := by
  intro x hx
  unfold lowHalves at hx
  obtain ⟨b, -, rfl⟩ := List.mem_map.mp hx
  rw [BitVec.toNat_and]
  exact Nat.lt_of_le_of_lt Nat.and_le_right (by decide)

/-- The keys as numbers. -/
def natKeys (a : List NpFloat32) : List ℕ := (absKeys a).map BitVec.toNat

theorem length_natKeys : (natKeys a).length = a.length := by
  rw [natKeys, absKeys, List.length_map, List.length_map]

/-- **The threshold is the key of the `k`-th largest entry**, and the counts beside it are right. -/
theorem kthLargestAbsKey_spec (hchunk : 0 < chunk) {k : ℕ} (hk : 0 < k) (hlen : k ≤ a.length) :
    let (T, nGt, needEq) := kthLargestAbsKey chunk a k
    IsRank (natKeys a) k T.toNat ∧ nGt = (natKeys a).countP (fun x => T.toNat < x) ∧
      needEq = k - nGt := by
  unfold kthLargestAbsKey
  dsimp only
  -- the first pass: the high halves
  rw [foldl_histogram hchunk highHalves rfl (fun _ _ => List.map_append) highHalves_lt
    fun _ _ => .inl rfl]
  have hhigh := isRank_of_histogram (highHalves (absKeys a)) hk
    (by rw [highHalves, List.length_map, absKeys, List.length_map]; exact hlen) (highHalves_lt _)
  dsimp only at hhigh
  generalize (suffixSums (histogram (2 ^ 16) (highHalves (absKeys a)))).countP
    (fun c => k ≤ c) - 1 = H at *
  obtain ⟨hrankH, hH, haboveH⟩ := hhigh
  rw [haboveH]
  -- the second pass: the low halves of that bucket
  rw [foldl_histogram hchunk (lowHalves H) rfl
    (fun xs ys => by rw [lowHalves, List.filter_append, List.map_append]; rfl) (lowHalves_lt H)
    (fun hist s => by
      cases hlo : lowHalves H (chunkKeys chunk a s) with
      | nil => exact .inr ⟨rfl, rfl⟩
      | cons x xs => exact .inl rfl)]
  have hcount := count_add_above (highHalves (absKeys a)) H
  rw [highHalves_eq] at hcount hrankH ⊢
  have hbucket := @length_lowDigits (2 ^ 16) (natKeys a) H
  unfold natKeys at hbucket ⊢
  rw [lowHalves_eq hH]
  have habove := hrankH.above
  have hreach := hrankH.reach
  generalize hkk : k - ((List.map BitVec.toNat (absKeys a)).map (· / 2 ^ 16)).countP
    (fun x => H < x) = kk2 at *
  have hlow := isRank_of_histogram (m := 2 ^ 16) (k := kk2)
    (lowDigits (2 ^ 16) ((absKeys a).map BitVec.toNat) H) (by omega) (by omega)
    (by rw [← lowHalves_eq hH]; exact lowHalves_lt H _)
  dsimp only at hlow
  generalize (suffixSums (histogram (2 ^ 16)
    (lowDigits (2 ^ 16) ((absKeys a).map BitVec.toNat) H))).countP (fun c => kk2 ≤ c) - 1 = L at *
  obtain ⟨hrankL, hL, haboveL⟩ := hlow
  rw [haboveL]
  have hT : (BitVec.ofNat 32 (H <<< 16 ||| L)).toNat = H * 2 ^ 16 + L := by
    rw [BitVec.toNat_ofNat, ← Nat.shiftLeft_add_eq_or_of_lt hL, Nat.shiftLeft_eq]
    omega
  rw [hT]
  rw [← hkk] at hrankL
  refine ⟨isRank_digits hL hrankH hrankL, ?_, by omega⟩
  rw [countP_above_digits _ _ _ hL]

end passes

/-! ## The third pass -/

section gather

variable {chunk : ℕ} {a : List NpFloat32}

theorem flatnonzero_append {α : Type} (p : α → Bool) (xs ys : List α) :
    flatnonzero p (xs ++ ys)
      = flatnonzero p xs ++ (flatnonzero p ys).map (· + xs.length) := by
  unfold flatnonzero
  rw [List.length_append, List.range_add, List.filter_append, List.filter_map]
  congr 1
  · refine List.filter_congr fun i hi => ?_
    rw [List.getElem?_append_left (List.mem_range.mp hi)]
  · have hshift : (fun i => xs.length + i) = (· + xs.length) := funext fun i => Nat.add_comm _ _
    rw [hshift]
    refine congrArg _ (List.filter_congr fun i _ => ?_)
    rw [Function.comp_apply, List.getElem?_append_right (Nat.le_add_left _ _), Nat.add_sub_cancel]

/-- The parts that are gathered from the first entries. -/
structure Gathered (T : BitVec 32) (needEq : ℕ) (done : List NpFloat32) (parts : TopkParts) :
    Prop where
  gt : parts.gtParts.flatten = flatnonzero (fun x => T < x) (absKeys done)
  eq : parts.eqParts.flatten = (flatnonzero (fun x => x == T) (absKeys done)).take needEq
  left : parts.eqLeft = needEq - (flatnonzero (fun x => x == T) (absKeys done)).length

theorem flatten_concat_unless_empty (parts : List (List ℕ)) (l : List ℕ) (s : ℕ) :
    (if l.isEmpty then parts else parts ++ [l.map (· + s)]).flatten
      = parts.flatten ++ l.map (· + s) := by
  cases l with
  | nil => exact (List.append_nil _).symm
  | cons x l => simp

theorem Gathered.block {T : BitVec 32} {needEq : ℕ} {done : List NpFloat32} {parts : TopkParts}
    (h : Gathered T needEq done parts) :
    Gathered T needEq (done ++ slice a done.length (min (done.length + chunk) a.length))
      (gatherBlock chunk a T parts done.length) := by
  have hlen : (absKeys done).length = done.length := List.length_map _
  have hgt : (if (flatnonzero (fun x => T < x) (chunkKeys chunk a done.length)).isEmpty
        then parts.gtParts
        else parts.gtParts ++ [(flatnonzero (fun x => T < x)
          (chunkKeys chunk a done.length)).map (· + done.length)]).flatten
      = flatnonzero (fun x => T < x)
          (absKeys (done ++ slice a done.length (min (done.length + chunk) a.length))) := by
    rw [absKeys_append_chunk, flatnonzero_append, flatten_concat_unless_empty, h.gt, hlen]
  have heq := h.eq
  have hleft := h.left
  have hnew := flatnonzero_append (fun x => x == T) (absKeys done) (chunkKeys chunk a done.length)
  rw [hlen] at hnew
  unfold gatherBlock
  dsimp only
  by_cases hzero : parts.eqLeft = 0
  · -- no slot is left: what is at the threshold is passed over
    rw [if_pos hzero]
    refine ⟨hgt, ?_, ?_⟩
    · rw [absKeys_append_chunk, hnew, List.take_append_of_le_length (by omega)]
      exact heq
    · rw [absKeys_append_chunk, hnew, List.length_append]
      show parts.eqLeft = _
      omega
  · rw [if_neg hzero]
    have heqNew : (flatnonzero (fun x => x == T)
          (absKeys (done ++ slice a done.length (min (done.length + chunk) a.length)))).take needEq
        = parts.eqParts.flatten
          ++ ((flatnonzero (fun x => x == T) (chunkKeys chunk a done.length)).take
              parts.eqLeft).map (· + done.length) := by
      rw [absKeys_append_chunk, hnew, List.take_append, heq, hleft, List.map_take]
    have hleftNew : needEq - (flatnonzero (fun x => x == T)
          (absKeys (done ++ slice a done.length (min (done.length + chunk) a.length)))).length
        = parts.eqLeft - ((flatnonzero (fun x => x == T) (chunkKeys chunk a done.length)).take
            parts.eqLeft).length := by
      rw [absKeys_append_chunk, hnew, List.length_append, List.length_map, List.length_take]
      omega
    generalize (flatnonzero (fun x => x == T) (chunkKeys chunk a done.length)).take
      parts.eqLeft = eqp at *
    cases eqp with
    | nil => exact ⟨hgt, by rw [heqNew]; exact (List.append_nil _).symm, hleftNew.symm⟩
    | cons i l => exact ⟨hgt, by rw [heqNew]; simp, hleftNew.symm⟩

theorem gathered (hchunk : 0 < chunk) (T : BitVec 32) (needEq : ℕ) :
    Gathered T needEq a
      ((blockStarts a.length chunk).foldl (gatherBlock chunk a T) ⟨[], [], needEq⟩) := by
  refine blocks_invariant hchunk (Gathered T needEq) ⟨rfl, List.take_nil.symm, rfl⟩ ?_
  rintro done parts _ rfl h
  exact h.block

/-- The key of an entry. -/
def keyAt (a : List NpFloat32) (i : ℕ) : ℕ := (natKeys a).getD i 0

theorem map_keyAt (a : List NpFloat32) : (List.range a.length).map (keyAt a) = natKeys a := by
  refine List.ext_getElem (by rw [List.length_map, List.length_range, length_natKeys]) ?_
  intro i _ hi
  rw [List.getElem_map, List.getElem_range, keyAt, List.getD_eq_getElem _ _ hi]

theorem flatnonzero_keys {p : BitVec 32 → Bool} {q : ℕ → Bool} (hp : ∀ x, p x = q x.toNat) :
    flatnonzero p (absKeys a) = (List.range a.length).filter (fun i => q (keyAt a i)) := by
  unfold flatnonzero
  rw [show (absKeys a).length = a.length from List.length_map _]
  refine List.filter_congr fun i hi => ?_
  have hi' : i < (absKeys a).length := by
    rw [absKeys, List.length_map]
    exact List.mem_range.mp hi
  have hkey : keyAt a i = ((absKeys a)[i]).toNat := by
    unfold keyAt natKeys
    rw [List.getD_eq_getElem _ _ (by rw [List.length_map]; exact hi'), List.getElem_map]
  rw [List.getElem?_eq_getElem hi', Option.any_some, hp, hkey]

/-- **What is kept is the selection at the threshold**, in ascending order. -/
theorem keptIndices_eq (hchunk : 0 < chunk) {k : ℕ} (hk : 0 < k) (hlt : k < a.length) :
    ∃ t, IsRank (natKeys a) k t ∧
      keptIndices chunk a k = (selected (keyAt a) a.length k t).insertionSort (· ≤ ·) := by
  have hspec := kthLargestAbsKey_spec hchunk hk (Nat.le_of_lt hlt)
  unfold keptIndices
  rw [if_neg (Nat.not_le.mpr hlt)]
  rcases hkth : kthLargestAbsKey chunk a k with ⟨T, nGt, needEq⟩
  rw [hkth] at hspec
  obtain ⟨hrank, hnGt, hneed⟩ := hspec
  refine ⟨T.toNat, hrank, ?_⟩
  have hparts := @gathered chunk a hchunk T needEq
  dsimp only
  have habove : flatnonzero (fun x => T < x) (absKeys a)
      = (List.range a.length).filter (fun i => T.toNat < keyAt a i) :=
    flatnonzero_keys (q := fun x => T.toNat < x) fun x => by
      rw [decide_eq_decide, BitVec.lt_def]
  have hat : flatnonzero (fun x => x == T) (absKeys a)
      = (List.range a.length).filter (fun i => keyAt a i = T.toNat) :=
    flatnonzero_keys (q := fun x => x = T.toNat) fun x => by
      rw [Bool.eq_iff_iff, beq_iff_eq, decide_eq_true_eq, BitVec.toNat_inj]
  have hcount : nGt = ((List.range a.length).filter (fun i => T.toNat < keyAt a i)).length := by
    rw [hnGt, ← map_keyAt, List.countP_map, List.countP_eq_length_filter]
    rfl
  rw [List.flatten_append, hparts.gt, hparts.eq, habove, hat, hneed, hcount]
  rfl

end gather

/-! ## The reference -/

/-- The order in which entries are to be kept: the larger absolute value first, then the lower flat
index. -/
def magnitudeBefore (a : List NpFloat32) (i j : ℕ) : Bool :=
  let x := (a.getD i ⟨0⟩).toFloat.abs
  let y := (a.getD j ⟨0⟩).toFloat.abs
  y.lt x || (x.eq y && i ≤ j)

/-- All indices in that order. -/
def magnitudeOrder (a : List NpFloat32) : List ℕ :=
  (List.range a.length).insertionSort (fun i j => magnitudeBefore a i j = true)

/-- The indices kept are the first `k` of the order, ascending. -/
structure TopKept (a : List NpFloat32) (k : ℕ) (idx : List ℕ) : Prop where
  first : idx = ((magnitudeOrder a).take k).insertionSort (· ≤ ·)
  ascending : idx.Pairwise (· < ·)
  exactly : idx.length = k

theorem magnitudeBefore_eq {a : List NpFloat32} (hfinite : ∀ x ∈ a, x.isFinite = true) :
    magnitudeBefore a = before (keyAt a) := by
  have hentry : ∀ i, (a.getD i ⟨0⟩).isFinite = true := by
    intro i
    rcases Nat.lt_or_ge i a.length with hlt | hge
    · rw [List.getD_eq_getElem _ _ hlt]
      exact hfinite _ (List.getElem_mem hlt)
    · rw [List.getD_eq_default _ _ hge]
      decide
  have hkey : ∀ i, (a.getD i ⟨0⟩).abs.view.toNat = keyAt a i := by
    intro i
    unfold keyAt natKeys absKeys
    rw [List.map_map]
    exact (@List.getD_map _ _ a ⟨0⟩ i fun x => x.abs.view.toNat).symm
  funext i j
  unfold magnitudeBefore before
  dsimp only
  rw [NpFloat32.lt_abs_toFloat (hentry j) (hentry i),
    NpFloat32.eq_abs_toFloat (hentry i) (hentry j), hkey, hkey]
  rfl

/-- The `k` largest entries, with the threshold that selects them. -/
theorem topKept_selected {a : List NpFloat32} (hfinite : ∀ x ∈ a, x.isFinite = true) {k t : ℕ}
    (hrank : IsRank (natKeys a) k t) :
    TopKept a k ((selected (keyAt a) a.length k t).insertionSort (· ≤ ·)) := by
  rw [← map_keyAt] at hrank
  have hperm := selected_perm_take hrank
  rw [← magnitudeBefore_eq hfinite] at hperm
  have hsorted := List.pairwise_insertionSort (· ≤ ·) (selected (keyAt a) a.length k t)
  have hown := List.perm_insertionSort (· ≤ ·) (selected (keyAt a) a.length k t)
  refine ⟨?_, ?_, ?_⟩
  · refine List.Perm.eq_of_pairwise' hsorted (List.pairwise_insertionSort _ _) ?_
    exact (hown.trans hperm).trans (List.perm_insertionSort _ _).symm
  · have hnodup := hown.nodup_iff.mpr nodup_selected
    exact (hsorted.and hnodup).imp fun h => Nat.lt_of_le_of_ne h.1 h.2
  · rw [hown.length_eq, length_selected hrank]

/-- When all are kept, they are kept in the order of the indices. -/
theorem topKept_all (a : List NpFloat32) : TopKept a a.length (List.range a.length) := by
  have hperm : (magnitudeOrder a).Perm (List.range a.length) := List.perm_insertionSort _ _
  refine ⟨?_, List.pairwise_lt_range, List.length_range⟩
  have hlen : (magnitudeOrder a).length = a.length := by
    rw [hperm.length_eq, List.length_range]
  rw [← hlen, List.take_length, hlen]
  refine List.Perm.eq_of_pairwise' (List.pairwise_lt_range.imp Nat.le_of_lt)
    (List.pairwise_insertionSort _ _) ?_
  exact hperm.symm.trans (List.perm_insertionSort _ _).symm

/-- **The streamed selection is the sorted one**, for every number of entries to keep. -/
theorem topKept_keptIndices {chunk : ℕ} (hchunk : 0 < chunk) {a : List NpFloat32}
    (hfinite : ∀ x ∈ a, x.isFinite = true) {k : ℕ} (hk : 0 < k) (hle : k ≤ a.length) :
    TopKept a k (keptIndices chunk a k) := by
  rcases Nat.lt_or_eq_of_le hle with hlt | rfl
  · obtain ⟨t, hrank, heq⟩ := keptIndices_eq hchunk hk hlt
    rw [heq]
    exact topKept_selected hfinite hrank
  · unfold keptIndices
    rw [if_pos (Nat.le_refl _)]
    exact topKept_all a

/-- The indices are ascending and in the tensor, whatever the entries. -/
theorem keptIndices_spec {chunk : ℕ} (hchunk : 0 < chunk) {a : List NpFloat32} {k : ℕ} (hk : 0 < k) :
    (keptIndices chunk a k).Pairwise (· < ·) ∧ ∀ i ∈ keptIndices chunk a k, i < a.length := by
  rcases Nat.lt_or_ge k a.length with hlt | hge
  · obtain ⟨t, -, heq⟩ := keptIndices_eq hchunk hk hlt
    have hown := List.perm_insertionSort (· ≤ ·) (selected (keyAt a) a.length k t)
    have hsorted := List.pairwise_insertionSort (· ≤ ·) (selected (keyAt a) a.length k t)
    have hnodup := hown.nodup_iff.mpr nodup_selected
    rw [heq]
    refine ⟨(hsorted.and hnodup).imp fun h => Nat.lt_of_le_of_ne h.1 h.2, fun i hi => ?_⟩
    exact lt_of_mem_selected (hown.mem_iff.mp hi)
  · unfold keptIndices
    rw [if_pos hge]
    exact ⟨List.pairwise_lt_range, fun i hi => List.mem_range.mp hi⟩

/-- Every number of entries is the count of a fraction. -/
theorem keptCount_div {n k : ℕ} (hk : 0 < k) (hle : k ≤ n) :
    keptCount (.fin (k / n)) n = .ok k := by
  have hn : (n : ℚ) ≠ 0 := by
    have : n ≠ 0 := by omega
    exact_mod_cast this
  unfold keptCount
  rw [PyFloat.fin_mul, div_mul_cancel₀ _ hn]
  show Except.ok (min (max 1 (roundHalfEven ((k : ℤ) : ℚ))).toNat n) = _
  rw [roundHalfEven_intCast]
  congr 1
  omega

/-- **`quantize_topk` keeps the first `k` entries of the reference order**, for every `k` from one
to the number of entries, every length of a block and every tensor of finite numbers. -/
theorem quantizeTopk_keeps_first (onGrid : ℤ → PyFloat → NpFloat32 → ℤ) {chunk : ℕ}
    (hchunk : 1 ≤ chunk) {a : List NpFloat32} (hfinite : ∀ x ∈ a, x.isFinite = true) {k : ℕ}
    (hk : 1 ≤ k) (hle : k ≤ a.length) {bits : ℤ} (hbits : bits = 4 ∨ bits = 8) :
    keptCount (.fin (k / a.length)) a.length = .ok k ∧
      ∀ topkFraction, keptCount topkFraction a.length = .ok k →
        ∃ out, quantizeTopk onGrid chunk a topkFraction bits = .ok out ∧ TopKept a k out.idx := by
  refine ⟨keptCount_div hk hle, fun topkFraction hfraction => ?_⟩
  have hkept := topKept_keptIndices hchunk hfinite hk hle
  unfold quantizeTopk
  rw [if_neg (by omega), if_neg (by omega), hfraction]
  -- both ways to quantise leave the indices alone
  dsimp only
  rw [ok_bind]
  by_cases hzero : (maxAbs ((keptIndices chunk a k).filterMap (a[·]?))).eq 0 = true
  · rw [if_pos hzero]
    exact ⟨_, rfl, hkept⟩
  · rw [if_neg hzero]
    exact ⟨_, rfl, hkept⟩

/-- At least one entry is kept, and no more than there are. -/
theorem keptCount_bounds {topkFraction : PyFloat} {n k : ℕ} (hn : n ≠ 0)
    (h : keptCount topkFraction n = .ok k) : 1 ≤ k ∧ k ≤ n := by
  unfold keptCount at h
  split at h
  · cases h
    omega
  · cases h
  · cases h

/-- What `quantize_topk` returns: nothing of an empty tensor, zeros where nothing else is kept, and
else the kept entries on the grid of the largest. -/
inductive QuantizedAs (onGrid : ℤ → PyFloat → NpFloat32 → ℤ) (a : List NpFloat32) (bits : ℤ) :
    Quantized → Prop where
  | empty (h : a = []) : QuantizedAs onGrid a bits ⟨[], [], .fin 1⟩
  | zero (k : ℕ) (idx : List ℕ) (hk : 1 ≤ k ∧ k ≤ a.length) (hkept : TopKept a k idx)
      (hzero : (maxAbs (idx.filterMap (a[·]?))).eq 0 = true) :
      QuantizedAs onGrid a bits ⟨idx, List.replicate idx.length 0, .fin 1⟩
  | grid (k : ℕ) (idx : List ℕ) (hk : 1 ≤ k ∧ k ≤ a.length) (hkept : TopKept a k idx)
      (hzero : (maxAbs (idx.filterMap (a[·]?))).eq 0 ≠ true) :
      QuantizedAs onGrid a bits ⟨idx, (idx.filterMap (a[·]?)).map
        (onGrid (if bits = 8 then 127 else 7)
          (maxAbs (idx.filterMap (a[·]?)) / .fin (if bits = 8 then (127 : ℤ) else (7 : ℤ) : ℤ))),
        maxAbs (idx.filterMap (a[·]?)) / .fin (if bits = 8 then (127 : ℤ) else (7 : ℤ) : ℤ)⟩

theorem quantizedAs_of_run {onGrid : ℤ → PyFloat → NpFloat32 → ℤ} {chunk : ℕ} (hchunk : 1 ≤ chunk)
    {a : List NpFloat32} (hfinite : ∀ x ∈ a, x.isFinite = true) {topkFraction : PyFloat} {bits : ℤ}
    {z : Quantized} (hrun : quantizeTopk onGrid chunk a topkFraction bits = .ok z) :
    (bits = 4 ∨ bits = 8) ∧ QuantizedAs onGrid a bits z := by
  unfold quantizeTopk at hrun
  by_cases hbits : bits ≠ 4 ∧ bits ≠ 8
  · rw [if_pos hbits] at hrun
    cases hrun
  rw [if_neg hbits] at hrun
  refine ⟨by omega, ?_⟩
  by_cases hempty : a.length = 0
  · rw [if_pos hempty] at hrun
    cases hrun
    exact .empty (List.length_eq_zero_iff.mp hempty)
  rw [if_neg hempty] at hrun
  obtain ⟨k, hcount, hrun⟩ := bind_eq_ok.mp hrun
  have hk := keptCount_bounds hempty hcount
  have hkept := topKept_keptIndices hchunk hfinite hk.1 hk.2
  dsimp only at hrun
  split at hrun
  · next hzero =>
    cases hrun
    exact .zero k _ hk hkept hzero
  · next hzero =>
    cases hrun
    exact .grid k _ hk hkept hzero

/-- The kept indices are in the tensor. -/
theorem TopKept.lt {a : List NpFloat32} {k : ℕ} {idx : List ℕ} (h : TopKept a k idx) :
    ∀ i ∈ idx, i < a.length := by
  intro i hi
  rw [h.first, (List.perm_insertionSort _ _).mem_iff] at hi
  have hmem := List.mem_of_mem_take hi
  rw [magnitudeOrder, (List.perm_insertionSort _ _).mem_iff] at hmem
  exact List.mem_range.mp hmem

theorem keyAt_eq {a : List NpFloat32} {i : ℕ} (hi : i < a.length) :
    keyAt a i = (a[i]).abs.bits.toNat := by
  unfold keyAt natKeys absKeys
  rw [List.getD_eq_getElem _ _ (by rw [List.length_map, List.length_map]; exact hi),
    List.getElem_map, List.getElem_map]
  rfl

/-- **A largest entry is kept.** -/
theorem TopKept.exists_largest {a : List NpFloat32} (hfinite : ∀ x ∈ a, x.isFinite = true) {k : ℕ}
    {idx : List ℕ} (h : TopKept a k idx) (hk : 1 ≤ k) (hle : k ≤ a.length) :
    ∃ i ∈ idx, ∃ hi : i < a.length, ∀ x ∈ a, x.magnitude ≤ (a[i]).magnitude := by
  have : Std.Total (fun i j => before (keyAt a) i j = true) := ⟨before_total (keyAt a)⟩
  have : IsTrans ℕ (fun i j => before (keyAt a) i j = true) := ⟨before_trans (keyAt a)⟩
  have hsorted : (magnitudeOrder a).Pairwise (fun i j => before (keyAt a) i j = true) := by
    unfold magnitudeOrder
    rw [magnitudeBefore_eq hfinite]
    exact List.pairwise_insertionSort _ _
  have hperm : (magnitudeOrder a).Perm (List.range a.length) := List.perm_insertionSort _ _
  cases horder : magnitudeOrder a with
  | nil =>
    have := hperm.length_eq
    rw [horder, List.length_nil, List.length_range] at this
    omega
  | cons i rest =>
    have hi : i < a.length := List.mem_range.mp (hperm.subset (by rw [horder]; exact List.mem_cons_self))
    refine ⟨i, ?_, hi, ?_⟩
    · obtain ⟨k, rfl⟩ : ∃ m, k = m + 1 := ⟨k - 1, by omega⟩
      rw [h.first, (List.perm_insertionSort _ _).mem_iff, horder, List.take_succ_cons]
      exact List.mem_cons_self
    · intro x hx
      obtain ⟨j, hj, rfl⟩ := List.mem_iff_getElem.mp hx
      have hmem : j ∈ magnitudeOrder a := hperm.mem_iff.mpr (List.mem_range.mpr hj)
      rw [horder, List.mem_cons] at hmem
      rcases hmem with rfl | hmem
      · exact le_rfl
      · rw [horder, List.pairwise_cons] at hsorted
        have hbefore := (before_iff (keyAt a)).mp (hsorted.1 j hmem)
        rw [keyAt_eq hi, keyAt_eq hj] at hbefore
        by_contra hlt
        have := (NpFloat32.magnitude_lt_iff _ _).mp (not_le.mp hlt)
        omega

/-- The largest of some magnitudes. -/
def maxMagnitude (vals : List NpFloat32) : ℕ := (vals.map NpFloat32.magnitude).foldl max 0

theorem foldl_max_spec (l : List ℕ) (m : ℕ) :
    m ≤ l.foldl max m ∧ (∀ x ∈ l, x ≤ l.foldl max m) ∧ (l.foldl max m = m ∨ l.foldl max m ∈ l) := by
  induction l generalizing m with
  | nil => exact ⟨le_rfl, fun x hx => absurd hx List.not_mem_nil, .inl rfl⟩
  | cons x l ih =>
    obtain ⟨hle, hall, hmem⟩ := ih (max m x)
    rw [List.foldl_cons]
    refine ⟨by omega, fun y hy => ?_, ?_⟩
    · rcases List.mem_cons.mp hy with rfl | hy
      · omega
      · exact hall y hy
    · rcases hmem with heq | hmem
      · rcases Nat.le_total x m with hxm | hmx
        · exact .inl (heq.trans (Nat.max_eq_left hxm))
        · rw [heq, Nat.max_eq_right hmx]
          exact .inr List.mem_cons_self
      · exact .inr (List.mem_cons_of_mem x hmem)

theorem le_maxMagnitude {vals : List NpFloat32} {v : NpFloat32} (hv : v ∈ vals) :
    v.magnitude ≤ maxMagnitude vals :=
  (foldl_max_spec _ 0).2.1 _ (List.mem_map_of_mem hv)

theorem exists_maxMagnitude {vals : List NpFloat32} (hne : vals ≠ []) :
    ∃ v ∈ vals, v.magnitude = maxMagnitude vals := by
  rcases (foldl_max_spec (vals.map NpFloat32.magnitude) 0).2.2 with hzero | hmem
  · -- all are zero
    obtain ⟨v, hv⟩ := List.exists_mem_of_ne_nil _ hne
    have hle := le_maxMagnitude hv
    have heq : maxMagnitude vals = 0 := hzero
    exact ⟨v, hv, by omega⟩
  · obtain ⟨v, hv, heq⟩ := List.mem_map.mp hmem
    exact ⟨v, hv, heq⟩

theorem foldl_maxAbs {vals : List NpFloat32} (hfinite : ∀ v ∈ vals, v.isFinite = true) (m : ℕ) :
    (vals.map fun x => x.toFloat.abs).foldl
        (fun m x => if m = .nan ∨ x = .nan then .nan else if m.lt x then x else m)
        (PyFloat.fin (m / 2 ^ 149))
      = .fin (((vals.map NpFloat32.magnitude).foldl max m : ℕ) / 2 ^ 149) := by
  induction vals generalizing m with
  | nil => rfl
  | cons v vals ih =>
    have habs := NpFloat32.abs_toFloat (hfinite v List.mem_cons_self)
    have hlt : ((m : ℚ) / 2 ^ 149 < v.magnitude / 2 ^ 149) ↔ m < v.magnitude := by
      rw [div_lt_div_iff_of_pos_right (by positivity), Nat.cast_lt]
    rw [List.map_cons, List.map_cons, List.foldl_cons, List.foldl_cons, habs, if_neg (by simp),
      PyFloat.fin_lt]
    rw [← ih (fun w hw => hfinite w (List.mem_cons_of_mem v hw)) (max m v.magnitude)]
    congr 1
    rcases Nat.lt_or_ge m v.magnitude with h | h
    · rw [decide_eq_true (hlt.mpr h), if_pos rfl, Nat.max_eq_right (Nat.le_of_lt h)]
    · rw [decide_eq_false (fun hlt' => Nat.not_lt.mpr h (hlt.mp hlt')), if_neg (by decide),
        Nat.max_eq_left h]

/-- `max_abs` in units. -/
theorem maxAbs_eq {vals : List NpFloat32} (hfinite : ∀ v ∈ vals, v.isFinite = true) :
    maxAbs vals = .fin (maxMagnitude vals / 2 ^ 149) := by
  have hfold := foldl_maxAbs hfinite 0
  rw [Nat.cast_zero, zero_div] at hfold
  exact hfold

/-- The grid point nearest to a value, in exact arithmetic. -/
def nearestOnGrid (qmax : ℤ) (scale : PyFloat) (v : NpFloat32) : ℤ :=
  match v.toFloat / scale with
  | .fin q => max (-qmax) (min qmax (roundHalfEven q))
  | _ => 0

/-- Two of four entries, in blocks of three: of the three that share the largest absolute value the
last one is left out. -/
theorem quantizeTopk_keeps_first_ties :
    ∃ out, quantizeTopk nearestOnGrid 3
        [⟨0x3F000000#32⟩, ⟨0xBF800000#32⟩, ⟨0x3F800000#32⟩, ⟨0x3F800000#32⟩] (.fin (1 / 2)) 8
          = .ok out ∧ out.idx = [1, 2] := by
  have hrun := @quantizeTopk_keeps_first nearestOnGrid 3 (by decide)
    [⟨0x3F000000#32⟩, ⟨0xBF800000#32⟩, ⟨0x3F800000#32⟩, ⟨0x3F800000#32⟩] (by decide) 2 (by decide)
    (by decide) 8 (by decide)
  obtain ⟨out, hout, hkept⟩ := hrun.2 (.fin (1 / 2)) (by decide +kernel)
  refine ⟨out, hout, hkept.first.trans ?_⟩
  decide +kernel

end NeuraHash
