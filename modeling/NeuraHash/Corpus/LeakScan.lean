import NeuraHash.Corpus.Buckets
import NeuraHash.Systems.Chunks
import NeuraHash.Systems.Windows

/-!
# The content-leak scan (`tools/glm_wan_prep_data.py`)

The frozen splits are the yardstick a campaign is graded by. Before a prep ships, the scan looks for
their token windows in the splits that go to the miners: a rolling hash at every position, the hash
looked up among the frozen ones, and the exact window compared where the hash is found. The prep is
aborted on a long run of adjacent hits.

`leak_check_exact_iff` says that the hits are exact whatever hashes collide, and when a run of
adjacent hits is a text shared with one frozen array: adjacent windows may come from different ones.
-/

namespace NeuraHash.LeakScan

open Py Systems

/-- `LEAK_NGRAM`. -/
def leakNgram : ℕ := 13

/-- `LEAK_ABORT_RUN`. -/
def leakAbortRun : ℕ := 16

/-- `_LEAK_BASE`. -/
def leakBase : ℕ := 1000003

/-- `_LEAK_CHUNK`. -/
def leakChunk : ℕ := 1 <<< 23

/-- A number as a `uint64`. -/
def uint64 (x : ℤ) : ℕ := (x % 2 ^ 64).toNat

/-! ## The index of the frozen windows -/

/-- One step of the polynomial hash, with numpy's wraparound. -/
def hashStep (acc : ℕ) (x : ℤ) : ℕ := uint64 (acc * leakBase + uint64 x)

/-- `_ngram_hashes(flat, n)`: the columns of the windows, one after the other. -/
def ngramHashes (flat : List ℤ) (n : ℕ) : List ℕ :=
  if flat.length < n then []
  else
    let m := flat.length - n + 1
    (List.range n).foldl (fun acc k => List.zipWith hashStep acc ((flat.drop k).take m))
      (List.replicate m 0)

/-- The sorted hashes, and the exact windows behind each; the number of shingles is that of the
hashes. -/
structure FrozenIndex where
  allh : List ℕ
  exact : Dict ℕ (PySet (List ℤ))

/-- `exact.setdefault(hv, set()).add(gram)`. -/
def addGram (exact : Dict ℕ (PySet (List ℤ))) (hv : ℕ) (gram : List ℤ) : Dict ℕ (PySet (List ℤ)) :=
  exact.set hv ((exact.getD hv Dict.empty).add gram)

/-- `frozen_ngram_index(frozen, n)`; an array is the list of its tokens, `reshape(-1)`. -/
def frozenNgramIndex (frozen : List (List ℤ)) (n : ℕ) : FrozenIndex where
  allh := sortedSet (frozen.flatMap fun flat => ngramHashes flat n)
  exact := frozen.foldl (fun exact flat => (ngramHashes flat n).zipIdx.foldl
    (fun exact hi => addGram exact hi.1 (windowAt flat n hi.2)) exact) Dict.empty

/-! ## The scan -/

/-- What the scan has found so far. -/
structure Tally where
  overlaps : ℕ
  longest : ℕ
  run : ℕ
  prev : Option ℕ
  examples : List (ℕ × List ℤ)
  deriving DecidableEq

def Tally.start : Tally := ⟨0, 0, 0, none, []⟩

/-- An overlap at a position. -/
def Tally.hit (t : Tally) (n step pos : ℕ) (gram : List ℤ) : Tally :=
  let run := match t.prev with
    | some p => if p + step = pos then t.run + 1 else 1
    | none => 1
  { overlaps := t.overlaps + 1
    longest := max t.longest ((run - 1) * step + n)
    run := run
    prev := some pos
    examples := if t.examples.length < 3 then t.examples ++ [(pos, gram)] else t.examples }

/-- `np.searchsorted(allh, h)`: how many hashes are smaller. -/
def searchsorted (allh : List ℕ) (h : ℕ) : ℕ := (allh.takeWhile (· < h)).length

/-- `allh[pos] == h`, with the positions past the end set to zero. -/
def isCandidate (allh : List ℕ) (h : ℕ) : Bool :=
  let pos := searchsorted allh h
  allh[if allh.length ≤ pos then 0 else pos]? == some h

/-- The loop over the candidates of a chunk. -/
def visitCandidate (index : FrozenIndex) (seg : List ℤ) (n step c0 : ℕ) (t : Tally) (i h : ℕ) :
    Tally :=
  let gram := windowAt seg n i
  if (index.exact.getD h Dict.empty).contains gram then t.hit n step (c0 + i) gram else t

/-- One chunk: the number of positions it checks, and the tally after it. -/
def scanChunk (index : FrozenIndex) (flat : List ℤ) (n chunk step : ℕ) (st : ℕ × Tally) (c0 : ℕ) :
    ℕ × Tally :=
  let seg := windowAt flat (chunk + n - 1) c0
  let h := ngramHashes seg n
  let offs := if 1 < step then starts h.length step else List.range h.length
  let cand := (offs.map fun i => (i, h.getD i 0)).filter fun ih => isCandidate index.allh ih.2
  (st.1 + offs.length,
    cand.foldl (fun t ih => visitCandidate index seg n step c0 t ih.1 ih.2) st.2)

/-- What the scan returns. -/
structure ScanResult where
  checked : ℕ
  overlaps : ℕ
  longest : ℕ
  examples : List (ℕ × List ℤ)
  deriving DecidableEq

/-- `ngram_leak_scan(stream, index, n, chunk, stride)`. -/
def ngramLeakScan (stream : List ℤ) (index : FrozenIndex) (n chunk : ℕ) (stride : ℤ) : ScanResult :=
  if index.allh.length = 0 ∨ stream.length < n then ⟨0, 0, 0, []⟩
  else
    let step := (max 1 stride).toNat
    let (checked, t) := (starts (stream.length - n + 1) chunk).foldl
      (scanChunk index stream n chunk step) (0, Tally.start)
    ⟨checked, t.overlaps, t.longest, t.examples⟩

/-! ## The guard -/

/-- What the abort reports. -/
structure ContentLeak where
  domain : String
  overlaps : ℕ
  longest : ℕ
  first : Option (String × ℕ × List ℤ)
  deriving DecidableEq

/-- The arrays of the splits of a kind that were carved, with their names. -/
def carvedSplits (bySplit : Dict String (List ℤ)) (splits : SplitTable) (coord : Bool) :
    List (String × List ℤ) :=
  splits.filterMap fun s =>
    if coordOnly s.1 == coord then (bySplit.get? s.1).map fun arr => (s.1, arr) else none

/-- `frozen`. -/
def frozenArrays (bySplit : Dict String (List ℤ)) (splits : SplitTable) : List (List ℤ) :=
  (carvedSplits bySplit splits true).map Prod.snd

/-- `assert_no_frozen_leak(by_split, splits, domain, stride)`. -/
def assertNoFrozenLeak (bySplit : Dict String (List ℤ)) (splits : SplitTable)
    (domain : String) (stride : ℤ) : Except ContentLeak ℕ :=
  let frozen := frozenArrays bySplit splits
  let shipped := carvedSplits bySplit splits false
  if frozen = [] ∨ shipped = [] then .ok 0
  else
    let index := frozenNgramIndex frozen leakNgram
    let scans := shipped.map fun s => (s.1, ngramLeakScan s.2 index leakNgram leakChunk stride)
    let overlaps := (scans.map fun s => s.2.overlaps).sum
    let worst := scans.foldl (fun w s => max w s.2.longest) 0
    let first := (scans.find? fun s => 0 < s.2.overlaps).bind fun s =>
      s.2.examples.head?.map fun e => (s.1, e)
    if leakAbortRun ≤ worst then .error ⟨domain, overlaps, worst, first⟩ else .ok overlaps

/-! ## The hashes -/

section hashes

variable {flat g : List ℤ} {n : ℕ}

/-- The hash of one window. -/
def polyHash (g : List ℤ) : ℕ := g.foldl hashStep 0

theorem windowAt_succ {k i : ℕ} (h : i + k < flat.length) :
    windowAt flat (k + 1) i = windowAt flat k i ++ [flat.get ⟨i + k, h⟩] := by
  unfold windowAt
  rw [List.take_add_one, List.getElem?_drop, List.getElem?_eq_getElem h]
  rfl

/-- **The columns give each window its hash.** -/
theorem ngramHashes_eq (flat : List ℤ) (n : ℕ) :
    ngramHashes flat n
      = (List.range (flat.length + 1 - n)).map fun i => polyHash (windowAt flat n i) := by
  unfold ngramHashes
  by_cases hshort : flat.length < n
  · rw [if_pos hshort, Nat.sub_eq_zero_of_le hshort]
    rfl
  · rw [if_neg hshort]
    have hm : flat.length + 1 - n = flat.length - n + 1 := by omega
    rw [hm]
    -- after `k` columns every position has the hash of its first `k` tokens
    have hcolumns : ∀ k, k ≤ n → (List.range k).foldl (fun acc k =>
        List.zipWith hashStep acc ((flat.drop k).take (flat.length - n + 1)))
          (List.replicate (flat.length - n + 1) 0)
        = (List.range (flat.length - n + 1)).map fun i => polyHash (windowAt flat k i) := by
      intro k hk
      induction k with
      | zero =>
        rw [List.range_zero, List.foldl_nil]
        show _ = (List.range _).map fun _ => 0
        rw [List.map_const', List.length_range]
      | succ k ih =>
        rw [List.range_succ, List.foldl_append, ih (by omega), List.foldl_cons, List.foldl_nil]
        refine List.ext_getElem ?_ fun i hi hi' => ?_
        · rw [List.length_zipWith, List.length_map, List.length_map, List.length_range,
            List.length_take, List.length_drop]
          omega
        · rw [List.length_map, List.length_range] at hi'
          rw [List.getElem_zipWith, List.getElem_map, List.getElem_map, List.getElem_range,
            List.getElem_take, List.getElem_drop, windowAt_succ (by omega : i + k < flat.length)]
          unfold polyHash
          rw [List.foldl_append, List.foldl_cons, List.foldl_nil]
          simp only [List.get_eq_getElem, Nat.add_comm k i]
    exact hcolumns n (Nat.le_refl n)

theorem length_ngramHashes (flat : List ℤ) (n : ℕ) :
    (ngramHashes flat n).length = flat.length + 1 - n := by
  rw [ngramHashes_eq, List.length_map, List.length_range]

theorem mem_ngramHashes {h : ℕ} :
    h ∈ ngramHashes flat n ↔ ∃ i, i + n ≤ flat.length ∧ polyHash (windowAt flat n i) = h := by
  rw [ngramHashes_eq, List.mem_map]
  refine exists_congr fun i => and_congr_left fun _ => ?_
  rw [List.mem_range]
  omega

end hashes

/-! ## What the index knows -/

section index

variable {frozen : List (List ℤ)} {n : ℕ}

/-- A window occurs inside one frozen array. -/
def Found (frozen : List (List ℤ)) (g : List ℤ) : Prop := ∃ flat ∈ frozen, g <:+: flat

instance (g : List ℤ) : Decidable (Found frozen g) := by
  unfold Found
  infer_instance

theorem mem_addGram {exact : Dict ℕ (PySet (List ℤ))} {hv h : ℕ} {gram g : List ℤ} :
    g ∈ ((addGram exact hv gram).getD h Dict.empty).keys
      ↔ (hv = h ∧ gram = g) ∨ g ∈ (exact.getD h Dict.empty).keys := by
  unfold addGram
  by_cases hh : hv = h
  · subst hh
    show g ∈ ((Dict.get? (Dict.set _ _ _) hv).getD Dict.empty).keys ↔ _
    rw [Dict.get?_set, if_pos rfl, Option.getD_some, PySet.mem_keys_add]
    simp only [true_and, eq_comm]
  · show g ∈ ((Dict.get? (Dict.set _ _ _) h).getD Dict.empty).keys ↔ _
    rw [Dict.get?_set_of_ne _ _ hh]
    simp only [hh, false_and, false_or]
    rfl

theorem mem_foldl_addGram {l : List (ℕ × List ℤ)} {exact : Dict ℕ (PySet (List ℤ))} {h : ℕ}
    {g : List ℤ} :
    g ∈ ((l.foldl (fun exact hg => addGram exact hg.1 hg.2) exact).getD h Dict.empty).keys
      ↔ (h, g) ∈ l ∨ g ∈ (exact.getD h Dict.empty).keys := by
  induction l generalizing exact with
  | nil => simp
  | cons hg l ih =>
    rw [List.foldl_cons, ih, mem_addGram, List.mem_cons, Prod.ext_iff, eq_comm (a := h),
      eq_comm (a := g)]
    tauto

theorem exact_eq (frozen : List (List ℤ)) (n : ℕ) :
    (frozenNgramIndex frozen n).exact
      = (frozen.flatMap fun flat => (ngramHashes flat n).zipIdx.map
          fun hi => (hi.1, windowAt flat n hi.2)).foldl
        (fun exact hg => addGram exact hg.1 hg.2) Dict.empty := by
  show frozen.foldl _ _ = _
  rw [List.foldl_flatMap]
  simp only [List.foldl_map]

/-- **The exact windows are those of the frozen arrays**, each behind its hash. -/
theorem mem_exact {h : ℕ} {g : List ℤ} (hg : g.length = n) :
    g ∈ ((frozenNgramIndex frozen n).exact.getD h Dict.empty).keys
      ↔ Found frozen g ∧ polyHash g = h := by
  rw [exact_eq, mem_foldl_addGram, List.mem_flatMap]
  have hnone : g ∉ ((Dict.empty : Dict ℕ (PySet (List ℤ))).getD h Dict.empty).keys :=
    List.not_mem_nil
  simp only [hnone, or_false, List.mem_map, Prod.mk.injEq, Prod.exists, List.mem_zipIdx_iff_getElem?]
  constructor
  · rintro ⟨flat, hflat, hv, i, hget, rfl, rfl⟩
    refine ⟨⟨flat, hflat, infix_windowAt flat n i⟩, ?_⟩
    rw [ngramHashes_eq, List.getElem?_map, Option.map_eq_some_iff] at hget
    obtain ⟨j, hj, rfl⟩ := hget
    obtain ⟨hlt, hij⟩ := List.getElem?_eq_some_iff.mp hj
    rw [← hij, List.getElem_range]
  · rintro ⟨⟨flat, hflat, hin⟩, rfl⟩
    obtain ⟨i, hi, hwin⟩ := infix_iff_windowAt.mp hin
    rw [hg] at hi hwin
    refine ⟨flat, hflat, polyHash g, i, ?_, rfl, hwin⟩
    rw [ngramHashes_eq, List.getElem?_map, List.getElem?_range (by omega)]
    show some (polyHash (windowAt flat n i)) = _
    rw [hwin]

theorem mem_allh {h : ℕ} : h ∈ (frozenNgramIndex frozen n).allh
    ↔ ∃ flat ∈ frozen, ∃ i, i + n ≤ flat.length ∧ polyHash (windowAt flat n i) = h := by
  show h ∈ sortedSet _ ↔ _
  rw [mem_sortedSet, List.mem_flatMap]
  simp only [mem_ngramHashes]

/-- A window that occurs is looked up. -/
theorem mem_allh_of_found {g : List ℤ} (hg : g.length = n) (h : Found frozen g) :
    polyHash g ∈ (frozenNgramIndex frozen n).allh := by
  obtain ⟨flat, hflat, hin⟩ := h
  obtain ⟨i, hi, hwin⟩ := infix_iff_windowAt.mp hin
  rw [hg] at hi hwin
  exact mem_allh.mpr ⟨flat, hflat, i, hi, congrArg polyHash hwin⟩

/-- **The binary search finds what is there.** -/
theorem isCandidate_iff {allh : List ℕ} (hsorted : allh.Pairwise (· ≤ ·)) {h : ℕ} :
    isCandidate allh h = true ↔ h ∈ allh := by
  unfold isCandidate searchsorted
  rw [beq_iff_eq]
  constructor
  · exact fun hget => List.mem_of_getElem? hget
  · intro hmem
    -- the first hash that is not smaller is the hash
    have hsplit := List.takeWhile_append_dropWhile (p := fun x => decide (x < h)) (l := allh)
    have hsmall : ∀ x ∈ allh.takeWhile (fun x => decide (x < h)), x < h := by
      intro x hx
      simpa using List.mem_takeWhile_imp hx
    have hlarge := List.head?_dropWhile_not (fun x => decide (x < h)) allh
    generalize allh.takeWhile (fun x => decide (x < h)) = pre at hsplit hsmall ⊢
    cases hdrop : allh.dropWhile (fun x => decide (x < h)) with
    | nil =>
      rw [hdrop, List.append_nil] at hsplit
      rw [← hsplit] at hmem
      exact absurd (hsmall h hmem) (Nat.lt_irrefl h)
    | cons x rest =>
      rw [hdrop] at hsplit hlarge
      have hx : ¬ x < h := by simpa using hlarge
      rw [← hsplit] at hmem hsorted ⊢
      have hlen : ¬ (pre ++ x :: rest).length ≤ pre.length := by
        rw [List.length_append, List.length_cons]
        omega
      rw [if_neg hlen, List.getElem?_append_right (Nat.le_refl _), Nat.sub_self]
      -- the hash stands at it or after it in the sorted list
      have hle : x ≤ h := by
        rcases List.mem_append.mp hmem with hpre | hrest
        · exact absurd (hsmall h hpre) (Nat.lt_irrefl h)
        · rcases List.mem_cons.mp hrest with rfl | hrest
          · exact Nat.le_refl _
          · exact List.rel_of_pairwise_cons (List.pairwise_append.mp hsorted).2.1 hrest
      show some x = some h
      exact congrArg some (Nat.le_antisymm hle (by omega))

end index

/-! ## The scan visits the positions -/

section scan

variable {frozen : List (List ℤ)} {flat : List ℤ} {n chunk step : ℕ}

/-- The window at a position occurs in a frozen array. -/
def Hit (frozen : List (List ℤ)) (flat : List ℤ) (n p : ℕ) : Prop := Found frozen (windowAt flat n p)

instance : DecidablePred (Hit frozen flat n) := fun p => by
  unfold Hit
  infer_instance

/-- A position, whatever its hash. -/
def visit (frozen : List (List ℤ)) (flat : List ℤ) (n step : ℕ) (t : Tally) (p : ℕ) : Tally :=
  if Hit frozen flat n p then t.hit n step p (windowAt flat n p) else t

/-- The offsets within a chunk of `m` windows. -/
def offsets (m step : ℕ) : List ℕ := if 1 < step then starts m step else List.range m

/-- The positions of the chunk at `c0`. -/
def chunkPositions (size chunk step c0 : ℕ) : List ℕ :=
  (offsets (min chunk (size - c0)) step).map (c0 + ·)

theorem lt_of_mem_offsets {m i : ℕ} (hstep : 1 ≤ step) (h : i ∈ offsets m step) : i < m := by
  unfold offsets at h
  split at h
  · exact ((mem_starts hstep).mp h).1
  · exact List.mem_range.mp h

/-- **A candidate is an overlap exactly when its window occurs**: equal windows have equal hashes, and
the exact windows settle the others. -/
theorem visitCandidate_eq (frozen : List (List ℤ)) (step : ℕ) {seg : List ℤ} {c0 i : ℕ}
    (hi : i + n ≤ seg.length) (hwin : windowAt seg n i = windowAt flat n (c0 + i)) (t : Tally) :
    (if isCandidate (frozenNgramIndex frozen n).allh (polyHash (windowAt seg n i))
      then visitCandidate (frozenNgramIndex frozen n) seg n step c0 t i (polyHash (windowAt seg n i))
      else t) = visit frozen flat n step t (c0 + i) := by
  have hlen : (windowAt seg n i).length = n := length_windowAt hi
  have hexact : ((frozenNgramIndex frozen n).exact.getD (polyHash (windowAt seg n i))
      Dict.empty).contains (windowAt seg n i) = true ↔ Hit frozen flat n (c0 + i) := by
    rw [Dict.contains_iff, ← Dict.mem_keys_iff, mem_exact hlen]
    unfold Hit
    rw [hwin]
    simp only [and_true]
  unfold visitCandidate visit
  by_cases hhit : Hit frozen flat n (c0 + i)
  · have hcand : isCandidate (frozenNgramIndex frozen n).allh (polyHash (windowAt seg n i)) = true := by
      refine (isCandidate_iff (sortedSet_sorted _)).mpr (mem_allh_of_found hlen ?_)
      rw [hwin]
      exact hhit
    rw [if_pos hcand, if_pos hhit]
    show (if _ then _ else _) = _
    rw [if_pos (hexact.mpr hhit), hwin]
  · rw [if_neg hhit]
    show (if _ then (if _ then _ else _) else _) = _
    rw [if_neg fun h => hhit (hexact.mp h), ite_self]

theorem scanChunk_eq (hn : 1 ≤ n) (hchunk : 1 ≤ chunk) (hstep : 1 ≤ step) (c0 : ℕ)
    (st : ℕ × Tally) :
    (scanChunk (frozenNgramIndex frozen n) flat n chunk step st c0).2
      = (chunkPositions (flat.length + 1 - n) chunk step c0).foldl (visit frozen flat n step) st.2 := by
  -- the segment of the chunk holds the windows of its positions
  have hseg : (windowAt flat (chunk + n - 1) c0).length + 1 - n
      = min chunk (flat.length + 1 - n - c0) := by
    unfold windowAt
    rw [List.length_take, List.length_drop]
    omega
  have hloop : ∀ (is : List ℕ) (t : Tally), (∀ i ∈ is, i < min chunk (flat.length + 1 - n - c0)) →
      ((is.map fun i => (i, (ngramHashes (windowAt flat (chunk + n - 1) c0) n).getD i 0)).filter
          fun ih => isCandidate (frozenNgramIndex frozen n).allh ih.2).foldl
        (fun t ih => visitCandidate (frozenNgramIndex frozen n) (windowAt flat (chunk + n - 1) c0) n
          step c0 t ih.1 ih.2) t
        = (is.map (c0 + ·)).foldl (visit frozen flat n step) t := by
    intro is
    induction is with
    | nil => exact fun t _ => rfl
    | cons i is ih =>
      intro t his
      have hi := his i (List.mem_cons_self ..)
      have hhash : (ngramHashes (windowAt flat (chunk + n - 1) c0) n).getD i 0
          = polyHash (windowAt (windowAt flat (chunk + n - 1) c0) n i) := by
        rw [ngramHashes_eq, hseg, List.getD_eq_getElem?_getD, List.getElem?_map,
          List.getElem?_range hi]
        rfl
      have hvisit := visitCandidate_eq frozen step
        (by omega : i + n ≤ (windowAt flat (chunk + n - 1) c0).length)
        (windowAt_windowAt (by omega : i + n ≤ chunk + n - 1)) t
      rw [List.map_cons, List.map_cons, List.foldl_cons, ← hvisit, ← ih _ fun j hj =>
        his j (List.mem_cons_of_mem _ hj), List.filter_cons]
      dsimp only
      rw [hhash]
      split
      · rw [List.foldl_cons]
      · rfl
  unfold scanChunk chunkPositions
  dsimp only
  rw [length_ngramHashes, hseg]
  exact hloop _ _ fun i hi => lt_of_mem_offsets hstep hi

/-- The positions the scan checks, in order. -/
def positions (size chunk step : ℕ) : List ℕ :=
  (starts size chunk).flatMap (chunkPositions size chunk step)

/-- The tally of a scan with any stride. -/
def tally (frozen : List (List ℤ)) (flat : List ℤ) (n chunk step : ℕ) : Tally :=
  (positions (flat.length + 1 - n) chunk step).foldl (visit frozen flat n step) Tally.start

theorem lt_of_mem_positions {size p : ℕ} (hstep : 1 ≤ step) (h : p ∈ positions size chunk step) :
    p < size := by
  obtain ⟨c0, -, hp⟩ := List.mem_flatMap.mp h
  obtain ⟨i, hi, rfl⟩ := List.mem_map.mp hp
  have := lt_of_mem_offsets hstep hi
  omega

/-- A multiple of the stride within a chunk is checked. -/
theorem mem_positions {size c0 i : ℕ} (hchunk : 1 ≤ chunk) (hc0 : chunk ∣ c0) (hi : step ∣ i)
    (hic : i < chunk) (hsize : c0 + i < size) (hstep : 1 ≤ step) :
    c0 + i ∈ positions size chunk step := by
  refine List.mem_flatMap.mpr ⟨c0, (mem_starts hchunk).mpr ⟨by omega, hc0⟩, ?_⟩
  refine List.mem_map.mpr ⟨i, ?_, rfl⟩
  unfold offsets
  split
  · exact (mem_starts hstep).mpr ⟨by omega, hi⟩
  · exact List.mem_range.mpr (by omega)

/-- **Every stretch of as many positions as the stride has a checked one**, also over a seam of two
chunks, where the offsets start again. -/
theorem exists_position {size i : ℕ} (hchunk : 1 ≤ chunk) (hstep : 1 ≤ step)
    (hi : i + step ≤ size) : ∃ p ∈ positions size chunk step, i ≤ p ∧ p < i + step := by
  have hmod := Nat.div_add_mod i chunk
  have hoff := Nat.mod_lt i hchunk
  generalize i % chunk = off at hmod hoff
  have hc0 : chunk ∣ chunk * (i / chunk) := Nat.dvd_mul_right ..
  generalize chunk * (i / chunk) = c0 at hmod hc0
  -- the first offset of the stride at the position or after it
  have hnext : step ∣ (off + step - 1) / step * step := Nat.dvd_mul_left ..
  have hle : off ≤ (off + step - 1) / step * step := le_starts off hstep
  have hlt : (off + step - 1) / step * step < off + step := by
    have := Nat.div_mul_le_self (off + step - 1) step
    omega
  generalize (off + step - 1) / step * step = next at hnext hle hlt
  by_cases hin : next < chunk
  · exact ⟨c0 + next, mem_positions hchunk hc0 hnext hin (by omega) hstep, by omega, by omega⟩
  · -- past the seam: the next chunk's first position
    have hseam := mem_positions hchunk (Nat.dvd_add hc0 (Nat.dvd_refl chunk)) (Nat.dvd_zero step)
      (by omega : 0 < chunk) (by omega : c0 + chunk + 0 < size) hstep
    exact ⟨c0 + chunk + 0, hseam, by omega, by omega⟩

/-- **At stride one every position is checked once, in order.** -/
theorem positions_one (size : ℕ) (hchunk : 1 ≤ chunk) : positions size chunk 1 = List.range size := by
  rw [← flatMap_blocks size hchunk]
  unfold positions
  refine List.flatMap_congr fun c0 _ => ?_
  unfold chunkPositions
  show (List.range (min chunk (size - c0))).map (c0 + ·) = _
  rw [List.range_eq_range', List.map_add_range', Nat.add_zero]
  congr 1
  omega

theorem foldl_scanChunk (hn : 1 ≤ n) (hchunk : 1 ≤ chunk) (hstep : 1 ≤ step) (cs : List ℕ)
    (st : ℕ × Tally) :
    (cs.foldl (scanChunk (frozenNgramIndex frozen n) flat n chunk step) st).2
      = (cs.flatMap (chunkPositions (flat.length + 1 - n) chunk step)).foldl
          (visit frozen flat n step) st.2 := by
  induction cs generalizing st with
  | nil => rfl
  | cons c0 cs ih =>
    rw [List.foldl_cons, ih, scanChunk_eq hn hchunk hstep, List.flatMap_cons, List.foldl_append]

/-- Positions without a hit leave the tally. -/
theorem foldl_visit_of_miss {ps : List ℕ} (h : ∀ p ∈ ps, ¬ Hit frozen flat n p) (t : Tally) :
    ps.foldl (visit frozen flat n step) t = t := by
  induction ps generalizing t with
  | nil => rfl
  | cons p ps ih =>
    rw [List.foldl_cons, ih fun q hq => h q (List.mem_cons_of_mem _ hq)]
    exact if_neg (h p (List.mem_cons_self ..))

theorem overlaps_foldl_visit (ps : List ℕ) (t : Tally) :
    (ps.foldl (visit frozen flat n step) t).overlaps
      = t.overlaps + (ps.filter fun p => decide (Hit frozen flat n p)).length := by
  induction ps generalizing t with
  | nil => rfl
  | cons p ps ih =>
    rw [List.foldl_cons, ih, List.filter_cons]
    unfold visit
    by_cases h : Hit frozen flat n p
    · rw [if_pos h, if_pos (decide_eq_true h), List.length_cons]
      show t.overlaps + 1 + _ = _
      omega
    · rw [if_neg h, if_neg (by simpa using h)]

/-- **What the scan returns is the tally of its positions.** -/
theorem ngramLeakScan_eq (hn : 1 ≤ n) (hchunk : 1 ≤ chunk) (stride : ℤ) :
    (ngramLeakScan flat (frozenNgramIndex frozen n) n chunk stride).overlaps
        = (tally frozen flat n chunk (max 1 stride).toNat).overlaps
      ∧ (ngramLeakScan flat (frozenNgramIndex frozen n) n chunk stride).longest
        = (tally frozen flat n chunk (max 1 stride).toNat).longest := by
  have hstep : 1 ≤ (max 1 stride).toNat := by omega
  unfold ngramLeakScan
  split
  · next hempty =>
    -- no window is there, or none is in the index
    have hmiss : ∀ p ∈ positions (flat.length + 1 - n) chunk (max 1 stride).toNat,
        ¬ Hit frozen flat n p := by
      intro p hp hhit
      have hlt := lt_of_mem_positions hstep hp
      rcases hempty with hnone | hshort
      · have hmem := mem_allh_of_found (length_windowAt (by omega : p + n ≤ flat.length)) hhit
        rw [List.length_eq_zero_iff.mp hnone] at hmem
        exact List.not_mem_nil hmem
      · omega
    unfold tally
    rw [foldl_visit_of_miss hmiss]
    exact ⟨rfl, rfl⟩
  · next hlong =>
    have hsize : flat.length - n + 1 = flat.length + 1 - n := by omega
    have htally : ((starts (flat.length - n + 1) chunk).foldl
        (scanChunk (frozenNgramIndex frozen n) flat n chunk (max 1 stride).toNat)
          (0, Tally.start)).2 = tally frozen flat n chunk (max 1 stride).toNat := by
      rw [foldl_scanChunk hn hchunk hstep, hsize]
      rfl
    dsimp only
    rw [htally]
    exact ⟨rfl, rfl⟩

end scan

/-! ## The longest run of hits -/

section longest

variable {frozen : List (List ℤ)} {flat : List ℤ} {n m : ℕ}

/-- After the first `m` positions: the run that stands before position `m`, if any, and the longest one
so far. -/
structure Tallied (frozen : List (List ℤ)) (flat : List ℤ) (n m : ℕ) (t : Tally) : Prop where
  prev_lt : ∀ p, t.prev = some p → p < m
  prev_of_run : 0 < runTo (Hit frozen flat n) m → t.prev = some (m - 1)
  run_of_prev : 0 < m → t.prev = some (m - 1) → t.run = runTo (Hit frozen flat n) m
  le_longest : ∀ p ≤ m, 0 < runTo (Hit frozen flat n) p →
    runTo (Hit frozen flat n) p - 1 + n ≤ t.longest
  reached : t.longest = 0 ∨ ∃ p ≤ m, 0 < runTo (Hit frozen flat n) p
    ∧ t.longest = runTo (Hit frozen flat n) p - 1 + n

theorem tallied_start (frozen : List (List ℤ)) (flat : List ℤ) (n : ℕ) :
    Tallied frozen flat n 0 Tally.start where
  prev_lt _ h := by cases h
  prev_of_run h := absurd h (Nat.lt_irrefl 0)
  run_of_prev h _ := absurd h (Nat.lt_irrefl 0)
  le_longest p hp h := by
    rw [Nat.le_zero.mp hp] at h
    exact absurd h (Nat.lt_irrefl 0)
  reached := Or.inl rfl

/-- The run at a hit is the run before it and one. -/
theorem run_hit {t : Tally} (h : Tallied frozen flat n m t) (hhit : Hit frozen flat n m)
    (gram : List ℤ) : (t.hit n 1 m gram).run = runTo (Hit frozen flat n) (m + 1) := by
  rw [runTo_succ_of_hit hhit]
  show (match t.prev with
    | some p => if p + 1 = m then t.run + 1 else 1
    | none => 1) = _
  have hno : t.prev ≠ some (m - 1) → runTo (Hit frozen flat n) m = 0 := fun hne =>
    Nat.eq_zero_of_not_pos fun hpos => hne (h.prev_of_run hpos)
  cases hprev : t.prev with
  | none =>
    rw [hno (by rw [hprev]; exact nofun)]
  | some p =>
    dsimp only
    by_cases hp : p + 1 = m
    · have hlast : t.prev = some (m - 1) := by
        rw [hprev, ← hp]
        rfl
      rw [if_pos hp, h.run_of_prev (by omega) hlast]
    · rw [if_neg hp, hno]
      rw [hprev]
      intro heq
      have := Option.some.inj heq
      have := h.prev_lt p hprev
      omega

/-- **One more position.** -/
theorem Tallied.visit {t : Tally} (h : Tallied frozen flat n m t) :
    Tallied frozen flat n (m + 1) (visit frozen flat n 1 t m) := by
  unfold LeakScan.visit
  by_cases hhit : Hit frozen flat n m
  · rw [if_pos hhit]
    have hrun := run_hit h hhit (windowAt flat n m)
    have hpos : 0 < runTo (Hit frozen flat n) (m + 1) := by
      rw [runTo_succ_of_hit hhit]
      omega
    have hlongest : (t.hit n 1 m (windowAt flat n m)).longest
        = max t.longest (runTo (Hit frozen flat n) (m + 1) - 1 + n) := by
      rw [← hrun, ← Nat.mul_one ((t.hit n 1 m (windowAt flat n m)).run - 1)]
      rfl
    constructor
    · intro p hp
      cases Option.some.inj (show some m = some p from hp)
      omega
    · exact fun _ => rfl
    · exact fun _ _ => hrun
    · intro p hp hp0
      rw [hlongest]
      by_cases hlast : p = m + 1
      · rw [hlast]
        omega
      · have := h.le_longest p (by omega) hp0
        omega
    · right
      rw [hlongest]
      rcases h.reached with hzero | ⟨p, hp, hp0, hreach⟩
      · exact ⟨m + 1, Nat.le_refl _, hpos, by omega⟩
      · by_cases hle : t.longest ≤ runTo (Hit frozen flat n) (m + 1) - 1 + n
        · exact ⟨m + 1, Nat.le_refl _, hpos, by omega⟩
        · exact ⟨p, by omega, hp0, by omega⟩
  · rw [if_neg hhit]
    have hzero := runTo_succ_of_miss hhit
    constructor
    · intro p hp
      have := h.prev_lt p hp
      omega
    · intro hpos
      rw [hzero] at hpos
      exact absurd hpos (Nat.lt_irrefl 0)
    · intro _ hp
      exact absurd (h.prev_lt _ hp) (by omega)
    · intro p hp hp0
      by_cases hlast : p = m + 1
      · rw [hlast, hzero] at hp0
        exact absurd hp0 (Nat.lt_irrefl 0)
      · exact h.le_longest p (by omega) hp0
    · rcases h.reached with hl | ⟨p, hp, hp0, hreach⟩
      · exact Or.inl hl
      · exact Or.inr ⟨p, by omega, hp0, hreach⟩

theorem tallied_range (frozen : List (List ℤ)) (flat : List ℤ) (n m : ℕ) :
    Tallied frozen flat n m ((List.range m).foldl (visit frozen flat n 1) Tally.start) := by
  induction m with
  | zero => exact tallied_start frozen flat n
  | succ m ih =>
    rw [List.range_succ, List.foldl_append, List.foldl_cons, List.foldl_nil]
    exact ih.visit

/-- Adjacent positions whose windows all occur, `k` of them from `i`. -/
def Stretch (frozen : List (List ℤ)) (flat : List ℤ) (n i k : ℕ) : Prop :=
  i + k + n ≤ flat.length + 1 ∧ ∀ j, j < k → Found frozen (windowAt flat n (i + j))

/-- The longest of the stretches, counted in tokens; zero where there is none. -/
def LongestStretch (frozen : List (List ℤ)) (flat : List ℤ) (n L : ℕ) : Prop :=
  (∀ i k, 1 ≤ k → Stretch frozen flat n i k → k - 1 + n ≤ L)
    ∧ (L = 0 ∨ ∃ i k, 1 ≤ k ∧ Stretch frozen flat n i k ∧ L = k - 1 + n)

/-- **The scan's run is the longest stretch of adjacent hits.** -/
theorem longestStretch_scan {chunk : ℕ} (hn : 1 ≤ n) (hchunk : 1 ≤ chunk) :
    LongestStretch frozen flat n
      (ngramLeakScan flat (frozenNgramIndex frozen n) n chunk 1).longest := by
  rw [(ngramLeakScan_eq hn hchunk 1).2]
  have htally : tally frozen flat n chunk (max 1 (1 : ℤ)).toNat
      = (List.range (flat.length + 1 - n)).foldl (visit frozen flat n 1) Tally.start := by
    rw [← positions_one _ hchunk]
    rfl
  rw [htally]
  have hdone := tallied_range frozen flat n (flat.length + 1 - n)
  constructor
  · rintro i k hk ⟨hik, hhits⟩
    have hrun := le_runTo (W := Hit frozen flat n) hhits
    have := hdone.le_longest (i + k) (by omega) (by omega)
    omega
  · rcases hdone.reached with hzero | ⟨p, hp, hp0, hreach⟩
    · exact Or.inl hzero
    · -- the run before `p`
      have hle := runTo_le (W := Hit frozen flat n) p
      refine Or.inr ⟨p - runTo (Hit frozen flat n) p, _, hp0, ⟨by omega, fun j hj => ?_⟩, hreach⟩
      exact hit_of_runTo (W := Hit frozen flat n) (p := p) (by omega) (by omega)

end longest

/-! ## What the check promises -/

section promises

/-- The positions whose windows occur inside one frozen array. -/
def hitPositions (frozen : List (List ℤ)) (stream : List ℤ) : List ℕ :=
  (List.range (stream.length + 1 - leakNgram)).filter
    fun p => decide (Found frozen (windowAt stream leakNgram p))

/-- The length of the longest text, of a window at least, that the stream shares with one frozen
array; zero where it shares none. -/
def LongestShared (frozen : List (List ℤ)) (stream : List ℤ) (L : ℕ) : Prop :=
  (∀ m, leakNgram ≤ m → Shared frozen stream m → m ≤ L)
    ∧ (L = 0 ∨ leakNgram ≤ L ∧ Shared frozen stream L)

/-- The scan of a stream for the windows of the frozen arrays. -/
def scanFor (frozen : List (List ℤ)) (stream : List ℤ) (chunk : ℕ) (stride : ℤ) : ScanResult :=
  ngramLeakScan stream (frozenNgramIndex frozen leakNgram) leakNgram chunk stride

/-- The overlaps are the positions that hit, and no stride misses a shared run long enough for it. -/
structure HitsExact (frozen : List (List ℤ)) (stream : List ℤ) (chunk : ℕ) : Prop where
  overlaps : (scanFor frozen stream chunk 1).overlaps = (hitPositions frozen stream).length
  sampled : ∀ stride : ℤ, Shared frozen stream (leakNgram + (max 1 stride).toNat - 1) →
    0 < (scanFor frozen stream chunk stride).overlaps

/-- And the longest run is a text shared with one frozen array. -/
structure ScanExact (frozen : List (List ℤ)) (stream : List ℤ) (chunk : ℕ) : Prop
    extends HitsExact frozen stream chunk where
  longest : LongestShared frozen stream (scanFor frozen stream chunk 1).longest

/-- No stretch of adjacent hits is longer than the texts the stream shares with one frozen array. -/
def Unstitched (frozen : List (List ℤ)) (stream : List ℤ) : Prop :=
  ∀ i k, 1 ≤ k → Stretch frozen stream leakNgram i k → Shared frozen stream (k - 1 + leakNgram)

/-- A split that ships shares a run as long as the threshold with a frozen one. -/
def Leaks (bySplit : Dict String (List ℤ)) (splits : SplitTable) : Prop :=
  ∃ s ∈ carvedSplits bySplit splits false,
    Shared (frozenArrays bySplit splits) s.2 leakAbortRun

/-- The prep is aborted exactly on a leak. -/
def AbortsExactly (bySplit : Dict String (List ℤ)) (splits : SplitTable) (domain : String) :
    Prop :=
  (∃ e, assertNoFrozenLeak bySplit splits domain 1 = .error e) ↔ Leaks bySplit splits

/-- A split that ships has as many adjacent hits as the threshold's run has windows. -/
def Stretches (bySplit : Dict String (List ℤ)) (splits : SplitTable) : Prop :=
  ∃ s ∈ carvedSplits bySplit splits false, ∃ i,
    Stretch (frozenArrays bySplit splits) s.2 leakNgram i (leakAbortRun - leakNgram + 1)

variable {frozen : List (List ℤ)} {stream : List ℤ} {n m chunk : ℕ}

/-- A shared run is a stretch of adjacent hits. -/
theorem stretch_of_shared (h : Shared frozen stream m) (hn : n ≤ m) :
    ∃ i, Stretch frozen stream n i (m - n + 1) := by
  obtain ⟨i, hi, hwin⟩ := h.windows (n := n)
  exact ⟨i, by omega, fun j hj => hwin j (by omega)⟩

theorem hitsExact (hchunk : 1 ≤ chunk) : HitsExact frozen stream chunk := by
  have hn : 1 ≤ leakNgram := by decide
  constructor
  · show (ngramLeakScan _ _ _ _ _).overlaps = _
    rw [(ngramLeakScan_eq hn hchunk 1).1]
    show (tally frozen stream leakNgram chunk 1).overlaps = _
    unfold tally
    rw [positions_one _ hchunk, overlaps_foldl_visit]
    show 0 + _ = _
    rw [Nat.zero_add]
    rfl
  · intro stride hshared
    show 0 < (ngramLeakScan _ _ _ _ _).overlaps
    rw [(ngramLeakScan_eq hn hchunk stride).1]
    have hstep : 1 ≤ (max 1 stride).toNat := by omega
    generalize (max 1 stride).toNat = step at hstep hshared ⊢
    -- the run has as many windows as the stride, so one of them is checked
    obtain ⟨i, hi, hhits⟩ := stretch_of_shared (n := leakNgram) hshared (by omega)
    obtain ⟨p, hp, hip, hpi⟩ := exists_position hchunk hstep
      (by omega : i + step ≤ stream.length + 1 - leakNgram)
    have hhit : Hit frozen stream leakNgram p := by
      have := hhits (p - i) (by omega)
      rw [Nat.add_sub_cancel' hip] at this
      exact this
    unfold tally
    rw [overlaps_foldl_visit]
    have := List.length_pos_of_mem (List.mem_filter (p := fun p =>
      decide (Hit frozen stream leakNgram p)) |>.mpr ⟨hp, decide_eq_true hhit⟩)
    omega

/-- **The longest run is a shared text where no stretch is stitched.** -/
theorem longestShared_iff (hchunk : 1 ≤ chunk) :
    LongestShared frozen stream (scanFor frozen stream chunk 1).longest
      ↔ Unstitched frozen stream := by
  have hlongest : LongestStretch frozen stream leakNgram (scanFor frozen stream chunk 1).longest :=
    longestStretch_scan (by decide) hchunk
  generalize (scanFor frozen stream chunk 1).longest = L at hlongest
  obtain ⟨hbound, hreached⟩ := hlongest
  have hpos : 0 < leakNgram := by decide
  constructor
  · rintro ⟨-, hshared⟩ i k hk hstretch
    have hle := hbound i k hk hstretch
    rcases hshared with hzero | ⟨-, hshared⟩
    · omega
    · exact hshared.mono hle
  · intro hun
    refine ⟨fun m hm hshared => ?_, ?_⟩
    · obtain ⟨i, hstretch⟩ := stretch_of_shared hshared hm
      have := hbound i _ (by omega) hstretch
      omega
    · rcases hreached with hzero | ⟨i, k, hk, hstretch, rfl⟩
      · exact Or.inl hzero
      · exact Or.inr ⟨by omega, hun i k hk hstretch⟩

/-! ## The abort -/

theorem le_foldl_max {α : Type} (f : α → ℕ) {c w : ℕ} {l : List α} :
    c ≤ l.foldl (fun w a => max w (f a)) w ↔ c ≤ w ∨ ∃ a ∈ l, c ≤ f a := by
  induction l generalizing w with
  | nil => simp
  | cons a l ih =>
    rw [List.foldl_cons, ih, List.exists_mem_cons_iff, le_max_iff, or_assoc]

/-- **The prep is aborted exactly on a long stretch of adjacent hits.** -/
theorem aborts_iff_stretches (bySplit : Dict String (List ℤ)) (splits : SplitTable)
    (domain : String) :
    (∃ e, assertNoFrozenLeak bySplit splits domain 1 = .error e) ↔ Stretches bySplit splits := by
  have hn : 1 ≤ leakNgram := by decide
  have hrun : leakNgram ≤ leakAbortRun := by decide
  unfold assertNoFrozenLeak Stretches
  dsimp only
  split
  · next hskip =>
    refine iff_of_false (fun ⟨e, he⟩ => by cases he) ?_
    rintro ⟨s, hs, i, -, hhits⟩
    rcases hskip with hfrozen | hshipped
    · obtain ⟨flat, hflat, -⟩ := hhits 0 (by omega)
      rw [hfrozen] at hflat
      exact List.not_mem_nil hflat
    · rw [hshipped] at hs
      exact List.not_mem_nil hs
  · next hboth =>
    generalize frozenArrays bySplit splits = frozen
    -- a split's longest run reaches the threshold where it has a stretch as long
    have hlong : ∀ flat : List ℤ, leakAbortRun ≤ (scanFor frozen flat leakChunk 1).longest
        ↔ ∃ i, Stretch frozen flat leakNgram i (leakAbortRun - leakNgram + 1) := by
      intro flat
      have hlongest : LongestStretch frozen flat leakNgram (scanFor frozen flat leakChunk 1).longest :=
        longestStretch_scan hn (by decide)
      constructor
      · intro hle
        rcases hlongest.2 with hzero | ⟨i, k, hk, ⟨hi, hhits⟩, hL⟩
        · omega
        · exact ⟨i, by omega, fun j hj => hhits j (by omega)⟩
      · rintro ⟨i, hstretch⟩
        have := hlongest.1 i _ (by omega) hstretch
        omega
    have hworst : leakAbortRun ≤ ((carvedSplits bySplit splits false).map fun s =>
          (s.1, ngramLeakScan s.2 (frozenNgramIndex frozen leakNgram) leakNgram leakChunk 1)).foldl
          (fun w s => max w s.2.longest) 0
        ↔ ∃ s ∈ carvedSplits bySplit splits false, ∃ i,
          Stretch frozen s.2 leakNgram i (leakAbortRun - leakNgram + 1) := by
      simp only [le_foldl_max, List.mem_map, exists_exists_and_eq_and,
        or_iff_right (by decide : ¬ leakAbortRun ≤ 0)]
      exact exists_congr fun s => and_congr_right fun _ => hlong s.2
    rw [← hworst]
    split
    · next hle => exact iff_of_true ⟨_, rfl⟩ hle
    · next hle => exact iff_of_false (fun ⟨e, he⟩ => by cases he) hle

/-- **The leak check is exact in its hits, and in its runs where no stretch of adjacent hits comes from
different places of the frozen arrays.** -/
theorem leak_check_exact_iff (frozen : List (List ℤ)) (stream : List ℤ) {chunk : ℕ} (hchunk : 1 ≤ chunk)
    (bySplit : Dict String (List ℤ)) (splits : SplitTable) (domain : String) :
    (HitsExact frozen stream chunk
      ∧ (ScanExact frozen stream chunk ↔ Unstitched frozen stream))
    ∧ (AbortsExactly bySplit splits domain ↔ (Stretches bySplit splits → Leaks bySplit splits)) := by
  constructor
  · refine ⟨hitsExact hchunk, ?_⟩
    rw [← longestShared_iff hchunk]
    exact ⟨fun h => h.longest, fun h => ⟨hitsExact hchunk, h⟩⟩
  · unfold AbortsExactly
    rw [aborts_iff_stretches]
    refine ⟨fun h => h.mp, fun h => ⟨h, ?_⟩⟩
    rintro ⟨s, hs, hshared⟩
    exact ⟨s, hs, stretch_of_shared hshared (by decide)⟩

end promises

/-- Sixteen tokens, and an array that has their four windows apart. -/
def stitchedStream : List ℤ := (List.range 16).map fun p : ℕ => (p : ℤ)

def stitchedFrozen : List ℤ :=
  windowAt stitchedStream 13 0 ++ 99 :: windowAt stitchedStream 13 1
    ++ 99 :: windowAt stitchedStream 13 2 ++ 99 :: windowAt stitchedStream 13 3

def stitchedSplits : Dict String (List ℤ) :=
  Dict.ofList [("probe", stitchedFrozen), ("train", stitchedStream)]

/-- The run is reported, and the prep aborted, though no fourteen tokens are shared. -/
theorem leak_scan_stitches :
    (scanFor [stitchedFrozen] stitchedStream 8388608 1).longest = 16
      ∧ ¬ ScanExact [stitchedFrozen] stitchedStream 8388608
      ∧ ¬ AbortsExactly stitchedSplits [("probe", 1), ("train", 1)] "d" := by
  have hlongest : (scanFor [stitchedFrozen] stitchedStream 8388608 1).longest = 16 := by
    decide +kernel
  have hshared : ¬ Shared [stitchedFrozen] stitchedStream 16 := by
    intro h
    obtain ⟨i, hi, hwin⟩ := h.windows (n := 16)
    have hlen : stitchedStream.length = 16 := by decide
    rw [hlen] at hi
    cases (by omega : i = 0)
    obtain ⟨s, hs, hin⟩ := hwin 0 (Nat.le_refl 16)
    cases List.mem_singleton.mp hs
    revert hin
    decide +kernel
  refine ⟨hlongest, fun h => ?_, fun h => ?_⟩
  · have hreached := h.longest.2
    rw [hlongest] at hreached
    rcases hreached with hzero | ⟨-, hreached⟩
    · cases hzero
    · exact hshared hreached
  · obtain ⟨s, hs, hleak⟩ := h.mp ⟨⟨"d", 4, 16, some ("train", 0, _)⟩, rfl⟩
    have hcarved : carvedSplits stitchedSplits [("probe", 1), ("train", 1)] false
      = [("train", stitchedStream)] := by decide +kernel
    have hfrozen : frozenArrays stitchedSplits [("probe", 1), ("train", 1)] = [stitchedFrozen] := by
      decide +kernel
    rw [hcarved] at hs
    cases List.mem_singleton.mp hs
    rw [hfrozen] at hleak
    exact hshared hleak

theorem leak_check_exact_one :
    (HitsExact [stitchedFrozen] stitchedStream 1
      ∧ (ScanExact [stitchedFrozen] stitchedStream 1 ↔ Unstitched [stitchedFrozen] stitchedStream))
    ∧ (AbortsExactly stitchedSplits [("probe", 1), ("train", 1)] "d"
      ↔ (Stretches stitchedSplits [("probe", 1), ("train", 1)]
        → Leaks stitchedSplits [("probe", 1), ("train", 1)])) :=
  leak_check_exact_iff [stitchedFrozen] stitchedStream (Nat.le_refl 1) stitchedSplits
    [("probe", 1), ("train", 1)] "d"

end NeuraHash.LeakScan
