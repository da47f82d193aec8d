import NeuraHash.Python.Float
import NeuraHash.Python.Lists
import NeuraHash.Systems.Routing
import Mathlib.Data.List.OfFn
import Mathlib.Data.Vector.Basic
import Mathlib.Data.List.FinRange
import Mathlib.Algebra.Order.Floor.Div

/-!
# Splitting the corpus into parts (`tools/glm_corpus_split.py`)

A permutation of the rows assigns every row to a part: the row in place `i` of the permutation goes to
part `i // part_rows`. The parts' numbers are kept in a narrow integer type. The headers of the parts
are written first, from the counts of the numbers; then the source is read once, chunk by chunk, and
each chunk's rows are appended to their parts.

`split_partitions` says that the parts partition the rows while their numbers fit 32 bits.
-/

namespace NeuraHash.CorpusSplit

open Py Systems

/-- A row of tokens. -/
abbrev Row (seq : ℕ) := List.Vector ℤ seq

/-- The source array and the name of its file. -/
structure Source where
  base : String
  seq : ℕ
  rows : List (Row seq)

/-- A part: the shape its header declares, and the rows written after it. -/
structure PartFile (seq : ℕ) where
  name : String
  shape : ℕ × ℕ
  rows : List (Row seq)

/-- `VOCAB`. -/
def vocab : ℕ := 154880

/-- `part_name(src_basename, idx)`. -/
def partName (base : String) (idx : ℕ) : String :=
  let stem := if ".npy".toList <:+ base.toList then base.toList.take (base.toList.length - 4)
    else base.toList
  String.ofList (stem ++ ".p".toList
    ++ (List.replicate (3 - idx.repr.toList.length) '0' ++ idx.repr.toList) ++ ".npy".toList)

/-! ## Assigning the rows -/

def numParts (n partRows : ℕ) : ℕ := (n + partRows - 1) / partRows

/-- A number of a part in the type of `part_of_row`: `int16`, or `int32` for many parts. -/
def narrow (nparts : ℕ) (p : ℕ) : ℤ :=
  if nparts ≤ 32767 then (p : ℤ).bmod (2 ^ 16) else (p : ℤ).bmod (2 ^ 32)

/-- `part_of_row`, over what `np.empty` found in memory. -/
def partOfRow {n : ℕ} (partRows : ℕ) (perm : Equiv.Perm (Fin n)) (memory : Fin n → ℤ) : Fin n → ℤ :=
  Systems.scatter perm (fun i => narrow (numParts n partRows) (i / partRows)) memory

/-- `np.bincount(xs, minlength)`; a negative number raises. -/
def bincount (xs : List ℤ) (minlength : ℕ) : Except PyErr (List ℕ) :=
  if xs.any (· < 0) then .error .valueError
  else .ok ((List.range (xs.foldl (fun m x => max m (x.toNat + 1)) minlength)).map
    fun p : ℕ => xs.count (p : ℤ))

/-! ## Checking the parts -/

/-- `token_histogram(arr, chunk)`; a chunk with a token past the vocabulary does not fit. -/
def tokenHistogram {seq : ℕ} (rows : List (Row seq)) (chunk : ℕ) : Except PyErr (List ℕ) :=
  (starts rows.length chunk).foldlM (fun h c => do
    let counts ← bincount (((rows.drop c).take chunk).flatMap List.Vector.toList) vocab
    if counts.length = vocab then return List.zipWith (· + ·) h counts
    else throw .valueError) (List.replicate vocab 0)

/-- What the check says: the rows match, the histograms match, and the number of tokens. -/
structure Verified where
  rowsMatch : Bool
  histogramMatch : Bool
  totalTokens : ℕ

def verifyParts {seq : ℕ} (rows : List (Row seq)) (parts : List (PartFile seq)) (chunk : ℕ) :
    Except PyErr Verified := do
  let hs ← tokenHistogram rows chunk
  let hp ← parts.foldlM (fun h part => do
    return List.zipWith (· + ·) h (← tokenHistogram part.rows chunk)) (List.replicate vocab 0)
  let total := (parts.map fun part => part.rows.length).sum
  return ⟨total == rows.length, hs == hp, hs.sum⟩

/-! ## The split -/

/-- The fields of the manifest that the split computes. -/
structure Manifest where
  source : String
  sourceRows : ℕ
  seq : ℕ
  partRows : ℕ
  parts : ℕ
  /-- Name, rows and index of every part. -/
  files : List (String × ℕ × ℕ)
  verified : Option Verified

section split

variable (src : Source) (partRows chunk : ℕ) (perm : Equiv.Perm (Fin src.rows.length))
  (memory : Fin src.rows.length → ℤ) (verify : Bool)

/-- The rows with their parts' numbers. -/
def ownedRows : List (Row src.seq × ℤ) :=
  src.rows.zip (List.ofFn (partOfRow partRows perm memory))

/-- The files after the copy. -/
def partFiles (sizes : List ℕ) : List (PartFile src.seq) :=
  (List.range (numParts src.rows.length partRows)).map fun p =>
    ⟨partName src.base p, (sizes.getD p 0, src.seq),
      routed sortedSet (ownedRows src partRows perm memory) chunk (p : ℤ)⟩

/-- `split(src, out_dir, part_rows, seed, verify)`, with the permutation the seed gives: what it
returns, and the parts it leaves. -/
def split : Except PyErr Manifest × List (PartFile src.seq) :=
  let nparts := numParts src.rows.length partRows
  match bincount (List.ofFn (partOfRow partRows perm memory)) nparts with
  | .error e => (.error e, [])
  | .ok sizes =>
    let files := partFiles src partRows chunk perm memory sizes
    let manifest := fun verified => Manifest.mk src.base src.rows.length src.seq partRows nparts
      (files.mapIdx fun p file => (file.name, sizes.getD p 0, p)) verified
    -- the last line of the log takes the maximum of the sizes
    let finish := fun verified : Option Verified =>
      if files.isEmpty then .error .valueError else .ok (manifest verified)
    if files.any fun file => file.rows.length ≠ file.shape.1 then
      (.error (.raised "SystemExit"), files)
    else if verify then
      match verifyParts src.rows files chunk with
      | .error e => (.error e, files)
      | .ok v =>
        if v.rowsMatch && v.histogramMatch then (finish (some v), files)
        else (.error (.raised "SystemExit"), files)
    else (finish none, files)

end split

/-! ## The numbers of the parts -/

section numbers

variable {n partRows : ℕ}

theorem narrow_of_lt {nparts p : ℕ} (hp : p < nparts) (h : nparts ≤ 2 ^ 31) : narrow nparts p = p := by
  unfold narrow
  rw [Int.bmod_def, Int.bmod_def]
  split <;> omega

/-- The number of part 2³¹ has wrapped around. -/
theorem narrow_overflow {nparts : ℕ} (h : 2 ^ 31 < nparts) : narrow nparts (2 ^ 31) = -2 ^ 31 := by
  unfold narrow
  rw [if_neg (by omega)]
  decide

theorem div_lt_numParts (hpart : 1 ≤ partRows) {i : ℕ} (hi : i < n) :
    i / partRows < numParts n partRows := by
  rw [Nat.div_lt_iff_lt_mul hpart]
  exact Nat.lt_of_lt_of_le hi (le_starts n hpart)

/-- The last part begins within the rows. -/
theorem mul_lt_of_lt_numParts (hpart : 1 ≤ partRows) {p : ℕ} (hp : p < numParts n partRows) :
    p * partRows < n := by
  have h : p < (n + partRows - 1) / partRows := hp
  rw [Nat.lt_div_iff_mul_lt hpart] at h
  omega

theorem partOfRow_eq (hpart : 1 ≤ partRows) (hnarrow : numParts n partRows ≤ 2 ^ 31)
    (perm : Equiv.Perm (Fin n)) (memory : Fin n → ℤ) :
    partOfRow partRows perm memory = fun r => ((perm.symm r / partRows : ℕ) : ℤ) := by
  unfold partOfRow
  rw [Systems.scatter_eq]
  funext r
  exact narrow_of_lt (div_lt_numParts hpart (perm.symm r).isLt) hnarrow

/-- The numbers of the rows, in another order. -/
theorem owners_perm (hpart : 1 ≤ partRows) (hnarrow : numParts n partRows ≤ 2 ^ 31)
    (perm : Equiv.Perm (Fin n)) (memory : Fin n → ℤ) :
    (List.ofFn (partOfRow partRows perm memory)).Perm
      ((List.range n).map fun i => ((i / partRows : ℕ) : ℤ)) := by
  rw [partOfRow_eq hpart hnarrow]
  have hperm := Equiv.Perm.ofFn_comp_perm perm.symm fun i : Fin n => ((i / partRows : ℕ) : ℤ)
  refine hperm.trans (List.Perm.of_eq ?_)
  rw [List.ofFn_eq_map, ← List.map_coe_finRange_eq_range, List.map_map]
  rfl

/-- How many numbers below `n` belong to part `p`. -/
theorem count_div (hpart : 1 ≤ partRows) (n p : ℕ) :
    ((List.range n).map fun i => ((i / partRows : ℕ) : ℤ)).count (p : ℤ)
      = min n (p * partRows + partRows) - min n (p * partRows) := by
  induction n with
  | zero => simp
  | succ n ih =>
    rw [List.range_succ, List.map_append, List.count_append, ih, List.map_singleton,
      List.count_singleton]
    have hdiv : n / partRows = p ↔ p * partRows ≤ n ∧ n < p * partRows + partRows := by
      rw [← Nat.le_div_iff_mul_le hpart, ← Nat.succ_mul, ← Nat.div_lt_iff_lt_mul hpart]
      omega
    by_cases hp : n / partRows = p
    · have hbounds := hdiv.mp hp
      simp only [hp, beq_self_eq_true, if_true]
      omega
    · have hne : ((n / partRows : ℕ) : ℤ) ≠ p := fun h => hp (Int.ofNat_inj.mp h)
      have hbounds := mt hdiv.mpr hp
      simp only [beq_eq_false_iff_ne.mpr hne, Bool.false_eq_true, if_false]
      omega

end numbers

/-! ## Counting -/

theorem le_bins (xs : List ℤ) (m : ℕ) : m ≤ xs.foldl (fun m x => max m (x.toNat + 1)) m := by
  induction xs generalizing m with
  | nil => exact Nat.le_refl m
  | cons x xs ih => exact Nat.le_trans (Nat.le_max_left ..) (ih _)

/-- Counting what is not negative. -/
theorem bincount_ok {xs : List ℤ} {m : ℕ} (h : ∀ x ∈ xs, 0 ≤ x) :
    ∃ sizes, bincount xs m = .ok sizes ∧ ∀ p < m, sizes.getD p 0 = xs.count (p : ℤ) := by
  have hneg : xs.any (· < 0) = false := by
    rw [List.any_eq_false]
    intro x hx
    simpa using h x hx
  refine ⟨_, if_neg (by rw [hneg]; exact Bool.false_ne_true), fun p hp => ?_⟩
  have hlt := Nat.lt_of_lt_of_le hp (le_bins xs m)
  simp [List.getD_eq_getElem?_getD, hlt]

theorem bincount_error {xs : List ℤ} {m : ℕ} {x : ℤ} (hx : x ∈ xs) (hneg : x < 0) :
    bincount xs m = .error .valueError := by
  refine if_pos (List.any_eq_true.mpr ⟨x, hx, ?_⟩)
  exact decide_eq_true hneg

/-! ## Names -/

/-- Parts of one source have names of their own. -/
theorem partName_injective (base : String) : Function.Injective (partName base) := by
  intro i j h
  have htext := String.ofList_injective h
  have hdigits := List.append_cancel_left (List.append_cancel_right htext)
  have hvalue := congrArg (fun l => Nat.ofDigitChars 10 l 0) hdigits
  simpa [Nat.ofDigitChars_append, Nat.ofDigitChars_replicate_zero, Nat.toList_repr,
    Nat.ofDigitChars_ten_toDigits] using hvalue

/-! ## The parts -/

/-- The parts partition the rows of the source. -/
structure Partitions (src : Source) (partRows : ℕ) (files : List (PartFile src.seq)) : Prop where
  count : files.length = src.rows.length ⌈/⌉ partRows
  names : (files.map PartFile.name).Nodup
  shapes : ∀ file ∈ files, file.shape = (file.rows.length, src.seq)
  /-- Every part but the last is full, and the last holds the rest. -/
  full : ∀ p, (h : p < files.length) →
    (files.get ⟨p, h⟩).rows.length = min partRows (src.rows.length - p * partRows)
  ordered : ∀ file ∈ files, file.rows.Sublist src.rows
  rows : (files.flatMap PartFile.rows).Perm src.rows

section parts

variable {src : Source} {partRows chunk : ℕ} {perm : Equiv.Perm (Fin src.rows.length)}
  {memory : Fin src.rows.length → ℤ}

theorem map_fst_ownedRows : (ownedRows src partRows perm memory).map Prod.fst = src.rows :=
  List.map_fst_zip (by rw [List.length_ofFn])

theorem map_snd_ownedRows : (ownedRows src partRows perm memory).map Prod.snd
    = List.ofFn (partOfRow partRows perm memory) :=
  List.map_snd_zip (by rw [List.length_ofFn])

/-- The part of a row is one of the parts. -/
theorem owner_mem (hpart : 1 ≤ partRows) (hnarrow : numParts src.rows.length partRows ≤ 2 ^ 31)
    {x : ℤ} (hx : x ∈ List.ofFn (partOfRow partRows perm memory)) :
    ∃ p < numParts src.rows.length partRows, x = (p : ℤ) := by
  rw [(owners_perm hpart hnarrow perm memory).mem_iff, List.mem_map] at hx
  obtain ⟨i, hi, rfl⟩ := hx
  exact ⟨i / partRows, div_lt_numParts hpart (List.mem_range.mp hi), rfl⟩

/-- What the copy writes to a part. -/
theorem routed_part (hchunk : 1 ≤ chunk) (p : ℤ) :
    routed sortedSet (ownedRows src partRows perm memory) chunk p
      = ownedBy p (ownedRows src partRows perm memory) :=
  routed_eq nodup_sortedSet (fun _ _ => mem_sortedSet) _ hchunk p

/-- The number of rows of a part. -/
theorem count_owner (hpart : 1 ≤ partRows) (hnarrow : numParts src.rows.length partRows ≤ 2 ^ 31)
    {p : ℕ} (hp : p < numParts src.rows.length partRows) :
    (List.ofFn (partOfRow partRows perm memory)).count (p : ℤ)
      = min partRows (src.rows.length - p * partRows) := by
  rw [(owners_perm hpart hnarrow perm memory).count_eq, count_div hpart]
  have hlt := mul_lt_of_lt_numParts hpart hp
  omega

/-- **The copied parts partition the rows.** -/
theorem partFiles_partitions (hpart : 1 ≤ partRows) (hchunk : 1 ≤ chunk)
    (hnarrow : numParts src.rows.length partRows ≤ 2 ^ 31) {sizes : List ℕ}
    (hsizes : ∀ p < numParts src.rows.length partRows,
      sizes.getD p 0 = (List.ofFn (partOfRow partRows perm memory)).count (p : ℤ)) :
    Partitions src partRows (partFiles src partRows chunk perm memory sizes) := by
  have hlength : ∀ p : ℕ, (ownedBy (p : ℤ) (ownedRows src partRows perm memory)).length
      = (List.ofFn (partOfRow partRows perm memory)).count (p : ℤ) := by
    intro p
    rw [length_ownedBy, map_snd_ownedRows]
  unfold partFiles
  constructor
  · rw [List.length_map, List.length_range]
    rfl
  · rw [List.map_map]
    exact List.nodup_range.map (partName_injective src.base)
  · intro file hfile
    obtain ⟨p, hp, rfl⟩ := List.mem_map.mp hfile
    dsimp only
    rw [routed_part hchunk, hlength, hsizes p (List.mem_range.mp hp)]
  · intro p hp
    rw [List.length_map, List.length_range] at hp
    rw [List.get_eq_getElem, List.getElem_map, List.getElem_range]
    dsimp only
    rw [routed_part hchunk, hlength, count_owner hpart hnarrow hp]
  · intro file hfile
    obtain ⟨p, -, rfl⟩ := List.mem_map.mp hfile
    dsimp only
    rw [routed_part hchunk]
    have hsub := ownedBy_sublist (p : ℤ) (ownedRows src partRows perm memory)
    rw [map_fst_ownedRows] at hsub
    exact hsub
  · rw [List.flatMap_map]
    have hfiles : ((List.range (numParts src.rows.length partRows)).map fun p : ℕ => (p : ℤ)).flatMap
        (fun p => ownedBy p (ownedRows src partRows perm memory))
        = (List.range (numParts src.rows.length partRows)).flatMap fun p : ℕ =>
          routed sortedSet (ownedRows src partRows perm memory) chunk (p : ℤ) := by
      rw [List.flatMap_map]
      exact List.flatMap_congr fun p _ => (routed_part hchunk _).symm
    have hnodup : ((List.range (numParts src.rows.length partRows)).map fun p : ℕ => (p : ℤ)).Nodup :=
      List.nodup_range.map Nat.cast_injective
    have hcover : ∀ e ∈ ownedRows src partRows perm memory,
        e.2 ∈ (List.range (numParts src.rows.length partRows)).map fun p : ℕ => (p : ℤ) := by
      intro e he
      have hmem : e.2 ∈ List.ofFn (partOfRow partRows perm memory) := by
        rw [← map_snd_ownedRows]
        exact List.mem_map_of_mem he
      obtain ⟨p, hp, heq⟩ := owner_mem hpart hnarrow hmem
      rw [heq]
      exact List.mem_map_of_mem (List.mem_range.mpr hp)
    have hperm := perm_flatMap_ownedBy hnodup (ownedRows src partRows perm memory) hcover
    rw [map_fst_ownedRows, hfiles] at hperm
    exact hperm

end parts

/-! ## The check -/

section check

variable {seq : ℕ}

/-- Every token is in the vocabulary. -/
def InVocab (rows : List (Row seq)) : Prop := ∀ row ∈ rows, ∀ t ∈ row.toList, 0 ≤ t ∧ t < vocab

/-- How often each token of the vocabulary occurs. -/
def histogram (rows : List (Row seq)) : List ℕ :=
  (List.range vocab).map fun t : ℕ => (rows.flatMap List.Vector.toList).count (t : ℤ)

theorem histogram_nil : histogram ([] : List (Row seq)) = List.replicate vocab 0 := by
  unfold histogram
  rw [List.flatMap_nil]
  simp only [List.count_nil, List.map_const', List.length_range]

theorem histogram_append (rows rows' : List (Row seq)) :
    List.zipWith (· + ·) (histogram rows) (histogram rows') = histogram (rows ++ rows') := by
  unfold histogram
  rw [List.zipWith_map, List.zipWith_self, List.flatMap_append]
  simp only [List.count_append]

theorem histogram_perm {rows rows' : List (Row seq)} (h : rows.Perm rows') :
    histogram rows = histogram rows' := by
  unfold histogram
  exact List.map_congr_left fun t _ => (h.flatMap_right _).count_eq _

/-- Counting tokens of the vocabulary gives as many numbers as it has tokens. -/
theorem bins_eq {xs : List ℤ} (h : ∀ x ∈ xs, 0 ≤ x ∧ x < vocab) {m : ℕ} (hm : m = vocab) :
    xs.foldl (fun m x => max m (x.toNat + 1)) m = m := by
  subst hm
  induction xs with
  | nil => rfl
  | cons x xs ih =>
    have hx := h x (List.mem_cons_self ..)
    have hmax : max vocab (x.toNat + 1) = vocab := by omega
    rw [List.foldl_cons, hmax]
    exact ih fun x hx => h x (List.mem_cons_of_mem _ hx)

theorem bincount_tokens {rows : List (Row seq)} (h : InVocab rows) :
    bincount (rows.flatMap List.Vector.toList) vocab = .ok (histogram rows) := by
  have hxs : ∀ x ∈ rows.flatMap List.Vector.toList, 0 ≤ x ∧ x < vocab := by
    intro x hx
    obtain ⟨row, hrow, ht⟩ := List.mem_flatMap.mp hx
    exact h row hrow x ht
  have hneg : (rows.flatMap List.Vector.toList).any (· < 0) = false := by
    rw [List.any_eq_false]
    intro x hx
    simpa using (hxs x hx).1
  unfold bincount histogram
  rw [hneg, bins_eq hxs rfl]
  rfl

/-- **The streamed histogram counts the tokens.** -/
theorem tokenHistogram_eq {rows : List (Row seq)} (h : InVocab rows) {chunk : ℕ} (hchunk : 1 ≤ chunk) :
    tokenHistogram rows chunk = .ok (histogram rows) := by
  -- after some chunks, the tokens of those chunks are counted
  have hchunks : ∀ (cs : List ℕ) (done : List (Row seq)),
      cs.foldlM (fun h c => do
        let counts ← bincount (((rows.drop c).take chunk).flatMap List.Vector.toList) vocab
        if counts.length = vocab then return List.zipWith (· + ·) h counts
        else throw PyErr.valueError) (histogram done)
      = .ok (histogram (done ++ cs.flatMap fun c => (rows.drop c).take chunk)) := by
    intro cs
    induction cs with
    | nil => intro done; rw [List.flatMap_nil, List.append_nil]; rfl
    | cons c cs ih =>
      intro done
      have hslice : InVocab ((rows.drop c).take chunk) := fun row hrow =>
        h row (List.mem_of_mem_drop (List.mem_of_mem_take hrow))
      have hlen : (histogram ((rows.drop c).take chunk)).length = vocab := by
        unfold histogram
        rw [List.length_map, List.length_range]
      rw [List.foldlM_cons, bincount_tokens hslice, ok_bind, if_pos hlen, histogram_append]
      show (Except.ok _ >>= _) = _
      rw [ok_bind, ih, List.flatMap_cons, List.append_assoc]
  unfold tokenHistogram
  rw [← @histogram_nil seq, hchunks, List.nil_append, flatMap_slices rows hchunk]

/-- **A partition passes the check.** -/
theorem verifyParts_ok {rows : List (Row seq)} {parts : List (PartFile seq)} (h : InVocab rows)
    (hperm : (parts.flatMap PartFile.rows).Perm rows) {chunk : ℕ} (hchunk : 1 ≤ chunk) :
    ∃ v, verifyParts rows parts chunk = .ok v ∧ v.rowsMatch = true ∧ v.histogramMatch = true := by
  have hparts : ∀ (ps : List (PartFile seq)) (done : List (Row seq)),
      (∀ part ∈ ps, InVocab part.rows) →
      ps.foldlM (fun h part => do
        return List.zipWith (· + ·) h (← tokenHistogram part.rows chunk)) (histogram done)
      = .ok (histogram (done ++ ps.flatMap PartFile.rows)) := by
    intro ps
    induction ps with
    | nil => intro done _; rw [List.flatMap_nil, List.append_nil]; rfl
    | cons part ps ih =>
      intro done hps
      rw [List.foldlM_cons, tokenHistogram_eq (hps part (List.mem_cons_self ..)) hchunk, ok_bind,
        histogram_append]
      show (Except.ok _ >>= _) = _
      rw [ok_bind, ih _ fun part' hpart' => hps part' (List.mem_cons_of_mem _ hpart'),
        List.flatMap_cons, List.append_assoc]
  have hvocab : ∀ part ∈ parts, InVocab part.rows := fun part hpart row hrow =>
    h row (hperm.subset (List.mem_flatMap.mpr ⟨part, hpart, hrow⟩))
  have htotal : (parts.map fun part => part.rows.length).sum = rows.length := by
    rw [← hperm.length_eq, List.length_flatMap]
  refine ⟨⟨true, true, (histogram rows).sum⟩, ?_, rfl, rfl⟩
  unfold verifyParts
  rw [tokenHistogram_eq h hchunk, ok_bind, ← @histogram_nil seq, hparts parts [] hvocab,
    ok_bind, List.nil_append, histogram_perm hperm, htotal]
  simp only [beq_self_eq_true]
  rfl

end check

/-! ## The split -/

section whole

variable {src : Source} {partRows chunk : ℕ} {perm : Equiv.Perm (Fin src.rows.length)}
  {memory : Fin src.rows.length → ℤ} {verify : Bool}

/-- The split writes its parts where their numbers fit. -/
theorem split_eq (hrows : 1 ≤ src.rows.length) (hpart : 1 ≤ partRows) (hchunk : 1 ≤ chunk)
    (hnarrow : numParts src.rows.length partRows ≤ 2 ^ 31) :
    Partitions src partRows (split src partRows chunk perm memory verify).2
      ∧ ((verify = true → InVocab src.rows) →
          ∃ m, (split src partRows chunk perm memory verify).1 = .ok m) := by
  have hnonneg : ∀ x ∈ List.ofFn (partOfRow partRows perm memory), 0 ≤ x := by
    intro x hx
    obtain ⟨p, -, rfl⟩ := owner_mem hpart hnarrow hx
    omega
  obtain ⟨sizes, hbins, hsizes⟩ := bincount_ok (m := numParts src.rows.length partRows) hnonneg
  have hpartition := @partFiles_partitions src partRows chunk perm memory hpart hchunk hnarrow sizes
    hsizes
  have hfill : ((partFiles src partRows chunk perm memory sizes).any
      fun file => file.rows.length ≠ file.shape.1) = false := by
    rw [List.any_eq_false]
    intro file hfile
    rw [hpartition.shapes file hfile]
    simp
  have hfiles : (partFiles src partRows chunk perm memory sizes).isEmpty = false := by
    have hfirst := div_lt_numParts hpart hrows
    rw [List.isEmpty_eq_false_iff]
    unfold partFiles
    intro hnil
    rw [List.map_eq_nil_iff, List.range_eq_nil] at hnil
    exact Nat.not_lt_zero _ (hnil ▸ hfirst)
  unfold split
  dsimp only
  rw [hbins]
  dsimp only
  rw [hfill, hfiles]
  cases verify with
  | false => exact ⟨hpartition, fun _ => ⟨_, rfl⟩⟩
  | true =>
    rw [if_neg Bool.false_ne_true, if_pos rfl]
    constructor
    · split
      · exact hpartition
      · split <;> exact hpartition
    · intro hvocab
      obtain ⟨v, hv, hrows, hhist⟩ := verifyParts_ok (hvocab rfl) hpartition.rows hchunk
      rw [hv]
      dsimp only
      rw [hrows, hhist]
      exact ⟨_, rfl⟩

/-- **The split loses and duplicates nothing**, while the parts' numbers fit 32 bits: whatever the
permutation and the chunk size, the parts partition the rows in source order; and it returns unless
it checks tokens that are past the vocabulary. -/
theorem split_partitions (src : Source) (partRows chunk : ℕ) (perm : Equiv.Perm (Fin src.rows.length))
    (memory : Fin src.rows.length → ℤ) (verify : Bool) (hrows : 1 ≤ src.rows.length)
    (hpart : 1 ≤ partRows) (hchunk : 1 ≤ chunk) (hnarrow : src.rows.length ⌈/⌉ partRows ≤ 2 ^ 31) :
    Partitions src partRows (split src partRows chunk perm memory verify).2
      ∧ ((verify = true → InVocab src.rows) →
          ∃ m, (split src partRows chunk perm memory verify).1 = .ok m) :=
  split_eq hrows hpart hchunk hnarrow

/-- Three rows in parts of two, the first row in the second part. -/
theorem split_partitions_three :
    Partitions ⟨"ids.npy", 1, [⟨[7], rfl⟩, ⟨[8], rfl⟩, ⟨[9], rfl⟩]⟩ 2
      (split ⟨"ids.npy", 1, [⟨[7], rfl⟩, ⟨[8], rfl⟩, ⟨[9], rfl⟩]⟩ 2 2 (Equiv.swap 0 2)
        (fun _ => 0) false).2 :=
  (split_partitions _ 2 2 _ _ false (by decide) (by decide) (by decide) (by decide)).1

/-- With more parts than 32 bits number, counting the rows of the parts raises. -/
theorem split_overflow (hpart : 1 ≤ partRows) (h : 2 ^ 31 < numParts src.rows.length partRows) :
    split src partRows chunk perm memory verify = (.error .valueError, []) := by
  have hrow : 2 ^ 31 * partRows < src.rows.length := mul_lt_of_lt_numParts hpart h
  have hmem : narrow (numParts src.rows.length partRows) (2 ^ 31)
      ∈ List.ofFn (partOfRow partRows perm memory) := by
    unfold partOfRow
    rw [Systems.scatter_eq, List.mem_ofFn]
    refine ⟨perm ⟨2 ^ 31 * partRows, hrow⟩, ?_⟩
    rw [Function.comp_apply, Equiv.symm_apply_apply]
    exact congrArg _ (Nat.mul_div_cancel _ hpart)
  have hneg : narrow (numParts src.rows.length partRows) (2 ^ 31) < 0 := by
    rw [narrow_overflow h]
    decide
  unfold split
  dsimp only
  rw [bincount_error hmem hneg]

/-- Rows for one part more than 32 bits number. -/
def manyRows : Source := ⟨"ids.npy", 1, List.replicate (2 ^ 31 + 1) ⟨[0], rfl⟩⟩

theorem split_many_rows :
    split manyRows 1 (2 ^ 18) (Equiv.refl _) (fun _ => 0) false = (.error .valueError, [])
      ∧ ¬ Partitions manyRows 1 (split manyRows 1 (2 ^ 18) (Equiv.refl _) (fun _ => 0) false).2 := by
  have hlength : manyRows.rows.length = 2 ^ 31 + 1 := List.length_replicate
  have hparts : numParts manyRows.rows.length 1 = 2 ^ 31 + 1 := by
    rw [hlength]
    decide
  have hrun : split manyRows 1 (2 ^ 18) (Equiv.refl _) (fun _ => 0) false = (.error .valueError, []) :=
    split_overflow (by decide) (by rw [hparts]; decide)
  refine ⟨hrun, fun h => ?_⟩
  have hcount := h.count
  rw [hrun, Nat.ceilDiv_eq_add_pred_div, hlength] at hcount
  exact absurd hcount (by decide)

end whole

end NeuraHash.CorpusSplit
