import NeuraHash.Platform
import NeuraHash.Systems.Tiling
import Mathlib.Algebra.Order.Floor.Div

/-!
# Splits of the corpus by content (`bucket_plan`, `split_of_document`)

A document belongs to the split whose range of buckets its hash falls into. The ranges of the
frozen splits, which no miner may see, are cut from the declared table; what lies below them is
shared out by the runtime table, whose train rows are an argument.

`bucketPlan_cases` is the rule: a plan is a tiling of the buckets that ends with ranges of the
declared table alone. So growing the train split moves no document into a frozen split or out of
one (`train_rows_keep_frozen`).
-/

namespace NeuraHash

open Py Systems

/-! ## The plan -/

/-- The splits in carve order, with their rows. -/
abbrev SplitTable := List (String × ℕ)

/-- `SystemExit`. -/
def systemExit : PyErr := .raised "SystemExit"

/-- `ZeroDivisionError`. -/
def zeroDivisionError : PyErr := .raised "ZeroDivisionError"

/-- `COORD_ONLY`: the frozen splits. -/
def coordOnly (name : String) : Bool := name = "probe" || name = "heldout"

/-- `ELASTIC_SPLIT`. -/
def elasticSplit : String := "train"

/-- The rows of some splits. -/
def rowsOf (splits : SplitTable) : ℕ := (splits.map Prod.snd).sum

/-- `_splits_with_train(train_rows)`, of a declared table. -/
def splitsWithTrain (ref : SplitTable) (trainRows : ℕ) : SplitTable :=
  ref.map fun e => (e.1, if e.1 = elasticSplit then trainRows else e.2)

/-- The float nearest to an integer, of two the one with the even mantissa. -/
def nearestFloat (n : ℕ) : ℕ :=
  let ulp := 2 ^ (n.log2 - 52)
  let mantissa := n / ulp
  if 2 * (n % ulp) < ulp ∨ (2 * (n % ulp) = ulp ∧ mantissa % 2 = 0) then mantissa * ulp
  else (mantissa + 1) * ulp

/-- `int(MIN_FIXED_SPLIT_BUCKET_FRAC * buckets)`: the number of buckets becomes a float, of which
the 128th is exact. -/
def bucketFloor (buckets : ℕ) : Except PyErr ℕ := do
  let _ ← Json.floatOfInt buckets
  return nearestFloat buckets / 128

/-- `widths`: the shares of the miner-facing splits below a bucket. -/
def splitWidths (nf : SplitTable) (frozenLo : ℕ) : List ℤ :=
  let nfTotal := if rowsOf nf = 0 then 1 else rowsOf nf
  let edge (i : ℕ) : ℕ := rowsOf (nf.take i) * frozenLo ⌈/⌉ nfTotal
  (List.range nf.length).map fun i => (edge (i + 1) : ℤ) - edge i

/-- Raise a width to the floor, at the cost of the elastic split. -/
def raiseWidth (floor : ℤ) (elastic : ℕ) (widths : List ℤ) (i : ℕ) : List ℤ :=
  if i ≠ elastic ∧ widths.getD i 0 < floor then
    (widths.set elastic (widths.getD elastic 0 - (floor - widths.getD i 0))).set i floor
  else widths

/-- The widths with the floor. -/
def flooredWidths (nf : SplitTable) (floor : ℕ) (widths : List ℤ) : Except PyErr (List ℤ) :=
  match nf.findIdx? fun e => e.1 = elasticSplit with
  | none => .ok widths
  | some elastic =>
    let widths := (List.range nf.length).foldl (raiseWidth floor elastic) widths
    if widths.getD elastic 0 < 1 then .error systemExit else .ok widths

/-- The ranges of the frozen splits, from the rows before them. -/
def frozenRanges (buckets refTotal : ℕ) : ℕ → SplitTable → List (String × ℤ × ℤ)
  | _, [] => []
  | cum, (name, n) :: rest =>
    (name, (cum * buckets ⌈/⌉ refTotal : ℕ), ((cum + n) * buckets ⌈/⌉ refTotal : ℕ))
      :: frozenRanges buckets refTotal (cum + n) rest

/-- `plan[-1] = (name, lo, buckets)`. -/
def closePlan (buckets : ℕ) (plan : List (String × ℤ × ℤ)) : List (String × ℤ × ℤ) :=
  match plan.getLast? with
  | none => []
  | some r => plan.dropLast ++ [(r.1, r.2.1, (buckets : ℤ))]

/-- `bucket_plan(splits, buckets, ref_splits)`. -/
def bucketPlan (splits : SplitTable) (buckets : ℕ) (refSplits : SplitTable) :
    Except PyErr (List (String × ℤ × ℤ)) := do
  let ref := if refSplits = [] then splits else refSplits
  let names := splits.map Prod.fst
  if ref.map Prod.fst ≠ names then throw systemExit
  let cut := names.findIdx coordOnly
  -- the frozen splits must be all that follows the first of them
  if !(names.drop cut).all coordOnly then throw systemExit
  let refTotal := rowsOf ref
  if refTotal = 0 then throw zeroDivisionError
  let frozenLo := rowsOf (ref.take cut) * buckets ⌈/⌉ refTotal
  let nf := splits.take cut
  let floor ← bucketFloor buckets
  let widths ← flooredWidths nf floor (splitWidths nf frozenLo)
  let below := layOut 0 ((nf.map Prod.fst).zip widths)
  let frozen := frozenRanges buckets refTotal (rowsOf (ref.take cut)) (ref.drop cut)
  return closePlan buckets (below ++ frozen)

/-! ## A document's split -/

/-- `int(s, 16)` of hexadecimal digits. -/
def hexValue (s : List Char) : Option ℕ :=
  if s = [] then none
  else s.foldlM (fun n c => (hexNibble c).map fun d => 16 * n + d) 0

/-- `document_bucket(doc, buckets)`. -/
def documentBucket (P : Platform) (doc : String) (buckets : ℕ) : Except PyErr ℕ :=
  match hexValue ((P.sha256 (utf8 doc)).toList.take 8) with
  | none => .error .valueError
  | some h => if buckets = 0 then .error zeroDivisionError else .ok (h % buckets)

/-- `split_of_document(doc, splits, buckets, ref_splits)`. -/
def splitOfDocument (P : Platform) (doc : String) (splits : SplitTable) (buckets : ℕ)
    (refSplits : SplitTable) : Except PyErr String := do
  let h ← documentBucket P doc buckets
  let plan ← bucketPlan splits buckets refSplits
  match plan.find? (inRange h) with
  | some r => return r.1
  | none => match splits.getLast? with
    | some e => return e.1
    | none => throw (.raised "IndexError")

/-! ## Widths -/

theorem ceilDiv_mono {a b : ℕ} (h : a ≤ b) (n : ℕ) : a ⌈/⌉ n ≤ b ⌈/⌉ n := by
  rw [Nat.ceilDiv_eq_add_pred_div, Nat.ceilDiv_eq_add_pred_div]
  exact Nat.div_le_div_right (by omega)

theorem rowsOf_append (a b : SplitTable) : rowsOf (a ++ b) = rowsOf a + rowsOf b := by
  unfold rowsOf
  rw [List.map_append, List.sum_append]

theorem rowsOf_take_le (splits : SplitTable) (i : ℕ) :
    rowsOf (splits.take i) ≤ rowsOf (splits.take (i + 1)) := by
  rw [List.take_add_one, rowsOf_append]
  omega

/-- Steps between the values of a function add up to the last. -/
theorem sum_steps (f : ℕ → ℤ) (n : ℕ) :
    ((List.range n).map fun i => f (i + 1) - f i).sum = f n - f 0 := by
  induction n with
  | zero => simp
  | succ n ih =>
    rw [List.range_succ, List.map_append, List.sum_append, ih]
    show f n - f 0 + (f (n + 1) - f n + 0) = _
    omega

variable {nf : SplitTable} {widths widths' : List ℤ} {floor : ℤ} {elastic i : ℕ}

theorem length_splitWidths (nf : SplitTable) (frozenLo : ℕ) :
    (splitWidths nf frozenLo).length = nf.length := by
  simp [splitWidths]

theorem splitWidths_nonneg (nf : SplitTable) (frozenLo : ℕ) :
    ∀ w ∈ splitWidths nf frozenLo, 0 ≤ w := by
  intro w hw
  obtain ⟨i, -, rfl⟩ := List.mem_map.mp hw
  have hmono := ceilDiv_mono (Nat.mul_le_mul_right frozenLo (rowsOf_take_le nf i))
    (if rowsOf nf = 0 then 1 else rowsOf nf)
  dsimp only
  omega

/-- The miner-facing splits share all the buckets below the frozen ones. -/
theorem sum_splitWidths (nf : SplitTable) (frozenLo : ℕ) :
    (splitWidths nf frozenLo).sum = if rowsOf nf = 0 then 0 else frozenLo := by
  unfold splitWidths
  dsimp only
  rw [sum_steps fun i => ((rowsOf (nf.take i) * frozenLo
    ⌈/⌉ (if rowsOf nf = 0 then 1 else rowsOf nf) : ℕ) : ℤ)]
  rw [List.take_length, List.take_zero]
  split
  · next h =>
    rw [h]
    simp [rowsOf]
  · next h =>
    have hlast : rowsOf nf * frozenLo ⌈/⌉ rowsOf nf = frozenLo := by
      rw [← smul_eq_mul, smul_ceilDiv (Nat.pos_of_ne_zero h)]
    rw [hlast]
    simp [rowsOf]

theorem length_raiseWidth : (raiseWidth floor elastic widths i).length = widths.length := by
  unfold raiseWidth
  split
  · rw [List.length_set, List.length_set]
  · rfl

/-- What a width gains, the elastic one loses. -/
theorem sum_raiseWidth (hi : i < widths.length) (helastic : elastic < widths.length) :
    (raiseWidth floor elastic widths i).sum = widths.sum := by
  unfold raiseWidth
  split
  · next h =>
    have hlen : i < (widths.set elastic
        (widths.getD elastic 0 - (floor - widths.getD i 0))).length := by
      rw [List.length_set]
      exact hi
    have hget := List.getElem_set_ne h.1.symm hlen
    have hwi := List.getD_eq_getElem widths 0 hi
    have hwe := List.getD_eq_getElem widths 0 helastic
    rw [List.sum_set', dif_pos hlen, hget, List.sum_set', dif_pos helastic]
    omega
  · rfl

/-- Only the elastic width can fall below zero. -/
theorem raiseWidth_nonneg (hfloor : 0 ≤ floor)
    (h : ∀ j, j ≠ elastic → 0 ≤ widths.getD j 0) :
    ∀ j, j ≠ elastic → 0 ≤ (raiseWidth floor elastic widths i).getD j 0 := by
  intro j hj
  unfold raiseWidth
  split
  · next hlow =>
    rw [List.getD_eq_getElem?_getD, List.getElem?_set]
    by_cases hij : i = j
    · rw [if_pos hij]
      split
      · exact hfloor
      · exact le_rfl
    · rw [if_neg hij, List.getElem?_set_ne (Ne.symm hj), ← List.getD_eq_getElem?_getD]
      exact h j hj
  · exact h j hj

/-- The elastic width is never raised. -/
theorem raised_elastic_le (floor : ℤ) (elastic : ℕ) (widths : List ℤ) (is : List ℕ) :
    (is.foldl (raiseWidth floor elastic) widths).getD elastic 0 ≤ widths.getD elastic 0 := by
  induction is using List.reverseRecOn with
  | nil => exact le_rfl
  | append_singleton is i ih =>
    rw [List.foldl_append, List.foldl_cons, List.foldl_nil]
    refine le_trans ?_ ih
    generalize is.foldl (raiseWidth floor elastic) widths = widths'
    unfold raiseWidth
    split
    · next h =>
      rw [List.getD_eq_getElem?_getD, List.getElem?_set_ne h.1, List.getElem?_set]
      rw [if_pos rfl]
      split
      · show widths'.getD elastic 0 - (floor - widths'.getD i 0) ≤ _
        omega
      · next hout =>
        rw [List.getD_eq_default _ _ (by omega)]
        exact le_rfl
    · exact le_rfl

/-- What the loop over the splits leaves. -/
theorem raised_widths (hfloor : 0 ≤ floor) (helastic : elastic < widths.length)
    (hnonneg : ∀ w ∈ widths, 0 ≤ w) (is : List ℕ) (his : ∀ i ∈ is, i < widths.length) :
    (is.foldl (raiseWidth floor elastic) widths).length = widths.length
      ∧ (is.foldl (raiseWidth floor elastic) widths).sum = widths.sum
      ∧ ∀ j, j ≠ elastic → 0 ≤ (is.foldl (raiseWidth floor elastic) widths).getD j 0 := by
  induction is using List.reverseRecOn with
  | nil =>
    refine ⟨rfl, rfl, fun j _ => ?_⟩
    rw [List.foldl_nil]
    by_cases hj : j < widths.length
    · rw [List.getD_eq_getElem _ _ hj]
      exact hnonneg _ (List.getElem_mem hj)
    · rw [List.getD_eq_default _ _ (by omega)]
  | append_singleton is i ih =>
    obtain ⟨hlen, hsum, hnn⟩ := ih fun j hj => his j (List.mem_append_left _ hj)
    have hi : i < widths.length := his i (List.mem_append_right _ (List.mem_singleton_self i))
    rw [List.foldl_append, List.foldl_cons, List.foldl_nil]
    refine ⟨length_raiseWidth.trans hlen, ?_, raiseWidth_nonneg hfloor hnn⟩
    rw [sum_raiseWidth (by omega) (by omega), hsum]

/-- **The floored widths**: as many, with the same sum, and none negative. -/
theorem flooredWidths_ok {floor : ℕ} (hlen : widths.length = nf.length)
    (hnonneg : ∀ w ∈ widths, 0 ≤ w) (h : flooredWidths nf floor widths = .ok widths') :
    widths'.length = nf.length ∧ widths'.sum = widths.sum ∧ ∀ w ∈ widths', 0 ≤ w := by
  unfold flooredWidths at h
  split at h
  · cases h
    exact ⟨hlen, rfl, hnonneg⟩
  · next elastic hfind =>
    have helastic : elastic < widths.length := by
      rw [hlen]
      exact (List.findIdx?_eq_some_iff_getElem.mp hfind).1
    obtain ⟨hlen', hsum, hnn⟩ := raised_widths (Int.natCast_nonneg floor) helastic hnonneg
      (List.range nf.length) fun i hi => by rw [hlen]; exact List.mem_range.mp hi
    dsimp only at h
    split at h
    · cases h
    · next hlow =>
      cases h
      refine ⟨hlen'.trans hlen, hsum, fun w hw => ?_⟩
      obtain ⟨j, hj, rfl⟩ := List.getElem_of_mem hw
      by_cases hje : j = elastic
      · rw [← List.getD_eq_getElem _ 0 hj, hje]
        omega
      · rw [← List.getD_eq_getElem _ 0 hj]
        exact hnn j hje

/-- Where there are miner-facing splits with no rows, the elastic one is among them and is left
nothing. -/
theorem flooredWidths_of_zero {floor : ℕ} {frozenLo : ℕ} (hne : nf ≠ []) (hrows : rowsOf nf = 0)
    (hfixed : ∀ e ∈ nf, e.1 ≠ elasticSplit → 0 < e.2) :
    flooredWidths nf floor (splitWidths nf frozenLo) = .error systemExit := by
  have hall : ∀ e ∈ nf, e.1 = elasticSplit := by
    intro e he
    by_contra hname
    have hzero : e.2 = 0 := List.sum_eq_zero_iff.mp hrows e.2 (List.mem_map_of_mem he)
    exact absurd (hfixed e he hname) (by omega)
  cases hfind : nf.findIdx? fun e => e.1 = elasticSplit with
  | none =>
    obtain ⟨e, he⟩ := List.exists_mem_of_ne_nil nf hne
    exact absurd (hall e he) (by simpa using List.findIdx?_eq_none_iff.mp hfind e he)
  | some elastic =>
    have hle := raised_elastic_le (floor : ℤ) elastic (splitWidths nf frozenLo)
      (List.range nf.length)
    have hsum : (splitWidths nf frozenLo).sum = 0 := by
      rw [sum_splitWidths, if_pos hrows]
      rfl
    have hwidth : (splitWidths nf frozenLo).getD elastic 0 ≤ 0 := by
      by_cases hin : elastic < (splitWidths nf frozenLo).length
      · rw [List.getD_eq_getElem _ _ hin, ← hsum]
        exact List.single_le_sum (splitWidths_nonneg nf frozenLo) _ (List.getElem_mem hin)
      · rw [List.getD_eq_default _ _ (by omega)]
    unfold flooredWidths
    rw [hfind]
    exact if_pos (by omega)

/-! ## The frozen ranges -/

theorem tiles_frozenRanges (buckets refTotal cum : ℕ) (rest : SplitTable) :
    Tiles (cum * buckets ⌈/⌉ refTotal : ℕ) ((cum + rowsOf rest) * buckets ⌈/⌉ refTotal : ℕ)
      (frozenRanges buckets refTotal cum rest) := by
  induction rest generalizing cum with
  | nil => exact .nil _
  | cons e rest ih =>
    obtain ⟨name, n⟩ := e
    have hrows : cum + rowsOf ((name, n) :: rest) = cum + n + rowsOf rest := by
      show cum + (n + rowsOf rest) = _
      omega
    rw [hrows]
    refine .cons name ?_ (ih (cum + n))
    have hmono := ceilDiv_mono (Nat.mul_le_mul_right buckets (Nat.le_add_right cum n)) refTotal
    omega

theorem map_frozenRanges (buckets refTotal cum : ℕ) (rest : SplitTable) :
    (frozenRanges buckets refTotal cum rest).map Prod.fst = rest.map Prod.fst := by
  induction rest generalizing cum with
  | nil => rfl
  | cons e rest ih => exact congrArg (e.1 :: ·) (ih (cum + e.2))

theorem closePlan_of_tiles {a : ℤ} {buckets : ℕ} {plan : List (String × ℤ × ℤ)}
    (h : Tiles a buckets plan) : closePlan buckets plan = plan := by
  unfold closePlan
  split
  · next hlast => exact (List.getLast?_eq_none_iff.mp hlast).symm
  · next r hlast =>
    obtain ⟨before, rfl⟩ := List.getLast?_eq_some_iff.mp hlast
    rw [List.dropLast_concat, ← h.last]

/-! ## The plan of a table -/

section Plan

/-- Where the frozen splits begin. -/
def frozenEdge (below frozen : SplitTable) (buckets : ℕ) : ℕ :=
  rowsOf below * buckets ⌈/⌉ rowsOf (below ++ frozen)

/-- The ranges of the frozen splits: they depend on the declared table alone. -/
def frozenPart (below frozen : SplitTable) (buckets : ℕ) : List (String × ℤ × ℤ) :=
  frozenRanges buckets (rowsOf (below ++ frozen)) (rowsOf below) frozen

variable {below frozen : SplitTable} {buckets m n : ℕ}

theorem map_fst_splitsWithTrain (ref : SplitTable) (m : ℕ) :
    (splitsWithTrain ref m).map Prod.fst = ref.map Prod.fst := by
  unfold splitsWithTrain
  rw [List.map_map]
  exact List.map_congr_left fun _ _ => rfl

/-- The frozen splits begin where the miner-facing ones end. -/
theorem findIdx_coordOnly (hbelow : ∀ e ∈ below, coordOnly e.1 = false)
    (hfrozen : ∀ e ∈ frozen, coordOnly e.1 = true) :
    ((below ++ frozen).map Prod.fst).findIdx coordOnly = below.length := by
  rw [List.map_append, List.findIdx_append]
  have hnone : (below.map Prod.fst).findIdx coordOnly = (below.map Prod.fst).length := by
    refine List.findIdx_eq_length.mpr fun x hx => ?_
    obtain ⟨e, he, rfl⟩ := List.mem_map.mp hx
    exact hbelow e he
  rw [if_neg (by omega), List.length_map]
  cases frozen with
  | nil => simp
  | cons e rest =>
    rw [List.map_cons, List.findIdx_cons, hfrozen e (List.mem_cons_self ..)]
    simp

/-- **What the plan of a table is**: the miner-facing splits by their runtime rows, then the
frozen ones by the declared rows. -/
theorem bucketPlan_eq (hbelow : ∀ e ∈ below, coordOnly e.1 = false)
    (hfrozen : ∀ e ∈ frozen, coordOnly e.1 = true) (hrows : rowsOf (below ++ frozen) ≠ 0) :
    bucketPlan (splitsWithTrain (below ++ frozen) m) buckets (below ++ frozen)
      = (do
        let floor ← bucketFloor buckets
        let widths ← flooredWidths (splitsWithTrain below m) floor
          (splitWidths (splitsWithTrain below m) (frozenEdge below frozen buckets))
        return closePlan buckets (layOut 0 ((below.map Prod.fst).zip widths)
          ++ frozenPart below frozen buckets)) := by
  have hne : below ++ frozen ≠ [] := by
    intro h
    rw [h] at hrows
    exact hrows rfl
  have hcut := findIdx_coordOnly hbelow hfrozen
  have hall : (((below ++ frozen).map Prod.fst).drop below.length).all coordOnly = true := by
    rw [List.map_append, List.drop_left' (by rw [List.length_map]), List.all_eq_true]
    intro x hx
    obtain ⟨e, he, rfl⟩ := List.mem_map.mp hx
    exact hfrozen e he
  have htake : (splitsWithTrain (below ++ frozen) m).take below.length
      = splitsWithTrain below m := by
    unfold splitsWithTrain
    rw [List.map_append, List.take_left' (by rw [List.length_map])]
  unfold bucketPlan
  dsimp only
  rw [if_neg hne, map_fst_splitsWithTrain, hcut, hall, htake, List.take_left' rfl,
    List.drop_left' rfl, map_fst_splitsWithTrain]
  simp [hrows, frozenEdge, frozenPart]

theorem tiles_frozenPart (hrows : rowsOf (below ++ frozen) ≠ 0) :
    Tiles (frozenEdge below frozen buckets : ℤ) buckets (frozenPart below frozen buckets) := by
  have htiles := tiles_frozenRanges buckets (rowsOf (below ++ frozen)) (rowsOf below) frozen
  have hend : (rowsOf below + rowsOf frozen) * buckets ⌈/⌉ rowsOf (below ++ frozen) = buckets := by
    rw [← rowsOf_append, ← smul_eq_mul, smul_ceilDiv (Nat.pos_of_ne_zero hrows)]
  rw [hend] at htiles
  exact htiles

theorem flooredWidths_error {floor : ℕ} {e : PyErr}
    (h : flooredWidths nf floor widths = .error e) : e = systemExit := by
  unfold flooredWidths at h
  split at h
  · cases h
  · dsimp only at h
    split at h
    · exact (Except.error.inj h).symm
    · cases h

theorem map_fst_layOut {α : Type} (a : ℤ) (ws : List (α × ℤ)) :
    (layOut a ws).map Prod.fst = ws.map Prod.fst := by
  induction ws generalizing a with
  | nil => rfl
  | cons w ws ih => exact congrArg (w.1 :: ·) (ih (a + w.2))

/-- The widths of the miner-facing splits add up to where the frozen ones begin. -/
theorem sum_flooredWidths {floor : ℕ} (hpos : ∀ e ∈ below, 0 < e.2)
    (h : flooredWidths (splitsWithTrain below m) floor
      (splitWidths (splitsWithTrain below m) (frozenEdge below frozen buckets)) = .ok widths) :
    widths.sum = frozenEdge below frozen buckets := by
  have hsum := (flooredWidths_ok (length_splitWidths _ _) (splitWidths_nonneg _ _) h).2.1
  rw [hsum, sum_splitWidths]
  split
  · next hzero =>
    by_cases hempty : below = []
    · subst hempty
      have hedge : frozenEdge [] frozen buckets = 0 := by
        show 0 * buckets ⌈/⌉ _ = 0
        rw [zero_mul, zero_ceilDiv]
      rw [hedge]
    · have hne : splitsWithTrain below m ≠ [] := by
        intro hnil
        exact hempty (List.map_eq_nil_iff.mp hnil)
      rw [flooredWidths_of_zero hne hzero] at h
      · cases h
      · intro e he hname
        obtain ⟨e', he', rfl⟩ := List.mem_map.mp he
        dsimp only at hname ⊢
        rw [if_neg hname]
        exact hpos e' he'
  · rfl

/-- **The layout of a plan**: ranges of the miner-facing splits up to the edge, and the frozen
ranges from there. -/
theorem bucketPlan_ok (hbelow : ∀ e ∈ below, coordOnly e.1 = false)
    (hfrozen : ∀ e ∈ frozen, coordOnly e.1 = true) (hpos : ∀ e ∈ below ++ frozen, 0 < e.2)
    (hrows : rowsOf (below ++ frozen) ≠ 0) {plan : List (String × ℤ × ℤ)}
    (h : bucketPlan (splitsWithTrain (below ++ frozen) m) buckets (below ++ frozen) = .ok plan) :
    ∃ lower, plan = lower ++ frozenPart below frozen buckets
      ∧ lower.map Prod.fst = below.map Prod.fst
      ∧ Tiles 0 (frozenEdge below frozen buckets : ℤ) lower := by
  rw [bucketPlan_eq hbelow hfrozen hrows] at h
  cases hfloor : bucketFloor buckets with
  | error e =>
    rw [hfloor] at h
    cases h
  | ok floor =>
    rw [hfloor] at h
    cases hwidths : flooredWidths (splitsWithTrain below m) floor
        (splitWidths (splitsWithTrain below m) (frozenEdge below frozen buckets)) with
    | error e =>
      simp only [Except.bind, bind, hwidths] at h
      cases h
    | ok widths =>
      obtain ⟨hlen, -, hnonneg⟩ :=
        flooredWidths_ok (length_splitWidths _ _) (splitWidths_nonneg _ _) hwidths
      have hsum := sum_flooredWidths (fun e he => hpos e (List.mem_append_left _ he)) hwidths
      have hlen' : widths.length = (below.map Prod.fst).length := by
        rw [hlen, List.length_map]
        exact List.length_map ..
      have hlower : Tiles 0 (frozenEdge below frozen buckets : ℤ)
          (layOut 0 ((below.map Prod.fst).zip widths)) := by
        have hwidth : ∀ w ∈ (below.map Prod.fst).zip widths, 0 ≤ w.2 :=
          fun w hw => hnonneg w.2 (List.of_mem_zip hw).2
        have htiles := tiles_layOut hwidth 0
        rw [List.map_snd_zip (by omega), zero_add, hsum] at htiles
        exact htiles
      refine ⟨layOut 0 ((below.map Prod.fst).zip widths), ?_, ?_, hlower⟩
      · simp only [Except.bind, bind, hwidths] at h
        have hclose := closePlan_of_tiles (hlower.append (tiles_frozenPart hrows))
        exact (Except.ok.inj h).symm.trans hclose
      · rw [map_fst_layOut, List.map_fst_zip (by omega)]

/-- With a number of buckets that a float holds, a plan is refused only by `SystemExit`. -/
theorem bucketPlan_error (hbelow : ∀ e ∈ below, coordOnly e.1 = false)
    (hfrozen : ∀ e ∈ frozen, coordOnly e.1 = true) (hrows : rowsOf (below ++ frozen) ≠ 0)
    (hfits : buckets < 2 ^ 1024 - 2 ^ 970) {e : PyErr}
    (h : bucketPlan (splitsWithTrain (below ++ frozen) m) buckets (below ++ frozen)
      = .error e) : e = systemExit := by
  have hfloat : Json.floatOfInt buckets = .ok (.fin buckets) := by
    refine if_pos ?_
    rw [Nat.abs_cast]
    have hbound : (2 : ℕ) ^ 970 ≤ 2 ^ 1024 := Nat.pow_le_pow_right (by decide) (by decide)
    zify [hbound] at hfits
    exact hfits
  have hfloor : bucketFloor buckets = .ok (nearestFloat buckets / 128) := by
    unfold bucketFloor
    rw [hfloat]
    rfl
  rw [bucketPlan_eq hbelow hfrozen hrows, hfloor] at h
  cases hwidths : flooredWidths (splitsWithTrain below m) (nearestFloat buckets / 128)
      (splitWidths (splitsWithTrain below m) (frozenEdge below frozen buckets)) with
  | error e' =>
    simp only [Except.bind, bind, hwidths] at h
    cases h
    exact flooredWidths_error hwidths
  | ok widths =>
    simp only [Except.bind, bind, hwidths] at h
    cases h

end Plan

/-! ## The split of a document -/

/-- `hexdigest()` is text of hexadecimal digits. -/
def HexDigests (P : Platform) : Prop :=
  ∀ b, P.sha256 b ≠ "" ∧ ∀ c ∈ (P.sha256 b).toList, (hexNibble c).isSome

theorem hexNibble_hexDigit : ∀ n, n < 16 → (hexNibble (Json.hexDigit n)).isSome := by decide

theorem ideal_hexDigests : HexDigests Platform.ideal := by
  intro b
  have htext : Platform.ideal.sha256 b = String.ofList ('f' :: 'f' :: Platform.hexlify b) := rfl
  rw [htext, String.toList_ofList]
  refine ⟨fun h => ?_, fun c hc => ?_⟩
  · have hnil := congrArg String.toList h
    rw [String.toList_ofList] at hnil
    cases hnil
  · rcases List.mem_cons.mp hc with rfl | hc
    · decide
    rcases List.mem_cons.mp hc with rfl | hc
    · decide
    obtain ⟨x, -, hx⟩ := List.mem_flatMap.mp hc
    have hbyte : x.toNat < 256 := x.toNat_lt
    rcases List.mem_cons.mp hx with rfl | hx
    · exact hexNibble_hexDigit _ (by omega)
    · rw [List.mem_singleton.mp hx]
      exact hexNibble_hexDigit _ (by omega)

section Document

variable {P : Platform} {below frozen : SplitTable} {buckets m n : ℕ}

theorem hexValue_of_digits {s : List Char} (hne : s ≠ []) (h : ∀ c ∈ s, (hexNibble c).isSome) :
    ∃ v, hexValue s = some v := by
  unfold hexValue
  rw [if_neg hne]
  generalize 0 = v
  clear hne
  induction s generalizing v with
  | nil => exact ⟨v, rfl⟩
  | cons c s ih =>
    obtain ⟨d, hd⟩ := Option.isSome_iff_exists.mp (h c (List.mem_cons_self ..))
    rw [List.foldlM_cons, hd]
    exact ih (fun c hc => h c (List.mem_cons_of_mem _ hc)) (16 * v + d)

/-- A document has a bucket. -/
theorem documentBucket_ok (hdigest : HexDigests P) (doc : String) (hone : 1 ≤ buckets) :
    ∃ h, documentBucket P doc buckets = .ok h ∧ h < buckets := by
  obtain ⟨hne, hdigits⟩ := hdigest (utf8 doc)
  have htake : (P.sha256 (utf8 doc)).toList.take 8 ≠ [] := by
    intro hnil
    rcases List.take_eq_nil_iff.mp hnil with h | h
    · cases h
    · exact hne (String.toList_eq_nil_iff.mp h)
  obtain ⟨v, hv⟩ := hexValue_of_digits htake fun c hc => hdigits c (List.mem_of_mem_take hc)
  refine ⟨v % buckets, ?_, Nat.mod_lt _ hone⟩
  unfold documentBucket
  rw [hv]
  exact if_neg (by omega)

/-- **The split a plan gives a bucket**: that of the frozen range it is in, if there is one, and a
miner-facing one otherwise. -/
theorem find_plan {edge : ℤ} {h : ℕ} (hh : h < buckets) {lower upper : List (String × ℤ × ℤ)}
    (hlower : Tiles 0 edge lower) (hupper : Tiles edge buckets upper) :
    if (h : ℤ) < edge then ∃ r ∈ lower, (lower ++ upper).find? (inRange h) = some r
    else ∃ r ∈ upper, (lower ++ upper).find? (inRange h) = some r
      ∧ upper.find? (inRange h) = some r := by
  split
  · next hlt =>
    obtain ⟨r, hr, hrange⟩ := hlower.exists_inRange (by omega) hlt
    cases hfind : lower.find? (inRange h) with
    | none => exact absurd hrange (List.find?_eq_none.mp hfind r hr)
    | some r' =>
      refine ⟨r', List.mem_of_find?_eq_some hfind, ?_⟩
      rw [List.find?_append, hfind]
      rfl
  · next hge =>
    have hnone : lower.find? (inRange h) = none := by
      refine List.find?_eq_none.mpr fun r hr => ?_
      rw [hlower.not_inRange (Or.inr (by omega)) hr]
      exact Bool.false_ne_true
    obtain ⟨r, hr, hrange⟩ := hupper.exists_inRange (h := h) (by omega) (by omega)
    cases hfind : upper.find? (inRange h) with
    | none => exact absurd hrange (List.find?_eq_none.mp hfind r hr)
    | some r' =>
      refine ⟨r', List.mem_of_find?_eq_some hfind, ?_, rfl⟩
      rw [List.find?_append, hnone, hfind]
      rfl

/-- A document whose bucket falls into a range of the plan is of that range's split. -/
theorem splitOfDocument_eq {doc : String} {splits ref : SplitTable} {h : ℕ}
    {plan : List (String × ℤ × ℤ)} {r : String × ℤ × ℤ}
    (hbucket : documentBucket P doc buckets = .ok h)
    (hplan : bucketPlan splits buckets ref = .ok plan) (hfind : plan.find? (inRange h) = some r) :
    splitOfDocument P doc splits buckets ref = .ok r.1 := by
  unfold splitOfDocument
  rw [hbucket, hplan]
  show (match plan.find? (inRange h) with | some r => _ | none => _) = _
  rw [hfind]
  rfl

theorem filter_plan {lower upper : List (String × ℤ × ℤ)}
    (hlower : ∀ r ∈ lower, coordOnly r.1 = false) (hupper : ∀ r ∈ upper, coordOnly r.1 = true) :
    (lower ++ upper).filter (fun r => coordOnly r.1) = upper := by
  rw [List.filter_append, List.filter_eq_self.mpr hupper, List.filter_eq_nil_iff.mpr]
  · rfl
  · intro r hr
    rw [hlower r hr]
    exact Bool.false_ne_true

/-- The names of ranges are the names of their splits. -/
theorem coordOnly_of_map {ranges : List (String × ℤ × ℤ)} {splits : SplitTable} {b : Bool}
    (hmap : ranges.map Prod.fst = splits.map Prod.fst)
    (h : ∀ e ∈ splits, coordOnly e.1 = b) : ∀ r ∈ ranges, coordOnly r.1 = b := by
  intro r hr
  have hname : r.1 ∈ splits.map Prod.fst := by
    rw [← hmap]
    exact List.mem_map_of_mem hr
  obtain ⟨e, he, heq⟩ := List.mem_map.mp hname
  rw [← heq]
  exact h e he

/-- **Growing the train split cannot move the yardstick.** For every declared table with positive
counts whose frozen splits are a suffix, and every two train-row counts: a plan is refused by
`SystemExit` or tiles the buckets, one range a split; two plans have the same frozen ranges; and a
document has one split in each, the same one if either is frozen. -/
theorem train_rows_keep_frozen (P : Platform) (hdigest : HexDigests P)
    (below frozen : SplitTable) (hbelow : ∀ e ∈ below, coordOnly e.1 = false)
    (hfrozen : ∀ e ∈ frozen, coordOnly e.1 = true) (hpos : ∀ e ∈ below ++ frozen, 0 < e.2)
    (hne : below ++ frozen ≠ []) (buckets : ℕ) (hone : 1 ≤ buckets)
    (hfits : buckets < 2 ^ 1024 - 2 ^ 970) (m n : ℕ) :
    let ref := below ++ frozen
    let plan := fun rows => bucketPlan (splitsWithTrain ref rows) buckets ref
    let split := fun rows doc => splitOfDocument P doc (splitsWithTrain ref rows) buckets ref
    (plan m = .error systemExit
      ∨ ∃ a, plan m = .ok a ∧ Tiles 0 buckets a ∧ a.map Prod.fst = ref.map Prod.fst)
    ∧ ∀ a b, plan m = .ok a → plan n = .ok b →
        a.filter (fun r => coordOnly r.1) = b.filter (fun r => coordOnly r.1)
        ∧ ∀ doc, ∃ h s s', documentBucket P doc buckets = .ok h
            ∧ a.countP (inRange h) = 1 ∧ b.countP (inRange h) = 1
            ∧ (∃ r ∈ a, inRange h r = true ∧ r.1 = s) ∧ (∃ r ∈ b, inRange h r = true ∧ r.1 = s')
            ∧ split m doc = .ok s ∧ split n doc = .ok s'
            ∧ coordOnly s = coordOnly s' ∧ (coordOnly s = true → s = s') := by
  intro ref plan split
  have hrows : rowsOf (below ++ frozen) ≠ 0 := by
    intro hzero
    obtain ⟨e, he⟩ := List.exists_mem_of_ne_nil _ hne
    exact absurd (List.sum_eq_zero_iff.mp hzero e.2 (List.mem_map_of_mem he))
      (Nat.pos_iff_ne_zero.mp (hpos e he))
  have hupper : Tiles (frozenEdge below frozen buckets : ℤ) buckets
      (frozenPart below frozen buckets) := tiles_frozenPart hrows
  have hupperFrozen : ∀ r ∈ frozenPart below frozen buckets, coordOnly r.1 = true :=
    coordOnly_of_map (map_frozenRanges buckets _ _ frozen) hfrozen
  refine ⟨?_, fun a b ha hb => ?_⟩
  · cases hplan : plan m with
    | error e => exact Or.inl (congrArg _ (bucketPlan_error hbelow hfrozen hrows hfits hplan))
    | ok a =>
      obtain ⟨lower, rfl, hnames, hlower⟩ := bucketPlan_ok hbelow hfrozen hpos hrows hplan
      refine Or.inr ⟨_, rfl, hlower.append hupper, ?_⟩
      show (lower ++ frozenPart below frozen buckets).map Prod.fst = (below ++ frozen).map Prod.fst
      rw [List.map_append, List.map_append, hnames]
      exact congrArg _ (map_frozenRanges buckets _ _ frozen)
  · obtain ⟨lower, rfl, hnames, hlower⟩ := bucketPlan_ok hbelow hfrozen hpos hrows ha
    obtain ⟨lower', rfl, hnames', hlower'⟩ := bucketPlan_ok hbelow hfrozen hpos hrows hb
    have hlowerOpen := coordOnly_of_map hnames hbelow
    have hlowerOpen' := coordOnly_of_map hnames' hbelow
    refine ⟨(filter_plan hlowerOpen hupperFrozen).trans
      (filter_plan hlowerOpen' hupperFrozen).symm, fun doc => ?_⟩
    obtain ⟨h, hbucket, hlt⟩ := documentBucket_ok hdigest doc hone
    have hcount := (hlower.append hupper).countP_eq_one (h := h) (by omega) (by omega)
    have hcount' := (hlower'.append hupper).countP_eq_one (h := h) (by omega) (by omega)
    have hfind := find_plan hlt hlower hupper
    have hfind' := find_plan hlt hlower' hupper
    by_cases hedge : (h : ℤ) < frozenEdge below frozen buckets
    · rw [if_pos hedge] at hfind hfind'
      obtain ⟨r, hr, hr'⟩ := hfind
      obtain ⟨s, hs, hs'⟩ := hfind'
      refine ⟨h, r.1, s.1, hbucket, hcount, hcount',
        ⟨r, List.mem_of_find?_eq_some hr', List.find?_some hr', rfl⟩,
        ⟨s, List.mem_of_find?_eq_some hs', List.find?_some hs', rfl⟩,
        splitOfDocument_eq hbucket ha hr', splitOfDocument_eq hbucket hb hs', ?_, fun hcoord => ?_⟩
      · rw [hlowerOpen r hr, hlowerOpen' s hs]
      · rw [hlowerOpen r hr] at hcoord
        cases hcoord
    · rw [if_neg hedge] at hfind hfind'
      obtain ⟨r, hr, hr', hupr⟩ := hfind
      obtain ⟨s, hs, hs', hups⟩ := hfind'
      obtain rfl : r = s := Option.some.inj (hupr.symm.trans hups)
      exact ⟨h, r.1, r.1, hbucket, hcount, hcount',
        ⟨r, List.mem_of_find?_eq_some hr', List.find?_some hr', rfl⟩,
        ⟨r, List.mem_of_find?_eq_some hs', List.find?_some hs', rfl⟩,
        splitOfDocument_eq hbucket ha hr', splitOfDocument_eq hbucket hb hs', rfl, fun _ => rfl⟩

/-- The declared splits, at the smallest train size the tests raise and at the live one. -/
theorem train_rows_keep_frozen_declared :
    [("train", 0, 87382), ("val", 87382, 786432), ("probe", 786432, 873814),
        ("heldout", 873814, 1048576)].filter (fun r : String × ℤ × ℤ => coordOnly r.1)
      = [("train", 0, 778240), ("val", 778240, 786432), ("probe", 786432, 873814),
        ("heldout", 873814, 1048576)].filter (fun r : String × ℤ × ℤ => coordOnly r.1) :=
  ((train_rows_keep_frozen Platform.ideal ideal_hexDigests [("train", 4096), ("val", 512)]
    [("probe", 512), ("heldout", 1024)] (by decide) (by decide) (by decide) (by decide)
    (2 ^ 20) (by decide) (by decide +kernel) 64 4486096).2 _ _ (by decide +kernel)
    (by decide +kernel)).1

/-- A number of buckets that no float holds is refused by another exception. -/
theorem bucketPlan_not_total :
    ¬ ∀ (below frozen : SplitTable) (buckets m : ℕ), (∀ e ∈ below, coordOnly e.1 = false) →
        (∀ e ∈ frozen, coordOnly e.1 = true) → (∀ e ∈ below ++ frozen, 0 < e.2) → 1 ≤ buckets →
        bucketPlan (splitsWithTrain (below ++ frozen) m) buckets (below ++ frozen)
            = .error systemExit
          ∨ ∃ a, bucketPlan (splitsWithTrain (below ++ frozen) m) buckets (below ++ frozen) = .ok a
            ∧ Tiles 0 buckets a := by
  intro hall
  have hraise : bucketPlan (splitsWithTrain [("train", 4096), ("heldout", 1024)] 64) (2 ^ 1024)
      [("train", 4096), ("heldout", 1024)] = .error .overflowError := by
    decide +kernel
  rcases hall [("train", 4096)] [("heldout", 1024)] (2 ^ 1024) 64 (by decide) (by decide)
    (by decide) (Nat.one_le_two_pow) with h | ⟨a, h, -⟩
  · cases hraise.symm.trans h
  · cases hraise.symm.trans h

end Document

end NeuraHash
