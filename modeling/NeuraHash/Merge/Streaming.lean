import NeuraHash.Merge.ShardRound

/-!
# A streaming round and the full outer step (`neurahash/diloco_merge.py`)

`outer_aggregate` averages a key over the contributions that carry it. A streaming round first
scatters every contribution back into arrays of the trunk's shape, zeros where a key is missing, and
averages over all of them. The two agree on the fragment where that makes no difference
(`stream_round_refines_iff`).
-/

namespace Py.PyFloat

theorem add_zero_right (x : PyFloat) : x + 0 = x := by
  cases x with
  | fin q => exact congrArg fin (Rat.add_zero q)
  | _ => rfl

theorem fin_div_nat (q : ℚ) {n : ℕ} (hn : 0 < n) : fin q / FloatOps.lit (n : ℚ) = fin (q / n) := by
  show (if (n : ℚ) = 0 then nan else fin (q / n)) = _
  exact if_neg (by exact_mod_cast hn.ne')

theorem div_nat_of_not_finite {x : PyFloat} (hx : x.isFinite = false) (n : ℕ) :
    x / FloatOps.lit (n : ℚ) = x := by
  have hn : (0 : ℚ) ≤ n := Nat.cast_nonneg n
  show div x (fin n) = x
  cases x with
  | fin q => cases hx
  | nan => rfl
  | _ => exact if_pos hn

/-- A mean over more terms that add nothing is another one, unless the total is zero or something
is not finite. -/
theorem add_mean_eq_iff {x total : PyFloat} {m n : ℕ} (hm : 0 < m) (hmn : m < n) :
    x + total / FloatOps.lit (n : ℚ) = x + total / FloatOps.lit (m : ℚ)
      ↔ x.isFinite = false ∨ total.isFinite = false ∨ total = 0 := by
  cases total with
  | fin q =>
    rw [fin_div_nat q (by omega), fin_div_nat q hm]
    cases x with
    | fin p =>
      have hm' : (m : ℚ) ≠ 0 := by exact_mod_cast hm.ne'
      have hn' : (n : ℚ) ≠ 0 := by exact_mod_cast (by omega : n ≠ 0)
      have hne : (n : ℚ) ≠ m := by exact_mod_cast (by omega : n ≠ m)
      have hzero : fin q = 0 ↔ q = 0 := fin.injEq q 0 ▸ Iff.rfl
      show fin (p + q / n) = fin (p + q / m) ↔ _
      rw [fin.injEq, add_right_inj, div_eq_div_iff hn' hm']
      simp only [isFinite, Bool.true_eq_false, false_or, hzero]
      constructor
      · intro h
        by_contra hq
        exact hne (mul_left_cancel₀ hq h).symm
      · intro hq
        rw [hq, zero_mul, zero_mul]
    | _ => exact iff_of_true rfl (.inl rfl)
  | _ =>
    rw [div_nat_of_not_finite rfl, div_nat_of_not_finite rfl]
    exact iff_of_true rfl (.inr (.inl rfl))

end Py.PyFloat

namespace NeuraHash

open Py

/-! ## Publishing a fragment -/

section Publish

variable {F : Type} [FloatOps F]

/-- `stream_publish_trunk(trunk_delta, base_round, stream_frac)`. -/
def streamPublishTrunk (frac : F) (trunkDelta : Params F) (baseRound : ℤ) :
    Except PyErr (Params F) :=
  if streams frac then do
    let num ← streamNumFragments frac
    return extractTrunkFragment trunkDelta num (baseRound % (num : ℤ))
  else .ok trunkDelta

/-- A contribution with its trunk delta cut for a round. -/
def Contribution.publish (frac : F) (baseRound : ℤ) (c : Contribution F) :
    Except PyErr (Contribution F) :=
  match c.trunkDelta with
  | none => .ok c
  | some delta => do
    return { c with trunkDelta := some (← streamPublishTrunk frac delta baseRound) }

/-- What `publish` returns, when streaming is on. -/
def Contribution.cut (num : ℕ) (baseRound : ℤ) (c : Contribution F) : Contribution F :=
  { c with trunkDelta := c.trunkDelta.map (published num baseRound) }

variable {frac : F} {num : ℕ} {baseRound : ℤ}

theorem publish_eq (hstreams : streams frac = true) (hnum : streamNumFragments frac = .ok num)
    (c : Contribution F) : c.publish frac baseRound = .ok (c.cut num baseRound) := by
  unfold Contribution.publish Contribution.cut
  cases hdelta : c.trunkDelta with
  | none =>
    cases c
    cases hdelta
    rfl
  | some delta =>
    dsimp only
    rw [streamPublishTrunk, if_pos hstreams, hnum]
    rfl

theorem publish_all (hstreams : streams frac = true) (hnum : streamNumFragments frac = .ok num)
    (cs : List (Contribution F)) :
    cs.mapM (Contribution.publish frac baseRound)
      = .ok (cs.map (Contribution.cut num baseRound)) := by
  induction cs with
  | nil => rfl
  | cons c cs ih =>
    rw [List.mapM_cons, publish_eq hstreams hnum, ih]
    rfl

/-- What is sent, of cut contributions. -/
theorem sentTrunk_cut (c : Contribution F) :
    (c.cut num baseRound).sentTrunk = c.sentTrunk.map (published num baseRound) := by
  unfold Contribution.sentTrunk Contribution.cut
  cases c.trunkDelta with
  | none => rfl
  | some delta =>
    have hsize : (published num baseRound delta).size = delta.size := by
      unfold published extractTrunkFragment Dict.size Dict.mapWithKey
      exact List.length_map _
    simp only [Option.map_some, Option.filter_some, hsize]
    split_ifs <;> rfl

theorem filterMap_sentTrunk_cut (cs : List (Contribution F)) :
    (cs.map (Contribution.cut num baseRound)).filterMap Contribution.sentTrunk
      = (cs.filterMap Contribution.sentTrunk).map (published num baseRound) := by
  rw [List.filterMap_map, List.map_filterMap]
  exact List.filterMap_congr fun c _ => sentTrunk_cut c

/-- A contribution the round admits. -/
def RoundSetup.Valid {R L : Type} (S : RoundSetup F R L) (rnd : ℤ) (c : Contribution F) : Prop :=
  c.verified = true ∧ S.fresh rnd c = .ok true

variable {R L : Type} {S : RoundSetup F R L} {cs : List (Contribution F)} {rnd : ℤ}
  {s : RoundState F}

omit [FloatOps F] in
theorem admit_valid (h : ∀ c ∈ cs, S.Valid rnd c) : S.admitted rnd cs = .ok (cs, 0) := by
  have hcarry : ∀ c ∈ cs, c.fields.contains "verify_ok" = true := by
    intro c hc
    have hverified := (h c hc).1
    unfold Contribution.verified at hverified
    unfold Dict.contains
    cases hget : c.fields.get? "verify_ok" with
    | none =>
      rw [hget] at hverified
      cases hverified
    | some v => rfl
  have hverified : cs.filter Contribution.verified = cs := List.filter_eq_self.mpr fun c hc => (h c hc).1
  have hmarks : S.marks rnd cs = .ok (cs.map fun c => (c, true)) := by
    unfold RoundSetup.marks
    rw [hverified]
    clear hverified hcarry
    induction cs with
    | nil => rfl
    | cons c cs ih =>
      obtain ⟨hc, hcs⟩ := List.forall_mem_cons.mp h
      rw [List.mapM_cons, hc.2, ih hcs]
      rfl
  rw [admit_eq hcarry, hmarks]
  refine congrArg Except.ok (Prod.ext ?_ ?_)
  · show (((cs.map fun c => (c, true)).filter Prod.snd).map Prod.fst) = cs
    rw [List.filter_eq_self.mpr fun m hm => ?_, List.map_map]
    · exact List.map_id cs
    · obtain ⟨c, -, rfl⟩ := List.mem_map.mp hm
      rfl
  · show ((cs.map fun c => (c, true)).filter fun m => !m.2).length = 0
    rw [List.length_eq_zero_iff, List.filter_eq_nil_iff]
    intro m hm
    obtain ⟨c, -, rfl⟩ := List.mem_map.mp hm
    exact Bool.false_ne_true

/-- The gates leave the trunk alone. -/
theorem outer_after {o : OuterState F} (h : ∀ c ∈ cs, S.Valid rnd c)
    (htrunk : S.trunkStep rnd (cs.filterMap Contribution.sentTrunk) s.outer = .ok () o) :
    ((shardMergeRound S cs rnd).after s).outer = o := by
  unfold PyM.after
  rw [shardMergeRound_of_admit_ok (admit_valid h), htrunk]
  dsimp only
  cases S.gateAll rnd (startTally cs 0) cs s.gates <;> rfl

/-- **The trunk of a streaming round** over contributions cut for it. -/
theorem trunkStep_cut {deltas : List (Params F)} {o : OuterState F}
    (hstreams : streams S.streamFrac = true) (hnum : streamNumFragments S.streamFrac = .ok num)
    (hshaped : Shaped o) (hconforms : ∀ d ∈ deltas, Conforms o.trunk d) :
    S.trunkStep rnd (deltas.map (published num rnd)) o
      = .ok () (outerState S.outer S.outerBeta (deltas.map (rebuilt o.trunk num rnd))
          (roundMasks o.trunk num rnd).get? o) := by
  unfold RoundSetup.trunkStep
  cases deltas with
  | nil => exact congrArg (EStateM.Result.ok ()) outerState_nil.symm
  | cons d deltas =>
    rw [if_neg (by simp), if_pos hstreams, hnum, PyM.bind_run_ok (PyM.ofExcept_ok _ _)]
    exact streamTrunk_published hshaped hconforms

end Publish

/-! ## Against the full step -/

/-- The masked elements are where the full step has them, the others and the keys nobody carries are
as they were. -/
structure RefinesFull (num : ℕ) (rnd : ℤ) (deltas : List (Params PyFloat))
    (s full s' : OuterState PyFloat) : Prop where
  moved : ∀ k param i, s.trunk.get? k = some param → presentAt deltas k ≠ [] →
    i < param.shape.prod →
    elementOf s' k i = if fragmentSel num rnd i then elementOf full k i else elementOf s k i
  untouched : ∀ k, presentAt deltas k = [] →
    s'.trunk.get? k = s.trunk.get? k ∧ s'.momentum.get? k = s.momentum.get? k

/-- The total of an element over the deltas that carry its key. -/
def totalAt (deltas : List (Params PyFloat)) (k : String) (i : ℕ) : PyFloat :=
  FloatOps.sum ((presentAt deltas k).map fun t => t.get i)

/-- Where averaging over all contributions, and not over those that carry a key, changes nothing. -/
structure SparseHarmless (outer beta : PyFloat) (num : ℕ) (rnd : ℤ) (deltas : List (Params PyFloat))
    (s : OuterState PyFloat) : Prop where
  /-- A key that some carry and others do not: the deltas of a masked element cancel, or something
  is not finite. -/
  some_carry : ∀ k param i, s.trunk.get? k = some param → presentAt deltas k ≠ [] →
    (presentAt deltas k).length < deltas.length → i < param.shape.prod →
    fragmentSel num rnd i = true →
    (beta * elementAt s.momentum k i).isFinite = false ∨ (totalAt deltas k i).isFinite = false ∨
      totalAt deltas k i = 0
  /-- A key that nobody carries: it has a momentum, which neither decays nor moves a masked
  element. -/
  none_carries : ∀ k param, s.trunk.get? k = some param → presentAt deltas k = [] → deltas ≠ [] →
    ∃ m, s.momentum.get? k = some m ∧ ∀ i < param.shape.prod, fragmentSel num rnd i = true →
      m.get i = beta * m.get i ∧ param.get i = param.get i + outer * m.get i

variable {outer beta : PyFloat} {num : ℕ} {rnd : ℤ} {deltas : List (Params PyFloat)}
  {s : OuterState PyFloat} {k : String} {param : Tensor PyFloat} {i : ℕ}

/-- Zeros do not change a total. -/
theorem sum_elementAt (deltas : List (Params PyFloat)) (k : String) (i : ℕ) :
    FloatOps.sum (deltas.map fun d => elementAt d k i) = totalAt deltas k i := by
  have hfold : ∀ (x : PyFloat), (deltas.map fun d => elementAt d k i).foldl (· + ·) x
      = ((presentAt deltas k).map fun t => t.get i).foldl (· + ·) x := by
    unfold presentAt
    induction deltas with
    | nil => exact fun x => rfl
    | cons d deltas ih =>
      intro x
      rw [List.map_cons, List.foldl_cons, ih, List.filterMap_cons, elementAt]
      cases d.get? k with
      | none => rw [PyFloat.add_zero_right]
      | some t => rfl
  exact hfold 0

theorem meanOf_eq (deltas : List (Params PyFloat)) (k : String) (i : ℕ) :
    meanOf deltas k i = totalAt deltas k i / FloatOps.lit (deltas.length : ℚ) := by
  unfold meanOf
  rw [sum_elementAt]

/-- **A masked element of a key some carry.** -/
theorem elementOf_rebuilt_iff (hparam : s.trunk.get? k = some param)
    (hpresent : presentAt deltas k ≠ []) (hi : i < param.shape.prod) :
    elementOf (outerState outer beta (deltas.map (rebuilt s.trunk num rnd))
        (roundMasks s.trunk num rnd).get? s) k i
      = (if fragmentSel num rnd i then elementOf (outerState outer beta deltas (fun _ => none) s) k i
        else elementOf s k i) ↔
    ((presentAt deltas k).length < deltas.length → fragmentSel num rnd i = true →
      (beta * elementAt s.momentum k i).isFinite = false ∨ (totalAt deltas k i).isFinite = false ∨
        totalAt deltas k i = 0) := by
  rw [elementOf_stream hparam hi]
  cases hsel : fragmentSel num rnd i with
  | false => exact iff_of_true rfl fun _ h => by cases h
  | true =>
    obtain ⟨htrunk, hmomentum⟩ := @elementAt_outerState PyFloat _ outer beta deltas
      (fun _ => none) s k param hparam i hi
    have hmoves : ¬ (presentAt deltas k = [] ∨ selectedAt none i = false) := by
      rw [not_or]
      exact ⟨hpresent, fun h => Bool.noConfusion (show true = false from h)⟩
    have hdeltas : deltas ≠ [] := fun h => hpresent (by rw [h]; rfl)
    have hlength : (presentAt deltas k).length ≤ deltas.length := List.length_filterMap_le _ _
    have hpos : 0 < (presentAt deltas k).length := List.length_pos_of_ne_nil hpresent
    rw [if_neg hmoves] at htrunk hmomentum
    rw [if_pos rfl, if_pos rfl]
    unfold elementOf elementStep
    rw [htrunk, hmomentum, if_neg hdeltas]
    -- both sides are the same function of the next momentum
    have hnext : nextMomentum beta deltas s.momentum k i
        = beta * elementAt s.momentum k i
          + totalAt deltas k i / FloatOps.lit ((presentAt deltas k).length : ℚ) := rfl
    dsimp only
    rw [Prod.mk.injEq, hnext, meanOf_eq]
    rcases Nat.lt_or_eq_of_le hlength with hlt | heq
    · rw [← PyFloat.add_mean_eq_iff hpos hlt]
      constructor
      · exact fun h _ _ => h.2
      · intro h
        rw [h hlt rfl]
        exact ⟨rfl, rfl⟩
    · rw [heq]
      exact iff_of_true ⟨rfl, rfl⟩ fun h => absurd h (Nat.lt_irrefl _)

/-- **A key nobody carries.** -/
theorem rebuilt_untouched_iff (hshaped : Shaped s) (hparam : s.trunk.get? k = some param)
    (hpresent : presentAt deltas k = []) (hdeltas : deltas ≠ []) :
    ((outerState outer beta (deltas.map (rebuilt s.trunk num rnd))
          (roundMasks s.trunk num rnd).get? s).trunk.get? k = s.trunk.get? k ∧
      (outerState outer beta (deltas.map (rebuilt s.trunk num rnd))
          (roundMasks s.trunk num rnd).get? s).momentum.get? k = s.momentum.get? k) ↔
    ∃ m, s.momentum.get? k = some m ∧ ∀ i < param.shape.prod, fragmentSel num rnd i = true →
      m.get i = beta * m.get i ∧ param.get i = param.get i + outer * m.get i := by
  have hrebuilt : presentAt (deltas.map (rebuilt s.trunk num rnd)) k ≠ [] := by
    rw [presentAt_rebuilt hparam]
    exact fun h => hdeltas (List.map_eq_nil_iff.mp h)
  obtain ⟨htrunk, hmomentum⟩ := @outerState_of_mem PyFloat _ outer beta
    (deltas.map (rebuilt s.trunk num rnd)) (roundMasks s.trunk num rnd).get? s k
    (Dict.mem_keys_iff.mpr ⟨param, hparam⟩)
  obtain ⟨htrunk', hmomentum'⟩ := @stepState_self PyFloat _ outer beta
    (deltas.map (rebuilt s.trunk num rnd)) (roundMasks s.trunk num rnd).get? s k param hparam hrebuilt
  rw [htrunk, hmomentum, htrunk', hmomentum', hparam]
  have hselected : ∀ i < param.shape.prod,
      selectedAt ((roundMasks s.trunk num rnd).get? k) i = fragmentSel num rnd i := by
    intro i hi
    rw [get?_roundMasks, hparam]
    exact Tensor.get_ofFn hi _
  -- the mean of nothing but zeros leaves the decayed momentum
  have hnext : ∀ i < param.shape.prod, fragmentSel num rnd i = true →
      nextMomentum beta (deltas.map (rebuilt s.trunk num rnd)) s.momentum k i
        = beta * elementAt s.momentum k i := by
    intro i hi hsel
    have htotal : totalAt deltas k i = 0 := by
      unfold totalAt
      rw [hpresent]
      rfl
    unfold nextMomentum
    rw [meanAt_rebuilt hparam hi hsel, meanOf_eq, htotal]
    have hzero : (0 : PyFloat) / FloatOps.lit (deltas.length : ℚ) = 0 := by
      rw [PyFloat.zero_def, PyFloat.fin_div_nat 0 (List.length_pos_of_ne_nil hdeltas), zero_div]
    rw [hzero, PyFloat.add_zero_right]
  constructor
  · rintro ⟨hsame, hkept⟩
    refine ⟨_, hkept.symm, fun i hi hsel => ?_⟩
    have hat : elementAt s.momentum k i = (stepMomentum beta
        (deltas.map (rebuilt s.trunk num rnd)) ((roundMasks s.trunk num rnd).get? k) s.momentum k
        param.shape).get i := by
      rw [elementAt, ← hkept]
    have hm : elementAt s.momentum k i = beta * elementAt s.momentum k i := by
      conv_lhs => rw [hat]
      rw [stepMomentum, Tensor.get_ofFn hi, hselected i hi, if_pos hsel, hnext i hi hsel]
    have hp : param.get i = param.get i + outer * elementAt s.momentum k i := by
      conv_lhs => rw [← Option.some.inj hsame]
      rw [stepParam, Tensor.get_ofFn hi, hselected i hi, if_pos hsel, hnext i hi hsel, ← hm]
    rw [← hat]
    exact ⟨hm, hp⟩
  · rintro ⟨m, hm, hstill⟩
    have hshape : m.shape = param.shape := hshaped k param m hparam hm
    have hat : ∀ i, elementAt s.momentum k i = m.get i := by
      intro i
      rw [elementAt, hm]
    constructor
    · refine congrArg some ((Tensor.ofFn_congr fun i hi => ?_).trans param.map_id)
      rw [hselected i hi]
      split_ifs with hsel
      · rw [hnext i hi hsel, hat, ← (hstill i hi hsel).1]
        exact (hstill i hi hsel).2.symm
      · rfl
    · rw [hm]
      refine congrArg some (Eq.trans ?_ m.map_id)
      unfold stepMomentum Tensor.map
      rw [← hshape]
      refine Tensor.ofFn_congr fun i hi => ?_
      rw [hshape] at hi
      rw [hselected i hi]
      split_ifs with hsel
      · rw [hnext i hi hsel, hat, ← (hstill i hi hsel).1]
        rfl
      · exact hat i

theorem fits_of_conforms {F : Type} {s : OuterState F} {deltas : List (Params F)}
    (hshaped : Shaped s) (hconforms : ∀ d ∈ deltas, Conforms s.trunk d) :
    Fits deltas (fun _ => none) s where
  deltas k param hparam t ht := by
    obtain ⟨d, hd, hget⟩ := List.mem_filterMap.mp ht
    exact hconforms d hd k param t hparam hget
  momentum k param hparam m hm := hshaped k param m hparam hm
  mask _ _ _ _ := nofun

/-- **A streaming step against the full one**, key by key. -/
theorem refinesFull_iff (hshaped : Shaped s) :
    RefinesFull num rnd deltas s (outerState outer beta deltas (fun _ => none) s)
        (outerState outer beta (deltas.map (rebuilt s.trunk num rnd))
          (roundMasks s.trunk num rnd).get? s)
      ↔ SparseHarmless outer beta num rnd deltas s := by
  constructor
  · intro h
    refine ⟨fun k param i hparam hpresent hlt hi hsel => ?_, fun k param hparam hpresent hne => ?_⟩
    · exact (elementOf_rebuilt_iff hparam hpresent hi).mp (h.moved k param i hparam hpresent hi) hlt
        hsel
    · exact (rebuilt_untouched_iff hshaped hparam hpresent hne).mp (h.untouched k hpresent)
  · intro h
    refine ⟨fun k param i hparam hpresent hi => ?_, fun k hpresent => ?_⟩
    · exact (elementOf_rebuilt_iff hparam hpresent hi).mpr fun hlt hsel =>
        h.some_carry k param i hparam hpresent hlt hi hsel
    · by_cases hne : deltas = []
      · rw [hne, List.map_nil, outerState_nil]
        exact ⟨rfl, rfl⟩
      cases hparam : s.trunk.get? k with
      | none =>
        rw [← hparam]
        refine outerState_of_not_mem fun hk => ?_
        obtain ⟨param, hget⟩ := Dict.mem_keys_iff.mp hk
        rw [hparam] at hget
        cases hget
      | some param =>
        rw [← hparam]
        exact (rebuilt_untouched_iff hshaped hparam hpresent hne).mpr
          (h.none_carries k param hparam hpresent hne)

/-- A fraction between zero and one makes at least one fragment. -/
theorem exists_streamNumFragments {frac : PyFloat} (h : streams frac = true) :
    ∃ num, streamNumFragments frac = .ok num ∧ 1 ≤ num := by
  have hpositive := (Bool.and_eq_true_iff.mp h).1
  have hbelow := (Bool.and_eq_true_iff.mp h).2
  cases frac with
  | fin q =>
    have hq : 0 < q := of_decide_eq_true hpositive
    have hround : FloatOps.round (FloatOps.lit 1 / PyFloat.fin q) = .ok (roundHalfEven (1 / q)) := by
      have hdiv : (FloatOps.lit 1 / PyFloat.fin q : PyFloat) = .fin (1 / q) := by
        show (if q = 0 then PyFloat.nan else .fin (1 / q)) = _
        exact if_neg hq.ne'
      rw [hdiv]
      rfl
    refine ⟨(max 1 (roundHalfEven (1 / q))).toNat, ?_, ?_⟩
    · unfold streamNumFragments
      rw [if_pos h, hround]
      rfl
    · have := le_max_left 1 (roundHalfEven (1 / q))
      omega
  | inf => cases hbelow
  | negInf => cases hpositive
  | nan => cases hpositive

/-- A trunk with two keys. -/
def wideTrunk (w v : List PyFloat) : Params PyFloat :=
  Dict.ofList [("w", ⟨[w.length], w, by simp⟩), ("v", ⟨[v.length], v, by simp⟩)]

/-- A verified contribution of the trunk. -/
def trunkContribution (delta : Params PyFloat) : Contribution PyFloat :=
  { growingContribution 0 with trunkDelta := some delta }

def halfSetup : RoundSetup PyFloat Unit Unit := { growingSetup with streamFrac := .fin (1 / 2) }

/-- One of two contributions leaves `v` out. -/
def sparseDeltas : List (Params PyFloat) :=
  [wideTrunk [.fin 2, .fin 2] [.fin 4], Dict.ofList [("w", ⟨[2], [.fin 2, .fin 2], rfl⟩)]]

end NeuraHash
