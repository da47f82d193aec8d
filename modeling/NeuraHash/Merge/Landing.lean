import NeuraHash.Merge.Streaming

/-!
# Where a stale fragment lands (`neurahash/diloco_merge.py`)

A contributor cuts its delta at the fragment of its own base round; the coordinator scatters the
values over the fragment of its round. The staleness window admits both when they differ, and then
the values land on elements they were not cut from (`fragments_land_iff`).
-/

namespace NeuraHash

open Py

/-! ## Scattering another fragment -/

section Scatter

variable {F : Type} [FloatOps F] {sel sel' : ℕ → Bool} {shape : List ℕ} {t u : Tensor F}
  {delta : Params F} {shapes : Dict String (List ℕ)} {num : ℕ} {rnd base : ℤ} {k : String} {i : ℕ}

/-- Nothing is selected: whatever fits leaves zeros. -/
theorem scatter_none (hsel : ∀ i < shape.prod, sel i = false) (hsize : u.size ≤ 1) :
    scatter sel shape u = .ok (.ofFn shape fun _ => 0) := by
  have hzeros : ∀ f : ℕ → F,
      Tensor.ofFn shape (fun i => if sel i then f i else 0) = .ofFn shape fun _ => 0 :=
    fun f => Tensor.ofFn_congr fun i hi => if_neg (by rw [hsel i hi]; exact Bool.false_ne_true)
  have hcount : (selectedBelow sel shape.prod).length = 0 := by
    rw [List.length_eq_zero_iff]
    exact List.filter_eq_nil_iff.mpr fun i hi => by
      rw [hsel i (List.mem_range.mp hi)]
      exact Bool.false_ne_true
  unfold scatter
  rw [hcount]
  by_cases hzero : u.size = 0
  · rw [if_pos hzero]
    exact congrArg Except.ok (hzeros _)
  · rw [if_neg hzero, if_pos (by omega)]
    exact congrArg Except.ok (hzeros _)

/-- The first selected element gets the first value, and there is one. -/
theorem scatter_first (h : scatter sel shape u = .ok t) (hi : i < shape.prod) (hsel : sel i = true)
    (hfirst : selectedBelow sel i = []) : t.get i = u.get 0 ∧ 0 < u.size := by
  have hcount : 0 < (selectedBelow sel shape.prod).length := by
    refine List.length_pos_of_mem (a := i) ?_
    exact List.mem_filter.mpr ⟨List.mem_range.mpr hi, hsel⟩
  unfold scatter at h
  split_ifs at h with hsize hone
  · cases h
    refine ⟨?_, by omega⟩
    rw [Tensor.get_ofFn hi, if_pos hsel, hfirst]
    rfl
  · cases h
    refine ⟨?_, by omega⟩
    rw [Tensor.get_ofFn hi, if_pos hsel]

/-- The first element of a residue. -/
theorem selectedBelow_residue (hnum : 1 ≤ num) (hi : (i : ℤ) = rnd % (num : ℤ)) :
    fragmentSel num rnd i = true ∧ selectedBelow (fragmentSel num rnd) i = [] := by
  have hpos : (0 : ℤ) < num := by omega
  have hlt := Int.emod_lt_of_pos rnd hpos
  constructor
  · rw [fragmentSel, decide_eq_true_iff, hi, Int.emod_emod]
  · refine List.filter_eq_nil_iff.mpr fun j hj => ?_
    have hji := List.mem_range.mp hj
    rw [fragmentSel, decide_eq_true_iff, ← hi, Int.emod_eq_of_lt (by omega) (by omega)]
    omega

end Scatter

/-! ## A fragment of another round -/

/-- A fragment cut at a base round fits the round for an array of some shape: it is the same
fragment, or the array has no element in the round's. -/
def SameFragment (num : ℕ) (rnd base : ℤ) (shape : List ℕ) : Prop :=
  base % (num : ℤ) = rnd % (num : ℤ) ∨ (shape.prod : ℤ) ≤ rnd % (num : ℤ)

section Land

variable {F : Type} [FloatOps F] {outerLr beta : F} {delta : Params F} {num : ℕ} {rnd base : ℤ}
  {s : OuterState F} {sent recon deltas : List (Params F)} {k : String} {param : Tensor F} {i : ℕ}

theorem length_le_one_of_eq {l : List ℕ} {c : ℕ} (hnodup : l.Nodup) (h : ∀ i ∈ l, i = c) :
    l.length ≤ 1 := by
  match l, hnodup, h with
  | [], _, _ => exact Nat.zero_le 1
  | [_], _, _ => exact le_rfl
  | a :: b :: l, hnodup, h =>
    have hab : a = b := by rw [h a (by simp), h b (by simp)]
    exact absurd (hab ▸ List.mem_cons_self .. : a ∈ b :: l) (List.nodup_cons.mp hnodup).1

/-- What a fragment that fits is scattered to. -/
theorem scatter_sameFragment {t : Tensor F} {shape : List ℕ} (hnum : 1 ≤ num)
    (hfits : SameFragment num rnd base shape) (hshape : t.shape = shape) :
    scatter (fragmentSel num rnd) shape (extractTensor (fragmentSel num base) t)
      = .ok (.ofFn shape fun i => if fragmentSel num rnd i then t.get i else 0) := by
  rcases hfits with hsame | hsmall
  · have hsel : fragmentSel num base = fragmentSel num rnd := by
      rw [← fragmentSel_emod, hsame, fragmentSel_emod]
    rw [hsel]
    exact scatter_extractTensor hshape
  · have hlt := Int.emod_lt_of_pos rnd (by omega : (0 : ℤ) < num)
    have hnone : ∀ i < shape.prod, fragmentSel num rnd i = false := by
      intro i hi
      rw [fragmentSel, decide_eq_false_iff_not, Int.emod_eq_of_lt (by omega) (by omega)]
      omega
    have hsize : (extractTensor (fragmentSel num base) t).size ≤ 1 := by
      have hlength : (extractTensor (fragmentSel num base) t).size
          = (selectedBelow (fragmentSel num base) t.size).length := by
        simp [extractTensor, Tensor.size]
      rw [hlength]
      refine @length_le_one_of_eq _ (base % (num : ℤ)).toNat (List.nodup_range.filter _) fun i hi => ?_
      obtain ⟨hrange, hsel⟩ := List.mem_filter.mp hi
      have hi' : i < shape.prod := by
        rw [← hshape]
        exact List.mem_range.mp hrange
      rw [fragmentSel, decide_eq_true_iff, Int.emod_eq_of_lt (by omega) (by omega)] at hsel
      omega
    rw [scatter_none hnone hsize]
    exact congrArg Except.ok (Tensor.ofFn_congr fun i hi => (if_neg (by simp [hnone i hi])).symm)

/-- **What is reconstructed from a fragment that fits**: the delta on the fragment. -/
theorem reconstruct_sameFragment {trunk : Params F} (hnum : 1 ≤ num) (hd : Conforms trunk delta)
    (hfits : ∀ k p, trunk.get? k = some p → SameFragment num rnd base p.shape) :
    reconstructTrunkFragment (published num base delta) (trunkShapes trunk) num (rnd % (num : ℤ))
      = .ok (rebuilt trunk num rnd delta) := by
  unfold reconstructTrunkFragment
  have hout := @mapM_entries String (List ℕ) (Tensor F) _ (trunkShapes trunk)
    (fun k shape => reconstructTensor (fragmentSel num (rnd % (num : ℤ))) shape
      ((published num base delta).get? k))
    (fun k shape => .ofFn shape fun i => if fragmentSel num rnd i then elementAt delta k i else 0) (by
        intro e he
        have hget := Dict.mem_entries_iff.mp he
        rw [get?_trunkShapes] at hget
        obtain ⟨p, hp, hshape⟩ := Option.map_eq_some_iff.mp hget
        rw [published, extractTrunkFragment, Dict.get?_mapWithKey, fragmentSel_emod, fragmentSel_emod]
        unfold elementAt
        cases hk : delta.get? e.1 with
        | none => simp [reconstructTensor]
        | some t =>
          have hfit := hfits e.1 p hp
          rw [hshape] at hfit
          exact scatter_sameFragment hnum hfit ((hd e.1 p t hp hk).trans hshape))
  rw [hout, ok_bind]
  exact congrArg Except.ok (Dict.ext_entries (Dict.entries_ofList (Dict.nodup _)))

/-- A streaming round, of what it reconstructs. -/
theorem streamTrunk_of_recon
    (h : sent.mapM (fun td => reconstructTrunkFragment td (trunkShapes s.trunk) num
      (rnd % (num : ℤ))) = .ok recon) :
    streamTrunk outerLr beta num rnd sent s
      = outerAggregateMasked outerLr beta recon (roundMasks s.trunk num rnd) s := by
  unfold streamTrunk
  rw [PyM.bind_run_ok (PyM.get_run s), PyM.bind_run, h]
  rfl

end Land

/-! ## Contributions cut at their base rounds -/

section Send

variable {F : Type} [FloatOps F]

/-- The contributions with these full deltas, each cut at its base round. -/
def sendAt (num : ℕ) (cs : List (Contribution F × ℤ)) (deltas : List (Params F)) :
    List (Contribution F) :=
  (cs.zip deltas).map fun p => { p.1.1 with trunkDelta := some (published num p.1.2 p.2) }

/-- An admitted contribution, and the base round its record states. -/
structure AdmittedAt {R L : Type} (S : RoundSetup F R L) (rnd : ℤ) (c : Contribution F × ℤ) :
    Prop where
  valid : S.Valid rnd c.1
  base : c.1.fields.get? "base_round" = some (.int c.2)

/-- A trunk of the given shapes, and a delta for each contribution. -/
structure Family (shapes : Dict String (List ℕ)) (cs : List (Contribution F × ℤ))
    (s : RoundState F) (deltas : List (Params F)) : Prop where
  shapes : trunkShapes s.outer.trunk = shapes
  shaped : Shaped s.outer
  length : deltas.length = cs.length
  conforms : ∀ d ∈ deltas, Conforms s.outer.trunk d

/-- Deltas of the same arrays that agree at an element. -/
def SameAt (k : String) (i : ℕ) (deltas deltas' : List (Params F)) : Prop :=
  List.Forall₂ (fun d d' => trunkShapes d = trunkShapes d' ∧ elementAt d k i = elementAt d' k i)
    deltas deltas'

/-- The round with another step size. -/
def RoundSetup.withStep {R L : Type} (S : RoundSetup F R L) (outer beta : F) : RoundSetup F R L :=
  { S with outer := outer, outerBeta := beta }

/-- **Fragments land where they were cut**: the outer step takes them, and an element of the trunk
moves by that element of the contributors' deltas. -/
structure FragmentsLand {R L : Type} (S : RoundSetup F R L) (num : ℕ) (rnd : ℤ)
    (shapes : Dict String (List ℕ)) (cs : List (Contribution F × ℤ)) : Prop where
  returns : ∀ outer beta s deltas, Family shapes cs s deltas →
    ((S.withStep outer beta).trunkStep rnd
      ((sendAt num cs deltas).filterMap Contribution.sentTrunk)).Returns s.outer
  keepsPlace : ∀ outer beta s deltas deltas' k shape i, Family shapes cs s deltas →
    Family shapes cs s deltas' → shapes.get? k = some shape → i < shape.prod →
    SameAt k i deltas deltas' →
    elementOf ((shardMergeRound (S.withStep outer beta) (sendAt num cs deltas) rnd).after s).outer
        k i
      = elementOf ((shardMergeRound (S.withStep outer beta) (sendAt num cs deltas') rnd).after
          s).outer k i

variable {num : ℕ} {rnd : ℤ} {cs : List (Contribution F × ℤ)} {deltas deltas' : List (Params F)}
  {shapes : Dict String (List ℕ)} {s : RoundState F} {R L : Type} {S : RoundSetup F R L}

theorem size_published (base : ℤ) (delta : Params F) : (published num base delta).size = delta.size := by
  unfold published extractTrunkFragment Dict.size Dict.mapWithKey
  exact List.length_map _

/-- What is sent: the fragments of the deltas that are not empty. -/
theorem filterMap_sendAt : (sendAt num cs deltas).filterMap Contribution.sentTrunk
    = ((cs.zip deltas).filter fun p => decide (p.2.size ≠ 0)).map
        fun p => published num p.1.2 p.2 := by
  unfold sendAt
  generalize cs.zip deltas = ps
  induction ps with
  | nil => rfl
  | cons p ps ih =>
    rw [List.map_cons, List.filterMap_cons, ih]
    unfold Contribution.sentTrunk
    dsimp only
    rw [Option.filter_some, size_published]
    by_cases hempty : p.2.size = 0
    · rw [List.filter_cons_of_neg (by simp [hempty])]
      simp [hempty]
    · rw [List.filter_cons_of_pos (by simp [hempty])]
      simp [hempty]

omit [FloatOps F] in
/-- The deltas that are sent. -/
theorem map_snd_zip_filter (h : deltas.length = cs.length) :
    ((cs.zip deltas).filter fun p => decide (p.2.size ≠ 0)).map Prod.snd
      = deltas.filter fun d => decide (d.size ≠ 0) := by
  have hsnd : (cs.zip deltas).map Prod.snd = deltas := List.map_snd_zip (by omega)
  conv_rhs => rw [← hsnd]
  rw [List.filter_map]
  rfl

theorem valid_sendAt (h : ∀ c ∈ cs, AdmittedAt S rnd c) (outer beta : F) :
    ∀ c ∈ sendAt num cs deltas, (S.withStep outer beta).Valid rnd c := by
  intro c hc
  obtain ⟨p, hp, rfl⟩ := List.mem_map.mp hc
  exact (h p.1 (List.of_mem_zip hp).1).valid

/-! ## The fragments fit -/

/-- **The trunk of a round whose fragments fit.** -/
theorem trunkStep_sendAt {outer beta : F} (hstreams : streams S.streamFrac = true)
    (hnum : streamNumFragments S.streamFrac = .ok num) (hone : 1 ≤ num)
    (hfamily : Family shapes cs s deltas)
    (hfits : ∀ c ∈ cs, ∀ k shape, shapes.get? k = some shape → SameFragment num rnd c.2 shape) :
    (S.withStep outer beta).trunkStep rnd
        ((sendAt num cs deltas).filterMap Contribution.sentTrunk) s.outer
      = .ok () (outerState outer beta
          ((deltas.filter fun d => decide (d.size ≠ 0)).map (rebuilt s.outer.trunk num rnd))
          (roundMasks s.outer.trunk num rnd).get? s.outer) := by
  have hrecon : ∀ ps : List ((Contribution F × ℤ) × Params F), (∀ p ∈ ps, p ∈ cs.zip deltas) →
      (ps.map fun p => published num p.1.2 p.2).mapM (fun td => reconstructTrunkFragment td
        (trunkShapes s.outer.trunk) num (rnd % (num : ℤ)))
        = .ok ((ps.map Prod.snd).map (rebuilt s.outer.trunk num rnd)) := by
    intro ps hps
    induction ps with
    | nil => rfl
    | cons p ps ih =>
      obtain ⟨hp, hps⟩ := List.forall_mem_cons.mp hps
      obtain ⟨hc, hd⟩ := List.of_mem_zip hp
      have hland := reconstruct_sameFragment hone (hfamily.conforms p.2 hd) fun k param hparam =>
        hfits p.1 hc k param.shape (by rw [← hfamily.shapes, get?_trunkShapes, hparam]; rfl)
      rw [List.map_cons, List.mapM_cons, hland, ih hps]
      rfl
  have hsent := hrecon ((cs.zip deltas).filter fun p => decide (p.2.size ≠ 0)) fun p hp =>
    List.mem_of_mem_filter hp
  rw [map_snd_zip_filter hfamily.length] at hsent
  rw [filterMap_sendAt]
  unfold RoundSetup.trunkStep
  by_cases hempty : (deltas.filter fun d => decide (d.size ≠ 0)) = []
  · have hnone : ((cs.zip deltas).filter fun p => decide (p.2.size ≠ 0)) = [] := by
      rw [← List.map_eq_nil_iff (f := Prod.snd), map_snd_zip_filter hfamily.length, hempty]
    rw [hnone, hempty]
    exact congrArg (EStateM.Result.ok ()) outerState_nil.symm
  · have hsome : ¬ (((cs.zip deltas).filter fun p => decide (p.2.size ≠ 0)).map
        fun p => published num p.1.2 p.2).isEmpty = true := by
      rw [List.isEmpty_iff, List.map_eq_nil_iff]
      intro h
      rw [← map_snd_zip_filter hfamily.length, h] at hempty
      exact hempty rfl
    have hstreams' : streams (S.withStep outer beta).streamFrac = true := hstreams
    have hnum' : streamNumFragments (S.withStep outer beta).streamFrac = .ok num := hnum
    rw [if_neg hsome, if_pos hstreams', hnum', PyM.bind_run_ok (PyM.ofExcept_ok _ _)]
    exact (streamTrunk_of_recon hsent).trans (outerAggregateMasked_fits (fits_rebuilt hfamily.shaped))

/-- The deltas that are sent agree at an element where all do. -/
theorem SameAt.filter {k : String} {i : ℕ} (h : SameAt k i deltas deltas') :
    (deltas.filter fun d => decide (d.size ≠ 0)).map (fun d => elementAt d k i)
      = (deltas'.filter fun d => decide (d.size ≠ 0)).map fun d => elementAt d k i := by
  induction h with
  | nil => rfl
  | @cons d d' deltas deltas' hsame _ ih =>
    have hsize : d.size = d'.size := by
      have hlength := congrArg Dict.size hsame.1
      unfold trunkShapes Dict.size Dict.mapWithKey at hlength
      rw [List.length_map, List.length_map] at hlength
      exact hlength
    by_cases hempty : d'.size = 0
    · rw [List.filter_cons_of_neg (by simp [hsize, hempty]), ih,
        List.filter_cons_of_neg (by simp [hempty])]
    · rw [List.filter_cons_of_pos (by simp [hsize, hempty]), List.map_cons, ih, hsame.2,
        List.filter_cons_of_pos (by simp [hempty]), List.map_cons]

/-- An outer step reads one element of the deltas. -/
theorem elementStep_congr {outer beta : F} {k : String} {i : ℕ} {pm : F × F}
    (h : deltas.map (fun d => elementAt d k i) = deltas'.map fun d => elementAt d k i) :
    elementStep outer beta deltas k i pm = elementStep outer beta deltas' k i pm := by
  have hlength := congrArg List.length h
  rw [List.length_map, List.length_map] at hlength
  have hnil : deltas = [] ↔ deltas' = [] := by
    rw [← List.length_eq_zero_iff, hlength, List.length_eq_zero_iff]
  unfold elementStep meanOf
  rw [h, hlength]
  simp only [hnil]

/-- **Fragments that fit land where they were cut.** -/
theorem fragmentsLand_of_sameFragment (hstreams : streams S.streamFrac = true)
    (hnum : streamNumFragments S.streamFrac = .ok num) (hone : 1 ≤ num)
    (hadmitted : ∀ c ∈ cs, AdmittedAt S rnd c)
    (hfits : ∀ c ∈ cs, ∀ k shape, shapes.get? k = some shape → SameFragment num rnd c.2 shape) :
    FragmentsLand S num rnd shapes cs where
  returns outer beta s deltas hfamily :=
    ⟨_, _, trunkStep_sendAt hstreams hnum hone hfamily hfits⟩
  keepsPlace outer beta s deltas deltas' k shape i hfamily hfamily' hshape hi hsame := by
    have hparam : ∃ param, s.outer.trunk.get? k = some param ∧ param.shape = shape := by
      rw [← hfamily.shapes, get?_trunkShapes] at hshape
      exact Option.map_eq_some_iff.mp hshape
    obtain ⟨param, hparam, rfl⟩ := hparam
    rw [outer_after (valid_sendAt hadmitted outer beta)
        (trunkStep_sendAt hstreams hnum hone hfamily hfits),
      outer_after (valid_sendAt hadmitted outer beta)
        (trunkStep_sendAt hstreams hnum hone hfamily' hfits),
      elementOf_stream hparam hi, elementOf_stream hparam hi, elementStep_congr hsame.filter]

end Send

/-! ## The fragments do not fit -/

section Reconstruct

variable {F : Type} [FloatOps F] {shape : List ℕ} {shapes : Dict String (List ℕ)} {num : ℕ}
  {fragment : ℤ} {td full : Params F} {vals : Option (Tensor F)} {t : Tensor F} {sel : ℕ → Bool}
  {k : String}

theorem shape_reconstructTensor (h : reconstructTensor sel shape vals = .ok t) : t.shape = shape := by
  unfold reconstructTensor at h
  cases vals with
  | none =>
    cases h
    rfl
  | some v =>
    dsimp only at h
    unfold scatter at h
    split_ifs at h with hsize hone
    · cases h
      rfl
    · cases h
      rfl

/-- **What is reconstructed, key by key.** -/
theorem reconstruct_get? (h : reconstructTrunkFragment td shapes num fragment = .ok full) :
    ∃ g : String → List ℕ → Tensor F, full = shapes.mapWithKey g ∧
      ∀ k shape, shapes.get? k = some shape →
        reconstructTensor (fragmentSel num fragment) shape (td.get? k) = .ok (g k shape) := by
  have hsteps : ∀ e ∈ shapes.entries, ∃ t,
      reconstructTensor (fragmentSel num fragment) e.2 (td.get? e.1) = .ok t := by
    unfold reconstructTrunkFragment at h
    obtain ⟨out, hout, -⟩ := bind_eq_ok.mp h
    intro e he
    obtain ⟨u, hu⟩ := exists_mapM_eq_ok.mp ⟨out, hout⟩ e he
    obtain ⟨t, ht, -⟩ := bind_eq_ok.mp hu
    exact ⟨t, ht⟩
  have hchoice : ∀ k shape, ∃ t : Tensor F, shapes.get? k = some shape →
      reconstructTensor (fragmentSel num fragment) shape (td.get? k) = .ok t := by
    intro k shape
    by_cases hget : shapes.get? k = some shape
    · obtain ⟨t, ht⟩ := hsteps (k, shape) (Dict.mem_entries_iff.mpr hget)
      exact ⟨t, fun _ => ht⟩
    · exact ⟨.ofFn shape fun _ => 0, fun hget' => absurd hget' hget⟩
  choose g hg using hchoice
  refine ⟨g, ?_, hg⟩
  have hout := @mapM_entries String (List ℕ) (Tensor F) _ shapes
    (fun k shape => reconstructTensor (fragmentSel num fragment) shape (td.get? k)) g
    fun e he => hg e.1 e.2 (Dict.mem_entries_iff.mp he)
  unfold reconstructTrunkFragment at h
  rw [hout, ok_bind] at h
  exact (Except.ok.inj h).symm.trans (Dict.ext_entries (Dict.entries_ofList (Dict.nodup _)))

theorem conforms_reconstruct {trunk : Params F}
    (h : reconstructTrunkFragment td (trunkShapes trunk) num fragment = .ok full) :
    Conforms trunk full := by
  obtain ⟨g, rfl, hg⟩ := reconstruct_get? h
  intro k p t hp ht
  have hshape : (trunkShapes trunk).get? k = some p.shape := by rw [get?_trunkShapes, hp]; rfl
  rw [Dict.get?_mapWithKey, hshape] at ht
  rw [← Option.some.inj ht]
  exact shape_reconstructTensor (hg k p.shape hshape)

/-- Arrays of the given shapes, filled in by the index. -/
def filled (shapes : Dict String (List ℕ)) (f : ℕ → F) : Params F :=
  shapes.mapWithKey fun _ shape => .ofFn shape f

omit [FloatOps F] in
theorem trunkShapes_filled (shapes : Dict String (List ℕ)) (f : ℕ → F) :
    trunkShapes (filled shapes f) = shapes := by
  refine Dict.ext_entries ?_
  show (shapes.entries.map _).map _ = shapes.entries
  rw [List.map_map]
  exact List.map_id _

/-- **The first element of the round's fragment** gets the first value of the fragment that was
sent, and there is one. -/
theorem reconstruct_filled {base rnd : ℤ} {f : ℕ → F} {i : ℕ} (hnum : 1 ≤ num)
    (h : reconstructTrunkFragment (published num base (filled shapes f)) shapes num
      (rnd % (num : ℤ)) = .ok full)
    (hshape : shapes.get? k = some shape) (hi : (i : ℤ) = rnd % (num : ℤ)) (hlt : i < shape.prod) :
    ∃ t, full.get? k = some t ∧ t.get i = f (base % (num : ℤ)).toNat := by
  obtain ⟨g, rfl, hg⟩ := reconstruct_get? h
  refine ⟨g k shape, by rw [Dict.get?_mapWithKey, hshape]; rfl, ?_⟩
  have hpos : (0 : ℤ) < num := by omega
  have hnonneg := Int.emod_nonneg base hpos.ne'
  have hland := hg k shape hshape
  rw [fragmentSel_emod, published, extractTrunkFragment, Dict.get?_mapWithKey, filled,
    Dict.get?_mapWithKey, hshape, fragmentSel_emod] at hland
  obtain ⟨hsel, hfirst⟩ := selectedBelow_residue hnum hi
  obtain ⟨hvalue, hsome⟩ := scatter_first hland hlt hsel hfirst
  rw [hvalue]
  -- the first value sent is the element of the sender's own residue
  have hsender : ((base % (num : ℤ)).toNat : ℤ) = base % (num : ℤ) := by omega
  obtain ⟨hsel', hfirst'⟩ := selectedBelow_residue hnum hsender
  have hin : (base % (num : ℤ)).toNat < shape.prod := by
    by_contra hout
    have hnone : selectedBelow (fragmentSel num base) shape.prod = [] := by
      rw [← List.sublist_nil, ← hfirst']
      exact (List.range_sublist.mpr (by omega)).filter _
    have hzero : (extractTensor (fragmentSel num base) (Tensor.ofFn shape f)).size = 0 := by
      simp [extractTensor, Tensor.size, hnone]
    have hsome' : 0 < (extractTensor (fragmentSel num base) (Tensor.ofFn shape f)).size := hsome
    omega
  have hget := @get_extractTensor F _ (fragmentSel num base) (Tensor.ofFn shape f)
    (base % (num : ℤ)).toNat hin hsel'
  rw [hfirst'] at hget
  exact hget.trans (Tensor.get_ofFn hin f)

/-- Every contribution is there under the key, with the value of its own residue. -/
theorem presentAt_reconstructed {rnd : ℤ} {f : ℕ → F} {i : ℕ} {cs : List (Contribution F × ℤ)}
    {recon : List (Params F)} (hnum : 1 ≤ num) (hshape : shapes.get? k = some shape)
    (hi : (i : ℤ) = rnd % (num : ℤ)) (hlt : i < shape.prod)
    (hall : List.Forall₂ (fun td full =>
      reconstructTrunkFragment td shapes num (rnd % (num : ℤ)) = .ok full)
      (cs.map fun c => published num c.2 (filled shapes f)) recon) :
    (presentAt recon k).map (fun t => t.get i) = cs.map fun c => f (c.2 % (num : ℤ)).toNat := by
  unfold presentAt
  induction cs generalizing recon with
  | nil =>
    cases hall
    rfl
  | cons c cs ih =>
    obtain ⟨full, recon', hfull, hrest, rfl⟩ := List.forall₂_cons_left_iff.mp hall
    obtain ⟨t, ht, hvalue⟩ := reconstruct_filled hnum hfull hshape hi hlt
    rw [List.filterMap_cons, ht, List.map_cons, List.map_cons, ih hrest, hvalue]

/-- What is sent, when every contributor has the same delta. -/
theorem filterMap_sendAt_filled {f : ℕ → F} {cs : List (Contribution F × ℤ)}
    (hshape : shapes.get? k = some shape) :
    (sendAt num cs (cs.map fun _ => filled shapes f)).filterMap Contribution.sentTrunk
      = cs.map fun c => published num c.2 (filled shapes f) := by
  have hsize : (filled shapes f).size ≠ 0 := by
    have hmem : shape ∈ shapes.entries.map Prod.snd :=
      List.mem_map.mpr ⟨(k, shape), Dict.mem_entries_iff.mpr hshape, rfl⟩
    unfold filled Dict.size Dict.mapWithKey
    rw [List.length_map, ← List.length_map (f := Prod.snd)]
    exact (List.length_pos_of_mem hmem).ne'
  have hzip : cs.zip (cs.map fun _ => filled shapes f) = cs.map fun c => (c, filled shapes f) :=
    List.map_prod_left_eq_zip.symm
  rw [filterMap_sendAt, hzip, List.filter_eq_self.mpr fun p hp => ?_, List.map_map]
  · rfl
  · obtain ⟨c, -, rfl⟩ := List.mem_map.mp hp
    exact decide_eq_true hsize

end Reconstruct

section Miss

variable {R L : Type} {S : RoundSetup PyFloat R L} {num : ℕ} {rnd : ℤ}
  {cs : List (Contribution PyFloat × ℤ)} {shapes : Dict String (List ℕ)} {k : String}
  {shape : List ℕ} {i : ℕ}

/-- A trunk of zeros, without momentum. -/
def zeroRound (shapes : Dict String (List ℕ)) : RoundState PyFloat :=
  ⟨⟨filled shapes fun _ => 0, ∅⟩, ⟨[], ⟨0, 0, 0⟩⟩⟩

/-- The same delta from every contributor. -/
theorem family_filled (f : ℕ → PyFloat) :
    Family shapes cs (zeroRound shapes) (cs.map fun _ => filled shapes f) where
  shapes := trunkShapes_filled shapes _
  shaped := fun _ _ _ _ hm => nomatch hm
  length := List.length_map _
  conforms := by
    intro d hd k p t hp ht
    obtain ⟨c, -, rfl⟩ := List.mem_map.mp hd
    have hp' : ((zeroRound shapes).outer.trunk.get? k).map Tensor.shape = some p.shape := by
      rw [hp]
      rfl
    have ht' : ((filled shapes f).get? k).map Tensor.shape = some t.shape := by
      rw [ht]
      rfl
    rw [← get?_trunkShapes, trunkShapes_filled] at ht'
    rw [← get?_trunkShapes, show trunkShapes (zeroRound shapes).outer.trunk = shapes from
      trunkShapes_filled shapes _] at hp'
    exact Option.some.inj (ht'.symm.trans hp')

/-- **Where such a round leaves the momentum** of the first element of its fragment. -/
theorem momentum_filled (hstreams : streams S.streamFrac = true)
    (hnum : streamNumFragments S.streamFrac = .ok num) (hone : 1 ≤ num)
    (hadmitted : ∀ c ∈ cs, AdmittedAt S rnd c) (hshape : shapes.get? k = some shape)
    (hi : (i : ℤ) = rnd % (num : ℤ)) (hlt : i < shape.prod) (hcs : cs ≠ []) (f : ℕ → PyFloat)
    (hreturns : ((S.withStep 0 0).trunkStep rnd
      ((sendAt num cs (cs.map fun _ => filled shapes f)).filterMap
        Contribution.sentTrunk)).Returns (zeroRound shapes).outer) :
    elementAt ((shardMergeRound (S.withStep 0 0) (sendAt num cs (cs.map fun _ => filled shapes f))
        rnd).after (zeroRound shapes)).outer.momentum k i
      = 0 * 0 + FloatOps.sum (cs.map fun c => f (c.2 % (num : ℤ)).toNat)
          / FloatOps.lit (cs.length : ℚ) := by
  obtain ⟨u, o, htrunk⟩ := hreturns
  rw [outer_after (valid_sendAt hadmitted 0 0) htrunk]
  rw [filterMap_sendAt_filled hshape] at htrunk
  have hshapes : trunkShapes (zeroRound shapes).outer.trunk = shapes := trunkShapes_filled shapes _
  have hparam : (zeroRound shapes).outer.trunk.get? k = some (.ofFn shape fun _ => 0) := by
    show (filled shapes fun _ => 0).get? k = _
    rw [filled, Dict.get?_mapWithKey, hshape]
    rfl
  unfold RoundSetup.trunkStep at htrunk
  have hsome : ¬ (cs.map fun c => published num c.2 (filled shapes f)).isEmpty = true := by
    rw [List.isEmpty_iff, List.map_eq_nil_iff]
    exact hcs
  have hstreams' : streams (S.withStep 0 0).streamFrac = true := hstreams
  have hnum' : streamNumFragments (S.withStep 0 0).streamFrac = .ok num := hnum
  rw [if_neg hsome, if_pos hstreams', hnum', PyM.bind_run_ok (PyM.ofExcept_ok _ _)] at htrunk
  cases hrecon : (cs.map fun c => published num c.2 (filled shapes f)).mapM (fun td =>
      reconstructTrunkFragment td (trunkShapes (zeroRound shapes).outer.trunk) num
        (rnd % (num : ℤ))) with
  | error e =>
    unfold streamTrunk at htrunk
    rw [PyM.bind_run_ok (PyM.get_run _), PyM.bind_run, hrecon] at htrunk
    cases htrunk
  | ok recon =>
    rw [streamTrunk_of_recon hrecon] at htrunk
    have hall := forall₂_of_mapM hrecon
    have hconforms : ∀ d ∈ recon, Conforms (zeroRound shapes).outer.trunk d := by
      intro d hd
      obtain ⟨td, -, htd⟩ := exists_left_of_forall₂ hall hd
      exact conforms_reconstruct htd
    have hfits : Fits recon (roundMasks (zeroRound shapes).outer.trunk num rnd).get?
        (zeroRound shapes).outer := by
      have hnomask := fits_of_conforms (@family_filled cs shapes f).shaped hconforms
      exact ⟨hnomask.deltas, hnomask.momentum, (@fits_rebuilt PyFloat _ num rnd _ []
        (@family_filled cs shapes f).shaped).mask⟩
    cases (outerAggregateMasked_fits hfits).symm.trans htrunk
    rw [hshapes] at hall
    have hpresent := presentAt_reconstructed hone hshape hi hlt hall
    obtain ⟨-, hmomentum⟩ := @elementAt_outerState PyFloat _ 0 0 recon
      (roundMasks (zeroRound shapes).outer.trunk num rnd).get? (zeroRound shapes).outer k _ hparam i
      hlt
    have hlength := congrArg List.length hpresent
    rw [List.length_map, List.length_map] at hlength
    have hmoves : ¬ (presentAt recon k = [] ∨
        selectedAt ((roundMasks (zeroRound shapes).outer.trunk num rnd).get? k) i = false) := by
      rw [not_or]
      constructor
      · intro hnil
        rw [hnil] at hlength
        exact hcs (List.length_eq_zero_iff.mp hlength.symm)
      · rw [get?_roundMasks, hparam]
        have hsel := (selectedBelow_residue hone hi).1
        show ¬ (Tensor.ofFn shape (fragmentSel num rnd)).get i = false
        rw [Tensor.get_ofFn hlt, hsel]
        exact Bool.noConfusion
    rw [if_neg hmoves] at hmomentum
    refine hmomentum.trans ?_
    unfold nextMomentum meanAt
    rw [hpresent, hlength]
    rfl

/-- A total of zeros and ones counts the ones. -/
theorem sum_zeros_ones (cs : List (Contribution PyFloat × ℤ))
    (p : (Contribution PyFloat × ℤ) → Prop) [DecidablePred p] :
    FloatOps.sum (cs.map fun c => if p c then (0 : PyFloat) else .fin 1)
      = .fin (cs.filter fun c => decide (¬ p c)).length := by
  have hfold : ∀ (l : List (Contribution PyFloat × ℤ)) (x : ℚ),
      (l.map fun c => if p c then (0 : PyFloat) else .fin 1).foldl (· + ·) (.fin x)
        = .fin (x + (l.filter fun c => decide (¬ p c)).length) := by
    intro l
    induction l with
    | nil => exact fun x => congrArg PyFloat.fin (by simp)
    | cons c l ih =>
      intro x
      rw [List.map_cons, List.foldl_cons]
      by_cases hc : p c
      · rw [if_pos hc, PyFloat.add_zero_right, ih, List.filter_cons_of_neg (by simp [hc])]
      · rw [if_neg hc, PyFloat.fin_add, ih, List.filter_cons_of_pos (by simp [hc]), List.length_cons]
        refine congrArg PyFloat.fin ?_
        push_cast
        ring
  have htotal := hfold cs 0
  rw [zero_add] at htotal
  exact htotal

/-- **A fragment of another round misses**: the first element of the round's fragment moves by
another element of the delta. -/
theorem sameFragment_of_fragmentsLand (hstreams : streams S.streamFrac = true)
    (hnum : streamNumFragments S.streamFrac = .ok num) (hone : 1 ≤ num)
    (hadmitted : ∀ c ∈ cs, AdmittedAt S rnd c) (hland : FragmentsLand S num rnd shapes cs)
    {c : Contribution PyFloat × ℤ} (hc : c ∈ cs) (hshape : shapes.get? k = some shape) :
    SameFragment num rnd c.2 shape := by
  by_contra hmiss
  unfold SameFragment at hmiss
  rw [not_or, not_le] at hmiss
  obtain ⟨hother, hin⟩ := hmiss
  have hpos : (0 : ℤ) < num := by omega
  have hnonneg := Int.emod_nonneg rnd hpos.ne'
  have hi : (((rnd % (num : ℤ)).toNat : ℕ) : ℤ) = rnd % (num : ℤ) := by omega
  have hlt : (rnd % (num : ℤ)).toNat < shape.prod := by omega
  have hcs : cs ≠ [] := List.ne_nil_of_mem hc
  -- two families that agree on the whole fragment of the round
  have hzero := @family_filled cs shapes fun _ => (0 : PyFloat)
  have hbump := @family_filled cs shapes
    fun j => if fragmentSel num rnd j then (0 : PyFloat) else .fin 1
  have hplace := hland.keepsPlace 0 0 _ _ _ k shape _ hzero hbump hshape hlt (by
    refine List.forall₂_map_left_iff.mpr (List.forall₂_map_right_iff.mpr
      (List.forall₂_same.mpr fun c' _ => ⟨?_, ?_⟩))
    · rw [trunkShapes_filled, trunkShapes_filled]
    · unfold elementAt filled
      rw [Dict.get?_mapWithKey, Dict.get?_mapWithKey, hshape]
      show (Tensor.ofFn shape _).get _ = (Tensor.ofFn shape _).get _
      rw [Tensor.get_ofFn hlt, Tensor.get_ofFn hlt, (selectedBelow_residue hone hi).1, if_pos rfl])
  have hmomentum := congrArg Prod.snd hplace
  unfold elementOf at hmomentum
  dsimp only at hmomentum
  rw [momentum_filled hstreams hnum hone hadmitted hshape hi hlt hcs _ (hland.returns 0 0 _ _ hzero),
    momentum_filled hstreams hnum hone hadmitted hshape hi hlt hcs _ (hland.returns 0 0 _ _ hbump)]
    at hmomentum
  -- the first family moves nothing, the second one does
  have hnothing : (cs.map fun _ => (0 : PyFloat)) = cs.map fun _ =>
      if True then (0 : PyFloat) else .fin 1 := by simp
  have hmisses : (cs.map fun c' => if fragmentSel num rnd (c'.2 % (num : ℤ)).toNat
        then (0 : PyFloat) else .fin 1)
      = cs.map fun c' => if c'.2 % (num : ℤ) = rnd % (num : ℤ) then (0 : PyFloat) else .fin 1 := by
    refine List.map_congr_left fun c' _ => ?_
    have hresidue : ((c'.2 % (num : ℤ)).toNat : ℤ) = c'.2 % (num : ℤ) := by
      have := Int.emod_nonneg c'.2 hpos.ne'
      omega
    simp only [fragmentSel, hresidue, Int.emod_emod, decide_eq_true_eq]
  rw [hnothing, hmisses, sum_zeros_ones, sum_zeros_ones,
    PyFloat.fin_div_nat _ (List.length_pos_of_ne_nil hcs),
    PyFloat.fin_div_nat _ (List.length_pos_of_ne_nil hcs)] at hmomentum
  have hcount : 0 < (cs.filter fun c' => decide (¬ c'.2 % (num : ℤ) = rnd % (num : ℤ))).length :=
    List.length_pos_of_mem (List.mem_filter.mpr ⟨hc, decide_eq_true hother⟩)
  have hpositive : 0 < ((cs.filter fun c' =>
      decide (¬ c'.2 % (num : ℤ) = rnd % (num : ℤ))).length : ℚ) / cs.length :=
    div_pos (by exact_mod_cast hcount) (by exact_mod_cast List.length_pos_of_ne_nil hcs)
  have hnone : ((cs.filter fun _ => decide (¬ True)).length : ℚ) / cs.length = 0 := by simp
  rw [hnone] at hmomentum
  have hvalue := PyFloat.fin.inj hmomentum
  rw [zero_mul, zero_add, zero_add] at hvalue
  exact hpositive.ne hvalue

/-- **Streaming fragments land on the elements they were cut from** when each was cut at the
fragment of the round, or has no element there. -/
theorem fragments_land_iff (S : RoundSetup PyFloat R L) (num : ℕ) (rnd : ℤ)
    (shapes : Dict String (List ℕ)) (cs : List (Contribution PyFloat × ℤ))
    (hstreams : streams S.streamFrac = true) (hnum : streamNumFragments S.streamFrac = .ok num)
    (hadmitted : ∀ c ∈ cs, AdmittedAt S rnd c) :
    FragmentsLand S num rnd shapes cs ↔
      ∀ c ∈ cs, ∀ k shape, shapes.get? k = some shape → SameFragment num rnd c.2 shape := by
  obtain ⟨num', hnum', hone⟩ := exists_streamNumFragments hstreams
  cases hnum.symm.trans hnum'
  constructor
  · exact fun hland c hc k shape hshape =>
      sameFragment_of_fragmentsLand hstreams hnum hone hadmitted hland hc hshape
  · exact fragmentsLand_of_sameFragment hstreams hnum hone hadmitted

end Miss

/-- A verified contribution that states its base round. -/
def basedContribution (base : ℤ) : Contribution PyFloat × ℤ :=
  (⟨Dict.ofList [("verify_ok", .bool true), ("expert", .int 0), ("base_round", .int base)], none,
    none⟩, base)

/-- One array of two elements. -/
def pairShapes : Dict String (List ℕ) := Dict.ofList [("w", [2])]

theorem stale_fragment_lands_elsewhere :
    ¬ FragmentsLand halfSetup 2 1 pairShapes [basedContribution 0] := by
  intro hland
  have hsame : SameAt "w" 1 [filled pairShapes fun _ => (0 : PyFloat)]
      [filled pairShapes fun j => if j = 0 then .fin 1 else 0] := by
    refine .cons ⟨?_, by decide +kernel⟩ .nil
    rw [trunkShapes_filled, trunkShapes_filled]
  have hplace := hland.keepsPlace (.fin 1) 0 (zeroRound pairShapes) _ _ "w" [2] 1
    (family_filled _) (family_filled _) rfl (by decide) hsame
  exact absurd hplace (by decide +kernel)

theorem own_fragment_lands : FragmentsLand halfSetup 2 1 pairShapes [basedContribution 1] := by
  refine (fragments_land_iff halfSetup 2 1 pairShapes [basedContribution 1] (by decide +kernel)
    (by decide +kernel)
    fun c hc => ?_).mpr fun c hc k shape _ => ?_
  · rw [List.mem_singleton.mp hc]
    exact ⟨⟨by decide +kernel, rfl⟩, rfl⟩
  · rw [List.mem_singleton.mp hc]
    exact .inl rfl

end NeuraHash
