import NeuraHash.Commitments.Checkpoint

/-!
# Growing the number of experts (`neura_l1/expert_sharding.py`)

`grow_experts` appends experts with parameters drawn from a generator seeded by the expert's
number, and widens the router by a column for each. What a step changes is in
`growExpert_get?`; `growExperts_split` says that two growths in a row are one.
-/

namespace NeuraHash

open Py

/-- `np.random.default_rng` and its normal draws, with the float64 zero. -/
structure Generator (α : Type) where
  State : Type
  /-- `np.random.default_rng(seed)`. -/
  seeded : ℕ → State
  /-- `rng.normal(0, scale, shape)`. -/
  normal : State → ℚ → List ℕ → Tensor α × State
  shape_normal : ∀ s scale shape, (normal s scale shape).1.shape = shape
  zero : α

/-! ## Arrays -/

section Arrays

variable {α : Type}

def Generator.zeros (G : Generator α) (shape : List ℕ) : Tensor α :=
  ⟨shape, List.replicate shape.prod G.zero, List.length_replicate⟩

/-- `t.shape[i]`. -/
def dimAt (t : Tensor α) (i : ℕ) : Except PyErr ℕ :=
  match t.shape[i]? with
  | some d => .ok d
  | none => .error (.raised "IndexError")

/-- `np.concatenate([a, b])` of two vectors. -/
def concatenate (a b : Tensor α) : Except PyErr (Tensor α) :=
  match a.shape, b.shape with
  | [m], [n] => .ok ⟨[a.data.length + b.data.length], a.data ++ b.data, by simp⟩
  | _, _ => .error .valueError

variable [Inhabited α]

/-- `np.concatenate([a, b], axis=1)` of two matrices. -/
def concatenateColumns (a b : Tensor α) : Except PyErr (Tensor α) :=
  match a.shape, b.shape with
  | [m, n], [m', k] =>
    if m = m' then .ok (.ofFn [m, n + k] fun i =>
      if i % (n + k) < n then a.get (i / (n + k) * n + i % (n + k))
      else b.get (i / (n + k) * k + (i % (n + k) - n)))
    else .error .valueError
  | _, _ => .error .valueError

end Arrays

/-! ## Growing -/

/-- `default_expert_seed(e)`. -/
def defaultExpertSeed (e : ℕ) : ℕ := 1000 + e

variable {α : Type}

/-- The loop of `_infer_expert_dims` over the keys. -/
def inferFrom (params : Params α) : List String → Except PyErr (ℕ × ℕ)
  | [] => .error .valueError
  | k :: ks =>
    if "W1_".toList <+: k.toList then
      match params.get? k, params.get? ("W2_" ++ String.ofList (k.toList.drop 3)) with
      | some w1, some w2 => do return (← dimAt w1 1, ← dimAt w2 1)
      | _, _ => inferFrom params ks
    else inferFrom params ks

/-- `_infer_expert_dims(params)`. -/
def inferExpertDims (params : Params α) : Except PyErr (ℕ × ℕ) := inferFrom params params.keys

variable [Inhabited α]

/-- One pass of the loop of `grow_experts`. -/
def growExpert (G : Generator α) (din h d : ℕ) (out : Params α) (e : ℕ) :
    Except PyErr (Params α) := do
  -- the generator is threaded through the three draws
  let w1 := G.normal (G.seeded (defaultExpertSeed e)) (1 / 5) [din, h]
  let w2 := G.normal w1.2 (1 / 5) [h, d]
  let newCol := G.normal w2.2 (1 / 20) [din, 1]
  let out := out.set ("W1_" ++ e.repr) w1.1
  let out := out.set ("b1_" ++ e.repr) (G.zeros [h])
  let out := out.set ("W2_" ++ e.repr) w2.1
  let out := out.set ("b2_" ++ e.repr) (G.zeros [d])
  let out := out.set "Wr" (← concatenateColumns (← Hashing.paramAt out "Wr") newCol.1)
  return out.set "br" (← concatenate (← Hashing.paramAt out "br") (G.zeros [1]))

/-- `out["Wr"].shape[0]`. -/
def routerRows (params : Params α) : Except PyErr ℕ := do
  dimAt (← Hashing.paramAt params "Wr") 0

/-- The `(H, Do)` of the new experts: given, or inferred. -/
def expertDims (params : Params α) : Option (ℕ × ℕ) → Except PyErr (ℕ × ℕ)
  | some dims => .ok dims
  | none => inferExpertDims params

/-- `grow_experts(params, old_n, new_n, dims)`. -/
def growExperts (G : Generator α) (params : Params α) (oldN newN : ℕ) (dims : Option (ℕ × ℕ)) :
    Except PyErr (Params α) := do
  if newN < oldN then throw .valueError
  if newN = oldN then return params
  let din ← routerRows params
  let hd ← expertDims params dims
  (List.range' oldN (newN - oldN)).foldlM (growExpert G din hd.1 hd.2) params

/-! ## What one step changes -/

/-- A step from `out` to `out'`: expert `e` has its keys, the router is wider, nothing else moved. -/
structure Grown (din h d e : ℕ) (out out' : Params α) : Prop where
  frame : ∀ k ∉ expertKeys e, k ≠ "Wr" → k ≠ "br" → out'.get? k = out.get? k
  holds : Hashing.Holds out' (expertKeys e)
  first : ∃ t, out'.get? ("W1_" ++ e.repr) = some t ∧ t.shape = [din, h]
  last : ∃ t, out'.get? ("W2_" ++ e.repr) = some t ∧ t.shape = [h, d]
  router : ∃ t t', out.get? "Wr" = some t ∧ out'.get? "Wr" = some t' ∧ dimAt t' 0 = dimAt t 0
  bias : ∃ t t', out.get? "br" = some t ∧ out'.get? "br" = some t'
  keys : out.keys <+: out'.keys

theorem concatenateColumns_rows {a b t : Tensor α} (h : concatenateColumns a b = .ok t) :
    dimAt t 0 = dimAt a 0 := by
  unfold concatenateColumns at h
  split at h
  · next m n m' k hshape _ =>
    split at h
    · cases h
      rw [dimAt, dimAt, hshape]
      rfl
    · cases h
  · cases h

theorem nodup_expertKeys (e : ℕ) : (expertKeys e).Nodup := by
  have hinj : Function.Injective (fun a : String => a ++ e.repr) := by
    intro a b hab
    have hlist := congrArg String.toList hab
    rw [String.toList_append, String.toList_append] at hlist
    exact String.toList_inj.mp (List.append_cancel_right hlist)
  have hprefixes : ["W1_", "b1_", "W2_", "b2_"].Nodup := by decide
  exact hprefixes.map hinj

theorem growExpert_ok {G : Generator α} {din h d e : ℕ} {out out' : Params α}
    (hok : growExpert G din h d out e = .ok out') : Grown din h d e out out' := by
  unfold growExpert at hok
  obtain ⟨wr, hwr, hok⟩ := bind_eq_ok.mp hok
  obtain ⟨wr', hwr', hok⟩ := bind_eq_ok.mp hok
  obtain ⟨br, hbr, hok⟩ := bind_eq_ok.mp hok
  obtain ⟨br', hbr', hok⟩ := bind_eq_ok.mp hok
  cases hok
  rw [Hashing.paramAt_eq_ok] at hwr hbr
  -- the keys written in this step are all different
  have hnodup := nodup_expertKeys e
  simp only [expertKeys, List.nodup_cons, List.mem_cons, List.not_mem_nil, or_false, not_or] at hnodup
  obtain ⟨⟨h₁₂, h₁₃, h₁₄⟩, ⟨h₂₃, h₂₄⟩, h₃₄, -⟩ := hnodup
  have hrouter : ∀ k ∈ expertKeys e, k ≠ "Wr" := by
    rintro k hk rfl
    exact sharedKeys_disjoint (by decide) hk
  have hbias : ∀ k ∈ expertKeys e, k ≠ "br" := by
    rintro k hk rfl
    exact sharedKeys_disjoint (by decide) hk
  simp only [expertKeys, List.forall_mem_cons] at hrouter hbias
  obtain ⟨hr₁, hr₂, hr₃, hr₄, -⟩ := hrouter
  obtain ⟨hb₁, hb₂, hb₃, hb₄, -⟩ := hbias
  have hrb : "br" ≠ "Wr" := by decide
  rw [Dict.get?_set_of_ne _ _ hr₄, Dict.get?_set_of_ne _ _ hr₃, Dict.get?_set_of_ne _ _ hr₂,
    Dict.get?_set_of_ne _ _ hr₁] at hwr
  rw [Dict.get?_set_of_ne _ _ hrb.symm, Dict.get?_set_of_ne _ _ hb₄, Dict.get?_set_of_ne _ _ hb₃,
    Dict.get?_set_of_ne _ _ hb₂, Dict.get?_set_of_ne _ _ hb₁] at hbr
  constructor
  case frame =>
    intro k hk hkr hkb
    have hne : ∀ c ∈ expertKeys e, c ≠ k := fun c hc hck => hk (hck ▸ hc)
    simp only [expertKeys, List.forall_mem_cons] at hne
    obtain ⟨hk₁, hk₂, hk₃, hk₄, -⟩ := hne
    rw [Dict.get?_set_of_ne _ _ hkb.symm, Dict.get?_set_of_ne _ _ hkr.symm,
      Dict.get?_set_of_ne _ _ hk₄, Dict.get?_set_of_ne _ _ hk₃, Dict.get?_set_of_ne _ _ hk₂,
      Dict.get?_set_of_ne _ _ hk₁]
  case holds =>
    intro k hk
    simp only [expertKeys, List.mem_cons, List.not_mem_nil, or_false] at hk
    apply Dict.mem_keys_iff.mp
    simp only [Dict.mem_keys_set]
    tauto
  case first =>
    refine ⟨(G.normal (G.seeded (defaultExpertSeed e)) (1 / 5) [din, h]).1, ?_, ?_⟩
    · rw [Dict.get?_set_of_ne _ _ hb₁.symm, Dict.get?_set_of_ne _ _ hr₁.symm,
        Dict.get?_set_of_ne _ _ (Ne.symm h₁₄), Dict.get?_set_of_ne _ _ (Ne.symm h₁₃),
        Dict.get?_set_of_ne _ _ (Ne.symm h₁₂), Dict.get?_set_self]
    · exact G.shape_normal _ _ _
  case last =>
    refine ⟨(G.normal (G.normal (G.seeded (defaultExpertSeed e)) (1 / 5) [din, h]).2 (1 / 5)
      [h, d]).1, ?_, ?_⟩
    · rw [Dict.get?_set_of_ne _ _ hb₃.symm, Dict.get?_set_of_ne _ _ hr₃.symm,
        Dict.get?_set_of_ne _ _ (Ne.symm h₃₄), Dict.get?_set_self]
    · exact G.shape_normal _ _ _
  case router =>
    refine ⟨wr, wr', hwr, ?_, concatenateColumns_rows hwr'⟩
    rw [Dict.get?_set_of_ne _ _ hrb, Dict.get?_set_self]
  case bias => exact ⟨br, br', hbr, Dict.get?_set_self _ _ _⟩
  case keys =>
    have hwrite : ∀ (p : Params α) k v, p.keys <+: (p.set k v).keys := Dict.keys_prefix_set
    exact (hwrite _ _ _).trans ((hwrite _ _ _).trans ((hwrite _ _ _).trans
      ((hwrite _ _ _).trans ((hwrite _ _ _).trans (hwrite _ _ _)))))

/-! ## Growing in two steps -/

/-- A key that starts with `W1_` is split after it. -/
theorem eq_append_of_prefix {k : String} (h : "W1_".toList <+: k.toList) :
    k = "W1_" ++ String.ofList (k.toList.drop 3) := by
  obtain ⟨rest, hrest⟩ := h
  apply String.toList_inj.mp
  rw [← hrest, String.toList_append, String.toList_ofList, String.toList_ofList]
  rfl

omit [Inhabited α] in
/-- Whatever key is read off first, the dimensions are those of the step. -/
theorem inferFrom_of_grown {din h d e : ℕ} {out out' : Params α} (hg : Grown din h d e out out')
    {ks : List String} (added : List String) (hinfer : inferFrom out ks = .ok (h, d)) :
    inferFrom out' (ks ++ added) = .ok (h, d) := by
  induction ks with
  | nil => cases hinfer
  | cons k ks ih =>
    rw [inferFrom] at hinfer
    rw [List.cons_append, inferFrom]
    by_cases hinit : "W1_".toList <+: k.toList
    swap
    · rw [if_neg hinit] at hinfer ⊢
      exact ih hinfer
    rw [if_pos hinit] at hinfer ⊢
    have hk := eq_append_of_prefix hinit
    generalize String.ofList (k.toList.drop 3) = rest at hk hinfer ⊢
    by_cases hnew : rest = e.repr
    · -- the keys of the new expert
      obtain ⟨w1, hw1, hshape1⟩ := hg.first
      obtain ⟨w2, hw2, hshape2⟩ := hg.last
      rw [hk, hnew, hw1, hw2]
      simp [dimAt, hshape1, hshape2]
    · -- other keys are as they were
      have hframe : ∀ a ∈ ["W1_", "W2_"],
          out'.get? (a ++ rest) = out.get? (a ++ rest) := by
        intro a ha
        have hinit : a ∈ ["W1_", "b1_", "W2_", "b2_"] := by
          simp only [List.mem_cons, List.not_mem_nil, or_false] at ha ⊢
          tauto
        apply hg.frame
        · intro hmem
          exact hnew (suffix_of_mem_expertKeys hinit hmem)
        · exact (sharedKey_ne (by decide) hinit).symm
        · exact (sharedKey_ne (by decide) hinit).symm
      rw [hk, hframe _ (by decide), hframe _ (by decide), ← hk]
      cases hw1 : out.get? k with
      | none =>
        rw [hw1] at hinfer
        exact ih hinfer
      | some w1 =>
        cases hw2 : out.get? ("W2_" ++ rest) with
        | none =>
          rw [hw1, hw2] at hinfer
          exact ih hinfer
        | some w2 =>
          rw [hw1, hw2] at hinfer
          exact hinfer

theorem grown_inferExpertDims {din h d e : ℕ} {out out' : Params α}
    (hg : Grown din h d e out out') (hinfer : inferExpertDims out = .ok (h, d)) :
    inferExpertDims out' = .ok (h, d) := by
  obtain ⟨added, hkeys⟩ := hg.keys
  unfold inferExpertDims
  rw [← hkeys]
  exact inferFrom_of_grown hg added hinfer

omit [Inhabited α] in
theorem grown_routerRows {din h d e : ℕ} {out out' : Params α} (hg : Grown din h d e out out') :
    routerRows out' = routerRows out := by
  obtain ⟨t, t', ht, ht', hrows⟩ := hg.router
  unfold routerRows
  rw [Hashing.paramAt_eq_ok.mpr ht, Hashing.paramAt_eq_ok.mpr ht']
  exact hrows

omit [Inhabited α] in
theorem grown_mem_keys {din h d e : ℕ} {out out' : Params α} (hg : Grown din h d e out out')
    {k : String} (hk : ∃ t, out.get? k = some t) : ∃ t, out'.get? k = some t :=
  Dict.mem_keys_iff.mp (hg.keys.subset (Dict.mem_keys_iff.mpr hk))

/-- Several steps. -/
structure GrownBy (h d : ℕ) (es : List ℕ) (out out' : Params α) : Prop where
  frame : ∀ k, (∀ e ∈ es, k ∉ expertKeys e) → k ≠ "Wr" → k ≠ "br" → out'.get? k = out.get? k
  holds : ∀ e ∈ es, Hashing.Holds out' (expertKeys e)
  keeps : ∀ k, (∃ t, out.get? k = some t) → ∃ t, out'.get? k = some t
  rows : routerRows out' = routerRows out
  dims : inferExpertDims out = .ok (h, d) → inferExpertDims out' = .ok (h, d)

/-- What one step preserves, the loop does. -/
theorem grownBy_of_foldlM {G : Generator α} {din h d : ℕ} {es : List ℕ} {out out' : Params α}
    (hok : es.foldlM (growExpert G din h d) out = .ok out') : GrownBy h d es out out' := by
  induction es generalizing out with
  | nil =>
    cases hok
    exact ⟨fun _ _ _ _ => rfl, fun _ he => absurd he List.not_mem_nil, fun _ hk => hk, rfl, id⟩
  | cons e es ih =>
    rw [List.foldlM_cons] at hok
    obtain ⟨next, hnext, hok⟩ := bind_eq_ok.mp hok
    have hstep := growExpert_ok hnext
    have hrest := ih hok
    constructor
    · intro k hk hr hb
      rw [hrest.frame k (fun e' he' => hk e' (List.mem_cons_of_mem e he')) hr hb,
        hstep.frame k (hk e List.mem_cons_self) hr hb]
    · intro e' he' k hk
      rcases List.mem_cons.mp he' with rfl | he'
      · exact hrest.keeps k (hstep.holds k hk)
      · exact hrest.holds e' he' k hk
    · exact fun k hk => hrest.keeps k (grown_mem_keys hstep hk)
    · rw [hrest.rows, grown_routerRows hstep]
    · exact fun hinfer => hrest.dims (grown_inferExpertDims hstep hinfer)

theorem growExperts_self {G : Generator α} (params : Params α) (n : ℕ) (dims : Option (ℕ × ℕ)) :
    growExperts G params n n dims = .ok params := by
  unfold growExperts
  rw [if_neg (lt_irrefl n)]
  exact if_pos rfl

theorem growExperts_of_lt {G : Generator α} (params : Params α) {oldN newN : ℕ}
    (hlt : oldN < newN) (dims : Option (ℕ × ℕ)) :
    growExperts G params oldN newN dims = (do
      let din ← routerRows params
      let hd ← expertDims params dims
      (List.range' oldN (newN - oldN)).foldlM (growExpert G din hd.1 hd.2) params) := by
  unfold growExperts
  rw [if_neg (by omega), if_neg (by omega)]

/-- What a growth changes. -/
theorem grownBy_of_growExperts {G : Generator α} {params M : Params α} {oldN newN : ℕ}
    {dims : Option (ℕ × ℕ)} (hle : oldN ≤ newN)
    (hgrow : growExperts G params oldN newN dims = .ok M) :
    ∃ h d, GrownBy h d (List.range' oldN (newN - oldN)) params M := by
  rcases Nat.eq_or_lt_of_le hle with rfl | hlt
  · rw [growExperts_self] at hgrow
    cases hgrow
    rw [Nat.sub_self]
    exact ⟨0, 0, fun _ _ _ _ => rfl, fun _ he => absurd he List.not_mem_nil, fun _ hk => hk, rfl, id⟩
  · rw [growExperts_of_lt params hlt] at hgrow
    obtain ⟨din, -, hgrow⟩ := bind_eq_ok.mp hgrow
    obtain ⟨hd, -, hgrow⟩ := bind_eq_ok.mp hgrow
    exact ⟨hd.1, hd.2, grownBy_of_foldlM hgrow⟩

/-- **Growing in two steps is growing in one.** -/
theorem growExperts_split {G : Generator α} (params : Params α) {oldN mid newN : ℕ}
    (hmid : oldN ≤ mid) (hnew : mid ≤ newN) (dims : Option (ℕ × ℕ)) :
    (growExperts G params oldN mid dims >>= fun M => growExperts G M mid newN dims)
      = growExperts G params oldN newN dims := by
  rcases Nat.eq_or_lt_of_le hmid with rfl | hmid
  · rw [growExperts_self, ok_bind]
  rcases Nat.eq_or_lt_of_le hnew with rfl | hnew
  · simp only [growExperts_self]
    exact bind_pure _
  have hrange : List.range' oldN (newN - oldN)
      = List.range' oldN (mid - oldN) ++ List.range' mid (newN - mid) := by
    rw [show newN - oldN = (mid - oldN) + (newN - mid) by omega, ← List.range'_append_1,
      show oldN + (mid - oldN) = mid by omega]
  rw [growExperts_of_lt params hmid, growExperts_of_lt params (hmid.trans hnew), hrange]
  cases hrows : routerRows params with
  | error err => rfl
  | ok din =>
    cases hdims : expertDims params dims with
    | error err => rfl
    | ok hd =>
      rw [ok_bind, ok_bind, ok_bind, ok_bind, List.foldlM_append]
      cases hloop : (List.range' oldN (mid - oldN)).foldlM (growExpert G din hd.1 hd.2) params with
      | error err => rfl
      | ok M =>
        -- the second growth reads the same dimensions off what the first one returned
        have hgrown := grownBy_of_foldlM hloop
        have hdims' : expertDims M dims = .ok hd := by
          cases dims with
          | some dims => exact hdims
          | none => exact hgrown.dims hdims
        rw [ok_bind, ok_bind, growExperts_of_lt M hnew, hgrown.rows, hrows, hdims']
        rfl

/-! ## Growth of well-shaped parameters -/

/-- The router is a matrix of `din` rows, its bias a vector. -/
structure RouterShaped (din : ℕ) (params : Params α) : Prop where
  router : ∃ t n, params.get? "Wr" = some t ∧ t.shape = [din, n]
  bias : ∃ t n, params.get? "br" = some t ∧ t.shape = [n]

theorem growExpert_total (G : Generator α) {din : ℕ} (h d e : ℕ) {out : Params α}
    (hshaped : RouterShaped din out) :
    ∃ out', growExpert G din h d out e = .ok out' ∧ RouterShaped din out' := by
  obtain ⟨wr, n, hwr, hwrshape⟩ := hshaped.router
  obtain ⟨br, m, hbr, hbrshape⟩ := hshaped.bias
  have hne : ∀ k ∈ sharedKeys, ∀ a ∈ ["W1_", "b1_", "W2_", "b2_"], a ++ e.repr ≠ k :=
    fun k hk a ha => (sharedKey_ne hk ha).symm
  have hwne := hne "Wr" (by decide)
  have hbne := hne "br" (by decide)
  simp only [List.forall_mem_cons] at hwne hbne
  obtain ⟨hw₁, hw₂, hw₃, hw₄, -⟩ := hwne
  obtain ⟨hb₁, hb₂, hb₃, hb₄, -⟩ := hbne
  unfold growExpert
  simp only [Hashing.paramAt, Dict.get?_set_of_ne _ _ hw₁, Dict.get?_set_of_ne _ _ hw₂,
    Dict.get?_set_of_ne _ _ hw₃, Dict.get?_set_of_ne _ _ hw₄, hwr, ok_bind]
  have hcol := G.shape_normal
    (G.normal (G.normal (G.seeded (defaultExpertSeed e)) (1 / 5) [din, h]).2 (1 / 5) [h, d]).2
    (1 / 20) [din, 1]
  generalize (G.normal (G.normal (G.normal (G.seeded (defaultExpertSeed e)) (1 / 5) [din, h]).2
    (1 / 5) [h, d]).2 (1 / 20) [din, 1]).1 = col at hcol ⊢
  have hcat : ∃ wr', concatenateColumns wr col = .ok wr' ∧ wr'.shape = [din, n + 1] := by
    unfold concatenateColumns
    rw [hwrshape, hcol]
    exact ⟨_, if_pos rfl, rfl⟩
  obtain ⟨wr', hwr', hwrshape'⟩ := hcat
  have hbcat : ∃ br' m', concatenate br (G.zeros [1]) = .ok br' ∧ br'.shape = [m'] := by
    unfold concatenate
    rw [hbrshape, show (G.zeros [1]).shape = [1] from rfl]
    exact ⟨_, _, rfl, rfl⟩
  obtain ⟨br', m', hbr', hbrshape'⟩ := hbcat
  have hrb : "Wr" ≠ "br" := by decide
  rw [hwr', ok_bind, Dict.get?_set_of_ne _ _ hrb, Dict.get?_set_of_ne _ _ hb₄,
    Dict.get?_set_of_ne _ _ hb₃, Dict.get?_set_of_ne _ _ hb₂, Dict.get?_set_of_ne _ _ hb₁, hbr]
  simp only [ok_bind, hbr']
  refine ⟨_, rfl, ⟨wr', n + 1, ?_, hwrshape'⟩, ⟨br', m', Dict.get?_set_self _ _ _, hbrshape'⟩⟩
  rw [Dict.get?_set_of_ne _ _ hrb.symm, Dict.get?_set_self]

/-- **Growth returns** when the router is well shaped and the dimensions are known. -/
theorem growExperts_total (G : Generator α) {din : ℕ} {params : Params α} {oldN newN : ℕ}
    {dims : Option (ℕ × ℕ)} (hle : oldN ≤ newN) (hshaped : RouterShaped din params)
    (hdims : ∃ hd, expertDims params dims = .ok hd) :
    ∃ M, growExperts G params oldN newN dims = .ok M := by
  rcases Nat.eq_or_lt_of_le hle with rfl | hlt
  · exact ⟨params, growExperts_self params _ dims⟩
  obtain ⟨hd, hdims⟩ := hdims
  have hrows : routerRows params = .ok din := by
    obtain ⟨t, n, ht, hshape⟩ := hshaped.router
    unfold routerRows
    rw [Hashing.paramAt_eq_ok.mpr ht, ok_bind, dimAt, hshape]
    rfl
  have hloop : ∀ (es : List ℕ) (out : Params α), RouterShaped din out →
      ∃ M, es.foldlM (growExpert G din hd.1 hd.2) out = .ok M := by
    intro es
    induction es with
    | nil => exact fun out _ => ⟨out, rfl⟩
    | cons e es ih =>
      intro out hout
      obtain ⟨next, hnext, hnextShaped⟩ := growExpert_total G hd.1 hd.2 e hout
      rw [List.foldlM_cons, hnext, ok_bind]
      exact ih next hnextShaped
  rw [growExperts_of_lt params hlt, hrows, ok_bind, hdims, ok_bind]
  exact hloop _ params hshaped

omit [Inhabited α] in
/-- The dimensions are inferred when every expert has matrices and one of them is there. -/
theorem inferExpertDims_total {params : Params α}
    (hmatrix : ∀ a ∈ ["W1_", "W2_"], ∀ s t, params.get? (a ++ s) = some t → ∃ m n, t.shape = [m, n])
    (hexpert : Hashing.Holds params (expertKeys 0)) : ∃ hd, inferExpertDims params = .ok hd := by
  obtain ⟨w1, hw1⟩ := hexpert "W1_0" (by decide)
  obtain ⟨w2, hw2⟩ := hexpert "W2_0" (by decide)
  have hmem : "W1_0" ∈ params.keys := Dict.mem_keys_iff.mpr (hexpert "W1_0" (by decide))
  have hfrom : ∀ ks : List String, "W1_0" ∈ ks → ∃ hd, inferFrom params ks = .ok hd := by
    intro ks
    induction ks with
    | nil => exact fun h => absurd h List.not_mem_nil
    | cons k ks ih =>
      intro hks
      have hlater : k ≠ "W1_0" → ∃ hd, inferFrom params ks = .ok hd := by
        intro hk
        exact ih ((List.mem_cons.mp hks).resolve_left (Ne.symm hk))
      rw [inferFrom]
      by_cases hinit : "W1_".toList <+: k.toList
      swap
      · rw [if_neg hinit]
        apply hlater
        rintro rfl
        exact hinit (by decide)
      rw [if_pos hinit]
      have hk := eq_append_of_prefix hinit
      cases hat : params.get? k with
      | none =>
        apply hlater
        rintro rfl
        rw [hat] at hw1
        cases hw1
      | some t =>
        cases hat' : params.get? ("W2_" ++ String.ofList (k.toList.drop 3)) with
        | none =>
          apply hlater
          rintro rfl
          rw [show String.ofList ("W1_0".toList.drop 3) = "0" from rfl,
            show "W2_" ++ "0" = "W2_0" from rfl, hw2] at hat'
          cases hat'
        | some t' =>
          rw [hk] at hat
          obtain ⟨m, n, hshape⟩ := hmatrix "W1_" (by decide) _ t hat
          obtain ⟨m', n', hshape'⟩ := hmatrix "W2_" (by decide) _ t' hat'
          exact ⟨(n, n'), by simp [dimAt, hshape, hshape']⟩
  exact hfrom params.keys hmem

end NeuraHash
