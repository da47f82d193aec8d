import NeuraHash.Commitments.Hashing

/-!
# Random-step challenges (`neurahash/merkle_verify.py`)

A worker commits to the root of its training trajectory `s_0 .. s_H`. `merkleCheck` checks the
endpoint and then, at indices drawn from the commitment and a beacon, recomputes one step. What
the prover reveals comes with a Merkle path; `merkle_verify` follows the path as it is and never
compares it with the index that was challenged.

`merkleCheck_binds_iff` says what an accepted check binds: an opened state is the committed one of
its position exactly when the answered path is a path of that position's leaf, which holds when
its sides are those `merkle_proof` gives for the index.
-/

namespace NeuraHash

open Py

namespace StepCheck

/-! ## One training step -/

/-- The training data `(X, y)` of a worker. -/
structure Shard where
  x : Bytes
  y : Bytes
  /-- `X.shape[0]`. -/
  rows : ℤ

/-- `_data_leaf(shard)`. -/
def dataLeaf (H : Hashing PyFloat) (shard : Shard) : Bytes := H.digest (shard.x ++ shard.y)

/-- The gradients of `model.forward` and `model.backward`, or of the paths of one expert. -/
abbrev Gradients := Params PyFloat → Shard → Option ℤ → Except PyErr (Params PyFloat)

/-- `_one_step(model, params, shard, keys, lr, expert)`. -/
def oneStep (model : Gradients) (params : Params PyFloat) (shard : Shard) (keys : List String)
    (lr : PyFloat) (expert : Option ℤ) : Except PyErr (Params PyFloat) := do
  if shard.rows ≤ 0 then return params
  let grads ← model params shard expert
  keys.foldlM (fun p k => do
    let t ← Hashing.paramAt p k
    let g ← Hashing.paramAt grads k
    let u ← Tensor.map2 (fun a b => a - lr * b) t g
    -- an in-place update keeps the array's shape
    if u.shape = t.shape then return p.set k u else throw .valueError) params

/-! ## The challenged indices -/

/-- `t.to_bytes(4, "big")`. -/
def toBytes4 (t : ℕ) : Except PyErr Bytes :=
  if t < 2 ^ 32 then .ok ((List.range 4).map (fun i => (t / 256 ^ (3 - i)).toUInt8))
  else .error .overflowError

/-- `int.from_bytes(d, "big")`. -/
def fromBytesBig (d : Bytes) : ℕ := d.foldl (fun n b => n * 256 + b.toNat) 0

/-- One index of `_fiat_shamir_indices`; `% H` raises on zero. -/
def fiatShamirIndex (H : Hashing PyFloat) (root dataHash beacon : Bytes) (steps : ℤ) (t : ℕ) :
    Except PyErr ℤ := do
  let d := H.digest (root ++ dataHash ++ beacon ++ (← toBytes4 t))
  if steps = 0 then throw (.raised "ZeroDivisionError")
  return Int.fmod (fromBytesBig d) steps + 1

/-- `_fiat_shamir_indices(root, data_hash, beacon, H, n)`. -/
def fiatShamirIndices (H : Hashing PyFloat) (root dataHash beacon : Bytes) (steps : ℤ) (n : ℕ) :
    Except PyErr (List ℤ) :=
  (List.range n).mapM (fiatShamirIndex H root dataHash beacon steps)

/-! ## The check -/

/-- What a worker submits. A field that is missing never validates. -/
structure Submission where
  trainableKeys : List String
  expert : Option ℤ
  steps : ℤ
  root : Bytes
  delta : Params PyFloat
  dataHash : String
  nExamples : ℤ

/-- What the prover object answers: a state and a path at the endpoint, and at challenge `t` a
state, its path, and the path of the next state. Nothing ties the answers to each other. -/
structure Prover where
  finalState : Params PyFloat
  finalProof : List (Bytes × Bool)
  prevState : ℕ → Params PyFloat
  prevProof : ℕ → List (Bytes × Bool)
  nextProof : ℕ → List (Bytes × Bool)

/-- Why `merkle_check` returns `False`. -/
inductive CheckReason where
  /-- `declared H != protocol H (under-work)` -/
  | declaredSteps
  /-- `delta keys != trainable_keys (unvalidated/extra delta entries)` -/
  | deltaKeys
  /-- `shard does not match committed data_hash` -/
  | dataHash
  /-- `n_examples does not match shard` -/
  | nExamples
  /-- `committed final state not in Merkle root` -/
  | finalState
  /-- `delta does not match committed final state` -/
  | delta
  /-- `revealed state s_{j-1} not in commitment` -/
  | revealed (j : ℤ)
  /-- `step {j} transition inconsistent (work skipped/faked)` -/
  | step (j : ℤ)
  deriving DecidableEq

/-- `np.array_equal`. -/
def arrayEqual (a b : Tensor PyFloat) : Bool :=
  decide (a.shape = b.shape) && (List.zipWith PyFloat.eq a.data b.data).all id

/-- The loop over `keys` that compares the delta with the final state. -/
def deltaMatches (globalParams final delta : Params PyFloat) : List String → Except PyErr Bool
  | [] => .ok true
  | k :: keys => do
    let moved ← Tensor.map2 (· - ·) (← Hashing.paramAt final k) (← Hashing.paramAt globalParams k)
    if arrayEqual moved (← Hashing.paramAt delta k) then deltaMatches globalParams final delta keys
    else return false

/-- `_recompute_step(s_prev)`: with an expert, the frozen parameters are the global ones. -/
def recomputeStep (model : Gradients) (globalParams : Params PyFloat) (sub : Submission)
    (shard : Shard) (lr : PyFloat) (prev : Params PyFloat) : Except PyErr (Params PyFloat) :=
  let params := match sub.expert with
    | none => prev
    | some _ => prev.entries.foldl (fun p e => p.set e.1 e.2) globalParams
  oneStep model params shard sub.trainableKeys lr sub.expert

/-- The loop over the challenges. -/
def checkSteps (H : Hashing PyFloat) (model : Gradients) (globalParams : Params PyFloat)
    (sub : Submission) (prover : Prover) (shard : Shard) (lr : PyFloat) :
    List (ℕ × ℤ) → Except PyErr (Except CheckReason Unit)
  | [] => .ok (.ok ())
  | (t, j) :: rest => do
    let prev := prover.prevState t
    if !H.merkleVerify (← H.stateLeaf prev sub.trainableKeys) (prover.prevProof t) sub.root then
      return .error (.revealed j)
    let next ← recomputeStep model globalParams sub shard lr prev
    if !H.merkleVerify (← H.stateLeaf next sub.trainableKeys) (prover.nextProof t) sub.root then
      return .error (.step j)
    checkSteps H model globalParams sub prover shard lr rest

/-- The challenges by number. -/
def numbered (indices : List ℤ) : List (ℕ × ℤ) := indices.zipIdx.map Prod.swap

/-- `merkle_check(model, global_params, submission, prover, shard, n_challenges, lr, H, beacon)`. -/
def merkleCheck (H : Hashing PyFloat) (model : Gradients) (globalParams : Params PyFloat)
    (sub : Submission) (prover : Prover) (shard : Shard) (nChallenges : ℕ) (lr : PyFloat)
    (protocolSteps : Option ℤ) (beacon : Bytes) : Except PyErr (Except CheckReason Unit) := do
  if protocolSteps.any (fun steps => decide (sub.steps ≠ steps)) then
    return .error .declaredSteps
  if ¬((∀ k ∈ sub.delta.keys, k ∈ sub.trainableKeys)
      ∧ ∀ k ∈ sub.trainableKeys, k ∈ sub.delta.keys) then
    return .error .deltaKeys
  if sub.dataHash ≠ String.ofList (Platform.hexlify (dataLeaf H shard)) then
    return .error .dataHash
  if sub.nExamples ≠ shard.rows then
    return .error .nExamples
  let final ← H.stateLeaf prover.finalState sub.trainableKeys
  if !H.merkleVerify final prover.finalProof sub.root then
    return .error .finalState
  if !(← deltaMatches globalParams prover.finalState sub.delta sub.trainableKeys) then
    return .error .delta
  let dataHash ← match fromHex sub.dataHash with
    | some bytes => pure bytes
    | none => throw .valueError
  let indices ← fiatShamirIndices H sub.root dataHash beacon sub.steps nChallenges
  checkSteps H model globalParams sub prover shard lr (numbered indices)

/-! ## What an accepted check verified -/

section

variable (H : Hashing PyFloat) (model : Gradients) (globalParams : Params PyFloat)
  (sub : Submission) (prover : Prover) (shard : Shard) (nChallenges : ℕ) (lr : PyFloat)
  (beacon : Bytes)

/-- Challenge `t` is for the step `j`. -/
def Challenged (t : ℕ) (j : ℤ) : Prop :=
  t < nChallenges ∧ ∃ dataHash, fromHex sub.dataHash = some dataHash
    ∧ fiatShamirIndex H sub.root dataHash beacon sub.steps t = .ok j

/-- The states the check opens: the position asked for, the leaf of the state the prover revealed
or the verifier recomputed, and the path that came with it. -/
inductive Opened : ℤ → Bytes → List (Bytes × Bool) → Prop
  | final (leaf : Bytes) (hleaf : H.stateLeaf prover.finalState sub.trainableKeys = .ok leaf) :
      Opened sub.steps leaf prover.finalProof
  | prev (t : ℕ) (j : ℤ) (leaf : Bytes) (hj : Challenged H sub nChallenges beacon t j)
      (hleaf : H.stateLeaf (prover.prevState t) sub.trainableKeys = .ok leaf) :
      Opened (j - 1) leaf (prover.prevProof t)
  | next (t : ℕ) (j : ℤ) (next : Params PyFloat) (leaf : Bytes)
      (hj : Challenged H sub nChallenges beacon t j)
      (hnext : recomputeStep model globalParams sub shard lr (prover.prevState t) = .ok next)
      (hleaf : H.stateLeaf next sub.trainableKeys = .ok leaf) :
      Opened j leaf (prover.nextProof t)

end

section

variable {H : Hashing PyFloat} {model : Gradients} {globalParams : Params PyFloat}
  {sub : Submission} {prover : Prover} {shard : Shard} {nChallenges : ℕ} {lr : PyFloat}
  {protocolSteps : Option ℤ} {beacon : Bytes}

theorem mem_numbered {indices : List ℤ} {t : ℕ} {j : ℤ} :
    (t, j) ∈ numbered indices ↔ indices[t]? = some j := by
  unfold numbered
  rw [List.mem_map]
  constructor
  · rintro ⟨⟨j', t'⟩, hmem, heq⟩
    cases heq
    exact List.mem_zipIdx_iff_getElem?.mp hmem
  · intro h
    exact ⟨(j, t), List.mem_zipIdx_iff_getElem?.mpr h, rfl⟩

/-- A challenge that passed: the revealed state and its successor both climb to the root. -/
theorem checkSteps_ok {steps : List (ℕ × ℤ)}
    (hok : checkSteps H model globalParams sub prover shard lr steps = .ok (.ok ())) :
    ∀ t j, (t, j) ∈ steps → ∃ leaf next leaf',
      H.stateLeaf (prover.prevState t) sub.trainableKeys = .ok leaf
        ∧ Merkle.roll H.hpair leaf (prover.prevProof t) = sub.root
        ∧ recomputeStep model globalParams sub shard lr (prover.prevState t) = .ok next
        ∧ H.stateLeaf next sub.trainableKeys = .ok leaf'
        ∧ Merkle.roll H.hpair leaf' (prover.nextProof t) = sub.root := by
  induction steps with
  | nil => exact fun t j hmem => absurd hmem List.not_mem_nil
  | cons step steps ih =>
    obtain ⟨t₀, j₀⟩ := step
    unfold checkSteps at hok
    obtain ⟨leaf, hleaf, hok⟩ := bind_eq_ok.mp hok
    cases hprev : H.merkleVerify leaf (prover.prevProof t₀) sub.root with
    | false =>
      rw [hprev] at hok
      cases hok
    | true =>
      rw [hprev] at hok
      obtain ⟨next, hnext, hok⟩ := bind_eq_ok.mp hok
      obtain ⟨leaf', hleaf', hok⟩ := bind_eq_ok.mp hok
      cases hroll : H.merkleVerify leaf' (prover.nextProof t₀) sub.root with
      | false =>
        rw [hroll] at hok
        cases hok
      | true =>
        rw [hroll] at hok
        intro t j hmem
        rcases List.mem_cons.mp hmem with heq | hmem
        · cases heq
          exact ⟨leaf, next, leaf', hleaf, H.merkleVerify_iff.mp hprev, hnext, hleaf',
            H.merkleVerify_iff.mp hroll⟩
        · exact ih hok t j hmem

/-- The parts of an accepted check. -/
theorem merkleCheck_ok (hok : merkleCheck H model globalParams sub prover shard nChallenges lr
    protocolSteps beacon = .ok (.ok ())) :
    ∃ leaf dataHash indices, H.stateLeaf prover.finalState sub.trainableKeys = .ok leaf
      ∧ Merkle.roll H.hpair leaf prover.finalProof = sub.root
      ∧ fromHex sub.dataHash = some dataHash
      ∧ fiatShamirIndices H sub.root dataHash beacon sub.steps nChallenges = .ok indices
      ∧ checkSteps H model globalParams sub prover shard lr (numbered indices) = .ok (.ok ()) := by
  unfold merkleCheck at hok
  -- every test before the endpoint returns a reason when it fails
  split at hok
  · cases hok
  split at hok
  · cases hok
  split at hok
  · cases hok
  split at hok
  · cases hok
  obtain ⟨leaf, hleaf, hok⟩ := bind_eq_ok.mp hok
  cases hroll : H.merkleVerify leaf prover.finalProof sub.root with
  | false =>
    rw [hroll] at hok
    cases hok
  | true =>
    rw [hroll] at hok
    obtain ⟨same, _, hok⟩ := bind_eq_ok.mp hok
    cases same with
    | false => cases hok
    | true =>
      cases hhash : fromHex sub.dataHash with
      | none =>
        rw [hhash] at hok
        cases hok
      | some dataHash =>
        rw [hhash] at hok
        obtain ⟨bytes, hbytes, hok⟩ := bind_eq_ok.mp hok
        cases hbytes
        obtain ⟨indices, hindices, hok⟩ := bind_eq_ok.mp hok
        exact ⟨leaf, dataHash, indices, hleaf, H.merkleVerify_iff.mp hroll, rfl, hindices, hok⟩

/-- The indices drawn are the challenged ones. -/
theorem challenged_iff {dataHash : Bytes} {indices : List ℤ}
    (hhash : fromHex sub.dataHash = some dataHash)
    (hindices : fiatShamirIndices H sub.root dataHash beacon sub.steps nChallenges = .ok indices)
    {t : ℕ} {j : ℤ} :
    (t, j) ∈ numbered indices ↔ Challenged H sub nChallenges beacon t j := by
  have hrel := forall₂_of_mapM hindices
  have hlen : indices.length = nChallenges := by
    rw [← hrel.length_eq, List.length_range]
  have hat : ∀ t < nChallenges, ∀ j, indices[t]? = some j ↔
      fiatShamirIndex H sub.root dataHash beacon sub.steps t = .ok j := by
    intro t ht j
    have hget := List.forall₂_iff_get.mp hrel
    have hstep := hget.2 t (by rwa [List.length_range]) (by rwa [hlen])
    simp only [List.get_eq_getElem, List.getElem_range] at hstep
    rw [List.getElem?_eq_getElem (by rwa [hlen]), hstep]
    simp
  rw [mem_numbered]
  constructor
  · intro hj
    have ht : t < nChallenges := by
      rw [← hlen]
      exact (List.getElem?_eq_some_iff.mp hj).1
    exact ⟨ht, dataHash, hhash, (hat t ht j).mp hj⟩
  · rintro ⟨ht, dataHash', hhash', hj⟩
    rw [hhash] at hhash'
    cases hhash'
    exact (hat t ht j).mpr hj

/-- A challenge of an accepted check opens two states. -/
theorem exists_opened (hok : merkleCheck H model globalParams sub prover shard nChallenges lr
    protocolSteps beacon = .ok (.ok ())) {t : ℕ} {j : ℤ}
    (hj : Challenged H sub nChallenges beacon t j) :
    ∃ leaf next leaf', H.stateLeaf (prover.prevState t) sub.trainableKeys = .ok leaf
      ∧ recomputeStep model globalParams sub shard lr (prover.prevState t) = .ok next
      ∧ H.stateLeaf next sub.trainableKeys = .ok leaf' := by
  obtain ⟨_, dataHash, indices, _, _, hhash, hindices, hsteps⟩ := merkleCheck_ok hok
  obtain ⟨leaf, next, leaf', hleaf, _, hnext, hleaf', _⟩ :=
    checkSteps_ok hsteps t j ((challenged_iff hhash hindices).mpr hj)
  exact ⟨leaf, next, leaf', hleaf, hnext, hleaf'⟩

/-- **Every opened state climbs to the submitted root** along the path that came with it. -/
theorem roll_of_opened (hok : merkleCheck H model globalParams sub prover shard nChallenges lr
    protocolSteps beacon = .ok (.ok ())) {i : ℤ} {leaf : Bytes} {p : List (Bytes × Bool)}
    (ho : Opened H model globalParams sub prover shard nChallenges lr beacon i leaf p) :
    Merkle.roll H.hpair leaf p = sub.root := by
  obtain ⟨final, dataHash, indices, hfinal, hroll, hhash, hindices, hsteps⟩ := merkleCheck_ok hok
  cases ho with
  | final leaf hleaf =>
    rw [hfinal] at hleaf
    cases hleaf
    exact hroll
  | prev t j leaf hj hleaf =>
    obtain ⟨_, _, _, hleaf', hroll', _, _, _⟩ :=
      checkSteps_ok hsteps t j ((challenged_iff hhash hindices).mpr hj)
    rw [hleaf] at hleaf'
    cases hleaf'
    exact hroll'
  | next t _ next leaf hj hnext hleaf =>
    obtain ⟨_, _, _, _, _, hnext', hleaf', hroll'⟩ :=
      checkSteps_ok hsteps t _ ((challenged_iff hhash hindices).mpr hj)
    rw [hnext] at hnext'
    cases hnext'
    rw [hleaf] at hleaf'
    cases hleaf'
    exact hroll'

/-- A challenged step is one of the protocol's. -/
theorem challenged_range (hsteps : 0 ≤ sub.steps) {t : ℕ} {j : ℤ}
    (hj : Challenged H sub nChallenges beacon t j) : 1 ≤ j ∧ j ≤ sub.steps := by
  obtain ⟨_, dataHash, _, hindex⟩ := hj
  unfold fiatShamirIndex at hindex
  obtain ⟨text, _, hindex⟩ := bind_eq_ok.mp hindex
  dsimp only at hindex
  split at hindex
  · cases hindex
  next hzero =>
  have hpos : 0 < sub.steps := by omega
  cases hindex
  rw [Int.fmod_eq_emod_of_nonneg _ hsteps]
  generalize fromBytesBig (H.digest (sub.root ++ dataHash ++ beacon ++ text)) = d
  have hnonneg := Int.emod_nonneg (d : ℤ) hzero
  have hlt := Int.emod_lt_of_pos (d : ℤ) hpos
  omega

/-! ## What it binds -/

/-- The leaf list of the `H + 1` states that the worker committed to. -/
structure Commits (H : Hashing PyFloat) (sub : Submission) (leaves : List Bytes) : Prop where
  nonneg : 0 ≤ sub.steps
  length : (leaves.length : ℤ) = sub.steps + 1
  digests : ∀ a ∈ leaves, a.length = 32
  root : H.merkleRoot leaves = sub.root

/-- The committed leaf of a position. -/
def leafAt (leaves : List Bytes) (i : ℤ) : Option Bytes :=
  if 0 ≤ i then leaves[i.toNat]? else none

/-- Every opened state is the committed one of its position, and the committed states of a
challenged step are a step apart. -/
structure Binds (H : Hashing PyFloat) (model : Gradients) (globalParams : Params PyFloat)
    (sub : Submission) (prover : Prover) (shard : Shard) (nChallenges : ℕ) (lr : PyFloat)
    (beacon : Bytes) (leaves : List Bytes) : Prop where
  committed : ∀ i leaf p,
    Opened H model globalParams sub prover shard nChallenges lr beacon i leaf p →
      leafAt leaves i = some leaf
  consistent : ∀ t j, Challenged H sub nChallenges beacon t j → ∃ prev next leaf leaf',
    H.stateLeaf prev sub.trainableKeys = .ok leaf ∧ leafAt leaves (j - 1) = some leaf
      ∧ recomputeStep model globalParams sub shard lr prev = .ok next
      ∧ H.stateLeaf next sub.trainableKeys = .ok leaf' ∧ leafAt leaves j = some leaf'

/-- The path that came with an opened state is a path of the leaf committed at its position. -/
def PathsOfPositions (H : Hashing PyFloat) (model : Gradients) (globalParams : Params PyFloat)
    (sub : Submission) (prover : Prover) (shard : Shard) (nChallenges : ℕ) (lr : PyFloat)
    (beacon : Bytes) (leaves : List Bytes) : Prop :=
  ∀ i leaf p, Opened H model globalParams sub prover shard nChallenges lr beacon i leaf p →
    ∃ a, leafAt leaves i = some a ∧ H.merkleVerify a p sub.root = true

/-- The path that came with an opened state has the sides of its position in a tree over the
committed leaves. -/
def SidesOfPositions (H : Hashing PyFloat) (model : Gradients) (globalParams : Params PyFloat)
    (sub : Submission) (prover : Prover) (shard : Shard) (nChallenges : ℕ) (lr : PyFloat)
    (beacon : Bytes) (leaves : List Bytes) : Prop :=
  ∀ i leaf p, Opened H model globalParams sub prover shard nChallenges lr beacon i leaf p →
    p.map Prod.snd = Merkle.directions leaves.length i.toNat

/-- The strings hashed in the committed tree and along the answered paths, from the opened leaf
and from the committed one. -/
def checkedStrings (H : Hashing PyFloat) (model : Gradients) (globalParams : Params PyFloat)
    (sub : Submission) (prover : Prover) (shard : Shard) (nChallenges : ℕ) (lr : PyFloat)
    (beacon : Bytes) (leaves : List Bytes) : Set Bytes :=
  {b | b ∈ H.treeStrings leaves
    ∨ ∃ i leaf p, Opened H model globalParams sub prover shard nChallenges lr beacon i leaf p
      ∧ (b ∈ H.pathStrings leaf p ∨ ∃ a, leafAt leaves i = some a ∧ b ∈ H.pathStrings a p)}

/-- An opened position is a position of the leaf list. -/
theorem opened_range {leaves : List Bytes} (hcommit : Commits H sub leaves)
    {i : ℤ} {leaf : Bytes} {p : List (Bytes × Bool)}
    (ho : Opened H model globalParams sub prover shard nChallenges lr beacon i leaf p) :
    0 ≤ i ∧ i.toNat < leaves.length := by
  have hlen := hcommit.length
  have hsteps := hcommit.nonneg
  cases ho with
  | final leaf hleaf => omega
  | prev t j leaf hj hleaf =>
    have := challenged_range hsteps hj
    omega
  | next t _ next leaf hj hnext hleaf =>
    have := challenged_range hsteps hj
    omega

theorem length_of_opened {i : ℤ} {leaf : Bytes} {p : List (Bytes × Bool)}
    (ho : Opened H model globalParams sub prover shard nChallenges lr beacon i leaf p) :
    leaf.length = 32 := by
  cases ho with
  | final leaf hleaf => exact H.length_stateLeaf hleaf
  | prev t j leaf hj hleaf => exact H.length_stateLeaf hleaf
  | next t _ next leaf hj hnext hleaf => exact H.length_stateLeaf hleaf

/-- Opened states that are the committed ones make the challenged steps consistent. -/
theorem binds_of_committed (hok : merkleCheck H model globalParams sub prover shard nChallenges lr
    protocolSteps beacon = .ok (.ok ())) {leaves : List Bytes}
    (h : ∀ i leaf p, Opened H model globalParams sub prover shard nChallenges lr beacon i leaf p →
      leafAt leaves i = some leaf) :
    Binds H model globalParams sub prover shard nChallenges lr beacon leaves := by
  refine ⟨h, fun t j hj => ?_⟩
  obtain ⟨leaf, next, leaf', hleaf, hnext, hleaf'⟩ := exists_opened hok hj
  exact ⟨_, next, leaf, leaf', hleaf, h _ _ _ (.prev t j leaf hj hleaf), hnext, hleaf',
    h _ _ _ (.next t j next leaf' hj hnext hleaf')⟩

/-- **An accepted check binds the opened states to their positions exactly when the answered paths
are paths of those positions**, and it does when they have the positions' sides. -/
theorem merkleCheck_binds_iff (hok : merkleCheck H model globalParams sub prover shard nChallenges
    lr protocolSteps beacon = .ok (.ok ())) {leaves : List Bytes} (hcommit : Commits H sub leaves)
    (hcf : H.NoCollision (checkedStrings H model globalParams sub prover shard nChallenges lr
      beacon leaves)) :
    (Binds H model globalParams sub prover shard nChallenges lr beacon leaves
        ↔ PathsOfPositions H model globalParams sub prover shard nChallenges lr beacon leaves)
      ∧ (SidesOfPositions H model globalParams sub prover shard nChallenges lr beacon leaves →
        Binds H model globalParams sub prover shard nChallenges lr beacon leaves) := by
  refine ⟨⟨fun hbinds i leaf p ho => ?_, fun hpaths => ?_⟩, fun hsides => ?_⟩
  · exact ⟨leaf, hbinds.committed i leaf p ho, H.merkleVerify_iff.mpr (roll_of_opened hok ho)⟩
  · refine binds_of_committed hok fun i leaf p ho => ?_
    obtain ⟨a, ha, hverify⟩ := hpaths i leaf p ho
    have hroll : Merkle.roll H.hpair leaf p = Merkle.roll H.hpair a p :=
      (roll_of_opened hok ho).trans (H.merkleVerify_iff.mp hverify).symm
    have hsame : leaf = a := by
      refine H.roll_inj hcf (fun b hb => ?_) (fun b hb => ?_) hroll
      · exact Or.inr ⟨i, leaf, p, ho, Or.inl hb⟩
      · exact Or.inr ⟨i, leaf, p, ho, Or.inr ⟨a, ha, hb⟩⟩
    rw [hsame]
    exact ha
  · refine binds_of_committed hok fun i leaf p ho => ?_
    obtain ⟨hnonneg, hrange⟩ := opened_range hcommit ho
    have hbinding := H.binding_path (length_of_opened ho) hcommit.digests hcf
      (fun b hb => Or.inr ⟨i, leaf, p, ho, Or.inl hb⟩) (fun b hb => Or.inl hb)
    have hroll : Merkle.roll H.hpair leaf p = Merkle.root H.hpair Hashing.zeroRoot leaves :=
      (roll_of_opened hok ho).trans hcommit.root.symm
    rw [leafAt, if_pos hnonneg]
    exact (Merkle.eq_of_roll hrange (hsides i leaf p ho) hbinding hroll).1

end

/-! ## Two steps of training -/

def scalar (q : ℚ) : Tensor PyFloat := ⟨[1], [.fin q], by simp⟩

/-- One parameter of one element. -/
def weight (q : ℚ) : Params PyFloat := (∅ : Params PyFloat).set "w" (scalar q)

/-- Every step of training takes one off the parameter. -/
def unitGradient : Gradients := fun _ _ _ => .ok (weight 1)

def weightLeaf (q : ℚ) : Bytes := toyHashing.digest (utf8 "w" ++ toyHashing.float64 (PyFloat.fin q))

/-- The committed leaves of two steps from zero: the first was trained, the last is claimed. -/
def twoSteps (last : ℚ) : List Bytes := [weightLeaf 0, weightLeaf (-1), weightLeaf last]

def oneRow : Shard := ⟨[1], [2], 1⟩

def twoStepsSubmission (last : ℚ) : Submission where
  trainableKeys := ["w"]
  expert := none
  steps := 2
  root := toyHashing.merkleRoot (twoSteps last)
  delta := weight last
  dataHash := String.ofList (Platform.hexlify (dataLeaf toyHashing oneRow))
  nExamples := 1

/-- The path of a committed leaf. -/
def pathOf (last : ℚ) (i : ℕ) : List (Bytes × Bool) :=
  (toyHashing.merkleProof (twoSteps last) i).getD []

/-- A prover that reveals the state `s` with the path of leaf `i`, and the path of leaf `i + 1`. -/
def revealing (last s : ℚ) (i : ℕ) : Prover where
  finalState := weight last
  finalProof := pathOf last 2
  prevState _ := weight s
  prevProof _ := pathOf last i
  nextProof _ := pathOf last (i + 1)

theorem stateLeaf_weight (q : ℚ) : toyHashing.stateLeaf (weight q) ["w"] = .ok (weightLeaf q) := by
  show Except.ok (toyHashing.digest ((utf8 "w" ++ (toyHashing.float64 (PyFloat.fin q) ++ [])) ++ [])) = _
  rw [List.append_nil, List.append_nil]
  rfl

theorem recomputeStep_weight (last s : ℚ) :
    recomputeStep unitGradient (weight 0) (twoStepsSubmission last) oneRow (.fin 1) (weight s)
      = .ok (weight (s - 1)) := by
  have hmap : Tensor.map2 (fun a b : PyFloat => a - PyFloat.fin 1 * b) (scalar s) (scalar 1)
      = .ok (scalar (s - 1)) := by
    have helem : PyFloat.fin s - PyFloat.fin 1 * PyFloat.fin 1 = .fin (s - 1) := by simp
    rw [Tensor.map2_of_shape (rfl : (scalar s).shape = [1]) (rfl : (scalar 1).shape = [1])]
    exact congrArg (fun x => Except.ok (⟨[1], [x], by simp⟩ : Tensor PyFloat)) helem
  show (do
    let u ← Tensor.map2 (fun a b : PyFloat => a - PyFloat.fin 1 * b) (scalar s) (scalar 1)
    if u.shape = [1] then pure ((weight s).set "w" u) else throw PyErr.valueError) = _
  rw [hmap]
  rfl

/-- What the check opens, when the one challenge is for the second step. -/
theorem opened_revealing {last s : ℚ} {k : ℕ} (hindex : fiatShamirIndex toyHashing
      (twoStepsSubmission last).root (dataLeaf toyHashing oneRow) [0] 2 0 = .ok 2)
    {i : ℤ} {leaf : Bytes} {p : List (Bytes × Bool)}
    (ho : Opened toyHashing unitGradient (weight 0) (twoStepsSubmission last) (revealing last s k)
      oneRow 1 (.fin 1) [0] i leaf p) :
    (i = 2 ∧ leaf = weightLeaf last ∧ p = pathOf last 2)
      ∨ (i = 1 ∧ leaf = weightLeaf s ∧ p = pathOf last k)
      ∨ (i = 2 ∧ leaf = weightLeaf (s - 1) ∧ p = pathOf last (k + 1)) := by
  have hhash : fromHex (twoStepsSubmission last).dataHash = some (dataLeaf toyHashing oneRow) := by
    show fromHex (String.ofList (Platform.hexlify (dataLeaf toyHashing oneRow))) = _
    decide +kernel
  -- the only challenge is for step two
  have honly : ∀ t j, Challenged toyHashing (twoStepsSubmission last) 1 [0] t j → t = 0 ∧ j = 2 := by
    rintro t j ⟨ht, dataHash, hdata, hj⟩
    obtain rfl : t = 0 := by omega
    rw [hhash] at hdata
    cases hdata
    exact ⟨rfl, Except.ok.inj (hj.symm.trans hindex)⟩
  cases ho with
  | final leaf hleaf =>
    exact Or.inl ⟨rfl, Except.ok.inj (hleaf.symm.trans (stateLeaf_weight last)), rfl⟩
  | prev t j leaf hj hleaf =>
    obtain ⟨rfl, rfl⟩ := honly t j hj
    exact Or.inr (Or.inl ⟨rfl, Except.ok.inj (hleaf.symm.trans (stateLeaf_weight s)), rfl⟩)
  | next t _ next leaf hj hnext hleaf =>
    obtain ⟨rfl, rfl⟩ := honly t _ hj
    have hstate := Except.ok.inj (hnext.symm.trans (recomputeStep_weight last s))
    rw [hstate] at hleaf
    exact Or.inr (Or.inr ⟨rfl, Except.ok.inj (hleaf.symm.trans (stateLeaf_weight (s - 1))), rfl⟩)

theorem commits_twoSteps (last : ℚ) :
    Commits toyHashing (twoStepsSubmission last) (twoSteps last) := by
  refine ⟨Int.le.intro 2 rfl, rfl, ?_, rfl⟩
  intro a ha
  simp only [twoSteps, List.mem_cons, List.not_mem_nil, or_false] at ha
  rcases ha with rfl | rfl | rfl <;> exact toyHashing.length_digest _

/-- The strings hashed for a check of two steps. -/
def twoStepsStrings (last s : ℚ) (k : ℕ) : List Bytes :=
  Hashing.joined (Merkle.inner toyHashing.hpair (twoSteps last))
    ++ Hashing.joined (Merkle.pathPairs toyHashing.hpair (weightLeaf last) (pathOf last 2))
    ++ Hashing.joined (Merkle.pathPairs toyHashing.hpair (weightLeaf s) (pathOf last k))
    ++ Hashing.joined (Merkle.pathPairs toyHashing.hpair (weightLeaf (-1)) (pathOf last k))
    ++ Hashing.joined (Merkle.pathPairs toyHashing.hpair (weightLeaf (s - 1)) (pathOf last (k + 1)))
    ++ Hashing.joined (Merkle.pathPairs toyHashing.hpair (weightLeaf last) (pathOf last (k + 1)))

theorem noCollision_twoSteps {last s : ℚ} {k : ℕ} (hindex : fiatShamirIndex toyHashing
      (twoStepsSubmission last).root (dataLeaf toyHashing oneRow) [0] 2 0 = .ok 2)
    (hcf : ∀ a ∈ twoStepsStrings last s k, ∀ b ∈ twoStepsStrings last s k,
      toyHashing.digest a = toyHashing.digest b → a = b) :
    toyHashing.NoCollision (checkedStrings toyHashing unitGradient (weight 0)
      (twoStepsSubmission last) (revealing last s k) oneRow 1 (.fin 1) [0] (twoSteps last)) := by
  have hsub : checkedStrings toyHashing unitGradient (weight 0) (twoStepsSubmission last)
      (revealing last s k) oneRow 1 (.fin 1) [0] (twoSteps last)
        ⊆ {b | b ∈ twoStepsStrings last s k} := by
    rintro b (htree | ⟨i, leaf, p, ho, hpath⟩)
    · refine toyHashing.treeStrings_subset (fun b hb => ?_) htree
      simp only [twoStepsStrings, List.mem_append, hb, true_or]
    · rcases opened_revealing hindex ho with ⟨rfl, rfl, rfl⟩ | ⟨rfl, rfl, rfl⟩ | ⟨rfl, rfl, rfl⟩ <;>
        rcases hpath with hpath | ⟨a, ha, hpath⟩ <;>
        first
          | (cases ha
             refine toyHashing.pathStrings_subset (fun b hb => ?_) hpath
             simp only [twoStepsStrings, List.mem_append, hb, true_or, or_true])
          | (refine toyHashing.pathStrings_subset (fun b hb => ?_) hpath
             simp only [twoStepsStrings, List.mem_append, hb, true_or, or_true])
  exact fun a ha b hb => hcf a (hsub ha) b (hsub hb)

/-- An honest worker: the answered paths have the sides of their positions. -/
theorem merkleCheck_binds_honest :
    Binds toyHashing unitGradient (weight 0) (twoStepsSubmission (-2)) (revealing (-2) (-1) 1)
      oneRow 1 (.fin 1) [0] (twoSteps (-2)) := by
  have hindex : fiatShamirIndex toyHashing (twoStepsSubmission (-2)).root
      (dataLeaf toyHashing oneRow) [0] 2 0 = .ok 2 := by decide +kernel
  have hok : merkleCheck toyHashing unitGradient (weight 0) (twoStepsSubmission (-2))
      (revealing (-2) (-1) 1) oneRow 1 (.fin 1) (some 2) [0] = .ok (.ok ()) := by decide +kernel
  refine (merkleCheck_binds_iff hok (commits_twoSteps (-2))
    (noCollision_twoSteps hindex (by decide +kernel))).2 ?_
  intro i leaf p ho
  rcases opened_revealing hindex ho with ⟨rfl, rfl, rfl⟩ | ⟨rfl, rfl, rfl⟩ | ⟨rfl, rfl, rfl⟩
  · decide +kernel
  · decide +kernel
  · decide +kernel

/-- **A worker that trained one step of two** answers the challenge for the second step with the
first. -/
theorem not_every_check_binds :
    ¬ ∀ (H : Hashing PyFloat) (model : Gradients) (globalParams : Params PyFloat)
        (sub : Submission) (prover : Prover) (shard : Shard) (nChallenges : ℕ) (lr : PyFloat)
        (protocolSteps : Option ℤ) (beacon : Bytes) (leaves : List Bytes),
      merkleCheck H model globalParams sub prover shard nChallenges lr protocolSteps beacon
        = .ok (.ok ()) → Commits H sub leaves →
      H.NoCollision (checkedStrings H model globalParams sub prover shard nChallenges lr beacon
        leaves) →
      Binds H model globalParams sub prover shard nChallenges lr beacon leaves := by
  intro hclaim
  have hindex : fiatShamirIndex toyHashing (twoStepsSubmission 5).root
      (dataLeaf toyHashing oneRow) [0] 2 0 = .ok 2 := by decide +kernel
  have hok : merkleCheck toyHashing unitGradient (weight 0) (twoStepsSubmission 5)
      (revealing 5 0 0) oneRow 1 (.fin 1) (some 2) [0] = .ok (.ok ()) := by decide +kernel
  have hbinds := hclaim toyHashing unitGradient (weight 0) (twoStepsSubmission 5) (revealing 5 0 0)
    oneRow 1 (.fin 1) (some 2) [0] (twoSteps 5) hok (commits_twoSteps 5)
    (noCollision_twoSteps hindex (by decide +kernel))
  have hhash : fromHex (twoStepsSubmission 5).dataHash = some (dataLeaf toyHashing oneRow) := by
    decide +kernel
  have hprev := hbinds.committed 1 (weightLeaf 0) (pathOf 5 0)
    (.prev 0 2 (weightLeaf 0) ⟨Nat.one_pos, _, hhash, hindex⟩ (stateLeaf_weight 0))
  exact absurd hprev (by decide +kernel)

end StepCheck

end NeuraHash
