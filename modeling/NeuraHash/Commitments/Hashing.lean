import NeuraHash.Merge.Gate
import NeuraHash.Merkle.Sound
import NeuraHash.Platform

/-!
# Committing to parameters (`neurahash/merkle_verify.py`)

Here a digest is its 32 raw bytes. `Hashing` is `hashlib.sha256` on byte strings and the byte
image of a float64 element; `columnBytes` is the text of a group of parameters that both the
training trajectory and the checkpoint hash, and the Merkle functions are the library's, with
`hpair` for a node.

A digest has finitely many values, so collision freedom is asked on named strings only:
`NoCollision H S`. `binding_tree` and `binding_path` turn it into what the library asks for.
-/

namespace NeuraHash

open Py

structure Hashing (α : Type) where
  /-- `hashlib.sha256(b).digest()`. -/
  digest : Bytes → Bytes
  length_digest : ∀ b, (digest b).length = 32
  /-- The bytes of an element as a `float64`. -/
  float64 : α → Bytes
  length_float64 : ∀ x, (float64 x).length = 8

namespace Hashing

variable {α : Type} (H : Hashing α)

/-! ## Groups of parameters -/

/-- `params[k]`. -/
def paramAt (params : Params α) (k : String) : Except PyErr (Tensor α) :=
  match params.get? k with
  | some t => .ok t
  | none => .error .keyError

theorem paramAt_eq_ok {params : Params α} {k : String} {t : Tensor α} :
    paramAt params k = .ok t ↔ params.get? k = some t := by
  unfold paramAt
  cases params.get? k <;> simp

/-- `np.ascontiguousarray(t, dtype=np.float64).tobytes()`. -/
def tobytes (t : Tensor α) : Bytes := t.data.flatMap H.float64

/-- What `h.update` is fed for the keys of a group. -/
def columnBytes (params : Params α) (keys : List String) : Except PyErr Bytes := do
  let parts ← (keys.insertionSort (· ≤ ·)).mapM (fun k => do
    return utf8 k ++ H.tobytes (← paramAt params k))
  return parts.flatten

/-- `_state_leaf(params, keys)`. -/
def stateLeaf (params : Params α) (keys : List String) : Except PyErr Bytes := do
  return H.digest (← H.columnBytes params keys)

theorem length_stateLeaf {params : Params α} {keys : List String} {leaf : Bytes}
    (h : H.stateLeaf params keys = .ok leaf) : leaf.length = 32 := by
  obtain ⟨text, _, h⟩ := bind_eq_ok.mp h
  rw [← Except.ok.inj h]
  exact H.length_digest text

/-! ## Merkle trees -/

/-- `_hpair(a, b)`. -/
def hpair (a b : Bytes) : Bytes := H.digest (a ++ b)

/-- `b"\x00" * 32`. -/
def zeroRoot : Bytes := List.replicate 32 0

/-- `merkle_root(leaves)`. -/
def merkleRoot (leaves : List Bytes) : Bytes := Merkle.root H.hpair zeroRoot leaves

/-- `merkle_proof(leaves, idx)`; `none` when the index is out of range. -/
def merkleProof (leaves : List Bytes) (idx : ℕ) : Option (List (Bytes × Bool)) :=
  Merkle.path H.hpair leaves idx

/-- `merkle_verify(leaf, proof, root)`. -/
def merkleVerify (leaf : Bytes) (proof : List (Bytes × Bool)) (root : Bytes) : Bool :=
  Merkle.roll H.hpair leaf proof == root

theorem merkleVerify_iff {leaf root : Bytes} {proof : List (Bytes × Bool)} :
    H.merkleVerify leaf proof root = true ↔ Merkle.roll H.hpair leaf proof = root := by
  unfold merkleVerify
  exact beq_iff_eq

/-- The pair hash tells the pairs combined in two trees apart. -/
def PairsApart (l l' : List Bytes) : Prop :=
  Merkle.Binding H.hpair (Merkle.inner H.hpair l) (Merkle.inner H.hpair l')

/-- **Every leaf has a proof that verifies, and a root binds the leaves of a tree of its size.** -/
theorem merkle_proofs_exact :
    (∀ (leaves : List Bytes) (i : ℕ) (_ : i < leaves.length), ∃ proof,
      H.merkleProof leaves i = some proof ∧
      H.merkleVerify leaves[i] proof (H.merkleRoot leaves) = true) ∧
    ∀ l l' : List Bytes, l.length = l'.length → H.PairsApart l l' →
      H.merkleRoot l = H.merkleRoot l' → l = l' := by
  constructor
  · intro leaves i hi
    obtain ⟨proof, hproof⟩ := Merkle.exists_path leaves hi
    refine ⟨proof, hproof, ?_⟩
    apply H.merkleVerify_iff.mpr
    exact Merkle.roll_path (List.getElem?_eq_getElem hi) hproof
  · intro l l' hlen hapart hroot
    exact Merkle.root_inj hlen hapart hroot

/-! ## Collision freedom -/

/-- No two of these strings have one digest. -/
def NoCollision (S : Set Bytes) : Prop := Set.InjOn H.digest S

/-- The strings hashed for the inner nodes of a tree. -/
def treeStrings (leaves : List Bytes) : Set Bytes :=
  {b | ∃ x ∈ Merkle.inner H.hpair leaves, b = x.1 ++ x.2}

/-- The strings hashed along a path. -/
def pathStrings (leaf : Bytes) (proof : List (Bytes × Bool)) : Set Bytes :=
  {b | ∃ x ∈ Merkle.pathPairs H.hpair leaf proof, b = x.1 ++ x.2}

theorem NoCollision.mono {H : Hashing α} {S T : Set Bytes} (h : H.NoCollision T) (hST : S ⊆ T) :
    H.NoCollision S :=
  Set.InjOn.mono hST h

/-- Every node of a tree over digests is a digest. -/
theorem length_inner {leaves : List Bytes} (hwide : ∀ a ∈ leaves, a.length = 32) :
    ∀ x ∈ Merkle.inner H.hpair leaves, x.1.length = 32 ∧ x.2.length = 32 :=
  Merkle.forall_of_inner (P := fun a : Bytes => a.length = 32) (fun _ _ => H.length_digest _) hwide

/-- On a path from a digest one side of every pair is a digest. -/
theorem length_pathPairs {leaf : Bytes} (hleaf : leaf.length = 32) (proof : List (Bytes × Bool)) :
    ∀ x ∈ Merkle.pathPairs H.hpair leaf proof, x.1.length = 32 ∨ x.2.length = 32 := by
  induction proof generalizing leaf with
  | nil => exact fun x hx => absurd hx List.not_mem_nil
  | cons s proof ih =>
    intro x hx
    rcases List.mem_cons.mp hx with rfl | hx
    · unfold Merkle.beside
      split
      · exact Or.inr hleaf
      · exact Or.inl hleaf
    · exact ih (H.length_digest _) x hx

/-- Two digests are told apart in their concatenation. -/
theorem pair_eq_of_append {x y : Bytes × Bytes} (hx : x.1.length = 32 ∨ x.2.length = 32)
    (hy : y.1.length = 32 ∧ y.2.length = 32) (h : x.1 ++ x.2 = y.1 ++ y.2) : x = y := by
  have hlen : x.1.length + x.2.length = y.1.length + y.2.length := by
    rw [← List.length_append, ← List.length_append, h]
  have hfst : x.1.length = y.1.length := by omega
  exact Prod.ext (List.append_inj_left h hfst) (List.append_inj_right h hfst)

/-- A tree over strings that are no longer than digests is bound by a tree over digests. -/
theorem binding_tree {l l' : List Bytes} (hl : ∀ a ∈ l, a.length ≤ 32)
    (hl' : ∀ a ∈ l', a.length = 32) {S : Set Bytes} (hcf : H.NoCollision S)
    (hS : H.treeStrings l ⊆ S) (hS' : H.treeStrings l' ⊆ S) :
    Merkle.Binding H.hpair (Merkle.inner H.hpair l) (Merkle.inner H.hpair l') := by
  intro x hx y hy hnode
  have happ := hcf (hS ⟨x, hx, rfl⟩) (hS' ⟨y, hy, rfl⟩) hnode
  obtain ⟨hfst, hsnd⟩ := Merkle.forall_of_inner (P := fun a : Bytes => a.length ≤ 32)
    (fun _ _ => (H.length_digest _).le) hl x hx
  obtain ⟨hfst', hsnd'⟩ := H.length_inner hl' y hy
  have hlen : x.1.length + x.2.length = y.1.length + y.2.length := by
    rw [← List.length_append, ← List.length_append, happ]
  exact pair_eq_of_append (Or.inl (by omega)) ⟨hfst', hsnd'⟩ happ

/-- A path from a digest is bound by a tree over digests. -/
theorem binding_path {leaf : Bytes} (hleaf : leaf.length = 32) {proof : List (Bytes × Bool)}
    {l : List Bytes} (hl : ∀ a ∈ l, a.length = 32) {S : Set Bytes} (hcf : H.NoCollision S)
    (hS : H.pathStrings leaf proof ⊆ S) (hS' : H.treeStrings l ⊆ S) :
    Merkle.Binding H.hpair (Merkle.pathPairs H.hpair leaf proof) (Merkle.inner H.hpair l) := by
  intro x hx y hy hnode
  have happ := hcf (hS ⟨x, hx, rfl⟩) (hS' ⟨y, hy, rfl⟩) hnode
  exact pair_eq_of_append (H.length_pathPairs hleaf proof x hx) (H.length_inner hl y hy) happ

/-- **One path climbs from one leaf to one root.** -/
theorem roll_inj {a b : Bytes} {proof : List (Bytes × Bool)} {S : Set Bytes}
    (hcf : H.NoCollision S) (ha : H.pathStrings a proof ⊆ S) (hb : H.pathStrings b proof ⊆ S)
    (h : Merkle.roll H.hpair a proof = Merkle.roll H.hpair b proof) : a = b := by
  induction proof generalizing a b with
  | nil => exact h
  | cons s proof ih =>
    have hnode := ih (fun z hz => ha ?_) (fun z hz => hb ?_) h
    · have happ := hcf (ha ⟨_, List.mem_cons_self, rfl⟩) (hb ⟨_, List.mem_cons_self, rfl⟩) hnode
      unfold Merkle.beside at happ
      split at happ
      · exact List.append_cancel_left happ
      · exact List.append_cancel_right happ
    · obtain ⟨x, hx, hz⟩ := hz
      exact ⟨x, List.mem_cons_of_mem _ hx, hz⟩
    · obtain ⟨x, hx, hz⟩ := hz
      exact ⟨x, List.mem_cons_of_mem _ hx, hz⟩

/-- The strings of some pairs of digests. -/
def joined (pairs : List (Bytes × Bytes)) : List Bytes := pairs.map (fun x => x.1 ++ x.2)

theorem treeStrings_subset {leaves strings : List Bytes}
    (h : ∀ b ∈ joined (Merkle.inner H.hpair leaves), b ∈ strings) :
    H.treeStrings leaves ⊆ {b | b ∈ strings} := by
  rintro b ⟨x, hx, rfl⟩
  exact h _ (List.mem_map.mpr ⟨x, hx, rfl⟩)

theorem pathStrings_subset {leaf : Bytes} {p : List (Bytes × Bool)} {strings : List Bytes}
    (h : ∀ b ∈ joined (Merkle.pathPairs H.hpair leaf p), b ∈ strings) :
    H.pathStrings leaf p ⊆ {b | b ∈ strings} := by
  rintro b ⟨x, hx, rfl⟩
  exact h _ (List.mem_map.mpr ⟨x, hx, rfl⟩)

end Hashing

/-- A toy hash: a polynomial of the string, in 32 bytes. -/
def toyHashing : Hashing PyFloat where
  digest b :=
    let n := b.foldl (fun n x => n * 65599 + x.toNat + 1) 7
    (List.range 32).map (fun i => (n / 256 ^ (31 - i)).toUInt8)
  length_digest b := by rw [List.length_map, List.length_range]
  float64
    | .fin q => (List.range 8).map (fun i => ((q.num % 2 ^ 64).toNat / 256 ^ (7 - i)).toUInt8)
    | _ => List.replicate 8 255
  length_float64 x := by cases x <;> rfl

/-- The proof of the last of three leaves, which stands beside itself, and their root. -/
theorem merkle_proofs_exact_three :
    (∃ proof, toyHashing.merkleProof [[1], [2], [3]] 2 = some proof ∧
      toyHashing.merkleVerify [3] proof (toyHashing.merkleRoot [[1], [2], [3]]) = true) ∧
    ([[1], [2], [3]] : List Bytes) = [[1], [2], [3]] :=
  ⟨toyHashing.merkle_proofs_exact.1 [[1], [2], [3]] 2 (by decide),
    toyHashing.merkle_proofs_exact.2 [[1], [2], [3]] [[1], [2], [3]] rfl
      (by unfold Hashing.PairsApart Merkle.Binding; decide +kernel) rfl⟩

end NeuraHash
