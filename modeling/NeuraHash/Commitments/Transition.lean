import NeuraHash.Commitments.Checkpoint

/-!
# The transition of one expert (`neura_l1/expert_sharding.py`)

A block that trains expert `e` changes one leaf of the checkpoint. A verifier that holds this
expert alone checks it with one Merkle path from the block: its old parameters must climb to the
old root and its new parameters, along the same path, to the new one.

`transition_complete` and `transition_sound` are the two directions. A path is refused above
`maxGroupProof` siblings, which bounds the number of experts; and a group's text holds the bytes of
its arrays without their shapes, so it fixes the arrays only once their sizes are known
(`arrays_of_groupText`).
-/

namespace NeuraHash

open Py

namespace Hashing

variable {α : Type} (H : Hashing α)

/-! ## The verifier -/

/-- `_MAX_GROUP_PROOF`. -/
def maxGroupProof : ℕ := 64

/-- One entry `[sibling_hex, sib_is_left]` of a published path; `none` where `leaf_rolls_up_to`
returns `False`. -/
def decodeSibling (entry : Json) : Option (Bytes × Bool) :=
  match entry.toList with
  | .ok [.str sib, isLeft] =>
    if sib.length = 64 then (fromHex sib).map (fun b => (b, isLeft.truthy)) else none
  | _ => none

/-- The path a published proof stands for. -/
def decodeProof : Json → Option (List (Bytes × Bool))
  | .arr entries => if entries.length ≤ maxGroupProof then entries.mapM decodeSibling else none
  | _ => none

/-- The digest a published root stands for. -/
def decodeRoot : Json → Option Bytes
  | .str s => if s.length = 64 then fromHex s else none
  | _ => none

/-- `leaf_rolls_up_to(leaf, proof, root_hex)`. -/
def leafRollsUpTo (leaf : Bytes) (proof root : Json) : Bool :=
  match decodeProof proof, decodeRoot root with
  | some p, some r => H.merkleVerify leaf p r
  | _, _ => false

/-- Why `verify_expert_transition` returns `False`. -/
inductive TransitionReason where
  /-- `old expert leaf does not roll up to parent checkpoint (bad proof)` -/
  | oldLeaf
  /-- `new expert leaf does not roll up to new checkpoint` -/
  | newLeaf
  deriving DecidableEq

/-- `verify_expert_transition(parent_root, new_root, e, old_expert_params, new_expert_params,
proof)`. -/
def verifyExpertTransition (parentRoot newRoot : Json) (e : ℕ) (old new : Params α) (proof : Json) :
    Except PyErr (Except TransitionReason Unit) := do
  if !H.leafRollsUpTo (← H.expertLeaf old e) proof parentRoot then return .error .oldLeaf
  if !H.leafRollsUpTo (← H.expertLeaf new e) proof newRoot then return .error .newLeaf
  return .ok ()

theorem leafRollsUpTo_iff {leaf : Bytes} {proof root : Json} :
    H.leafRollsUpTo leaf proof root = true ↔
      ∃ p r, decodeProof proof = some p ∧ decodeRoot root = some r
        ∧ Merkle.roll H.hpair leaf p = r := by
  unfold leafRollsUpTo
  cases decodeProof proof with
  | none => simp
  | some p =>
    cases decodeRoot root with
    | none => simp
    | some r =>
      rw [H.merkleVerify_iff]
      constructor
      · exact fun h => ⟨p, r, rfl, rfl, h⟩
      · rintro ⟨p', r', hp, hr, h⟩
        cases hp
        cases hr
        exact h

/-- **What an accepted transition is**: one path takes both leaves to their roots. -/
theorem verifyExpertTransition_ok {parentRoot newRoot proof : Json} {e : ℕ} {old new : Params α} :
    H.verifyExpertTransition parentRoot newRoot e old new proof = .ok (.ok ()) ↔
      ∃ oldLeaf newLeaf, H.expertLeaf old e = .ok oldLeaf ∧ H.expertLeaf new e = .ok newLeaf
        ∧ H.leafRollsUpTo oldLeaf proof parentRoot = true
        ∧ H.leafRollsUpTo newLeaf proof newRoot = true := by
  unfold verifyExpertTransition
  cases hold : H.expertLeaf old e with
  | error err => simp [Except.bind, bind]
  | ok oldLeaf =>
    cases hroll : H.leafRollsUpTo oldLeaf proof parentRoot with
    | false => simp [hroll, pure, Except.pure]
    | true =>
      cases hnew : H.expertLeaf new e with
      | error err => simp [hroll, Except.bind, bind]
      | ok newLeaf =>
        cases hroll' : H.leafRollsUpTo newLeaf proof newRoot with
        | false => simp [hroll, hroll', pure, Except.pure]
        | true => simp [hroll, hroll', pure, Except.pure]

/-! ## Publishing a path -/

theorem decodeSibling_hex {b : Bytes} (hb : b.length = 32) (left : Bool) :
    decodeSibling (.arr [.str (hex b), .bool left]) = some (b, left) := by
  have hlen : (hex b).length = 64 := by rw [length_hex, hb]
  simp [decodeSibling, Json.toList, hlen, Json.truthy]

/-- A published path of digests is read back, up to the cap. -/
theorem decodeProof_published {p : List (Bytes × Bool)} (hwide : ∀ s ∈ p, s.1.length = 32) :
    decodeProof (.arr (p.map (fun s => .arr [.str (hex s.1), .bool s.2])))
      = if p.length ≤ maxGroupProof then some p else none := by
  have hread : (p.map (fun s => Json.arr [.str (hex s.1), .bool s.2])).mapM decodeSibling
      = some p := by
    induction p with
    | nil => rfl
    | cons s p ih =>
      rw [List.map_cons, List.mapM_cons, decodeSibling_hex (hwide s List.mem_cons_self),
        ih (fun t ht => hwide t (List.mem_cons_of_mem s ht))]
      rfl
  show (if (p.map _).length ≤ maxGroupProof then (p.map _).mapM decodeSibling else none) = _
  rw [List.length_map, hread]

theorem decodeRoot_hex {b : Bytes} (hb : b.length = 32) : decodeRoot (.str (hex b)) = some b := by
  have hlen : (hex b).length = 64 := by rw [length_hex, hb]
  show (if (hex b).length = 64 then fromHex (hex b) else none) = _
  rw [if_pos hlen, fromHex_hex]

theorem length_merkleRoot {leaves : List Bytes} (hwide : ∀ a ∈ leaves, a.length = 32) :
    (H.merkleRoot leaves).length = 32 := by
  unfold merkleRoot
  induction leaves using Merkle.level_induction H.hpair with
  | top l hlen =>
    rw [Merkle.root_of_le_one hlen]
    cases l with
    | nil => rfl
    | cons a l => exact hwide a List.mem_cons_self
  | up l hlen ih =>
    rw [Merkle.root_of_one_lt hlen]
    apply ih
    intro a ha
    obtain ⟨x, _, rfl⟩ := List.mem_map.mp ha
    exact H.length_digest _

/-! ## Completeness -/

/-- `P` and `P'` differ in the parameters of expert `e` only. -/
def DifferIn (e : ℕ) (P P' : Params α) : Prop := ∀ k ∉ expertKeys e, P'.get? k = P.get? k

/-- Then their leaves differ at the leaf of the expert only. -/
theorem leaves_of_differIn {P P' : Params α} {n e : ℕ} {leaves leaves' : List Bytes}
    (hdiffer : DifferIn e P P') (hP : H.realGroupLeaves P n = .ok leaves)
    (hP' : H.realGroupLeaves P' n = .ok leaves') : ∀ k ≠ e + 1, leaves[k]? = leaves'[k]? := by
  obtain ⟨hlen, ⟨shared, hshared, hzero⟩, hexperts⟩ := H.realGroupLeaves_eq_ok hP
  obtain ⟨hlen', ⟨shared', hshared', hzero'⟩, hexperts'⟩ := H.realGroupLeaves_eq_ok hP'
  intro k hk
  rcases Nat.lt_or_ge k (n + 1) with hlt | hge
  swap
  · rw [List.getElem?_eq_none (by omega), List.getElem?_eq_none (by omega)]
  cases k with
  | zero =>
    have hsame : SameOn P P' sharedKeys :=
      fun k hk => (hdiffer k (sharedKeys_disjoint hk)).symm
    rw [H.groupLeaf_congr _ hsame, hshared'] at hshared
    rw [hzero, hzero', Except.ok.inj hshared]
  | succ e' =>
    obtain ⟨leaf, hleaf, hat⟩ := hexperts e' (by omega)
    obtain ⟨leaf', hleaf', hat'⟩ := hexperts' e' (by omega)
    have hsame : SameOn P P' (expertKeys e') := by
      intro k hk'
      refine (hdiffer k fun hk'' => ?_).symm
      have := expertKeys_disjoint hk' hk''
      omega
    unfold expertLeaf at hleaf
    rw [H.groupLeaf_congr _ hsame, ← expertLeaf, hleaf'] at hleaf
    rw [hat, hat', Except.ok.inj hleaf]

/-- The text of a path as a block publishes it. -/
def published (p : List (Bytes × Bool)) : Json :=
  .arr (p.map (fun s => .arr [.str (hex s.1), .bool s.2]))

/-- The published path of an expert of a full parameter set. -/
theorem checkpointProof_eq_ok {P : Params α} {n e : ℕ} {leaves : List Bytes} (he : e < n)
    (hP : H.realGroupLeaves P n = .ok leaves) :
    ∃ p, H.merkleProof (H.padPow2 leaves) (e + 1) = some p
      ∧ H.checkpointProof P n e = .ok (published p) ∧ ∀ s ∈ p, s.1.length = 32 := by
  have hlen := (H.realGroupLeaves_eq_ok hP).1
  have hindex : e + 1 < (H.padPow2 leaves).length := by
    rw [padPow2, List.length_append, hlen]
    omega
  obtain ⟨p, hp⟩ := @Merkle.exists_path _ H.hpair _ _ hindex
  refine ⟨p, hp, ?_, ?_⟩
  · unfold checkpointProof
    rw [hP, ok_bind]
    dsimp only
    rw [merkleProof, hp]
    rfl
  · exact Merkle.forall_of_path (fun a b => H.length_digest (a ++ b))
      (H.length_of_mem_padPow2 hP) hp

theorem checkpointRoot_eq_ok {P : Params α} {n : ℕ} {root : String} :
    H.checkpointRoot P n = .ok root ↔ ∃ leaves, H.realGroupLeaves P n = .ok leaves
      ∧ hex (H.merkleRoot (H.padPow2 leaves)) = root := by
  unfold checkpointRoot
  rw [bind_eq_ok]
  constructor
  · rintro ⟨leaves, hleaves, hroot⟩
    exact ⟨leaves, hleaves, Except.ok.inj hroot⟩
  · rintro ⟨leaves, hleaves, rfl⟩
    exact ⟨leaves, hleaves, rfl⟩

/-- The path of an expert climbs from its leaf, in the tree it was taken from and in a tree that
differs at this leaf. -/
theorem leafRollsUpTo_published {P P' : Params α} {n e : ℕ} {leaves leaves' : List Bytes}
    {leaf : Bytes} {p : List (Bytes × Bool)} (hP : H.realGroupLeaves P n = .ok leaves)
    (hP' : H.realGroupLeaves P' n = .ok leaves') (hoff : ∀ k ≠ e + 1, leaves[k]? = leaves'[k]?)
    (hp : H.merkleProof (H.padPow2 leaves) (e + 1) = some p) (he : e < n)
    (hleaf : H.expertLeaf P' e = .ok leaf) (hwide : ∀ s ∈ p, s.1.length = 32)
    (hcap : p.length ≤ maxGroupProof) :
    H.leafRollsUpTo leaf (published p) (.str (hex (H.merkleRoot (H.padPow2 leaves')))) = true := by
  have hlen := (H.realGroupLeaves_eq_ok hP).1
  obtain ⟨hlen', -, hexperts⟩ := H.realGroupLeaves_eq_ok hP'
  have hsame : leaves.length = leaves'.length := hlen.trans hlen'.symm
  obtain ⟨d, hd, hle, -⟩ := H.length_padPow2 leaves
  have hd' := (H.length_padPow2_congr hsame).symm.trans hd
  -- the padded trees differ at the leaf of the expert only
  have hpadded : ∀ k ≠ e + 1, (H.padPow2 leaves)[k]? = (H.padPow2 leaves')[k]? := by
    intro k hk
    unfold padPow2
    rcases Nat.lt_or_ge k leaves.length with hlt | hge
    · rw [List.getElem?_append_left hlt, List.getElem?_append_left (by omega), hoff k hk]
    · rw [List.getElem?_append_right hge, List.getElem?_append_right (by omega), hsame]
  have hindex : e + 1 < 2 ^ d := by omega
  rw [merkleProof, Merkle.path_congr hd hd' hindex hpadded] at hp
  obtain ⟨leaf', hleaf', hat⟩ := hexperts e he
  rw [hleaf] at hleaf'
  cases hleaf'
  rw [← H.getElem?_padPow2_of_lt (by omega)] at hat
  apply H.leafRollsUpTo_iff.mpr
  refine ⟨p, H.merkleRoot (H.padPow2 leaves'), ?_, ?_, Merkle.roll_path hat hp⟩
  · rw [published, decodeProof_published hwide, if_pos hcap]
  · exact decodeRoot_hex (H.length_merkleRoot (H.length_of_mem_padPow2 hP'))

/-- **An honest transition is accepted** below the cap on the path. -/
theorem transition_complete {P P' : Params α} {n e : ℕ} (hP : Full P n) (hP' : Full P' n)
    (hdiffer : DifferIn e P P') (he : e < n) (hn : n < 2 ^ 64) :
    ∃ root root' proof, H.checkpointRoot P n = .ok root ∧ H.checkpointRoot P' n = .ok root'
      ∧ H.checkpointProof P n e = .ok proof
      ∧ H.verifyExpertTransition (.str root) (.str root') e P P' proof = .ok (.ok ()) := by
  obtain ⟨leaves, hleaves⟩ := H.exists_realGroupLeaves hP
  obtain ⟨leaves', hleaves'⟩ := H.exists_realGroupLeaves hP'
  obtain ⟨p, hp, hproof, hwide⟩ := H.checkpointProof_eq_ok he hleaves
  obtain ⟨hlen, -, hexperts⟩ := H.realGroupLeaves_eq_ok hleaves
  obtain ⟨-, -, hexperts'⟩ := H.realGroupLeaves_eq_ok hleaves'
  obtain ⟨leaf, hleaf, -⟩ := hexperts e he
  obtain ⟨leaf', hleaf', -⟩ := hexperts' e he
  have hcap : p.length ≤ maxGroupProof := by
    obtain ⟨d, hd, -, hmin⟩ := H.length_padPow2 leaves
    rw [Merkle.length_of_path hp, hd, Merkle.depth_two_pow]
    exact hmin 64 (by omega)
  have hoff := H.leaves_of_differIn hdiffer hleaves hleaves'
  refine ⟨_, _, _, H.checkpointRoot_eq_ok.mpr ⟨leaves, hleaves, rfl⟩,
    H.checkpointRoot_eq_ok.mpr ⟨leaves', hleaves', rfl⟩, hproof, ?_⟩
  apply H.verifyExpertTransition_ok.mpr
  exact ⟨leaf, leaf', hleaf, hleaf',
    H.leafRollsUpTo_published hleaves hleaves (fun _ _ => rfl) hp he hleaf hwide hcap,
    H.leafRollsUpTo_published hleaves hleaves' hoff hp he hleaf' hwide hcap⟩

/-- Above the cap every published path is refused. -/
theorem transition_refused {P P' : Params α} {n e : ℕ} (hP : Full P n) (he : e < n)
    (hn : 2 ^ 64 ≤ n) {proof root root' : Json} (hproof : H.checkpointProof P n e = .ok proof) :
    H.verifyExpertTransition root root' e P P' proof = .ok (.error .oldLeaf) := by
  obtain ⟨leaves, hleaves⟩ := H.exists_realGroupLeaves hP
  obtain ⟨p, hp, hpublished, hwide⟩ := H.checkpointProof_eq_ok he hleaves
  obtain ⟨hlen, -, hexperts⟩ := H.realGroupLeaves_eq_ok hleaves
  obtain ⟨leaf, hleaf, -⟩ := hexperts e he
  rw [hpublished] at hproof
  cases hproof
  have hlong : ¬ p.length ≤ maxGroupProof := by
    obtain ⟨d, hd, hle, -⟩ := H.length_padPow2 leaves
    rw [Merkle.length_of_path hp, hd, Merkle.depth_two_pow]
    intro hcap
    have := Nat.pow_le_pow_right (n := 2) (by norm_num) (show d ≤ 64 from hcap)
    omega
  have hnone : H.leafRollsUpTo leaf (published p) root = false := by
    unfold leafRollsUpTo
    rw [published, decodeProof_published hwide, if_neg hlong]
  unfold verifyExpertTransition
  rw [hleaf, ok_bind, hnone]
  rfl

/-! ## Soundness -/

/-- The texts behind the leaves of a padded checkpoint. -/
def leafTexts (params : Params α) (n : ℕ) : Set Bytes :=
  {t | t = padText ∨ H.groupText params sharedKeys "shared" = .ok t
    ∨ ∃ e < n, H.groupText params (expertKeys e) (expertName e) = .ok t}

/-- Every padded leaf is the digest of such a text. -/
theorem exists_leafText {params : Params α} {n : ℕ} {leaves : List Bytes}
    (h : H.realGroupLeaves params n = .ok leaves) {i : ℕ} {a : Bytes}
    (ha : (H.padPow2 leaves)[i]? = some a) : ∃ t ∈ H.leafTexts params n, H.digest t = a := by
  rcases H.getElem?_padPow2 ha with hreal | ⟨_, rfl⟩
  · rcases H.realGroupLeaves_text h hreal with ⟨_, t, ht, rfl⟩ | ⟨e, he, _, t, ht, rfl⟩
    · exact ⟨t, Or.inr (Or.inl ht), rfl⟩
    · exact ⟨t, Or.inr (Or.inr ⟨e, he, ht⟩), rfl⟩
  · exact ⟨padText, Or.inl rfl, rfl⟩

/-- Where a leaf with the text of an expert stands. -/
theorem position_of_text {params old : Params α} {n e : ℕ} {leaves : List Bytes} {text : Bytes}
    {texts : Set Bytes} (hcf : H.NoCollision texts) (hleaf : H.leafTexts params n ⊆ texts)
    (htext : text ∈ texts) (h : H.realGroupLeaves params n = .ok leaves)
    (hold : H.groupText old (expertKeys e) (expertName e) = .ok text) {i : ℕ}
    (hi : (H.padPow2 leaves)[i]? = some (H.digest text)) :
    i = e + 1 ∧ e < n ∧ H.groupText params (expertKeys e) (expertName e) = .ok text := by
  rcases H.getElem?_padPow2 hi with hreal | ⟨_, hpad⟩
  · rcases H.realGroupLeaves_text h hreal with ⟨_, t, ht, hdigest⟩ | ⟨e', he', hpos, t, ht, hdigest⟩
    · have hsame : t = text := hcf (hleaf (Or.inr (Or.inl ht))) htext hdigest
      exact (H.sharedText_ne (hsame ▸ ht) hold).elim
    · have hsame : t = text := hcf (hleaf (Or.inr (Or.inr ⟨e', he', ht⟩))) htext hdigest
      rw [hsame] at ht
      obtain rfl := H.expertText_inj ht hold
      exact ⟨hpos, he', ht⟩
  · have hsame : padText = text := hcf (hleaf (Or.inl rfl)) htext hpad.symm
    exact (H.padText_ne (hsame ▸ hold)).elim

/-- **What a rolled-up expert leaf opens**: the leaf of this expert, along its honest path. -/
theorem opens_expert {params old : Params α} {n e : ℕ} {leaves : List Bytes} {text : Bytes}
    {p : List (Bytes × Bool)} {texts nodes : Set Bytes} (hcf : H.NoCollision (texts ∪ nodes))
    (hsep : Disjoint texts nodes) (hleaf : H.leafTexts params n ⊆ texts) (htext : text ∈ texts)
    (htree : H.treeStrings (H.padPow2 leaves) ⊆ nodes)
    (hpath : H.pathStrings (H.digest text) p ⊆ nodes)
    (h : H.realGroupLeaves params n = .ok leaves)
    (hold : H.groupText old (expertKeys e) (expertName e) = .ok text)
    (hroll : Merkle.roll H.hpair (H.digest text) p = H.merkleRoot (H.padPow2 leaves)) :
    e < n ∧ H.groupText params (expertKeys e) (expertName e) = .ok text
      ∧ Merkle.path H.hpair (H.padPow2 leaves) (e + 1) = some p := by
  have hlen := (H.realGroupLeaves_eq_ok h).1
  obtain ⟨d, hd, hle, -⟩ := H.length_padPow2 leaves
  have hbind : Merkle.Binding H.hpair (Merkle.pathPairs H.hpair (H.digest text) p)
      (Merkle.inner H.hpair (H.padPow2 leaves)) :=
    H.binding_path (H.length_digest text) (H.length_of_mem_padPow2 h) hcf
      (fun b hb => Or.inr (hpath hb)) (fun b hb => Or.inr (htree hb))
  have hne : H.padPow2 leaves ≠ [] := by
    apply H.padPow2_ne_nil
    rintro rfl
    cases hlen
  have hdepth : p.length = d := by
    rcases Merkle.roll_cases hne hbind hroll with hdepth | ⟨x, hx, hnode⟩ | ⟨x, hx, hmem⟩
    · rwa [hd, Merkle.depth_two_pow] at hdepth
    · -- a short path would make the leaf an inner node
      have hin : x.1 ++ x.2 ∈ nodes := htree ⟨x, hx, rfl⟩
      have hsame : text = x.1 ++ x.2 := hcf (Or.inl htext) (Or.inr hin) hnode
      exact (Set.disjoint_left.mp hsep htext (hsame ▸ hin)).elim
    · -- a long path would make a leaf of the tree an inner node
      obtain ⟨i, hi⟩ := List.mem_iff_getElem?.mp hmem
      obtain ⟨t, ht, hdigest⟩ := H.exists_leafText h hi
      have hin : x.1 ++ x.2 ∈ nodes := hpath ⟨x, hx, rfl⟩
      have hsame : t = x.1 ++ x.2 := hcf (Or.inl (hleaf ht)) (Or.inr hin) hdigest
      exact (Set.disjoint_left.mp hsep (hleaf ht) (hsame ▸ hin)).elim
  have hcount : (p.map Prod.snd).length = d := by rw [List.length_map, hdepth]
  obtain ⟨i, hi, hsides⟩ := Merkle.exists_directions hcount
  obtain ⟨hat, hhonest⟩ := Merkle.eq_of_roll (by rwa [hd]) (by rw [hd, hsides]) hbind hroll
  obtain ⟨rfl, he, hparams⟩ := H.position_of_text
    (NoCollision.mono hcf Set.subset_union_left) hleaf htext h hold hat
  exact ⟨he, hparams, hhonest⟩

/-- The texts hashed for the leaves of a transition. -/
def transitionTexts (P Q old new : Params α) (n e : ℕ) : Set Bytes :=
  {t | t ∈ H.leafTexts P n ∨ t ∈ H.leafTexts Q n
    ∨ ∃ params, (params = old ∨ params = new)
      ∧ H.groupText params (expertKeys e) (expertName e) = .ok t}

/-- The strings hashed for its inner nodes: in both trees, and along the path. -/
def transitionNodes (P Q old new : Params α) (n e : ℕ) (proof : Json) : Set Bytes :=
  {b | (∃ params, (params = P ∨ params = Q) ∧ ∃ leaves, H.realGroupLeaves params n = .ok leaves
        ∧ b ∈ H.treeStrings (H.padPow2 leaves))
    ∨ ∃ params, (params = old ∨ params = new) ∧ ∃ leaf p, H.expertLeaf params e = .ok leaf
        ∧ decodeProof proof = some p ∧ b ∈ H.pathStrings leaf p}

/-- The hash meets no collision, and no group's text is the text of an inner node. -/
structure Separated (texts nodes : Set Bytes) : Prop where
  noCollision : H.NoCollision (texts ∪ nodes)
  disjoint : Disjoint texts nodes

/-- **An accepted transition is one**: the old and the new parameters have the texts of expert `e`
in the two checkpoints, whose other leaves are the same. -/
theorem transition_sound {P Q old new : Params α} {n e : ℕ} {proof : Json} {root root' : String}
    (hP : H.checkpointRoot P n = .ok root) (hQ : H.checkpointRoot Q n = .ok root')
    (hsep : H.Separated (H.transitionTexts P Q old new n e)
      (H.transitionNodes P Q old new n e proof))
    (hok : H.verifyExpertTransition (.str root) (.str root') e old new proof = .ok (.ok ())) :
    e < n
      ∧ H.groupText old (expertKeys e) (expertName e) = H.groupText P (expertKeys e) (expertName e)
      ∧ H.groupText new (expertKeys e) (expertName e) = H.groupText Q (expertKeys e) (expertName e)
      ∧ ∃ leaves leaves', H.realGroupLeaves P n = .ok leaves ∧ H.realGroupLeaves Q n = .ok leaves'
        ∧ ∀ k ≠ e + 1, leaves[k]? = leaves'[k]? := by
  obtain ⟨leaves, hleaves, rfl⟩ := H.checkpointRoot_eq_ok.mp hP
  obtain ⟨leaves', hleaves', rfl⟩ := H.checkpointRoot_eq_ok.mp hQ
  obtain ⟨oldLeaf, newLeaf, hold, hnew, hrolls, hrolls'⟩ := H.verifyExpertTransition_ok.mp hok
  obtain ⟨p, r, hp, hr, hroll⟩ := H.leafRollsUpTo_iff.mp hrolls
  obtain ⟨p', r', hp', hr', hroll'⟩ := H.leafRollsUpTo_iff.mp hrolls'
  rw [decodeRoot_hex (H.length_merkleRoot (H.length_of_mem_padPow2 hleaves))] at hr
  rw [decodeRoot_hex (H.length_merkleRoot (H.length_of_mem_padPow2 hleaves'))] at hr'
  cases hr
  cases hr'
  rw [hp] at hp'
  cases hp'
  obtain ⟨oldText, holdText, rfl⟩ := H.groupLeaf_eq_ok.mp hold
  obtain ⟨newText, hnewText, rfl⟩ := H.groupLeaf_eq_ok.mp hnew
  obtain ⟨he, hPtext, hpath⟩ := H.opens_expert hsep.noCollision hsep.disjoint
    (fun t ht => Or.inl ht) (Or.inr (Or.inr ⟨old, Or.inl rfl, holdText⟩))
    (fun b hb => Or.inl ⟨P, Or.inl rfl, leaves, hleaves, hb⟩)
    (fun b hb => Or.inr ⟨old, Or.inl rfl, _, p, hold, hp, hb⟩) hleaves holdText hroll
  obtain ⟨-, hQtext, hpath'⟩ := H.opens_expert hsep.noCollision hsep.disjoint
    (fun t ht => Or.inr (Or.inl ht)) (Or.inr (Or.inr ⟨new, Or.inr rfl, hnewText⟩))
    (fun b hb => Or.inl ⟨Q, Or.inr rfl, leaves', hleaves', hb⟩)
    (fun b hb => Or.inr ⟨new, Or.inr rfl, _, p, hnew, hp, hb⟩) hleaves' hnewText hroll'
  refine ⟨he, holdText.trans hPtext.symm, hnewText.trans hQtext.symm, leaves, leaves', hleaves,
    hleaves', fun k hk => ?_⟩
  -- one path in two trees fixes the leaves off the path
  have hlen := (H.realGroupLeaves_eq_ok hleaves).1
  have hlen' := (H.realGroupLeaves_eq_ok hleaves').1
  obtain ⟨d, hd, hle, -⟩ := H.length_padPow2 leaves
  have hd' := (H.length_padPow2_congr (hlen.trans hlen'.symm)).symm.trans hd
  have htrees : Merkle.Binding H.hpair (Merkle.inner H.hpair (H.padPow2 leaves))
      (Merkle.inner H.hpair (H.padPow2 leaves')) :=
    H.binding_tree (fun a ha => (H.length_of_mem_padPow2 hleaves a ha).le)
      (H.length_of_mem_padPow2 hleaves') hsep.noCollision
      (fun b hb => Or.inr (Or.inl ⟨P, Or.inl rfl, leaves, hleaves, hb⟩))
      (fun b hb => Or.inr (Or.inl ⟨Q, Or.inr rfl, leaves', hleaves', hb⟩))
  have hoff := Merkle.eq_off_path hd hd' (by omega) hpath hpath' htrees k hk
  rcases Nat.lt_or_ge k (n + 1) with hlt | hge
  · rwa [H.getElem?_padPow2_of_lt (by omega), H.getElem?_padPow2_of_lt (by omega)] at hoff
  · rw [List.getElem?_eq_none (by omega), List.getElem?_eq_none (by omega)]

/-! ## Arrays -/

theorem length_tobytes (t : Tensor α) : (H.tobytes t).length = 8 * t.data.length := by
  unfold tobytes
  rw [List.length_flatMap, List.map_congr_left (fun x _ => H.length_float64 x)]
  simp [mul_comm]

/-- The arrays under these keys have as many elements. -/
def SameSizes (params params' : Params α) (keys : List String) : Prop :=
  ∀ k ∈ keys, ∀ t t', params.get? k = some t → params'.get? k = some t' →
    t.data.length = t'.data.length

/-- Equal concatenations of the same keys with arrays of the same sizes, key by key. -/
theorem arrays_of_parts {params params' : Params α} {ks : List String} {parts parts' : List Bytes}
    (h : List.Forall₂ (fun k b => (do
      return utf8 k ++ H.tobytes (← paramAt params k) : Except PyErr Bytes) = .ok b) ks parts)
    (h' : List.Forall₂ (fun k b => (do
      return utf8 k ++ H.tobytes (← paramAt params' k) : Except PyErr Bytes) = .ok b) ks parts')
    (hsizes : SameSizes params params' ks) (hflat : parts.flatten = parts'.flatten) :
    ∀ k ∈ ks, ∃ t t', params.get? k = some t ∧ params'.get? k = some t'
      ∧ H.tobytes t = H.tobytes t' := by
  induction h generalizing parts' with
  | nil => exact fun k hk => absurd hk List.not_mem_nil
  | @cons k b ks parts hk _ ih =>
    cases h' with
    | @cons _ b' _ parts' hk' htail' =>
      obtain ⟨t, ht, hb⟩ := bind_eq_ok.mp hk
      obtain ⟨t', ht', hb'⟩ := bind_eq_ok.mp hk'
      cases hb
      cases hb'
      have hat := paramAt_eq_ok.mp ht
      have hat' := paramAt_eq_ok.mp ht'
      have hsize := hsizes k List.mem_cons_self t t' hat hat'
      have hlen : (utf8 k ++ H.tobytes t).length = (utf8 k ++ H.tobytes t').length := by
        rw [List.length_append, List.length_append, H.length_tobytes, H.length_tobytes, hsize]
      rw [List.flatten_cons, List.flatten_cons] at hflat
      have hbytes := List.append_cancel_left (List.append_inj_left hflat hlen)
      have hrest := ih htail' (fun c hc => hsizes c (List.mem_cons_of_mem k hc))
        (List.append_inj_right hflat hlen)
      exact List.forall_mem_cons.mpr ⟨⟨t, t', hat, hat', hbytes⟩, hrest⟩

/-- **Arrays of known sizes are fixed by the text of their group.** -/
theorem arrays_of_groupText {params params' : Params α} {keys : List String} {name : String}
    {text : Bytes} (h : H.groupText params keys name = .ok text)
    (h' : H.groupText params' keys name = .ok text) (hsizes : SameSizes params params' keys) :
    ∀ k ∈ keys, ∃ t t', params.get? k = some t ∧ params'.get? k = some t'
      ∧ H.tobytes t = H.tobytes t' := by
  obtain ⟨columns, hcolumns, h⟩ := bind_eq_ok.mp h
  obtain ⟨columns', hcolumns', h'⟩ := bind_eq_ok.mp h'
  cases h
  have hsame := List.append_cancel_left (Except.ok.inj h')
  obtain ⟨parts, hparts, hcolumns⟩ := bind_eq_ok.mp hcolumns
  obtain ⟨parts', hparts', hcolumns'⟩ := bind_eq_ok.mp hcolumns'
  cases hcolumns
  cases hcolumns'
  intro k hk
  exact H.arrays_of_parts (forall₂_of_mapM hparts) (forall₂_of_mapM hparts')
    (fun c hc => hsizes c ((List.mem_insertionSort (· ≤ ·)).mp hc)) hsame.symm k
    ((List.mem_insertionSort (· ≤ ·)).mpr hk)

/-- The parameters of an expert agree as far as a checkpoint tells. -/
structure Agrees (params params' : Params α) (e : ℕ) : Prop where
  text : H.groupText params (expertKeys e) (expertName e)
    = H.groupText params' (expertKeys e) (expertName e)
  arrays : SameSizes params params' (expertKeys e) → ∀ k ∈ expertKeys e, ∃ t t',
    params.get? k = some t ∧ params'.get? k = some t' ∧ H.tobytes t = H.tobytes t'

theorem agrees_of_text {params params' : Params α} {e : ℕ} {leaf : Bytes}
    (hleaf : H.expertLeaf params e = .ok leaf)
    (htext : H.groupText params (expertKeys e) (expertName e)
      = H.groupText params' (expertKeys e) (expertName e)) : H.Agrees params params' e := by
  obtain ⟨text, h, -⟩ := H.groupLeaf_eq_ok.mp hleaf
  exact ⟨htext, H.arrays_of_groupText h (htext ▸ h)⟩

/-- **Transition proofs are exact** up to the cap on a path and what a group's text tells. -/
theorem expertTransition_exact (P : Params α) (n e : ℕ) (hP : Full P n) (he : e < n) :
    (∀ P', Full P' n → DifferIn e P P' → n < 2 ^ 64 →
      ∃ root root' proof, H.checkpointRoot P n = .ok root ∧ H.checkpointRoot P' n = .ok root'
        ∧ H.checkpointProof P n e = .ok proof
        ∧ H.verifyExpertTransition (.str root) (.str root') e P P' proof = .ok (.ok ()))
    ∧ ∀ Q old new proof root root', H.checkpointRoot P n = .ok root →
      H.checkpointRoot Q n = .ok root' →
      H.Separated (H.transitionTexts P Q old new n e) (H.transitionNodes P Q old new n e proof) →
      H.verifyExpertTransition (.str root) (.str root') e old new proof = .ok (.ok ()) →
      H.Agrees old P e ∧ H.Agrees new Q e
        ∧ ∃ leaves leaves', H.realGroupLeaves P n = .ok leaves
          ∧ H.realGroupLeaves Q n = .ok leaves' ∧ ∀ k ≠ e + 1, leaves[k]? = leaves'[k]? := by
  constructor
  · intro P' hP' hdiffer hn
    exact H.transition_complete hP hP' hdiffer he hn
  · intro Q old new proof root root' hroot hroot' hsep hok
    obtain ⟨-, hold, hnew, hleaves⟩ := H.transition_sound hroot hroot' hsep hok
    obtain ⟨oldLeaf, newLeaf, holdLeaf, hnewLeaf, -, -⟩ := H.verifyExpertTransition_ok.mp hok
    exact ⟨H.agrees_of_text holdLeaf hold, H.agrees_of_text hnewLeaf hnew, hleaves⟩

end Hashing

/-! ## One expert of one neuron -/

namespace OneExpert

open Hashing

/-- An array of these numbers. -/
def row (xs : List ℤ) : Tensor PyFloat := ⟨[xs.length], xs.map (fun n => .fin n), by simp⟩

/-- One expert whose first and last layer are these arrays. -/
def params (first last : List ℤ) : Params PyFloat :=
  Dict.ofList [("Emb", row [0]), ("Wr", row [0]), ("br", row [0]), ("Wo", row [0]), ("bo", row [0]),
    ("W1_0", row first), ("b1_0", row [0]), ("W2_0", row last), ("b2_0", row [0])]

/-- The value, where there is one. -/
def okOr {β : Type} (b : β) : Except PyErr β → β
  | .ok a => a
  | .error _ => b

theorem okOr_of_eq_ok {β : Type} {b a : β} {x : Except PyErr β} (h : x = .ok a) : okOr b x = a := by
  rw [h]
  rfl

def sharedText (P : Params PyFloat) : Bytes := okOr [] (toyHashing.groupText P sharedKeys "shared")

def expertText (P : Params PyFloat) : Bytes :=
  okOr [] (toyHashing.groupText P (expertKeys 0) (expertName 0))

def leaves (P : Params PyFloat) : List Bytes := okOr [] (toyHashing.realGroupLeaves P 1)

def root (P : Params PyFloat) : String := okOr "" (toyHashing.checkpointRoot P 1)

def proof (P : Params PyFloat) : Json := okOr .null (toyHashing.checkpointProof P 1 0)

def texts (P Q old new : Params PyFloat) : List Bytes :=
  [padText, sharedText P, sharedText Q, expertText P, expertText Q, expertText old, expertText new]

def nodes (P Q old new : Params PyFloat) : List Bytes :=
  joined (Merkle.inner toyHashing.hpair (toyHashing.padPow2 (leaves P)))
    ++ joined (Merkle.inner toyHashing.hpair (toyHashing.padPow2 (leaves Q)))
    ++ joined (Merkle.pathPairs toyHashing.hpair (toyHashing.digest (expertText old))
      ((decodeProof (proof P)).getD []))
    ++ joined (Merkle.pathPairs toyHashing.hpair (toyHashing.digest (expertText new))
      ((decodeProof (proof P)).getD []))

theorem leafTexts_subset {P : Params PyFloat} {t : Bytes} (ht : t ∈ toyHashing.leafTexts P 1) :
    t ∈ [padText, sharedText P, expertText P] := by
  rcases ht with rfl | ht | ⟨e, he, ht⟩
  · exact List.mem_cons_self
  · rw [sharedText, okOr_of_eq_ok ht]
    simp
  · rw [Nat.lt_one_iff.mp he] at ht
    rw [expertText, okOr_of_eq_ok ht]
    simp

/-- Separation of the strings of a transition, from a check of the finite lists. -/
theorem separated {P Q old new : Params PyFloat}
    (hcf : ∀ a ∈ texts P Q old new ++ nodes P Q old new,
      ∀ b ∈ texts P Q old new ++ nodes P Q old new, toyHashing.digest a = toyHashing.digest b → a = b)
    (hdisj : ∀ a ∈ texts P Q old new, a ∉ nodes P Q old new) :
    toyHashing.Separated (toyHashing.transitionTexts P Q old new 1 0)
      (toyHashing.transitionNodes P Q old new 1 0 (proof P)) := by
  have htexts : toyHashing.transitionTexts P Q old new 1 0 ⊆ {t | t ∈ texts P Q old new} := by
    rintro t (ht | ht | ⟨_, rfl | rfl, ht⟩)
    · have := leafTexts_subset ht
      simp only [texts, Set.mem_ofPred_eq, List.mem_cons, List.not_mem_nil, or_false] at this ⊢
      tauto
    · have := leafTexts_subset ht
      simp only [texts, Set.mem_ofPred_eq, List.mem_cons, List.not_mem_nil, or_false] at this ⊢
      tauto
    · rw [← okOr_of_eq_ok (b := []) ht]
      simp [texts, expertText]
    · rw [← okOr_of_eq_ok (b := []) ht]
      simp [texts, expertText]
  have hnodes : toyHashing.transitionNodes P Q old new 1 0 (proof P)
      ⊆ {t | t ∈ nodes P Q old new} := by
    rintro t (⟨_, rfl | rfl, ls, hls, ht⟩ | ⟨_, rfl | rfl, leaf, p, hleaf, hp, ht⟩)
    · refine toyHashing.treeStrings_subset (fun b hb => ?_) ht
      rw [← okOr_of_eq_ok (b := []) hls] at hb
      simp only [nodes, leaves, List.mem_append, hb, true_or]
    · refine toyHashing.treeStrings_subset (fun b hb => ?_) ht
      rw [← okOr_of_eq_ok (b := []) hls] at hb
      simp only [nodes, leaves, List.mem_append, hb, true_or, or_true]
    · refine toyHashing.pathStrings_subset (fun b hb => ?_) ht
      obtain ⟨text, htext, rfl⟩ := toyHashing.groupLeaf_eq_ok.mp hleaf
      rw [← okOr_of_eq_ok (b := []) htext] at hb
      simp only [nodes, expertText, hp, Option.getD_some, List.mem_append, hb, true_or, or_true]
    · refine toyHashing.pathStrings_subset (fun b hb => ?_) ht
      obtain ⟨text, htext, rfl⟩ := toyHashing.groupLeaf_eq_ok.mp hleaf
      rw [← okOr_of_eq_ok (b := []) htext] at hb
      simp only [nodes, expertText, hp, Option.getD_some, List.mem_append, hb, or_true]
  constructor
  · intro a ha b hb
    refine hcf a (List.mem_append.mpr (ha.imp (htexts ·) (hnodes ·))) b
      (List.mem_append.mpr (hb.imp (htexts ·) (hnodes ·)))
  · exact Set.disjoint_left.mpr fun a ha hb => hdisj a (htexts ha) (hnodes hb)

/-- The number with the bytes `W2_0` at its end, and the one with them at its start. -/
def suffixed : ℤ := 0x57325F30
def prefixed : ℤ := 0x57325F3000000000

theorem full_params (first last : List ℤ) : Full (params first last) 1 := by
  have hkeys : ∀ k ∈ sharedKeys ++ expertKeys 0,
      k ∈ ["Emb", "Wr", "br", "Wo", "bo", "W1_0", "b1_0", "W2_0", "b2_0"] := by decide
  have hholds : ∀ k ∈ sharedKeys ++ expertKeys 0, ∃ t, (params first last).get? k = some t := by
    intro k hk
    apply Option.ne_none_iff_exists'.mp
    rw [params, Dict.get?_ofList, Ne, Dict.lookup_eq_none_iff, not_not, List.map_reverse,
      List.mem_reverse]
    exact hkeys k hk
  refine ⟨fun k hk => hholds k (List.mem_append_left _ hk), fun e he k hk => ?_⟩
  rw [Nat.lt_one_iff.mp he] at hk
  exact hholds k (List.mem_append_right _ hk)

/-- A full parameter set of many experts. -/
def crowd (n : ℕ) : Params PyFloat :=
  Dict.ofList ((sharedKeys ++ (List.range n).flatMap expertKeys).map (fun k => (k, row [0])))

theorem full_crowd (n : ℕ) : Full (crowd n) n := by
  have hholds : ∀ k ∈ sharedKeys ++ (List.range n).flatMap expertKeys,
      ∃ t, (crowd n).get? k = some t := by
    intro k hk
    apply Option.ne_none_iff_exists'.mp
    rw [crowd, Dict.get?_ofList, Ne, Dict.lookup_eq_none_iff, not_not, List.map_reverse,
      List.mem_reverse, List.map_map]
    exact List.mem_map.mpr ⟨k, hk, rfl⟩
  refine ⟨fun k hk => hholds k (List.mem_append_left _ hk), fun e he k hk => ?_⟩
  exact hholds k (List.mem_append_right _
    (List.mem_flatMap.mpr ⟨e, List.mem_range.mpr he, hk⟩))

/-- **A path above the cap is refused; and arrays of other sizes can have the text of an
expert**: the element that ends in the bytes of `W2_0` moves into the array before the key. -/
theorem not_every_transition_exact :
    (¬ ∀ (H : Hashing PyFloat) (P P' : Params PyFloat) (n e : ℕ), Full P n → Full P' n →
        DifferIn e P P' → e < n →
        ∃ root root' proof, H.checkpointRoot P n = .ok root ∧ H.checkpointRoot P' n = .ok root'
          ∧ H.checkpointProof P n e = .ok proof
          ∧ H.verifyExpertTransition (.str root) (.str root') e P P' proof = .ok (.ok ()))
    ∧ ¬ ∀ (H : Hashing PyFloat) (P Q old new : Params PyFloat) (n e : ℕ) (proof : Json)
        (root root' : String), Full P n → Full Q n → e < n → H.checkpointRoot P n = .ok root →
        H.checkpointRoot Q n = .ok root' →
        H.Separated (H.transitionTexts P Q old new n e) (H.transitionNodes P Q old new n e proof) →
        H.verifyExpertTransition (.str root) (.str root') e old new proof = .ok (.ok ()) →
        SameOn old P (expertKeys e) := by
  constructor
  · intro hclaim
    obtain ⟨root, root', proof, -, -, hproof, hok⟩ := hclaim toyHashing (crowd (2 ^ 64))
      (crowd (2 ^ 64)) (2 ^ 64) 0 (full_crowd _) (full_crowd _) (fun _ _ => rfl) (by norm_num)
    rw [toyHashing.transition_refused (full_crowd _) (by norm_num) le_rfl hproof] at hok
    cases hok
  · intro hclaim
    have hsame := hclaim toyHashing (params [0] [suffixed]) (params [0] [suffixed])
      (params [0, prefixed] []) (params [0, prefixed] []) 1 0 (proof (params [0] [suffixed]))
      (root (params [0] [suffixed])) (root (params [0] [suffixed])) (full_params _ _)
      (full_params _ _) Nat.one_pos (by decide +kernel) (by decide +kernel)
      (separated (by decide +kernel) (by decide +kernel)) (by decide +kernel)
    have hfirst := congrArg (Option.map Tensor.size) (hsame "W1_0" (by decide))
    exact absurd hfirst (by decide +kernel)

/-- One expert is trained. -/
theorem expertTransition_exact_oneExpert :
    (∃ root root' proof, toyHashing.checkpointRoot (params [0] [1]) 1 = .ok root
      ∧ toyHashing.checkpointRoot (params [0] [2]) 1 = .ok root'
      ∧ toyHashing.checkpointProof (params [0] [1]) 1 0 = .ok proof
      ∧ toyHashing.verifyExpertTransition (.str root) (.str root') 0 (params [0] [1])
        (params [0] [2]) proof = .ok (.ok ()))
    ∧ toyHashing.Agrees (params [0] [1]) (params [0] [1]) 0
    ∧ toyHashing.Agrees (params [0] [2]) (params [0] [2]) 0
    ∧ ∃ leaves leaves', toyHashing.realGroupLeaves (params [0] [1]) 1 = .ok leaves
      ∧ toyHashing.realGroupLeaves (params [0] [2]) 1 = .ok leaves'
      ∧ ∀ k ≠ 0 + 1, leaves[k]? = leaves'[k]? := by
  have hdiffer : DifferIn 0 (params [0] [1]) (params [0] [2]) := by
    intro k hk
    have hkey : ∀ c ∈ ["W1_0", "b1_0", "W2_0", "b2_0"], k ≠ c := fun c hc hkc => hk (hkc ▸ hc)
    simp only [params, Dict.get?_ofList, List.reverse_cons, List.reverse_nil, List.nil_append,
      List.cons_append, Dict.lookup]
    simp only [(hkey "b2_0" (by decide)).symm, (hkey "W2_0" (by decide)).symm,
      (hkey "b1_0" (by decide)).symm, (hkey "W1_0" (by decide)).symm, if_false]
  have hexact := toyHashing.expertTransition_exact (params [0] [1]) 1 0 (full_params _ _)
    Nat.one_pos
  refine ⟨hexact.1 _ (full_params _ _) hdiffer (by norm_num), ?_⟩
  exact hexact.2 (params [0] [2]) (params [0] [1]) (params [0] [2]) (proof (params [0] [1]))
    (root (params [0] [1])) (root (params [0] [2])) (by decide +kernel) (by decide +kernel)
    (separated (by decide +kernel) (by decide +kernel)) (by decide +kernel)

end OneExpert

end NeuraHash
