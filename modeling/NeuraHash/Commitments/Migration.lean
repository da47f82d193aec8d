import NeuraHash.Commitments.Growth
import NeuraHash.Commitments.Transition

/-!
# The boundary of an expert growth (`neura_l1/expert_sharding.py`)

A verifier that holds the shared group and the new experts checks the root after a growth with the
published list of the old leaves: the list must have the old root, and the new root is that of the
list with its own shared leaf in front and the new leaves behind.
-/

namespace NeuraHash

open Py

namespace Hashing

variable {α : Type} (H : Hashing α)

/-! ## The verifier -/

/-- `group_leaves_hex(params, n_experts)`. -/
def groupLeavesHex (params : Params α) (n : ℕ) : Except PyErr (List String) := do
  return (← H.realGroupLeaves params n).map hex

/-- Why `verify_migration_root` returns `False`. -/
inductive MigrationReason where
  /-- `migration_leaves count {found} != old group count {expected}`, with `?` for no length -/
  | count (found : Option ℕ) (expected : ℕ)
  /-- `malformed migration_leaves (each leaf must be 32-byte hex)` -/
  | malformedLeaf
  /-- `malformed migration_leaves` -/
  | malformed
  /-- `migration_leaves do not match parent checkpoint (not authentic)` -/
  | notAuthentic
  /-- `migrated params missing group for {key}` -/
  | missingGroup (key : Option String)
  /-- `derived migrated root != header parent_checkpoint` -/
  | newRoot
  deriving DecidableEq

/-- The loop that reads the published leaves. -/
def decodeLeaves : List Json → Except MigrationReason (List Bytes)
  | [] => .ok []
  | .str x :: xs =>
    if x.length = 64 then
      match fromHex x with
      | some b => do return b :: (← decodeLeaves xs)
      | none => .error .malformed
    else .error .malformedLeaf
  | _ :: _ => .error .malformedLeaf

/-- The leaves a verifier computes itself: the shared group and the new experts. -/
def ownLeaves (migrated : Params α) (oldN newN : ℕ) : Except PyErr (Bytes × List Bytes) := do
  let shared ← H.groupLeaf migrated sharedKeys "shared"
  let experts ← (List.range' oldN (newN - oldN)).mapM (H.expertLeaf migrated)
  return (shared, experts)

/-- The key of the `KeyError` that reading those groups raises. -/
def firstMissing (migrated : Params α) (oldN newN : ℕ) : Option String :=
  ((sharedKeys :: (List.range' oldN (newN - oldN)).map expertKeys).flatMap
    (·.insertionSort (· ≤ ·))).find? (fun k => !migrated.contains k)

/-- `verify_migration_root(parent_root, new_root, old_leaves_hex, migrated_params, old_n, new_n)`. -/
def verifyMigrationRoot (parentRoot newRoot oldLeavesHex : Json) (migrated : Params α)
    (oldN newN : ℕ) : Except PyErr (Except MigrationReason Unit) :=
  match oldLeavesHex with
  | .arr xs =>
    if xs.length ≠ oldN + 1 then .ok (.error (.count (some xs.length) (oldN + 1)))
    else match decodeLeaves xs with
      | .error reason => .ok (.error reason)
      | .ok oldLeaves =>
        if !Json.pyEq parentRoot (.str (hex (H.merkleRoot (H.padPow2 oldLeaves)))) then
          .ok (.error .notAuthentic)
        else match H.ownLeaves migrated oldN newN with
          | .error .keyError => .ok (.error (.missingGroup (firstMissing migrated oldN newN)))
          | .error err => .error err
          | .ok (shared, experts) =>
            if !Json.pyEq newRoot (.str (hex (H.merkleRoot
                (H.padPow2 (shared :: oldLeaves.drop 1 ++ experts))))) then
              .ok (.error .newRoot)
            else .ok (.ok ())
  | j => .ok (.error (.count j.len.toOption (oldN + 1)))

/-- **What an accepted migration is.** -/
theorem verifyMigrationRoot_ok {parentRoot newRoot published : Json} {migrated : Params α}
    {oldN newN : ℕ} :
    H.verifyMigrationRoot parentRoot newRoot published migrated oldN newN = .ok (.ok ()) ↔
      ∃ xs oldLeaves shared experts, published = .arr xs ∧ xs.length = oldN + 1
        ∧ decodeLeaves xs = .ok oldLeaves
        ∧ parentRoot = .str (hex (H.merkleRoot (H.padPow2 oldLeaves)))
        ∧ H.ownLeaves migrated oldN newN = .ok (shared, experts)
        ∧ newRoot = .str (hex (H.merkleRoot
          (H.padPow2 (shared :: oldLeaves.drop 1 ++ experts)))) := by
  constructor
  · intro h
    cases published with
    | arr xs =>
      unfold verifyMigrationRoot at h
      dsimp only at h
      by_cases hlen : xs.length = oldN + 1
      swap
      · rw [if_pos hlen] at h
        cases h
      rw [if_neg (not_not.mpr hlen)] at h
      cases hold : decodeLeaves xs with
      | error reason =>
        rw [hold] at h
        cases h
      | ok oldLeaves =>
        rw [hold] at h
        dsimp only at h
        cases hparent : Json.pyEq parentRoot (.str (hex (H.merkleRoot (H.padPow2 oldLeaves)))) with
        | false =>
          rw [hparent] at h
          cases h
        | true =>
          simp only [hparent, Bool.not_true, Bool.false_eq_true, if_false] at h
          cases hown : H.ownLeaves migrated oldN newN with
          | error err =>
            rw [hown] at h
            cases err <;> cases h
          | ok own =>
            obtain ⟨shared, experts⟩ := own
            rw [hown] at h
            dsimp only at h
            cases hnew : Json.pyEq newRoot (.str (hex (H.merkleRoot
                (H.padPow2 (shared :: oldLeaves.drop 1 ++ experts))))) with
            | false =>
              rw [hnew] at h
              cases h
            | true =>
              exact ⟨xs, oldLeaves, shared, experts, rfl, hlen, hold,
                Json.pyEq_str_right.mp hparent, rfl, Json.pyEq_str_right.mp hnew⟩
    | _ => cases h
  · rintro ⟨xs, oldLeaves, shared, experts, rfl, hlen, hold, rfl, hown, rfl⟩
    unfold verifyMigrationRoot
    dsimp only
    rw [if_neg (not_not.mpr hlen), hold]
    simp [hown, Json.pyEq]

/-! ## The published list -/

/-- The list is these leaves, each as a text of 64 hexadecimal digits. -/
def Publishes (xs : List Json) (leaves : List Bytes) : Prop :=
  List.Forall₂ (fun x leaf => ∃ s : String, x = .str s ∧ s.length = 64 ∧ fromHex s = some leaf)
    xs leaves

theorem decodeLeaves_eq_ok {xs : List Json} {leaves : List Bytes} :
    decodeLeaves xs = .ok leaves ↔ Publishes xs leaves := by
  induction xs generalizing leaves with
  | nil =>
    constructor
    · intro h
      cases h
      exact .nil
    · intro h
      cases h
      rfl
  | cons x xs ih =>
    constructor
    · intro h
      cases x with
      | str s =>
        rw [decodeLeaves] at h
        split at h
        · next hlen =>
          cases hs : fromHex s with
          | none =>
            rw [hs] at h
            cases h
          | some b =>
            rw [hs] at h
            obtain ⟨tail, htail, h⟩ := bind_eq_ok.mp h
            cases h
            exact .cons ⟨s, rfl, hlen, hs⟩ (ih.mp htail)
        · cases h
      | _ => cases h
    · rintro (_ | ⟨⟨s, rfl, hlen, hs⟩, htail⟩)
      rw [decodeLeaves, if_pos hlen, hs]
      show (decodeLeaves xs >>= _) = _
      rw [ih.mpr htail]
      rfl

/-- Two digits make a byte, and blanks none. -/
theorem length_of_fromHexChars {cs : List Char} {b : Bytes} (h : fromHexChars cs = some b) :
    2 * b.length ≤ cs.length := by
  fun_induction fromHexChars cs generalizing b with
  | case1 =>
    cases h
    exact le_rfl
  | case2 c _ =>
    cases h
    exact Nat.zero_le _
  | case3 c _ => cases h
  | case4 c d t _ ih =>
    have := ih h
    rw [List.length_cons]
    omega
  | case5 c d t _ hi lo bs hhi hlo hbs ih =>
    cases h
    have := ih (by assumption)
    simp only [List.length_cons]
    omega
  | case6 => cases h

theorem length_of_publishes {xs : List Json} {leaves : List Bytes} (h : Publishes xs leaves) :
    leaves.length = xs.length ∧ ∀ a ∈ leaves, a.length ≤ 32 := by
  refine ⟨h.length_eq.symm, fun a ha => ?_⟩
  obtain ⟨x, _, s, _, hlen, hs⟩ := exists_left_of_forall₂ h ha
  have := length_of_fromHexChars hs
  rw [String.length_toList] at this
  omega

theorem publishes_hex {leaves : List Bytes} (hwide : ∀ a ∈ leaves, a.length = 32) :
    Publishes ((leaves.map hex).map .str) leaves := by
  induction leaves with
  | nil => exact .nil
  | cons a leaves ih =>
    have hlen : (hex a).length = 64 := by rw [length_hex, hwide a List.mem_cons_self]
    exact .cons ⟨hex a, rfl, hlen, fromHex_hex a⟩
      (ih fun c hc => hwide c (List.mem_cons_of_mem a hc))

/-! ## Completeness -/

/-- A partial view of the migrated parameters: the shared group and the new experts. -/
structure ViewOf (view migrated : Params α) (oldN newN : ℕ) : Prop where
  agrees : ∀ k t, view.get? k = some t → migrated.get? k = some t
  shared : Holds view sharedKeys
  experts : ∀ e, oldN ≤ e → e < newN → Holds view (expertKeys e)

theorem ViewOf.sameOn {view migrated : Params α} {oldN newN : ℕ}
    (h : ViewOf view migrated oldN newN) {keys : List String} (hkeys : Holds view keys) :
    SameOn view migrated keys := by
  intro k hk
  obtain ⟨t, ht⟩ := hkeys k hk
  rw [ht, h.agrees k t ht]

theorem realGroupLeaves_iff {params : Params α} {n : ℕ} {leaves : List Bytes} :
    H.realGroupLeaves params n = .ok leaves ↔ ∃ shared experts,
      H.groupLeaf params sharedKeys "shared" = .ok shared
        ∧ (List.range n).mapM (H.expertLeaf params) = .ok experts ∧ leaves = shared :: experts := by
  constructor
  · intro h
    obtain ⟨shared, hshared, h⟩ := bind_eq_ok.mp h
    obtain ⟨experts, hexperts, h⟩ := bind_eq_ok.mp h
    cases h
    exact ⟨shared, experts, hshared, hexperts, rfl⟩
  · rintro ⟨shared, experts, hshared, hexperts, rfl⟩
    unfold realGroupLeaves
    rw [hshared, ok_bind, hexperts]
    rfl

/-- A traversal of two lists in a row. -/
theorem mapM_append_eq_ok {β γ ε : Type} {f : β → Except ε γ} {xs ys : List β} {us vs : List γ}
    (hx : xs.mapM f = .ok us) (hy : ys.mapM f = .ok vs) : (xs ++ ys).mapM f = .ok (us ++ vs) := by
  rw [List.mapM_append, hx, ok_bind, hy]
  rfl

variable [Inhabited α]

/-- The leaves after a growth: the router is in the first one, the old experts' are unchanged. -/
theorem realGroupLeaves_grown {G : Generator α} {P M V : Params α} {oldN newN : ℕ}
    {dims : Option (ℕ × ℕ)} (hP : Full P oldN) (hle : oldN ≤ newN)
    (hgrow : growExperts G P oldN newN dims = .ok M) (hview : ViewOf V M oldN newN) :
    ∃ leaves shared experts, H.realGroupLeaves P oldN = .ok leaves
      ∧ H.ownLeaves V oldN newN = .ok (shared, experts)
      ∧ H.realGroupLeaves M newN = .ok (shared :: leaves.drop 1 ++ experts) := by
  obtain ⟨h, d, hgrown⟩ := grownBy_of_growExperts hle hgrow
  obtain ⟨leaves, hleaves⟩ := H.exists_realGroupLeaves hP
  obtain ⟨oldShared, oldExperts, -, hold, rfl⟩ := H.realGroupLeaves_iff.mp hleaves
  obtain ⟨shared, hshared⟩ := H.exists_groupLeaf "shared" hview.shared
  have hnew : ∀ e ∈ List.range' oldN (newN - oldN), Holds V (expertKeys e) := by
    intro e he
    obtain ⟨hge, hlt⟩ := List.mem_range'_1.mp he
    exact hview.experts e hge (by omega)
  obtain ⟨experts, hexperts⟩ := exists_mapM_eq_ok.mpr fun e he =>
    H.exists_groupLeaf (expertName e) (hnew e he)
  refine ⟨_, shared, experts, hleaves, ?_, ?_⟩
  · unfold ownLeaves
    rw [hshared, ok_bind]
    exact congrArg (· >>= fun experts => pure (shared, experts)) hexperts
  -- the leaves of the grown parameters, group by group
  have hsharedM : H.groupLeaf M sharedKeys "shared" = .ok shared := by
    rw [← H.groupLeaf_congr _ (hview.sameOn hview.shared), hshared]
  have holdM : (List.range oldN).mapM (H.expertLeaf M) = .ok oldExperts := by
    rw [← hold]
    refine mapM_congr_map (List.map_congr_left fun e he => ?_)
    refine H.groupLeaf_congr _ fun k hk => hgrown.frame k ?_ ?_ ?_
    · intro e' he' hk'
      have hsame := expertKeys_disjoint hk hk'
      have hge := (List.mem_range'_1.mp he').1
      have hlt := List.mem_range.mp he
      omega
    · rintro rfl
      exact sharedKeys_disjoint (by decide) hk
    · rintro rfl
      exact sharedKeys_disjoint (by decide) hk
  have hnewM : (List.range' oldN (newN - oldN)).mapM (H.expertLeaf M) = .ok experts := by
    rw [← hexperts]
    refine mapM_congr_map (List.map_congr_left fun e he => ?_)
    exact (H.groupLeaf_congr _ (hview.sameOn (hnew e he))).symm
  have hrange : List.range newN = List.range oldN ++ List.range' oldN (newN - oldN) := by
    rw [List.range_eq_range', List.range_eq_range', show newN = oldN + (newN - oldN) by omega,
      ← List.range'_append_1, Nat.zero_add, Nat.add_sub_cancel_left]
  refine H.realGroupLeaves_iff.mpr ⟨shared, oldExperts ++ experts, hsharedM, ?_, rfl⟩
  rw [hrange]
  exact mapM_append_eq_ok holdM hnewM

/-- **The honest boundary of a growth is accepted**, whatever else the view holds. -/
theorem migration_complete {G : Generator α} {P M V : Params α} {oldN newN : ℕ}
    {dims : Option (ℕ × ℕ)} (hP : Full P oldN) (hle : oldN ≤ newN)
    (hgrow : growExperts G P oldN newN dims = .ok M) (hview : ViewOf V M oldN newN) :
    ∃ root root' texts, H.checkpointRoot P oldN = .ok root ∧ H.checkpointRoot M newN = .ok root'
      ∧ H.groupLeavesHex P oldN = .ok texts
      ∧ H.verifyMigrationRoot (.str root) (.str root') (.arr (texts.map .str)) V oldN newN
        = .ok (.ok ()) := by
  obtain ⟨leaves, shared, experts, hleaves, hown, hM⟩ :=
    H.realGroupLeaves_grown hP hle hgrow hview
  have hwide : ∀ a ∈ leaves, a.length = 32 :=
    fun a ha => H.length_of_mem_padPow2 hleaves a (List.mem_append_left _ ha)
  have hlen := (H.realGroupLeaves_eq_ok hleaves).1
  refine ⟨_, _, leaves.map hex, H.checkpointRoot_eq_ok.mpr ⟨_, hleaves, rfl⟩,
    H.checkpointRoot_eq_ok.mpr ⟨_, hM, rfl⟩, ?_, ?_⟩
  · unfold groupLeavesHex
    rw [hleaves]
    rfl
  · apply H.verifyMigrationRoot_ok.mpr
    exact ⟨_, leaves, shared, experts, rfl, by rw [List.length_map, List.length_map, hlen],
      decodeLeaves_eq_ok.mpr (publishes_hex hwide), rfl, hown, rfl⟩

/-! ## Soundness -/

/-- The strings hashed for the inner nodes of the old tree and of the tree over the list. -/
def migrationNodes (P : Params α) (oldN : ℕ) (published : Json) : Set Bytes :=
  {b | (∃ leaves, H.realGroupLeaves P oldN = .ok leaves
        ∧ b ∈ H.treeStrings (H.padPow2 leaves))
    ∨ ∃ xs leaves, published = .arr xs ∧ decodeLeaves xs = .ok leaves
        ∧ b ∈ H.treeStrings (H.padPow2 leaves)}

omit [Inhabited α] in
/-- Padding tells equally long lists apart. -/
theorem padPow2_inj {l l' : List Bytes} (hlen : l.length = l'.length)
    (h : H.padPow2 l = H.padPow2 l') : l = l' :=
  List.append_inj_left h hlen

omit [Inhabited α] in
/-- **A list that has the old root is the list of the old leaves.** -/
theorem migration_sound {P V : Params α} {oldN newN : ℕ} {root : String} {newRoot published : Json}
    (hroot : H.checkpointRoot P oldN = .ok root)
    (hcf : H.NoCollision (H.migrationNodes P oldN published))
    (hok : H.verifyMigrationRoot (.str root) newRoot published V oldN newN = .ok (.ok ())) :
    ∃ xs leaves shared experts, published = .arr xs ∧ H.realGroupLeaves P oldN = .ok leaves
      ∧ Publishes xs leaves ∧ H.ownLeaves V oldN newN = .ok (shared, experts)
      ∧ newRoot = .str (hex (H.merkleRoot (H.padPow2 (shared :: leaves.drop 1 ++ experts)))) := by
  obtain ⟨leaves, hleaves, rfl⟩ := H.checkpointRoot_eq_ok.mp hroot
  obtain ⟨xs, oldLeaves, shared, experts, rfl, hlen, hdecode, hparent, hown, hnew⟩ :=
    H.verifyMigrationRoot_ok.mp hok
  have hpublishes := decodeLeaves_eq_ok.mp hdecode
  obtain ⟨hcount, hshort⟩ := length_of_publishes hpublishes
  have hlen' := (H.realGroupLeaves_eq_ok hleaves).1
  have hsame : oldLeaves.length = leaves.length := by omega
  have hroots : H.merkleRoot (H.padPow2 oldLeaves) = H.merkleRoot (H.padPow2 leaves) :=
    (hex_injective (Json.str.inj hparent)).symm
  have hpadded : ∀ a ∈ H.padPow2 oldLeaves, a.length ≤ 32 := by
    intro a ha
    rcases List.mem_append.mp ha with ha | ha
    · exact hshort a ha
    · rw [List.eq_of_mem_replicate ha]
      exact (H.length_digest _).le
  have hbind : Merkle.Binding H.hpair (Merkle.inner H.hpair (H.padPow2 oldLeaves))
      (Merkle.inner H.hpair (H.padPow2 leaves)) :=
    H.binding_tree hpadded (H.length_of_mem_padPow2 hleaves) hcf
      (fun b hb => Or.inr ⟨xs, oldLeaves, rfl, hdecode, hb⟩)
      (fun b hb => Or.inl ⟨leaves, hleaves, hb⟩)
  have htrees := Merkle.root_inj (H.length_padPow2_congr hsame) hbind hroots
  obtain rfl := H.padPow2_inj hsame htrees
  exact ⟨xs, oldLeaves, shared, experts, rfl, hleaves, hpublishes, hown, hnew⟩

/-! ## Migration roots are exact -/

/-- **Migration roots are exact**: growth returns, the honest boundary is accepted for every view,
what is accepted carries the old leaves and derives the new root, and two growths are one. -/
theorem migration_exact (G : Generator α) (P : Params α) (oldN newN : ℕ) (dims : Option (ℕ × ℕ))
    (hP : Full P oldN) (hle : oldN ≤ newN) :
    (∀ din, RouterShaped din P → (∃ hd, expertDims P dims = .ok hd) →
      ∃ M, growExperts G P oldN newN dims = .ok M)
    ∧ (∀ M V, growExperts G P oldN newN dims = .ok M → ViewOf V M oldN newN →
      ∃ root root' texts, H.checkpointRoot P oldN = .ok root ∧ H.checkpointRoot M newN = .ok root'
        ∧ H.groupLeavesHex P oldN = .ok texts
        ∧ H.verifyMigrationRoot (.str root) (.str root') (.arr (texts.map .str)) V oldN newN
          = .ok (.ok ()))
    ∧ (∀ V root newRoot published, H.checkpointRoot P oldN = .ok root →
      H.NoCollision (H.migrationNodes P oldN published) →
      H.verifyMigrationRoot (.str root) newRoot published V oldN newN = .ok (.ok ()) →
      ∃ xs leaves shared oldExperts newExperts, published = .arr xs
        ∧ H.realGroupLeaves P oldN = .ok leaves ∧ Publishes xs leaves
        ∧ H.groupLeaf V sharedKeys "shared" = .ok shared
        ∧ (List.range oldN).mapM (H.expertLeaf P) = .ok oldExperts
        ∧ (List.range' oldN (newN - oldN)).mapM (H.expertLeaf V) = .ok newExperts
        ∧ newRoot = .str (hex (H.merkleRoot
          (H.padPow2 (shared :: oldExperts ++ newExperts)))))
    ∧ ∀ mid, oldN ≤ mid → mid ≤ newN →
      (growExperts G P oldN mid dims >>= fun M => growExperts G M mid newN dims)
        = growExperts G P oldN newN dims := by
  refine ⟨?_, ?_, ?_, ?_⟩
  · intro din hshaped hdims
    exact growExperts_total G hle hshaped hdims
  · intro M V hgrow hview
    exact H.migration_complete hP hle hgrow hview
  · intro V root newRoot published hroot hcf hok
    obtain ⟨xs, leaves, shared, newExperts, hxs, hleaves, hpublishes, hown, hnew⟩ :=
      H.migration_sound hroot hcf hok
    obtain ⟨oldShared, oldExperts, -, hold, rfl⟩ := H.realGroupLeaves_iff.mp hleaves
    obtain ⟨shared', hshared, hown⟩ := bind_eq_ok.mp hown
    obtain ⟨newExperts', hexperts, hown⟩ := bind_eq_ok.mp hown
    cases hown
    exact ⟨xs, _, shared, oldExperts, newExperts, hxs, hleaves, hpublishes, hshared, hold,
      hexperts, hnew⟩
  · intro mid hmid hnew
    exact growExperts_split P hmid hnew dims

end Hashing

/-! ## From one expert to two -/

namespace OneExpert

open Hashing

/-- A generator that counts its draws. -/
def toyGenerator : Generator PyFloat where
  State := ℕ
  seeded := id
  normal s _ shape := (⟨shape, List.replicate shape.prod (.fin s), List.length_replicate⟩, s + 1)
  shape_normal _ _ _ := rfl
  zero := .fin 0

def square (n : ℤ) : Tensor PyFloat := ⟨[1, 1], [.fin n], rfl⟩

/-- One expert with the shapes of a model. -/
def shaped : Params PyFloat :=
  Dict.ofList [("Emb", square 0), ("Wr", square 0), ("br", row [0]), ("Wo", square 0),
    ("bo", row [0]), ("W1_0", square 1), ("b1_0", row [0]), ("W2_0", square 1), ("b2_0", row [0])]

theorem full_shaped : Full shaped 1 := by
  have hholds : ∀ k ∈ sharedKeys ++ expertKeys 0, (shaped.get? k).isSome = true := by decide
  refine ⟨fun k hk => Option.isSome_iff_exists.mp (hholds k (List.mem_append_left _ hk)),
    fun e he k hk => ?_⟩
  rw [Nat.lt_one_iff.mp he] at hk
  exact Option.isSome_iff_exists.mp (hholds k (List.mem_append_right _ hk))

theorem noCollision_shaped {texts : List String}
    (htexts : toyHashing.groupLeavesHex shaped 1 = .ok texts) :
    toyHashing.NoCollision (toyHashing.migrationNodes shaped 1 (.arr (texts.map .str))) := by
  obtain ⟨ls, hls, htexts⟩ := bind_eq_ok.mp htexts
  cases htexts
  have hleaves : ls = leaves shaped := (okOr_of_eq_ok hls).symm
  have hwide : ∀ a ∈ ls, a.length = 32 :=
    fun a ha => toyHashing.length_of_mem_padPow2 hls a (List.mem_append_left _ ha)
  have hsub : toyHashing.migrationNodes shaped 1 (.arr ((ls.map hex).map .str))
      ⊆ {b | b ∈ joined (Merkle.inner toyHashing.hpair (toyHashing.padPow2 (leaves shaped)))} := by
    rintro b (⟨ls', hls', hb⟩ | ⟨xs, ls', hxs, hls', hb⟩)
    · rw [hls] at hls'
      cases hls'
      exact toyHashing.treeStrings_subset (fun b hb => hleaves ▸ hb) hb
    · cases hxs
      rw [decodeLeaves_eq_ok.mpr (publishes_hex hwide)] at hls'
      cases hls'
      exact toyHashing.treeStrings_subset (fun b hb => hleaves ▸ hb) hb
  have hcf : ∀ a ∈ joined (Merkle.inner toyHashing.hpair (toyHashing.padPow2 (leaves shaped))),
      ∀ b ∈ joined (Merkle.inner toyHashing.hpair (toyHashing.padPow2 (leaves shaped))),
        toyHashing.digest a = toyHashing.digest b → a = b := by decide +kernel
  exact fun a ha b hb => hcf a (hsub ha) b (hsub hb)

/-- A second expert is added. -/
theorem migration_exact_oneExpert :
    ∃ (M : Params PyFloat) (root root' : String) (texts : List String),
      growExperts toyGenerator shaped 1 2 none = .ok M
      ∧ toyHashing.verifyMigrationRoot (.str root) (.str root') (.arr (texts.map .str)) M 1 2
        = .ok (.ok ())
      ∧ (∃ xs leaves shared oldExperts newExperts, Json.arr (texts.map .str) = .arr xs
        ∧ toyHashing.realGroupLeaves shaped 1 = .ok leaves ∧ Publishes xs leaves
        ∧ toyHashing.groupLeaf M sharedKeys "shared" = .ok shared
        ∧ (List.range 1).mapM (toyHashing.expertLeaf shaped) = .ok oldExperts
        ∧ (List.range' 1 (2 - 1)).mapM (toyHashing.expertLeaf M) = .ok newExperts
        ∧ Json.str root' = .str (hex (toyHashing.merkleRoot
          (toyHashing.padPow2 (shared :: oldExperts ++ newExperts)))))
      ∧ (growExperts toyGenerator shaped 1 1 none >>= fun M => growExperts toyGenerator M 1 2 none)
        = growExperts toyGenerator shaped 1 2 none := by
  obtain ⟨hgrow, hcomplete, hsound, hsplit⟩ :=
    toyHashing.migration_exact toyGenerator shaped 1 2 none full_shaped one_le_two
  have hrouter : RouterShaped 1 shaped :=
    ⟨⟨square 0, 1, by simp [shaped, Dict.get?_ofList, Dict.lookup], rfl⟩,
      ⟨row [0], 1, by simp [shaped, Dict.get?_ofList, Dict.lookup], rfl⟩⟩
  obtain ⟨M, hM⟩ := hgrow 1 hrouter ⟨(1, 1), by decide⟩
  obtain ⟨h, d, hgrown⟩ := grownBy_of_growExperts one_le_two hM
  have hview : ViewOf M M 1 2 := by
    refine ⟨fun _ _ hk => hk, fun k hk => hgrown.keeps k (full_shaped.1 k hk), fun e hge hlt => ?_⟩
    exact hgrown.holds e (List.mem_range'_1.mpr ⟨hge, by omega⟩)
  obtain ⟨root, root', texts, hroot, -, htexts, hok⟩ := hcomplete M M hM hview
  exact ⟨M, root, root', texts, hM, hok,
    hsound M root _ _ hroot (noCollision_shaped htexts) hok, hsplit 1 le_rfl one_le_two⟩

end OneExpert

end NeuraHash
