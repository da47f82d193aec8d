import NeuraHash.Commitments.Hashing

/-!
# Checkpoints of expert groups (`neura_l1/expert_sharding.py`)

A checkpoint is the Merkle root over one leaf for the shared parameters and one for each expert,
padded to a power of two with a fixed leaf. A leaf is the digest of the group's text: its name,
then each key in order with the bytes of its array.

`expertText_inj` and its neighbours tell the texts of different groups apart, so a leaf
belongs to one group only.
-/

namespace NeuraHash

open Py

/-! ## Group leaves -/

/-- `SHARED_KEYS`. -/
def sharedKeys : List String := ["Emb", "Wr", "br", "Wo", "bo"]

/-- `expert_keys(e)`. -/
def expertKeys (e : ℕ) : List String :=
  ["W1_" ++ e.repr, "b1_" ++ e.repr, "W2_" ++ e.repr, "b2_" ++ e.repr]

def expertName (e : ℕ) : String := "expert_" ++ e.repr

theorem mem_expertKeys {e : ℕ} {k : String} :
    k ∈ expertKeys e ↔ ∃ a ∈ ["W1_", "b1_", "W2_", "b2_"], k = a ++ e.repr := by
  simp [expertKeys]

/-- What follows the prefix of an expert's key is its number. -/
theorem suffix_of_mem_expertKeys {e : ℕ} {a s : String} (ha : a ∈ ["W1_", "b1_", "W2_", "b2_"])
    (h : a ++ s ∈ expertKeys e) : s = e.repr := by
  have hwide : ∀ a ∈ ["W1_", "b1_", "W2_", "b2_"], a.toList.length = 3 := by decide
  obtain ⟨b, hb, heq⟩ := mem_expertKeys.mp h
  have hlist := congrArg String.toList heq
  rw [String.toList_append, String.toList_append] at hlist
  exact String.toList_inj.mp (List.append_inj_right hlist ((hwide a ha).trans (hwide b hb).symm))

theorem expertKeys_disjoint {e e' : ℕ} {k : String} (hk : k ∈ expertKeys e)
    (hk' : k ∈ expertKeys e') : e = e' := by
  obtain ⟨a, ha, rfl⟩ := mem_expertKeys.mp hk
  exact Nat.repr_injective (suffix_of_mem_expertKeys ha hk')

/-- No shared key has an underscore in its third place. -/
theorem sharedKey_ne {k a s : String} (hk : k ∈ sharedKeys)
    (ha : a ∈ ["W1_", "b1_", "W2_", "b2_"]) : k ≠ a ++ s := by
  have hunderscore : ∀ a ∈ ["W1_", "b1_", "W2_", "b2_"], a.toList[2]? = some '_' := by decide
  have hshared : ∀ k ∈ sharedKeys, k.toList[2]? ≠ some '_' := by decide
  rintro rfl
  apply hshared _ hk
  rw [String.toList_append, List.getElem?_append_left, hunderscore a ha]
  exact (List.getElem?_eq_some_iff.mp (hunderscore a ha)).1

theorem sharedKeys_disjoint {e : ℕ} {k : String} (hk : k ∈ sharedKeys) : k ∉ expertKeys e := by
  intro hk'
  obtain ⟨a, ha, heq⟩ := mem_expertKeys.mp hk'
  exact sharedKey_ne hk ha heq

namespace Hashing

variable {α : Type} (H : Hashing α)

/-- The text of a group: its name, then its keys with their arrays. -/
def groupText (params : Params α) (keys : List String) (name : String) : Except PyErr Bytes := do
  return utf8 name ++ (← H.columnBytes params keys)

/-- `_group_leaf(params, keys, name)`. -/
def groupLeaf (params : Params α) (keys : List String) (name : String) : Except PyErr Bytes := do
  return H.digest (← H.groupText params keys name)

/-- `expert_leaf(params, e)`. -/
def expertLeaf (params : Params α) (e : ℕ) : Except PyErr Bytes :=
  H.groupLeaf params (expertKeys e) (expertName e)

def padText : Bytes := utf8 "neurahash-group-pad"

/-- `_GROUP_PAD`. -/
def groupPad : Bytes := H.digest padText

/-- `_real_group_leaves(params, n_experts)`. -/
def realGroupLeaves (params : Params α) (n : ℕ) : Except PyErr (List Bytes) := do
  let shared ← H.groupLeaf params sharedKeys "shared"
  let experts ← (List.range n).mapM (H.expertLeaf params)
  return shared :: experts

/-- `size <<= 1` while `size < n`. -/
def doubled (n size : ℕ) : ℕ := if 0 < size ∧ size < n then doubled n (2 * size) else size
termination_by n - size

/-- `_pad_pow2(leaves)`. -/
def padPow2 (leaves : List Bytes) : List Bytes :=
  leaves ++ List.replicate (doubled leaves.length 1 - leaves.length) H.groupPad

/-- `checkpoint_root(params, n_experts)`. -/
def checkpointRoot (params : Params α) (n : ℕ) : Except PyErr String := do
  return hex (H.merkleRoot (H.padPow2 (← H.realGroupLeaves params n)))

/-- `checkpoint_proof(params, n_experts, e)`. -/
def checkpointProof (params : Params α) (n e : ℕ) : Except PyErr Json := do
  let leaves := H.padPow2 (← H.realGroupLeaves params n)
  match H.merkleProof leaves (e + 1) with
  | some proof => return .arr (proof.map (fun s => .arr [.str (hex s.1), .bool s.2]))
  | none => throw (.raised "IndexError")

/-! ## Padding -/

theorem doubled_two_pow (n k : ℕ) :
    ∃ d, doubled n (2 ^ k) = 2 ^ d ∧ n ≤ 2 ^ d ∧ ∀ m, n ≤ 2 ^ m → k ≤ m → d ≤ m := by
  induction hj : n - 2 ^ k using Nat.strongRecOn generalizing k with
  | ind j ih =>
    have hpos : 0 < 2 ^ k := Nat.two_pow_pos k
    rw [doubled]
    by_cases hlt : 2 ^ k < n
    · rw [if_pos ⟨hpos, hlt⟩, ← Nat.pow_succ']
      obtain ⟨d, hd, hle, hmin⟩ := ih (n - 2 ^ (k + 1)) (by omega) (k + 1) rfl
      refine ⟨d, hd, hle, fun m hm hkm => hmin m hm ?_⟩
      by_contra hnot
      have hm' : m ≤ k := by omega
      have := Nat.pow_le_pow_right (n := 2) (by norm_num) hm'
      omega
    · rw [if_neg (fun h => hlt h.2)]
      exact ⟨k, rfl, not_lt.mp hlt, fun m _ hkm => hkm⟩

/-- A padded list has the least power of two leaves. -/
theorem length_padPow2 (leaves : List Bytes) :
    ∃ d, (H.padPow2 leaves).length = 2 ^ d ∧ leaves.length ≤ 2 ^ d
      ∧ ∀ m, leaves.length ≤ 2 ^ m → d ≤ m := by
  obtain ⟨d, hd, hle, hmin⟩ := doubled_two_pow leaves.length 0
  refine ⟨d, ?_, hle, fun m hm => hmin m hm (Nat.zero_le m)⟩
  rw [padPow2, List.length_append, List.length_replicate, show 1 = 2 ^ 0 from rfl, hd]
  omega

/-- Equally long lists are padded equally. -/
theorem length_padPow2_congr {l l' : List Bytes} (h : l.length = l'.length) :
    (H.padPow2 l).length = (H.padPow2 l').length := by
  unfold padPow2
  rw [List.length_append, List.length_append, List.length_replicate, List.length_replicate, h]

theorem getElem?_padPow2_of_lt {leaves : List Bytes} {i : ℕ} (h : i < leaves.length) :
    (H.padPow2 leaves)[i]? = leaves[i]? :=
  List.getElem?_append_left h

/-- A padded leaf is a leaf or the pad. -/
theorem getElem?_padPow2 {leaves : List Bytes} {i : ℕ} {a : Bytes}
    (h : (H.padPow2 leaves)[i]? = some a) :
    leaves[i]? = some a ∨ leaves.length ≤ i ∧ a = H.groupPad := by
  rcases Nat.lt_or_ge i leaves.length with hlt | hge
  · rw [getElem?_padPow2_of_lt H hlt] at h
    exact Or.inl h
  · rw [padPow2, List.getElem?_append_right hge] at h
    exact Or.inr ⟨hge, List.eq_of_mem_replicate (List.mem_of_getElem? h)⟩

theorem padPow2_ne_nil {leaves : List Bytes} (h : leaves ≠ []) : H.padPow2 leaves ≠ [] := by
  unfold padPow2
  intro hnil
  exact h (List.append_eq_nil_iff.mp hnil).1

/-! ## The leaves of a parameter set -/

theorem groupLeaf_eq_ok {params : Params α} {keys : List String} {name : String} {leaf : Bytes} :
    H.groupLeaf params keys name = .ok leaf ↔
      ∃ text, H.groupText params keys name = .ok text ∧ H.digest text = leaf := by
  unfold groupLeaf
  rw [bind_eq_ok]
  constructor
  · rintro ⟨text, htext, hleaf⟩
    exact ⟨text, htext, Except.ok.inj hleaf⟩
  · rintro ⟨text, htext, rfl⟩
    exact ⟨text, htext, rfl⟩

/-- The real leaves: the shared group, then the experts in order. -/
theorem realGroupLeaves_eq_ok {params : Params α} {n : ℕ} {leaves : List Bytes}
    (h : H.realGroupLeaves params n = .ok leaves) :
    leaves.length = n + 1
      ∧ (∃ shared, H.groupLeaf params sharedKeys "shared" = .ok shared ∧ leaves[0]? = some shared)
      ∧ ∀ e < n, ∃ leaf, H.expertLeaf params e = .ok leaf ∧ leaves[e + 1]? = some leaf := by
  obtain ⟨shared, hshared, h⟩ := bind_eq_ok.mp h
  obtain ⟨experts, hexperts, h⟩ := bind_eq_ok.mp h
  cases h
  have hrel := forall₂_of_mapM hexperts
  have hlen : experts.length = n := by
    rw [← hrel.length_eq, List.length_range]
  refine ⟨by rw [List.length_cons, hlen], ⟨shared, hshared, rfl⟩, fun e he => ?_⟩
  have hat := (List.forall₂_iff_get.mp hrel).2 e (by rwa [List.length_range]) (by rwa [hlen])
  simp only [List.get_eq_getElem, List.getElem_range] at hat
  refine ⟨experts[e], hat, ?_⟩
  rw [List.getElem?_cons_succ, List.getElem?_eq_getElem (by rwa [hlen])]

/-- What a real leaf is the digest of: the shared group's text, or an expert's. -/
theorem realGroupLeaves_text {params : Params α} {n : ℕ} {leaves : List Bytes}
    (h : H.realGroupLeaves params n = .ok leaves) {i : ℕ} {a : Bytes} (ha : leaves[i]? = some a) :
    (i = 0 ∧ ∃ text, H.groupText params sharedKeys "shared" = .ok text ∧ H.digest text = a)
      ∨ ∃ e < n, i = e + 1 ∧ ∃ text, H.groupText params (expertKeys e) (expertName e) = .ok text
        ∧ H.digest text = a := by
  obtain ⟨hlen, ⟨shared, hshared, hzero⟩, hexperts⟩ := H.realGroupLeaves_eq_ok h
  have hi := (List.getElem?_eq_some_iff.mp ha).1
  cases i with
  | zero =>
    rw [hzero] at ha
    cases ha
    exact Or.inl ⟨rfl, H.groupLeaf_eq_ok.mp hshared⟩
  | succ e =>
    obtain ⟨leaf, hleaf, hat⟩ := hexperts e (by omega)
    rw [hat] at ha
    cases ha
    exact Or.inr ⟨e, by omega, rfl, H.groupLeaf_eq_ok.mp hleaf⟩

theorem length_of_mem_padPow2 {params : Params α} {n : ℕ} {leaves : List Bytes}
    (h : H.realGroupLeaves params n = .ok leaves) : ∀ a ∈ H.padPow2 leaves, a.length = 32 := by
  intro a ha
  obtain ⟨i, hi⟩ := List.mem_iff_getElem?.mp ha
  rcases H.getElem?_padPow2 hi with hreal | ⟨_, rfl⟩
  · rcases H.realGroupLeaves_text h hreal with ⟨_, text, _, rfl⟩ | ⟨_, _, _, text, _, rfl⟩ <;>
      exact H.length_digest text
  · exact H.length_digest _

/-! ## Which parameters a leaf reads -/

/-- The keys are there. -/
def Holds (params : Params α) (keys : List String) : Prop := ∀ k ∈ keys, ∃ t, params.get? k = some t

/-- A full parameter set of `n` experts. -/
def Full (params : Params α) (n : ℕ) : Prop :=
  Holds params sharedKeys ∧ ∀ e < n, Holds params (expertKeys e)

/-- The parameter sets have the same arrays under these keys. -/
def SameOn (params params' : Params α) (keys : List String) : Prop :=
  ∀ k ∈ keys, params.get? k = params'.get? k

theorem columnBytes_congr {params params' : Params α} {keys : List String}
    (h : SameOn params params' keys) : H.columnBytes params keys = H.columnBytes params' keys := by
  unfold columnBytes
  refine congrArg (· >>= fun parts => pure parts.flatten) (mapM_congr_map ?_)
  refine List.map_congr_left fun k hk => ?_
  unfold paramAt
  rw [h k ((List.mem_insertionSort (· ≤ ·)).mp hk)]

theorem groupText_congr {params params' : Params α} {keys : List String} (name : String)
    (h : SameOn params params' keys) :
    H.groupText params keys name = H.groupText params' keys name := by
  unfold groupText
  rw [H.columnBytes_congr h]

theorem groupLeaf_congr {params params' : Params α} {keys : List String} (name : String)
    (h : SameOn params params' keys) :
    H.groupLeaf params keys name = H.groupLeaf params' keys name := by
  unfold groupLeaf
  rw [H.groupText_congr name h]

theorem exists_groupLeaf {params : Params α} {keys : List String} (name : String)
    (h : Holds params keys) : ∃ leaf, H.groupLeaf params keys name = .ok leaf := by
  have hcolumns : ∃ columns, H.columnBytes params keys = .ok columns := by
    unfold columnBytes
    have hparts : ∀ k ∈ keys.insertionSort (· ≤ ·), ∃ b, (do
        return utf8 k ++ H.tobytes (← paramAt params k) : Except PyErr Bytes) = .ok b := by
      intro k hk
      obtain ⟨t, ht⟩ := h k ((List.mem_insertionSort (· ≤ ·)).mp hk)
      exact ⟨utf8 k ++ H.tobytes t, by rw [paramAt, ht]; rfl⟩
    obtain ⟨parts, hparts⟩ := exists_mapM_eq_ok.mpr hparts
    exact ⟨parts.flatten, by rw [hparts]; rfl⟩
  obtain ⟨columns, hcolumns⟩ := hcolumns
  exact ⟨H.digest (utf8 name ++ columns), by rw [groupLeaf, groupText, hcolumns]; rfl⟩

theorem exists_realGroupLeaves {params : Params α} {n : ℕ} (h : Full params n) :
    ∃ leaves, H.realGroupLeaves params n = .ok leaves := by
  obtain ⟨shared, hshared⟩ := H.exists_groupLeaf "shared" h.1
  have hleaf : ∀ e ∈ List.range n, ∃ leaf, H.expertLeaf params e = .ok leaf :=
    fun e he => H.exists_groupLeaf (expertName e) (h.2 e (List.mem_range.mp he))
  obtain ⟨experts, hexperts⟩ := exists_mapM_eq_ok.mpr hleaf
  exact ⟨shared :: experts, by rw [realGroupLeaves, hshared, ok_bind, hexperts]; rfl⟩

/-! ## Telling groups apart -/

/-- The text of a group starts with its name and the first of its keys. -/
theorem groupText_starts {params : Params α} {keys : List String} {name : String} {text : Bytes}
    (hne : keys ≠ []) (h : H.groupText params keys name = .ok text) :
    ∃ k ∈ keys, ∃ rest, text = utf8 name ++ (utf8 k ++ rest) := by
  obtain ⟨columns, hcolumns, h⟩ := bind_eq_ok.mp h
  obtain ⟨parts, hparts, hcolumns⟩ := bind_eq_ok.mp hcolumns
  cases h
  cases hcolumns
  have hrel := forall₂_of_mapM hparts
  have hsorted : keys.insertionSort (· ≤ ·) ≠ [] := by
    intro hnil
    have hperm := (List.perm_insertionSort (· ≤ ·) keys).symm
    rw [hnil] at hperm
    exact hne hperm.eq_nil
  cases hkeys : keys.insertionSort (· ≤ ·) with
  | nil => exact absurd hkeys hsorted
  | cons k ks =>
    rw [hkeys] at hrel
    cases hrel with
    | @cons _ part _ parts hk hrel =>
      obtain ⟨t, _, hk⟩ := bind_eq_ok.mp hk
      cases hk
      have hmem : k ∈ keys := (List.mem_insertionSort (· ≤ ·)).mp (hkeys ▸ List.mem_cons_self)
      exact ⟨k, hmem, H.tobytes t ++ parts.flatten, by simp⟩

/-- The byte after an expert's number is a letter. -/
theorem expertKeys_letter {e : ℕ} {k : String} (hk : k ∈ expertKeys e) :
    ∃ b rest, utf8 k = b :: rest ∧ 57 < b.toNat := by
  have hW : ∀ s, utf8 ("W1_" ++ s) = 87 :: (49 :: 95 :: utf8 s) := fun s => utf8_append "W1_" s
  have hb : ∀ s, utf8 ("b1_" ++ s) = 98 :: (49 :: 95 :: utf8 s) := fun s => utf8_append "b1_" s
  have hW' : ∀ s, utf8 ("W2_" ++ s) = 87 :: (50 :: 95 :: utf8 s) := fun s => utf8_append "W2_" s
  have hb' : ∀ s, utf8 ("b2_" ++ s) = 98 :: (50 :: 95 :: utf8 s) := fun s => utf8_append "b2_" s
  simp only [expertKeys, List.mem_cons, List.not_mem_nil, or_false] at hk
  rcases hk with rfl | rfl | rfl | rfl
  · exact ⟨_, _, hW _, by decide⟩
  · exact ⟨_, _, hb _, by decide⟩
  · exact ⟨_, _, hW' _, by decide⟩
  · exact ⟨_, _, hb' _, by decide⟩

/-- Digits end where the first letter stands. -/
theorem digits_unique {a b x y : Bytes} (ha : ∀ c ∈ a, c.toNat ≤ 57) (hb : ∀ c ∈ b, c.toNat ≤ 57)
    (hx : ∃ c rest, x = c :: rest ∧ 57 < c.toNat) (hy : ∃ c rest, y = c :: rest ∧ 57 < c.toNat)
    (h : a ++ x = b ++ y) : a = b := by
  induction a generalizing b with
  | nil =>
    obtain ⟨c, rest, rfl, hc⟩ := hx
    cases b with
    | nil => rfl
    | cons d b =>
      have hcd := (List.cons.inj h).1
      have hd := hb d List.mem_cons_self
      rw [← hcd] at hd
      omega
  | cons c a ih =>
    cases b with
    | nil =>
      obtain ⟨d, rest, rfl, hd⟩ := hy
      have hcd := (List.cons.inj h).1
      have hc := ha c List.mem_cons_self
      rw [hcd] at hc
      omega
    | cons d b =>
      obtain ⟨hcd, htail⟩ := List.cons.inj h
      rw [hcd, ih (fun z hz => ha z (List.mem_cons_of_mem _ hz))
        (fun z hz => hb z (List.mem_cons_of_mem _ hz)) htail]

theorem expertText_starts {params : Params α} {e : ℕ} {text : Bytes}
    (h : H.groupText params (expertKeys e) (expertName e) = .ok text) :
    ∃ rest, text = utf8 "expert_" ++ (utf8 e.repr ++ rest)
      ∧ ∃ c tail, rest = c :: tail ∧ 57 < c.toNat := by
  obtain ⟨k, hk, rest, rfl⟩ := H.groupText_starts (by simp [expertKeys]) h
  obtain ⟨c, tail, hletter, hc⟩ := expertKeys_letter hk
  refine ⟨utf8 k ++ rest, ?_, c, tail ++ rest, ?_, hc⟩
  · rw [expertName, utf8_append, List.append_assoc]
  · rw [hletter]
    rfl

/-- **The text of an expert names the expert.** -/
theorem expertText_inj {params params' : Params α} {e e' : ℕ} {text : Bytes}
    (h : H.groupText params (expertKeys e) (expertName e) = .ok text)
    (h' : H.groupText params' (expertKeys e') (expertName e') = .ok text) : e = e' := by
  obtain ⟨rest, htext, hrest⟩ := H.expertText_starts h
  obtain ⟨rest', htext', hrest'⟩ := H.expertText_starts h'
  have hsame := List.append_cancel_left (htext.symm.trans htext')
  have hnumber := digits_unique (fun c hc => (digit_of_mem_utf8_repr hc).2)
    (fun c hc => (digit_of_mem_utf8_repr hc).2) hrest hrest' hsame
  exact Nat.repr_injective (utf8_injective hnumber)

/-- The shared group's text is no expert's. -/
theorem sharedText_ne {params params' : Params α} {e : ℕ} {text : Bytes}
    (h : H.groupText params sharedKeys "shared" = .ok text)
    (h' : H.groupText params' (expertKeys e) (expertName e) = .ok text) : False := by
  obtain ⟨k, hk, rest, htext⟩ := H.groupText_starts (by decide) h
  obtain ⟨rest', htext', _⟩ := H.expertText_starts h'
  have hsame := htext.symm.trans htext'
  have hhead : (utf8 "shared" ++ (utf8 k ++ rest)).head?
      = (utf8 "expert_" ++ (utf8 e.repr ++ rest')).head? := by rw [hsame]
  -- `s` against `e`
  have hbyte : (115 : UInt8) = 101 := Option.some.inj hhead
  exact absurd hbyte (by decide)

/-- The pad's text is no expert's. -/
theorem padText_ne {params : Params α} {e : ℕ}
    (h : H.groupText params (expertKeys e) (expertName e) = .ok padText) : False := by
  obtain ⟨rest, htext, _⟩ := H.expertText_starts h
  have hhead : padText.head? = (utf8 "expert_" ++ (utf8 e.repr ++ rest)).head? := by rw [← htext]
  -- `n` against `e`
  have hbyte : (110 : UInt8) = 101 := Option.some.inj hhead
  exact absurd hbyte (by decide)

end Hashing

end NeuraHash
