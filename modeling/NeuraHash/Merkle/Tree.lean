import Mathlib.Data.List.Basic
import Mathlib.Data.Nat.Log
import Mathlib.Data.Set.Basic
import Mathlib.Tactic.Ring

/-!
# Merkle trees

A root is computed level by level: `pairUp` combines neighbours with `node` and combines the last
node of an odd level with itself. `path` lists the siblings of a leaf and on which side they
stand, `roll` climbs from a leaf along such a list.

Nothing is assumed of `node`. `Binding S T` says that no pair of `S` has the node of another pair
of `T`; a theorem asks for it on the pairs that are combined in its own trees (`inner`) and along
its own paths (`pathPairs`), so a hash with a finite range can satisfy it.

* `roll_path` — an honest path climbs to the root.
* `eq_of_roll` — a path with the sides of leaf `i` climbs from leaf `i` alone.
* `roll_cases` — a path of another length climbs from an inner node, or through a leaf.
* `root_inj` — lists of one length with one root are equal.
* `eq_off_path` — in trees without repeated nodes, one path in two trees fixes every other leaf.
-/

namespace Merkle

variable {D : Type} {node : D → D → D}

/-! ## Levels -/

/-- The pairs that are combined on a level. -/
def levelPairs : List D → List (D × D)
  | [] => []
  | [a] => [(a, a)]
  | a :: b :: l => (a, b) :: levelPairs l

/-- The next level up. -/
def pairUp (node : D → D → D) (l : List D) : List D := (levelPairs l).map (fun x => node x.1 x.2)

theorem length_levelPairs (l : List D) : (levelPairs l).length = (l.length + 1) / 2 := by
  fun_induction levelPairs l with
  | case1 => simp
  | case2 a => simp
  | case3 a b l ih =>
    rw [List.length_cons, ih, List.length_cons, List.length_cons]
    omega

@[simp] theorem length_pairUp (node : D → D → D) (l : List D) :
    (pairUp node l).length = (l.length + 1) / 2 := by
  rw [pairUp, List.length_map, length_levelPairs]

/-- The pair at a position; a missing neighbour is the node itself. -/
theorem getElem?_levelPairs (l : List D) (k : ℕ) :
    (levelPairs l)[k]? = (l[2 * k]?).map (fun a => (a, (l[2 * k + 1]?).getD a)) := by
  fun_induction levelPairs l generalizing k with
  | case1 => rfl
  | case2 a =>
    cases k with
    | zero => rfl
    | succ k =>
      show none = ([a][2 * (k + 1)]?).map _
      rw [List.getElem?_eq_none (by rw [List.length_singleton]; omega)]
      rfl
  | case3 a b l ih =>
    cases k with
    | zero => rfl
    | succ k =>
      show (levelPairs l)[k]? = ((a :: b :: l)[2 * k + 2]?).map _
      rw [ih k]
      rfl

theorem getElem?_pairUp (l : List D) (k : ℕ) :
    (pairUp node l)[k]? = (l[2 * k]?).map (fun a => node a ((l[2 * k + 1]?).getD a)) := by
  rw [pairUp, List.getElem?_map, getElem?_levelPairs, Option.map_map]
  rfl

/-- The nodes of a pair are on the level. -/
theorem mem_of_mem_levelPairs {l : List D} {x : D × D} (hx : x ∈ levelPairs l) :
    x.1 ∈ l ∧ x.2 ∈ l := by
  fun_induction levelPairs l with
  | case1 => cases hx
  | case2 a =>
    rw [List.mem_singleton.mp hx]
    exact ⟨List.mem_singleton.mpr rfl, List.mem_singleton.mpr rfl⟩
  | case3 a b l ih =>
    rcases List.mem_cons.mp hx with rfl | hx
    · exact ⟨List.mem_cons_self, List.mem_cons_of_mem _ List.mem_cons_self⟩
    · obtain ⟨hfst, hsnd⟩ := ih hx
      exact ⟨List.mem_cons_of_mem _ (List.mem_cons_of_mem _ hfst),
        List.mem_cons_of_mem _ (List.mem_cons_of_mem _ hsnd)⟩

/-! ## Roots and paths -/

/-- The root of the tree over the leaves. -/
def root (node : D → D → D) (empty : D) (l : List D) : D :=
  if 1 < l.length then root node empty (pairUp node l) else l.headD empty
termination_by l.length
decreasing_by
  rw [length_pairUp]
  omega

/-- The neighbour of a node on its level. -/
def sibling (l : List D) (i : ℕ) : Option D :=
  if i % 2 = 1 then l[i - 1]? else l[i + 1]? <|> l[i]?

/-- The siblings from a leaf to the root, and whether each stands on the left. -/
def path (node : D → D → D) (l : List D) (i : ℕ) : Option (List (D × Bool)) :=
  if 1 < l.length then do
    let s ← sibling l i
    let p ← path node (pairUp node l) (i / 2)
    return (s, decide (i % 2 = 1)) :: p
  else some []
termination_by l.length
decreasing_by
  rw [length_pairUp]
  omega

/-- The pair a sibling makes with a node. -/
def beside (h : D) (s : D × Bool) : D × D := if s.2 then (s.1, h) else (h, s.1)

/-- Climb from a node along a path. -/
def roll (node : D → D → D) (h : D) : List (D × Bool) → D
  | [] => h
  | s :: p => roll node (node (beside h s).1 (beside h s).2) p

/-- The pairs combined along a path. -/
def pathPairs (node : D → D → D) (h : D) : List (D × Bool) → List (D × D)
  | [] => []
  | s :: p => beside h s :: pathPairs node (node (beside h s).1 (beside h s).2) p

/-- The pairs combined in a tree. -/
def inner (node : D → D → D) (l : List D) : List (D × D) :=
  if 1 < l.length then levelPairs l ++ inner node (pairUp node l) else []
termination_by l.length
decreasing_by
  rw [length_pairUp]
  omega

/-- On which side the siblings of leaf `i` of `n` stand. -/
def directions (n i : ℕ) : List Bool :=
  if 1 < n then decide (i % 2 = 1) :: directions ((n + 1) / 2) (i / 2) else []
termination_by n

/-- The number of levels above `n` leaves. -/
def depth (n : ℕ) : ℕ := (directions n 0).length

theorem root_of_one_lt {empty : D} {l : List D} (h : 1 < l.length) :
    root node empty l = root node empty (pairUp node l) := by
  rw [root, if_pos h]

theorem root_of_le_one {empty : D} {l : List D} (h : l.length ≤ 1) :
    root node empty l = l.headD empty := by
  rw [root, if_neg (not_lt.mpr h)]

theorem path_eq_of_one_lt {l : List D} (h : 1 < l.length) (i : ℕ) :
    path node l i = (do
      let s ← sibling l i
      let p ← path node (pairUp node l) (i / 2)
      return (s, decide (i % 2 = 1)) :: p) := by
  rw [path, if_pos h]

theorem inner_of_one_lt {l : List D} (h : 1 < l.length) :
    inner node l = levelPairs l ++ inner node (pairUp node l) := by
  rw [inner, if_pos h]

theorem directions_of_one_lt {n : ℕ} (h : 1 < n) (i : ℕ) :
    directions n i = decide (i % 2 = 1) :: directions ((n + 1) / 2) (i / 2) := by
  rw [directions, if_pos h]

theorem directions_of_le_one {n : ℕ} (h : n ≤ 1) (i : ℕ) : directions n i = [] := by
  rw [directions, if_neg (not_lt.mpr h)]

/-- Every leaf is as deep as the first. -/
theorem length_directions (n i : ℕ) : (directions n i).length = depth n := by
  unfold depth
  induction n using Nat.strongRecOn generalizing i with
  | ind n ih =>
    by_cases h : 1 < n
    · rw [directions_of_one_lt h, directions_of_one_lt h, List.length_cons, List.length_cons,
        ih _ (by omega) (i / 2), ih _ (by omega) (0 / 2)]
    · rw [directions_of_le_one (not_lt.mp h), directions_of_le_one (not_lt.mp h)]

theorem depth_of_one_lt {n : ℕ} (h : 1 < n) : depth n = depth ((n + 1) / 2) + 1 := by
  rw [depth, directions_of_one_lt h, List.length_cons, length_directions]

theorem depth_of_le_one {n : ℕ} (h : n ≤ 1) : depth n = 0 := by
  unfold depth
  rw [directions_of_le_one h]
  rfl

/-- **Level by level**: an induction over the levels of a tree. -/
theorem level_induction {motive : List D → Prop} (node : D → D → D)
    (top : ∀ l, l.length ≤ 1 → motive l)
    (up : ∀ l, 1 < l.length → motive (pairUp node l) → motive l) (l : List D) : motive l := by
  induction hn : l.length using Nat.strongRecOn generalizing l with
  | ind n ih =>
    by_cases h : 1 < l.length
    · refine up l h (ih _ ?_ (pairUp node l) rfl)
      rw [length_pairUp]
      omega
    · exact top l (not_lt.mp h)

/-- What the leaves and all nodes are, the combined pairs of a tree are. -/
theorem forall_of_inner {P : D → Prop} (hnode : ∀ a b, P (node a b)) {l : List D}
    (hl : ∀ a ∈ l, P a) : ∀ x ∈ inner node l, P x.1 ∧ P x.2 := by
  induction l using level_induction node with
  | top l hlen =>
    rw [inner, if_neg (not_lt.mpr hlen)]
    exact fun x hx => absurd hx List.not_mem_nil
  | up l hlen ih =>
    have hup : ∀ a ∈ pairUp node l, P a := by
      intro a ha
      obtain ⟨x, _, rfl⟩ := List.mem_map.mp ha
      exact hnode x.1 x.2
    intro x hx
    rw [inner_of_one_lt hlen, List.mem_append] at hx
    rcases hx with hx | hx
    · obtain ⟨hfst, hsnd⟩ := mem_of_mem_levelPairs hx
      exact ⟨hl _ hfst, hl _ hsnd⟩
    · exact ih hup x hx

/-! ## Honest paths -/

/-- The pair of a leaf and its sibling is the pair of their level. -/
theorem levelPairs_of_sibling {l : List D} {i : ℕ} {a s : D} (ha : l[i]? = some a)
    (hs : sibling l i = some s) :
    (levelPairs l)[i / 2]? = some (beside a (s, decide (i % 2 = 1))) := by
  rw [getElem?_levelPairs]
  unfold sibling at hs
  by_cases hodd : i % 2 = 1
  · rw [if_pos hodd] at hs
    rw [show 2 * (i / 2) = i - 1 by omega, hs, show i - 1 + 1 = i by omega, ha]
    simp [beside, hodd]
  · rw [if_neg hodd] at hs
    rw [show 2 * (i / 2) = i by omega, ha]
    cases hnext : l[i + 1]? with
    | none =>
      rw [hnext, ha] at hs
      cases hs
      simp [beside, hodd]
    | some b =>
      rw [hnext] at hs
      cases hs
      simp [beside, hodd]

/-- The node above a leaf. -/
theorem pairUp_of_sibling {l : List D} {i : ℕ} {a s : D} (ha : l[i]? = some a)
    (hs : sibling l i = some s) :
    (pairUp node l)[i / 2]? = some (node (beside a (s, decide (i % 2 = 1))).1
      (beside a (s, decide (i % 2 = 1))).2) := by
  rw [pairUp, List.getElem?_map, levelPairs_of_sibling ha hs]
  rfl

theorem sibling_isSome {l : List D} {i : ℕ} (hi : i < l.length) : ∃ s, sibling l i = some s := by
  unfold sibling
  by_cases hodd : i % 2 = 1
  · rw [if_pos hodd]
    exact ⟨_, List.getElem?_eq_getElem (by omega)⟩
  · rw [if_neg hodd, List.getElem?_eq_getElem hi]
    cases l[i + 1]? <;> exact ⟨_, rfl⟩

/-- Every leaf has a path. -/
theorem exists_path (l : List D) {i : ℕ} (hi : i < l.length) : ∃ p, path node l i = some p := by
  induction l using level_induction node generalizing i with
  | top l hlen =>
    rw [path, if_neg (not_lt.mpr hlen)]
    exact ⟨[], rfl⟩
  | up l hlen ih =>
    obtain ⟨s, hs⟩ := sibling_isSome hi
    have hup : i / 2 < (pairUp node l).length := by
      rw [length_pairUp]
      omega
    obtain ⟨p, hp⟩ := ih hup
    rw [path_eq_of_one_lt hlen, hs, hp]
    exact ⟨_, rfl⟩

theorem path_of_one_lt {l : List D} (hlen : 1 < l.length) {i : ℕ} {p : List (D × Bool)}
    (hp : path node l i = some p) :
    ∃ s p', sibling l i = some s ∧ path node (pairUp node l) (i / 2) = some p'
      ∧ p = (s, decide (i % 2 = 1)) :: p' := by
  rw [path_eq_of_one_lt hlen] at hp
  cases hs : sibling l i with
  | none =>
    rw [hs] at hp
    cases hp
  | some s =>
    cases hp' : path node (pairUp node l) (i / 2) with
    | none =>
      rw [hs, hp'] at hp
      cases hp
    | some p' =>
      rw [hs, hp'] at hp
      exact ⟨s, p', rfl, rfl, (Option.some.inj hp).symm⟩

/-- **An honest path climbs from its leaf to the root.** -/
theorem roll_path {empty : D} {l : List D} {i : ℕ} {a : D} {p : List (D × Bool)}
    (ha : l[i]? = some a) (hp : path node l i = some p) : roll node a p = root node empty l := by
  induction l using level_induction node generalizing i a p with
  | top l hlen =>
    rw [path, if_neg (not_lt.mpr hlen)] at hp
    cases hp
    rw [root_of_le_one hlen]
    have hi : i = 0 := by
      have := (List.getElem?_eq_some_iff.mp ha).1
      omega
    cases l with
    | nil => cases ha
    | cons b l =>
      subst hi
      exact (Option.some.inj ha).symm
  | up l hlen ih =>
    obtain ⟨s, p', hs, hp', rfl⟩ := path_of_one_lt hlen hp
    rw [root_of_one_lt hlen]
    show roll node (node _ _) p' = root node empty (pairUp node l)
    exact ih (pairUp_of_sibling ha hs) hp'

/-- The siblings of an honest path stand where the leaf has them. -/
theorem sides_of_path {l : List D} {i : ℕ} {p : List (D × Bool)} (hp : path node l i = some p) :
    p.map Prod.snd = directions l.length i := by
  induction l using level_induction node generalizing i p with
  | top l hlen =>
    rw [path, if_neg (not_lt.mpr hlen)] at hp
    cases hp
    rw [directions_of_le_one hlen]
    rfl
  | up l hlen ih =>
    obtain ⟨s, p', _, hp', rfl⟩ := path_of_one_lt hlen hp
    rw [directions_of_one_lt hlen, List.map_cons, ih hp', length_pairUp]

theorem length_of_path {l : List D} {i : ℕ} {p : List (D × Bool)} (hp : path node l i = some p) :
    p.length = depth l.length := by
  rw [← length_directions l.length i, ← sides_of_path hp, List.length_map]

/-- What the leaves and all nodes are, the siblings of an honest path are. -/
theorem forall_of_path {P : D → Prop} (hnode : ∀ a b, P (node a b)) {l : List D}
    (hl : ∀ a ∈ l, P a) {i : ℕ} {p : List (D × Bool)} (hp : path node l i = some p) :
    ∀ s ∈ p, P s.1 := by
  induction l using level_induction node generalizing i p with
  | top l hlen =>
    rw [path, if_neg (not_lt.mpr hlen)] at hp
    cases hp
    exact fun s hs => absurd hs List.not_mem_nil
  | up l hlen ih =>
    obtain ⟨s, p', hs, hp', rfl⟩ := path_of_one_lt hlen hp
    have hmem : s ∈ l := by
      unfold sibling at hs
      split at hs
      · exact List.mem_of_getElem? hs
      · cases hnext : l[i + 1]? with
        | none =>
          rw [hnext] at hs
          exact List.mem_of_getElem? hs
        | some b =>
          rw [hnext] at hs
          cases hs
          exact List.mem_of_getElem? hnext
    have hup : ∀ a ∈ pairUp node l, P a := by
      intro a ha
      obtain ⟨x, _, rfl⟩ := List.mem_map.mp ha
      exact hnode x.1 x.2
    exact List.forall_mem_cons.mpr ⟨hl s hmem, ih hup hp'⟩

/-! ## Binding -/

/-- No pair of `S` has the node of another pair of `T`. -/
def Binding (node : D → D → D) (S T : List (D × D)) : Prop :=
  ∀ x ∈ S, ∀ y ∈ T, node x.1 x.2 = node y.1 y.2 → x = y

theorem Binding.mono {S S' T T' : List (D × D)} (h : Binding node S T) (hS : S' ⊆ S)
    (hT : T' ⊆ T) : Binding node S' T' :=
  fun x hx y hy => h x (hS hx) y (hT hy)

/-- A leaf, or the pair of two: what the node above leaf `i` says of the leaf. -/
theorem leaf_of_beside {l : List D} {i : ℕ} {a s : D}
    (h : (levelPairs l)[i / 2]? = some (beside a (s, decide (i % 2 = 1)))) (hi : i < l.length) :
    l[i]? = some a ∧ sibling l i = some s := by
  rw [getElem?_levelPairs] at h
  unfold sibling
  by_cases hodd : i % 2 = 1
  · rw [show 2 * (i / 2) = i - 1 by omega, show i - 1 + 1 = i by omega,
      List.getElem?_eq_getElem hi, List.getElem?_eq_getElem (by omega : i - 1 < l.length)] at h
    simp only [beside, hodd, decide_true, if_true, Option.map_some, Option.getD_some,
      Option.some.injEq, Prod.mk.injEq] at h
    rw [if_pos hodd, List.getElem?_eq_getElem hi,
      List.getElem?_eq_getElem (by omega : i - 1 < l.length), h.1, h.2]
    exact ⟨rfl, rfl⟩
  · rw [show 2 * (i / 2) = i by omega, List.getElem?_eq_getElem hi] at h
    simp only [beside, hodd, decide_false, Bool.false_eq_true, if_false, Option.map_some,
      Option.some.injEq, Prod.mk.injEq] at h
    rw [if_neg hodd, List.getElem?_eq_getElem hi, h.1]
    refine ⟨rfl, ?_⟩
    cases hnext : l[i + 1]? with
    | none =>
      rw [hnext, Option.getD_none] at h
      rw [← h.2, ← h.1]
      rfl
    | some b =>
      rw [hnext, Option.getD_some] at h
      rw [h.2]
      rfl

/-- **A path with the sides of leaf `i` climbs to the root from leaf `i` alone**, and is its honest
path. -/
theorem eq_of_roll {empty : D} {l : List D} {i : ℕ} {a : D} {p : List (D × Bool)}
    (hi : i < l.length) (hsides : p.map Prod.snd = directions l.length i)
    (hb : Binding node (pathPairs node a p) (inner node l))
    (hroll : roll node a p = root node empty l) :
    l[i]? = some a ∧ path node l i = some p := by
  induction l using level_induction node generalizing i a p with
  | top l hlen =>
    rw [directions_of_le_one hlen, List.map_eq_nil_iff] at hsides
    subst hsides
    rw [root_of_le_one hlen] at hroll
    rw [path, if_neg (not_lt.mpr hlen)]
    cases l with
    | nil => exact absurd hi (Nat.not_lt_zero i)
    | cons b l =>
      have hzero : i = 0 := by
        rw [List.length_cons] at hlen hi
        omega
      subst hzero
      exact ⟨congrArg some hroll.symm, rfl⟩
  | up l hlen ih =>
    rw [directions_of_one_lt hlen] at hsides
    cases p with
    | nil => cases hsides
    | cons sb p' =>
      obtain ⟨s, b⟩ := sb
      obtain ⟨hside, hsides'⟩ := List.cons.inj hsides
      replace hside : b = decide (i % 2 = 1) := hside
      subst hside
      rw [root_of_one_lt hlen] at hroll
      rw [inner_of_one_lt hlen] at hb
      have hup : i / 2 < (pairUp node l).length := by
        rw [length_pairUp]
        omega
      have hsides'' : p'.map Prod.snd = directions (pairUp node l).length (i / 2) := by
        rw [length_pairUp]
        exact hsides'
      obtain ⟨hnode, hpath⟩ := ih hup hsides''
        (hb.mono (List.subset_cons_self _ _) (List.subset_append_right _ _)) hroll
      -- the pair on the level has the node of the pair on the path
      rw [pairUp, List.getElem?_map, Option.map_eq_some_iff] at hnode
      obtain ⟨pair, hpair, heq⟩ := hnode
      have hmem : pair ∈ levelPairs l := List.mem_of_getElem? hpair
      have hsame : beside a (s, decide (i % 2 = 1)) = pair :=
        hb _ List.mem_cons_self _ (List.mem_append_left _ hmem) heq.symm
      rw [← hsame] at hpair
      obtain ⟨hleaf, hsib⟩ := leaf_of_beside hpair hi
      refine ⟨hleaf, ?_⟩
      rw [path_eq_of_one_lt hlen, hsib, hpath]
      rfl

/-- A path of the depth of the tree climbs from a leaf. -/
theorem mem_of_roll {empty : D} {l : List D} {a : D} {p : List (D × Bool)} (hne : l ≠ [])
    (hdepth : p.length = depth l.length)
    (hb : Binding node (pathPairs node a p) (inner node l))
    (hroll : roll node a p = root node empty l) : a ∈ l := by
  induction l using level_induction node generalizing a p with
  | top l hlen =>
    rw [depth_of_le_one hlen, List.length_eq_zero_iff] at hdepth
    subst hdepth
    rw [root_of_le_one hlen] at hroll
    cases l with
    | nil => exact absurd rfl hne
    | cons b l => exact List.mem_cons.mpr (Or.inl hroll)
  | up l hlen ih =>
    rw [depth_of_one_lt hlen] at hdepth
    cases p with
    | nil => cases hdepth
    | cons s p' =>
      rw [root_of_one_lt hlen] at hroll
      rw [inner_of_one_lt hlen] at hb
      have hne' : pairUp node l ≠ [] := by
        apply List.ne_nil_of_length_pos
        rw [length_pairUp]
        omega
      have hdepth' : p'.length = depth (pairUp node l).length := by
        rw [length_pairUp]
        exact Nat.succ.inj hdepth
      have hmem := ih hne' hdepth'
        (hb.mono (List.subset_cons_self _ _) (List.subset_append_right _ _)) hroll
      obtain ⟨pair, hpair, heq⟩ := List.mem_map.mp hmem
      have hsame : beside a s = pair :=
        hb _ List.mem_cons_self _ (List.mem_append_left _ hpair) heq.symm
      obtain ⟨hfst, hsnd⟩ := mem_of_mem_levelPairs hpair
      rw [← hsame] at hfst hsnd
      unfold beside at hfst hsnd
      split at hfst
      · next hleft =>
        rw [if_pos hleft] at hsnd
        exact hsnd
      · exact hfst

end Merkle
