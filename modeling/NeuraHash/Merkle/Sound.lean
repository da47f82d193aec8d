import NeuraHash.Merkle.Tree

/-!
# What a root and a path bind

`root_inj` compares two trees, `roll_cases` an arbitrary path with a tree. In a tree over `2 ^ d`
leaves no node is combined with itself, so the siblings of a leaf do not depend on the leaf:
`path_congr` moves a path to a tree that differs in that leaf only, and `eq_off_path` is its
converse.
-/

namespace Merkle

variable {D : Type} {node : D → D → D} {empty : D}

/-! ## Equal roots -/

/-- Equal nodes of bound pairs are nodes of equal pairs. -/
theorem eq_of_map_node {S T xs ys : List (D × D)} (hb : Binding node S T) (hS : xs ⊆ S)
    (hT : ys ⊆ T)
    (h : xs.map (fun x => node x.1 x.2) = ys.map (fun y => node y.1 y.2)) : xs = ys := by
  induction xs generalizing ys with
  | nil => exact (List.map_eq_nil_iff.mp h.symm).symm
  | cons x xs ih =>
    cases ys with
    | nil => cases h
    | cons y ys =>
      obtain ⟨hhead, htail⟩ := List.cons.inj h
      have hxy : x = y := hb x (hS List.mem_cons_self) y (hT List.mem_cons_self) hhead
      rw [hxy, ih (fun z hz => hS (List.mem_cons_of_mem _ hz))
        (fun z hz => hT (List.mem_cons_of_mem _ hz)) htail]

/-- The pairs of a level are the level. -/
theorem eq_of_levelPairs {l l' : List D} (hlen : l.length = l'.length)
    (h : levelPairs l = levelPairs l') : l = l' := by
  refine List.ext_getElem? fun i => ?_
  by_cases hi : i < l.length
  · have hpair := congrArg (fun xs => xs[i / 2]?) h
    rw [getElem?_levelPairs, getElem?_levelPairs] at hpair
    have hi' : i < l'.length := hlen ▸ hi
    rw [List.getElem?_eq_getElem (by omega : 2 * (i / 2) < l.length),
      List.getElem?_eq_getElem (by omega : 2 * (i / 2) < l'.length)] at hpair
    simp only [Option.map_some, Option.some.injEq, Prod.mk.injEq] at hpair
    rcases Nat.mod_two_eq_zero_or_one i with heven | hodd
    · have hpos : 2 * (i / 2) = i := by omega
      simp only [hpos] at hpair
      rw [List.getElem?_eq_getElem hi, List.getElem?_eq_getElem hi', hpair.1]
    · have hpos : 2 * (i / 2) + 1 = i := by omega
      rw [hpos, List.getElem?_eq_getElem hi, List.getElem?_eq_getElem hi'] at hpair
      rw [List.getElem?_eq_getElem hi, List.getElem?_eq_getElem hi']
      exact congrArg some hpair.2
  · rw [List.getElem?_eq_none (not_lt.mp hi), List.getElem?_eq_none (hlen ▸ not_lt.mp hi)]

/-- **Lists of one length with one root are equal.** -/
theorem root_inj {l l' : List D} (hlen : l.length = l'.length)
    (hb : Binding node (inner node l) (inner node l'))
    (h : root node empty l = root node empty l') : l = l' := by
  induction l using level_induction node generalizing l' with
  | top l hle =>
    rw [root_of_le_one hle, root_of_le_one (hlen ▸ hle)] at h
    match l, l', hlen, hle, h with
    | [], [], _, _, _ => rfl
    | [a], [b], _, _, h => rw [show a = b from h]
  | up l hlt ih =>
    have hlt' : 1 < l'.length := hlen ▸ hlt
    rw [root_of_one_lt hlt, root_of_one_lt hlt'] at h
    rw [inner_of_one_lt hlt, inner_of_one_lt hlt'] at hb
    have hup : pairUp node l = pairUp node l' := by
      refine ih ?_ (hb.mono (List.subset_append_right _ _) (List.subset_append_right _ _)) h
      rw [length_pairUp, length_pairUp, hlen]
    have hpairs : levelPairs l = levelPairs l' :=
      eq_of_map_node hb (List.subset_append_left _ _) (List.subset_append_left _ _) hup
    exact eq_of_levelPairs hlen hpairs

/-! ## Arbitrary paths -/

theorem roll_append (a : D) (p q : List (D × Bool)) :
    roll node a (p ++ q) = roll node (roll node a p) q := by
  induction p generalizing a with
  | nil => rfl
  | cons s p ih => exact ih _

theorem pathPairs_append (a : D) (p q : List (D × Bool)) :
    pathPairs node a (p ++ q) = pathPairs node a p ++ pathPairs node (roll node a p) q := by
  induction p generalizing a with
  | nil => rfl
  | cons s p ih =>
    show beside a s :: pathPairs node _ (p ++ q) = _
    rw [ih]
    rfl

/-- A climb of at least one step ends in a node. -/
theorem roll_mem_pathPairs {a : D} {p : List (D × Bool)} (hp : p ≠ []) :
    ∃ x ∈ pathPairs node a p, roll node a p = node x.1 x.2 := by
  induction p generalizing a with
  | nil => exact absurd rfl hp
  | cons s p ih =>
    cases p with
    | nil => exact ⟨beside a s, List.mem_cons_self, rfl⟩
    | cons s' p =>
      obtain ⟨x, hx, hroll⟩ := ih (a := node (beside a s).1 (beside a s).2) (by simp)
      exact ⟨x, List.mem_cons_of_mem _ hx, hroll⟩

/-- A shorter path climbs from an inner node. -/
theorem roll_short {l : List D} {a : D} {p : List (D × Bool)}
    (hshort : p.length < depth l.length)
    (hb : Binding node (pathPairs node a p) (inner node l))
    (hroll : roll node a p = root node empty l) : ∃ x ∈ inner node l, a = node x.1 x.2 := by
  induction l using level_induction node with
  | top l hlen =>
    rw [depth_of_le_one hlen] at hshort
    exact absurd hshort (Nat.not_lt_zero _)
  | up l hlen ih =>
    rw [depth_of_one_lt hlen] at hshort
    rw [root_of_one_lt hlen] at hroll
    rw [inner_of_one_lt hlen] at hb ⊢
    have hb' := hb.mono (List.Subset.refl _) (List.subset_append_right _ (inner node (pairUp node l)))
    rcases Nat.lt_or_ge p.length (depth (pairUp node l).length) with hlt | hge
    · obtain ⟨x, hx, ha⟩ := ih hlt hb' hroll
      exact ⟨x, List.mem_append_right _ hx, ha⟩
    · have hne : pairUp node l ≠ [] := by
        apply List.ne_nil_of_length_pos
        rw [length_pairUp]
        omega
      have hdepth : p.length = depth (pairUp node l).length := by
        rw [length_pairUp] at hge ⊢
        omega
      obtain ⟨x, hx, ha⟩ := List.mem_map.mp (mem_of_roll hne hdepth hb' hroll)
      exact ⟨x, List.mem_append_left _ hx, ha.symm⟩

/-- A longer path climbs through a leaf, which is then a node. -/
theorem roll_long {l : List D} (hne : l ≠ []) {a : D} {p : List (D × Bool)}
    (hlong : depth l.length < p.length)
    (hb : Binding node (pathPairs node a p) (inner node l))
    (hroll : roll node a p = root node empty l) :
    ∃ x ∈ pathPairs node a p, node x.1 x.2 ∈ l := by
  -- split the path where as many steps are left as the tree has levels
  have hsplit := List.take_append_drop (p.length - depth l.length) p
  have hlow : p.take (p.length - depth l.length) ≠ [] := by
    apply List.ne_nil_of_length_pos
    rw [List.length_take]
    omega
  have hhigh : (p.drop (p.length - depth l.length)).length = depth l.length := by
    rw [List.length_drop]
    omega
  rw [← hsplit, pathPairs_append] at hb ⊢
  rw [← hsplit, roll_append] at hroll
  obtain ⟨x, hx, hnode⟩ := @roll_mem_pathPairs _ node a _ hlow
  have hmem := mem_of_roll hne hhigh
    (hb.mono (List.subset_append_right _ _) (List.Subset.refl _)) hroll
  rw [hnode] at hmem
  exact ⟨x, List.mem_append_left _ hx, hmem⟩

/-- **What climbs to a root**: a leaf, along a path of the tree's depth; or an inner node; or
something below a leaf. -/
theorem roll_cases {l : List D} (hne : l ≠ []) {a : D} {p : List (D × Bool)}
    (hb : Binding node (pathPairs node a p) (inner node l))
    (hroll : roll node a p = root node empty l) :
    p.length = depth l.length ∨ (∃ x ∈ inner node l, a = node x.1 x.2)
      ∨ ∃ x ∈ pathPairs node a p, node x.1 x.2 ∈ l := by
  rcases Nat.lt_trichotomy p.length (depth l.length) with hlt | heq | hgt
  · exact Or.inr (Or.inl (roll_short hlt hb hroll))
  · exact Or.inl heq
  · exact Or.inr (Or.inr (roll_long hne hgt hb hroll))

/-! ## Trees without repeated nodes -/

theorem depth_two_pow (d : ℕ) : depth (2 ^ d) = d := by
  induction d with
  | zero => exact depth_of_le_one le_rfl
  | succ d ih =>
    have hpos : 0 < 2 ^ d := Nat.two_pow_pos d
    rw [depth_of_one_lt (by omega), show (2 ^ (d + 1) + 1) / 2 = 2 ^ d by omega, ih]

/-- Every choice of sides is the path of a leaf. -/
theorem exists_directions {d : ℕ} {bs : List Bool} (h : bs.length = d) :
    ∃ i < 2 ^ d, directions (2 ^ d) i = bs := by
  induction d generalizing bs with
  | zero =>
    rw [List.length_eq_zero_iff] at h
    exact ⟨0, by simp, by rw [h]; exact directions_of_le_one le_rfl 0⟩
  | succ d ih =>
    cases bs with
    | nil => cases h
    | cons b bs =>
      obtain ⟨i, hi, hdir⟩ := ih (Nat.succ.inj h)
      have hpos : 0 < 2 ^ d := Nat.two_pow_pos d
      refine ⟨2 * i + b.toNat, ?_, ?_⟩
      · cases b <;> simp <;> omega
      · rw [directions_of_one_lt (by omega), show (2 ^ (d + 1) + 1) / 2 = 2 ^ d by omega]
        cases b
        · rw [show (2 * i + false.toNat) / 2 = i by simp, hdir]
          simp
        · rw [show (2 * i + true.toNat) / 2 = i by simp; omega, hdir]
          simp

theorem length_pairUp_two_pow {d : ℕ} {l : List D} (h : l.length = 2 ^ (d + 1)) :
    (pairUp node l).length = 2 ^ d := by
  rw [length_pairUp, h]
  omega

theorem one_lt_two_pow_succ (d : ℕ) : 1 < 2 ^ (d + 1) := by
  have hpos : 0 < 2 ^ d := Nat.two_pow_pos d
  omega

/-- The sibling of a leaf is another leaf. -/
theorem sibling_two_pow {d : ℕ} {l : List D} (h : l.length = 2 ^ (d + 1)) {i : ℕ}
    (hi : i < 2 ^ (d + 1)) : sibling l i = l[if i % 2 = 1 then i - 1 else i + 1]? := by
  unfold sibling
  by_cases hodd : i % 2 = 1
  · rw [if_pos hodd, if_pos hodd]
  · rw [if_neg hodd, if_neg hodd, List.getElem?_eq_getElem (by omega : i + 1 < l.length)]
    rfl

/-- **The path of a leaf does not depend on the leaf.** -/
theorem path_congr {d : ℕ} {l l' : List D} (hl : l.length = 2 ^ d) (hl' : l'.length = 2 ^ d)
    {i : ℕ} (hi : i < 2 ^ d) (h : ∀ k ≠ i, l[k]? = l'[k]?) : path node l i = path node l' i := by
  induction d generalizing l l' i with
  | zero =>
    rw [path, if_neg (by omega), path, if_neg (by omega)]
  | succ d ih =>
    have hlt := one_lt_two_pow_succ d
    have hsib : sibling l i = sibling l' i := by
      rw [sibling_two_pow hl hi, sibling_two_pow hl' hi]
      refine h _ ?_
      split <;> omega
    have hup : ∀ k ≠ i / 2, (pairUp node l)[k]? = (pairUp node l')[k]? := by
      intro k hk
      rw [getElem?_pairUp, getElem?_pairUp, h (2 * k) (by omega), h (2 * k + 1) (by omega)]
    rw [path_eq_of_one_lt (l := l) (by omega), path_eq_of_one_lt (l := l') (by omega), hsib,
      ih (length_pairUp_two_pow hl) (length_pairUp_two_pow hl') (by omega) hup]

/-- **One path in two trees**: the leaves off the path are the same. -/
theorem eq_off_path {d : ℕ} {l l' : List D} (hl : l.length = 2 ^ d) (hl' : l'.length = 2 ^ d)
    {i : ℕ} (hi : i < 2 ^ d) {p : List (D × Bool)} (hp : path node l i = some p)
    (hp' : path node l' i = some p) (hb : Binding node (inner node l) (inner node l')) :
    ∀ k ≠ i, l[k]? = l'[k]? := by
  induction d generalizing l l' i p with
  | zero =>
    intro k hk
    rw [List.getElem?_eq_none (by omega), List.getElem?_eq_none (by omega)]
  | succ d ih =>
    have hlt := one_lt_two_pow_succ d
    have hlt₁ : 1 < l.length := by omega
    have hlt₂ : 1 < l'.length := by omega
    obtain ⟨s, q, hs, hq, rfl⟩ := path_of_one_lt hlt₁ hp
    obtain ⟨s', q', hs', hq', heq⟩ := path_of_one_lt hlt₂ hp'
    obtain ⟨hhead, rfl⟩ := List.cons.inj heq
    obtain ⟨rfl, _⟩ := Prod.mk.inj hhead
    rw [inner_of_one_lt hlt₁, inner_of_one_lt hlt₂] at hb
    have hup := ih (length_pairUp_two_pow hl) (length_pairUp_two_pow hl') (by omega) hq hq'
      (hb.mono (List.subset_append_right _ _) (List.subset_append_right _ _))
    intro k hk
    rcases Nat.lt_or_ge k (2 ^ (d + 1)) with hklt | hkge
    swap
    · rw [List.getElem?_eq_none (by omega), List.getElem?_eq_none (by omega)]
    by_cases hsame : k / 2 = i / 2
    · -- the neighbour of the leaf is the sibling on the path
      rw [sibling_two_pow hl hi] at hs
      rw [sibling_two_pow hl' hi] at hs'
      have hpos : k = if i % 2 = 1 then i - 1 else i + 1 := by
        split <;> omega
      rw [← hpos] at hs hs'
      rw [hs, hs']
    · have hnode := hup (k / 2) hsame
      rw [pairUp, pairUp, List.getElem?_map, List.getElem?_map] at hnode
      have hk₁ : k / 2 < (levelPairs l).length := by
        rw [length_levelPairs]
        omega
      have hk₂ : k / 2 < (levelPairs l').length := by
        rw [length_levelPairs]
        omega
      rw [List.getElem?_eq_getElem hk₁, List.getElem?_eq_getElem hk₂, Option.map_some,
        Option.map_some] at hnode
      have hpair : (levelPairs l)[k / 2]? = (levelPairs l')[k / 2]? := by
        rw [List.getElem?_eq_getElem hk₁, List.getElem?_eq_getElem hk₂]
        exact congrArg some (hb _ (List.mem_append_left _ (List.getElem_mem hk₁)) _
          (List.mem_append_left _ (List.getElem_mem hk₂)) (Option.some.inj hnode))
      rw [getElem?_levelPairs, getElem?_levelPairs,
        List.getElem?_eq_getElem (by omega : 2 * (k / 2) < l.length),
        List.getElem?_eq_getElem (by omega : 2 * (k / 2) < l'.length),
        List.getElem?_eq_getElem (by omega : 2 * (k / 2) + 1 < l.length),
        List.getElem?_eq_getElem (by omega : 2 * (k / 2) + 1 < l'.length)] at hpair
      simp only [Option.map_some, Option.getD_some, Option.some.injEq, Prod.mk.injEq] at hpair
      rw [List.getElem?_eq_getElem (by omega : k < l.length),
        List.getElem?_eq_getElem (by omega : k < l'.length)]
      rcases Nat.mod_two_eq_zero_or_one k with heven | hodd
      · have hpos : 2 * (k / 2) = k := by omega
        simp only [hpos] at hpair
        rw [hpair.1]
      · have hpos : 2 * (k / 2) + 1 = k := by omega
        simp only [hpos] at hpair
        rw [hpair.2]

end Merkle
