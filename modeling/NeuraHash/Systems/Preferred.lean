import Mathlib.Data.List.Basic
import Mathlib.Data.List.Pairwise

/-!
# One representative of each class, a good one first

`same` is a symmetric and transitive test; what is not the same as itself is a class of its own.
`firstSeen` keeps the first of each class. `preferred` keeps, in that order, the first good one of
the class, or the first one when none is good.

* `firstSeen_concat`, `best_concat` — what one more element changes.
* `preferred_pairwise`, `any_preferred`, `good_of_preferred` — one for each class, a good one where
  there is one.
* `preferred_join` — lists that are reduced before they are joined give the same.
-/

namespace Preferred

variable {α : Type} {same : α → α → Bool} {good : α → Bool}

/-- A symmetric and transitive test. -/
structure PartialEquiv (same : α → α → Bool) : Prop where
  symm : ∀ {a b}, same a b = true → same b a = true
  trans : ∀ {a b c}, same a b = true → same b c = true → same a c = true

/-- Of the same class, alone or as one element. -/
def Alike (same : α → α → Bool) (a b : α) : Prop := a = b ∨ same a b = true

theorem PartialEquiv.comm (h : PartialEquiv same) (a b : α) : same a b = same b a := by
  cases hab : same a b with
  | true => exact (h.symm hab).symm
  | false =>
    cases hba : same b a with
    | true => exact absurd (h.symm hba) (by simp [hab])
    | false => rfl

theorem PartialEquiv.congr (h : PartialEquiv same) {a b : α} (hab : same a b = true) (c : α) :
    same a c = same b c := by
  cases hbc : same b c with
  | true => exact h.trans hab hbc
  | false =>
    cases hac : same a c with
    | true => exact absurd (h.trans (h.symm hab) hac) (by simp [hbc])
    | false => rfl

theorem Alike.congr (h : PartialEquiv same) {a b : α} (hab : Alike same a b) (c : α) :
    same a c = same b c := by
  rcases hab with rfl | hab
  · rfl
  · exact h.congr hab c

/-- What stands for an element is of its class. -/
theorem Alike.symm_trans (h : PartialEquiv same) {a b c : α} (hab : Alike same a b)
    (hac : Alike same a c) : Alike same b c := by
  rcases hab with rfl | hab
  · exact hac
  · rcases hac with rfl | hac
    · exact .inr (h.symm hab)
    · exact .inr (h.trans (h.symm hab) hac)

/-- The first of each class. -/
def firstSeen (same : α → α → Bool) : List α → List α
  | [] => []
  | a :: l => a :: (firstSeen same l).filter fun b => !same a b

/-- The first good one of a class, or what stands for it so far. -/
def best (same : α → α → Bool) (good : α → Bool) (l : List α) (a : α) : α :=
  (l.find? fun b => same a b && good b).getD a

/-- One of each class, in the order the classes appear in. -/
def preferred (same : α → α → Bool) (good : α → Bool) (l : List α) : List α :=
  (firstSeen same l).map (best same good l)

/-! ## The first of each class -/

theorem firstSeen_subset (l : List α) : ∀ a ∈ firstSeen same l, a ∈ l := by
  induction l with
  | nil => exact fun a ha => ha
  | cons b l ih =>
    intro a ha
    rcases List.mem_cons.mp ha with rfl | ha
    · exact List.mem_cons_self
    · exact List.mem_cons_of_mem _ (ih a (List.mem_filter.mp ha).1)

theorem firstSeen_pairwise (l : List α) :
    (firstSeen same l).Pairwise fun a b => same a b = false := by
  induction l with
  | nil => exact List.Pairwise.nil
  | cons a l ih =>
    refine List.pairwise_cons.mpr ⟨fun b hb => ?_, ih.filter _⟩
    simpa using (List.mem_filter.mp hb).2

theorem Alike.trans (h : PartialEquiv same) {a b c : α} (hab : Alike same a b)
    (hbc : same b c = true) : same a c = true := by
  rw [hab.congr h]
  exact hbc

/-- Every element is one of them, or of the class of an earlier one. -/
theorem exists_firstSeen (h : PartialEquiv same) {l : List α} {a : α} (ha : a ∈ l) :
    ∃ b ∈ firstSeen same l, Alike same b a := by
  induction l with
  | nil => cases ha
  | cons c l ih =>
    rcases List.mem_cons.mp ha with rfl | ha
    · exact ⟨a, List.mem_cons_self, .inl rfl⟩
    · obtain ⟨b, hb, halike⟩ := ih ha
      cases hcb : same c b with
      | false =>
        refine ⟨b, List.mem_cons_of_mem _ (List.mem_filter.mpr ⟨hb, ?_⟩), halike⟩
        rw [hcb]
        rfl
      | true =>
        refine ⟨c, List.mem_cons_self, .inr ?_⟩
        rcases halike with rfl | hba
        · exact hcb
        · exact h.trans hcb hba

theorem any_firstSeen (h : PartialEquiv same) (l : List α) (b : α) :
    (firstSeen same l).any (same · b) = l.any (same · b) := by
  rw [Bool.eq_iff_iff, List.any_eq_true, List.any_eq_true]
  constructor
  · rintro ⟨a, ha, hab⟩
    exact ⟨a, firstSeen_subset l a ha, hab⟩
  · rintro ⟨a, ha, hab⟩
    obtain ⟨c, hc, hca⟩ := exists_firstSeen h ha
    exact ⟨c, hc, hca.trans h hab⟩

theorem firstSeen_append (l m : List α) : firstSeen same (l ++ m)
    = firstSeen same l ++ (firstSeen same m).filter fun b => !l.any (same · b) := by
  induction l with
  | nil =>
    rw [List.nil_append]
    exact (List.filter_eq_self.mpr fun _ _ => rfl).symm
  | cons a l ih =>
    rw [List.cons_append, firstSeen, ih, List.filter_append, List.filter_filter, firstSeen,
      List.cons_append]
    congr 2
    apply List.filter_congr
    intro b _
    rw [List.any_cons, Bool.not_or]

/-- There is one of each class. -/
theorem firstSeen_unique (h : PartialEquiv same) {l : List α} {a b c : α}
    (ha : a ∈ firstSeen same l) (hb : b ∈ firstSeen same l) (hac : same a c = true)
    (hbc : same b c = true) : a = b := by
  by_contra hne
  have : Std.Symm fun x y => same x y = false := ⟨fun x y hxy => (h.comm y x).trans hxy⟩
  have hdistinct := (firstSeen_pairwise l).forall ha hb hne
  rw [h.trans hac (h.symm hbc)] at hdistinct
  cases hdistinct

/-- A list with one of each class is its own. -/
theorem firstSeen_eq_self {l : List α} (hl : l.Pairwise fun a b => same a b = false) :
    firstSeen same l = l := by
  induction l with
  | nil => rfl
  | cons a l ih =>
    obtain ⟨hhead, htail⟩ := List.pairwise_cons.mp hl
    rw [firstSeen, ih htail, List.filter_eq_self.mpr fun b hb => by rw [hhead b hb]; rfl]

/-! ## The best of a class -/

theorem best_cases (l : List α) (a : α) :
    best same good l a = a ∨ (best same good l a ∈ l ∧ same a (best same good l a) = true
      ∧ good (best same good l a) = true) := by
  unfold best
  cases hfind : l.find? fun b => same a b && good b with
  | none => exact .inl rfl
  | some b =>
    have hboth := List.find?_some hfind
    obtain ⟨hsame, hgood⟩ := Bool.and_eq_true_iff.mp hboth
    exact .inr ⟨List.mem_of_find?_eq_some hfind, hsame, hgood⟩

theorem alike_best (l : List α) (a : α) : Alike same a (best same good l a) := by
  rcases @best_cases α same good l a with heq | ⟨-, hsame, -⟩
  · exact .inl heq.symm
  · exact .inr hsame

theorem best_mem {l : List α} {a : α} (ha : a ∈ l) : best same good l a ∈ l := by
  rcases @best_cases α same good l a with heq | ⟨hmem, -⟩
  · rw [heq]
    exact ha
  · exact hmem

theorem good_best {l : List α} {a b : α} (hb : b ∈ l) (hsame : same a b = true)
    (hgood : good b = true) : good (best same good l a) = true := by
  unfold best
  cases hfind : l.find? fun b => same a b && good b with
  | none =>
    have hno := List.find?_eq_none.mp hfind b hb
    rw [hsame, hgood] at hno
    exact absurd rfl hno
  | some c =>
    have hboth := List.find?_some hfind
    exact (Bool.and_eq_true_iff.mp hboth).2

/-- The best of a class does not depend on who asks. -/
theorem find?_congr_class (h : PartialEquiv same) {a b : α} (hab : Alike same a b) (l : List α) :
    (l.find? fun c => same a c && good c) = l.find? fun c => same b c && good c := by
  have hfun : (fun c => same a c && good c) = fun c => same b c && good c := by
    funext c
    rw [hab.congr h]
  rw [hfun]

/-- Looking on from the best so far is looking on from the start. -/
theorem getD_best (h : PartialEquiv same) (l m : List α) (a : α) :
    best same good (l ++ m) (best same good l a) = best same good (l ++ m) a := by
  have hclass := @find?_congr_class _ _ good h _ _ (@alike_best α same good l a) (l ++ m)
  unfold best at hclass ⊢
  rw [← hclass, List.find?_append]
  cases l.find? fun b => same a b && good b with
  | none => rfl
  | some b => rfl

/-! ## The preferred ones -/

theorem preferred_subset (l : List α) : ∀ a ∈ preferred same good l, a ∈ l := by
  intro a ha
  obtain ⟨b, hb, rfl⟩ := List.mem_map.mp ha
  exact best_mem (firstSeen_subset l b hb)

theorem same_best (h : PartialEquiv same) (l m : List α) (a b : α) :
    same (best same good l a) (best same good m b) = same a b := by
  rw [← (alike_best l a).congr h, h.comm, ← (alike_best m b).congr h, h.comm]

/-- **There is one of each class.** -/
theorem preferred_pairwise (h : PartialEquiv same) (l : List α) :
    (preferred same good l).Pairwise fun a b => same a b = false := by
  rw [preferred, List.pairwise_map]
  refine (firstSeen_pairwise l).imp fun hab => ?_
  rw [same_best h]
  exact hab

theorem any_preferred (h : PartialEquiv same) (l : List α) (b : α) :
    (preferred same good l).any (same · b) = l.any (same · b) := by
  rw [← any_firstSeen h l b, preferred, List.any_map]
  congr 1
  funext a
  exact ((alike_best l a).congr h b).symm

/-- **What one more element changes** in a class: it takes the place of one that is not good when it
is good. -/
theorem best_concat (h : PartialEquiv same) {l : List α} (a : α) {b : α} (hb : b ∈ l) :
    best same good (l ++ [a]) b = if same b a && (good a && !good (best same good l b))
      then a else best same good l b := by
  unfold best
  rw [List.find?_append]
  cases hfind : l.find? fun c => same b c && good c with
  | some c =>
    have hboth := List.find?_some hfind
    rw [Option.some_or, Option.getD_some, (Bool.and_eq_true_iff.mp hboth).2, Bool.not_true,
      Bool.and_false, Bool.and_false]
    rfl
  | none =>
    rw [Option.none_or, Option.getD_none, List.find?_singleton]
    -- the first of the class stands for it, and is not good
    have hfirst : same b a = true → good b = false := by
      intro hba
      have hself : same b b = true := h.trans hba (h.symm hba)
      have hno := List.find?_eq_none.mp hfind b hb
      rw [hself, Bool.true_and] at hno
      exact Bool.eq_false_iff.mpr hno
    cases hba : same b a with
    | false => rfl
    | true =>
      rw [hfirst hba]
      cases good a <;> rfl

/-- An element of a new class stands for it. -/
theorem best_concat_new (h : PartialEquiv same) {l : List α} {a : α}
    (hnew : l.any (same · a) = false) : best same good (l ++ [a]) a = a := by
  have hnone : (l.find? fun b => same a b && good b) = none := by
    apply List.find?_eq_none.mpr
    intro b hb hboth
    have hba := h.symm (Bool.and_eq_true_iff.mp hboth).1
    exact List.any_eq_false.mp hnew b hb hba
  unfold best
  rw [List.find?_append, hnone, Option.none_or, List.find?_singleton]
  split <;> rfl

theorem firstSeen_concat (l : List α) (a : α) : firstSeen same (l ++ [a])
    = if l.any (same · a) then firstSeen same l else firstSeen same l ++ [a] := by
  have hone : firstSeen same [a] = [a] := rfl
  rw [firstSeen_append, hone]
  cases hany : l.any (same · a) with
  | true =>
    rw [List.filter_cons_of_neg (by simp [hany]), List.filter_nil, List.append_nil]
    rfl
  | false =>
    rw [List.filter_cons_of_pos (by simp [hany])]
    rfl

/-! ## Joining reduced lists -/

/-- In a list with one of each class there is one good one of a class at most. -/
theorem find?_eq_of_pairwise (h : PartialEquiv same) {l : List α}
    (hl : l.Pairwise fun a b => same a b = false) {a b : α} (hb : b ∈ l) (hab : same a b = true)
    (hgood : good b = true) : (l.find? fun c => same a c && good c) = some b := by
  induction l with
  | nil => cases hb
  | cons c l ih =>
    obtain ⟨hhead, htail⟩ := List.pairwise_cons.mp hl
    rcases List.mem_cons.mp hb with rfl | hb
    · exact List.find?_cons_of_pos (by simp [hab, hgood])
    · have hac : same a c = false := by
        cases hac : same a c with
        | false => rfl
        | true =>
          have hcb := h.trans (h.symm hac) hab
          rw [hhead b hb] at hcb
          cases hcb
      rw [List.find?_cons_of_neg (by simp [hac])]
      exact ih htail hb

/-- **The good one of a class is found in the reduced list as in the list.** -/
theorem find?_preferred (h : PartialEquiv same) (l : List α) (a : α) :
    ((preferred same good l).find? fun b => same a b && good b)
      = l.find? fun b => same a b && good b := by
  cases hfind : l.find? fun b => same a b && good b with
  | none =>
    apply List.find?_eq_none.mpr
    exact fun b hb => List.find?_eq_none.mp hfind b (preferred_subset l b hb)
  | some b =>
    have hboth := List.find?_some hfind
    obtain ⟨hab, hgood⟩ := Bool.and_eq_true_iff.mp hboth
    obtain ⟨c, hc, hcb⟩ := exists_firstSeen h (List.mem_of_find?_eq_some hfind)
    have hca : Alike same c a := by
      rcases hcb with rfl | hcb
      · exact .inr (h.symm hab)
      · exact .inr (h.trans hcb (h.symm hab))
    have hbest : best same good l c = b := by
      rw [best, find?_congr_class h hca, hfind]
      rfl
    have hmem : b ∈ preferred same good l := List.mem_map.mpr ⟨c, hc, hbest⟩
    exact find?_eq_of_pairwise h (preferred_pairwise h l) hmem hab hgood

theorem best_preferred_append (h : PartialEquiv same) (l m : List α) (a : α) :
    best same good (preferred same good l ++ m) a = best same good (l ++ m) a := by
  rw [best, List.find?_append, find?_preferred h, ← List.find?_append, best]

theorem best_append_preferred (h : PartialEquiv same) (l m : List α) (a : α) :
    best same good (l ++ preferred same good m) a = best same good (l ++ m) a := by
  rw [best, List.find?_append, find?_preferred h, ← List.find?_append, best]

theorem preferred_append (l m : List α) : preferred same good (l ++ m)
    = (firstSeen same l).map (best same good (l ++ m))
      ++ ((firstSeen same m).filter fun b => !l.any (same · b)).map (best same good (l ++ m)) := by
  rw [preferred, firstSeen_append, List.map_append]

theorem preferred_append_left (h : PartialEquiv same) (l m : List α) :
    preferred same good (preferred same good l ++ m) = preferred same good (l ++ m) := by
  rw [preferred_append, preferred_append, firstSeen_eq_self (preferred_pairwise h l)]
  simp only [any_preferred h l]
  congr 1
  · conv_lhs => rw [preferred]
    rw [List.map_map]
    apply List.map_congr_left
    intro a _
    show best same good (preferred same good l ++ m) (best same good l a) = _
    rw [best_preferred_append h, getD_best h]
  · exact List.map_congr_left fun a _ => best_preferred_append h l m a

theorem preferred_append_right (h : PartialEquiv same) (l m : List α) :
    preferred same good (l ++ preferred same good m) = preferred same good (l ++ m) := by
  have hfun : best same good (l ++ preferred same good m) = best same good (l ++ m) :=
    funext fun a => best_append_preferred h l m a
  rw [preferred_append, preferred_append, firstSeen_eq_self (preferred_pairwise h m), hfun]
  congr 1
  have hkept : ∀ b, (!l.any (same · (best same good m b))) = !l.any (same · b) := by
    intro b
    congr 2
    funext a
    rw [h.comm, ← (alike_best m b).congr h, h.comm]
  rw [preferred, List.filter_map, List.map_map]
  have hcomp : ((fun b => !l.any (same · b)) ∘ best same good m) = fun b => !l.any (same · b) :=
    funext hkept
  rw [hcomp]
  apply List.map_congr_left
  intro b hb
  -- nothing before is of its class, so the best of the rest is the best of all
  have hnone : (l.find? fun c => same b c && good c) = none := by
    apply List.find?_eq_none.mpr
    intro c hc hboth
    have hnew := (List.mem_filter.mp hb).2
    have hany : l.any (same · b) = true :=
      List.any_eq_true.mpr ⟨c, hc, h.symm (Bool.and_eq_true_iff.mp hboth).1⟩
    rw [hany] at hnew
    cases hnew
  have hrest : best same good (l ++ m) b = best same good m b := by
    rw [best, List.find?_append, hnone, Option.none_or, best]
  show best same good (l ++ m) (best same good m b) = best same good (l ++ m) b
  have hnone' :=
    (@find?_congr_class _ _ good h _ _ (@alike_best α same good m b) l).symm.trans hnone
  rw [hrest, best, List.find?_append, hnone', Option.none_or, ← best]
  have hsame := @getD_best _ _ good h m [] b
  rw [List.append_nil] at hsame
  exact hsame

/-- **Lists that are reduced before they are joined give the same.** -/
theorem preferred_join (h : PartialEquiv same) (ls : List (List α)) :
    preferred same good (ls.map (preferred same good)).flatten
      = preferred same good ls.flatten := by
  induction ls with
  | nil => rfl
  | cons l ls ih =>
    rw [List.map_cons, List.flatten_cons, List.flatten_cons, preferred_append_left h,
      ← preferred_append_right h, ih, preferred_append_right h]

/-- **What is not good never stands for a class that has a good one.** -/
theorem good_of_preferred (h : PartialEquiv same) {l : List α} {a b : α}
    (ha : a ∈ preferred same good l) (hb : b ∈ l) (hab : same a b = true) (hgood : good b = true) :
    good a = true := by
  obtain ⟨c, -, rfl⟩ := List.mem_map.mp ha
  refine good_best hb ?_ hgood
  rw [(alike_best l c).congr h]
  exact hab

end Preferred
