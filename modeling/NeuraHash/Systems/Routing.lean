import NeuraHash.Systems.Chunks
import Mathlib.Logic.Function.Basic
import Mathlib.Data.List.Perm.Basic
import Mathlib.Logic.Equiv.Defs

/-!
# Routing items to owners

Every item of a list has an owner. A pass over the list, chunk by chunk, appends the items of each
owner in a chunk to that owner's file. Whatever the chunk size, a file ends up with its owner's items
in the order of the list (`routed_eq`), and the files together hold the items of the list, each as
often as the list does (`perm_flatMap_ownedBy`).
-/

namespace Systems

variable {α κ : Type} [DecidableEq κ]

/-- The items of an owner, in order. -/
def ownedBy (p : κ) (owned : List (α × κ)) : List α :=
  (owned.filter fun e => e.2 = p).map Prod.fst

theorem ownedBy_append (p : κ) (l l' : List (α × κ)) :
    ownedBy p (l ++ l') = ownedBy p l ++ ownedBy p l' := by
  unfold ownedBy
  rw [List.filter_append, List.map_append]

theorem ownedBy_cons (p : κ) (e : α × κ) (l : List (α × κ)) :
    ownedBy p (e :: l) = if e.2 = p then e.1 :: ownedBy p l else ownedBy p l := by
  unfold ownedBy
  by_cases h : e.2 = p <;> simp [h]

theorem ownedBy_flatMap {β : Type} (p : κ) (f : β → List (α × κ)) (l : List β) :
    ownedBy p (l.flatMap f) = l.flatMap fun b => ownedBy p (f b) := by
  induction l with
  | nil => rfl
  | cons b l ih => rw [List.flatMap_cons, List.flatMap_cons, ownedBy_append, ih]

theorem ownedBy_eq_nil {p : κ} {l : List (α × κ)} (h : p ∉ l.map Prod.snd) : ownedBy p l = [] := by
  unfold ownedBy
  rw [List.map_eq_nil_iff, List.filter_eq_nil_iff]
  intro e he heq
  apply h
  rw [← of_decide_eq_true heq]
  exact List.mem_map_of_mem he

theorem length_ownedBy (p : κ) (l : List (α × κ)) :
    (ownedBy p l).length = (l.map Prod.snd).count p := by
  induction l with
  | nil => rfl
  | cons e l ih =>
    rw [ownedBy_cons, List.map_cons, List.count_cons]
    by_cases h : e.2 = p <;> simp [h, ih]

/-- The items of an owner stand in the order of the list. -/
theorem ownedBy_sublist (p : κ) (l : List (α × κ)) : (ownedBy p l).Sublist (l.map Prod.fst) :=
  List.filter_sublist.map Prod.fst

/-! ## One chunk -/

/-- An owner's items of a chunk are appended to its file. -/
def deliver (block : List (α × κ)) (files : κ → List α) (p : κ) : κ → List α :=
  Function.update files p (files p ++ ownedBy p block)

theorem foldl_deliver {ps : List κ} (hnodup : ps.Nodup) (block : List (α × κ)) (files : κ → List α)
    (p : κ) : (ps.foldl (deliver block) files) p
      = if p ∈ ps then files p ++ ownedBy p block else files p := by
  induction ps generalizing files with
  | nil => simp
  | cons q ps ih =>
    obtain ⟨hq, hps⟩ := List.nodup_cons.mp hnodup
    rw [List.foldl_cons, ih hps]
    unfold deliver
    by_cases hpq : p = q
    · subst hpq
      simp [hq]
    · simp [hpq]

/-! ## The pass -/

/-- The files after a pass in chunks of `k`; `unique` lists the owners of a chunk. -/
def routed (unique : List κ → List κ) (owned : List (α × κ)) (k : ℕ) : κ → List α :=
  (starts owned.length k).foldl (fun files c =>
    let block := (owned.drop c).take k
    (unique (block.map Prod.snd)).foldl (deliver block) files) fun _ => []

variable {unique : List κ → List κ}

/-- **A file holds its owner's items, in order.** -/
theorem routed_eq (hnodup : ∀ l, (unique l).Nodup) (hmem : ∀ l p, p ∈ unique l ↔ p ∈ l)
    (owned : List (α × κ)) {k : ℕ} (hk : 1 ≤ k) (p : κ) :
    routed unique owned k p = ownedBy p owned := by
  -- after some chunks, a file holds its owner's items of those chunks
  have hchunks : ∀ (cs : List ℕ) (files : κ → List α),
      (cs.foldl (fun files c =>
        (unique (((owned.drop c).take k).map Prod.snd)).foldl (deliver ((owned.drop c).take k))
          files) files) p
        = files p ++ cs.flatMap fun c => ownedBy p ((owned.drop c).take k) := by
    intro cs
    induction cs with
    | nil => simp
    | cons c cs ih =>
      intro files
      rw [List.foldl_cons, ih, foldl_deliver (hnodup _), List.flatMap_cons]
      by_cases hp : p ∈ unique (((owned.drop c).take k).map Prod.snd)
      · rw [if_pos hp, List.append_assoc]
      · rw [if_neg hp, ownedBy_eq_nil (mt (hmem _ p).mpr hp), List.nil_append]
  unfold routed
  rw [hchunks, List.nil_append, ← ownedBy_flatMap, flatMap_slices owned hk]

/-- **The files together hold every item once.** -/
theorem perm_flatMap_ownedBy {ps : List κ} (hnodup : ps.Nodup) (owned : List (α × κ))
    (hcover : ∀ e ∈ owned, e.2 ∈ ps) :
    (ps.flatMap fun p => ownedBy p owned).Perm (owned.map Prod.fst) := by
  induction owned with
  | nil => simp [ownedBy]
  | cons e owned ih =>
    have hrest := ih fun e' he' => hcover e' (List.mem_cons_of_mem _ he')
    obtain ⟨a, b, rfl⟩ := List.append_of_mem (hcover e (List.mem_cons_self ..))
    have hne : ∀ p ∈ a ++ b, e.2 ≠ p := by
      intro p hp heq
      have hmiddle := List.perm_middle.nodup_iff.mp hnodup
      exact (List.nodup_cons.mp hmiddle).1 (heq ▸ hp)
    have hsame : ∀ l : List κ, (∀ p ∈ l, e.2 ≠ p) →
        (l.flatMap fun p => ownedBy p (e :: owned)) = l.flatMap fun p => ownedBy p owned := by
      intro l hl
      exact List.flatMap_congr fun p hp => by rw [ownedBy_cons, if_neg (hl p hp)]
    rw [List.flatMap_append, List.flatMap_cons] at hrest ⊢
    rw [hsame a fun p hp => hne p (List.mem_append_left _ hp),
      hsame b fun p hp => hne p (List.mem_append_right _ hp), ownedBy_cons, if_pos rfl,
      List.cons_append, List.map_cons]
    exact List.perm_middle.trans (hrest.cons e.1)

/-! ## Assigning owners -/

/-- Values written to the places a permutation gives, over what stood there. -/
def scatter {n : ℕ} {β : Type} (perm : Equiv.Perm (Fin n)) (value : Fin n → β) (a : Fin n → β) :
    Fin n → β :=
  (List.finRange n).foldl (fun a i => Function.update a (perm i) (value i)) a

/-- **Every place is written, once.** -/
theorem scatter_eq {n : ℕ} {β : Type} (perm : Equiv.Perm (Fin n)) (value a : Fin n → β) :
    scatter perm value a = value ∘ perm.symm := by
  have hwritten : ∀ (is : List (Fin n)) (a : Fin n → β) (r : Fin n),
      (is.foldl (fun a i => Function.update a (perm i) (value i)) a) r
        = if perm.symm r ∈ is then value (perm.symm r) else a r := by
    intro is
    induction is with
    | nil => simp
    | cons i is ih =>
      intro a r
      rw [List.foldl_cons, ih]
      by_cases hi : perm.symm r = i
      · have hr : r = perm i := (Equiv.symm_apply_eq perm).mp hi
        simp [hr]
      · have hr : r ≠ perm i := fun h => hi ((Equiv.symm_apply_eq perm).mpr h)
        simp [hi, hr]
  funext r
  unfold scatter
  rw [hwritten, if_pos (List.mem_finRange _)]
  rfl

end Systems
