import Mathlib.Data.Set.Function
import Mathlib.Logic.Function.Basic

/-!
# Copy-on-write journals

A store maps addresses to values, and a handle writes at its address `loc k`; two handles may share
one. A journal saves what a handle reads the first time it is written through. `rollback` writes
the saved values back in the order they were saved.

`rollback_of_writes` is the rule: through handles with addresses of their own, a rollback restores
the store. `changed_of_writes` says what a run of writes can have changed.
-/

namespace Systems

structure Journal (κ α β : Type) where
  store : α → β
  saved : List (κ × β)

namespace Journal

variable {κ α β : Type} [DecidableEq κ] [DecidableEq α] (loc : κ → α)

def start (store : α → β) : Journal κ α β := ⟨store, []⟩

def write (k : κ) (b : β) (j : Journal κ α β) : Journal κ α β where
  store := Function.update j.store (loc k) b
  saved := if k ∈ j.saved.map Prod.fst then j.saved else j.saved ++ [(k, j.store (loc k))]

theorem store_write (k : κ) (b : β) (j : Journal κ α β) :
    (j.write loc k b).store = Function.update j.store (loc k) b := rfl

def rollback (j : Journal κ α β) : α → β :=
  j.saved.foldl (fun store e => Function.update store (loc e.1) e.2) j.store

/-- What writes through the handles of a set lead to. -/
inductive Writes (K : Set κ) (j : Journal κ α β) : Journal κ α β → Prop where
  | refl : Writes K j j
  | write {j' : Journal κ α β} {k : κ} (h : Writes K j j') (hk : k ∈ K) (b : β) :
      Writes K j (j'.write loc k b)

variable {loc} {K : Set κ} {store : α → β} {j : Journal κ α β}

/-- The saves are reads of the first store, and cover what has changed since. -/
structure Tracks (loc : κ → α) (K : Set κ) (store : α → β) (j : Journal κ α β) : Prop where
  saved : ∀ e ∈ j.saved, e.1 ∈ K ∧ e.2 = store (loc e.1)
  changed : ∀ a, j.store a ≠ store a → ∃ e ∈ j.saved, loc e.1 = a

omit [DecidableEq κ] [DecidableEq α] in
theorem tracks_start : Tracks loc K store (start store) where
  saved e he := by cases he
  changed a ha := absurd rfl ha

theorem Tracks.write (h : Tracks loc K store j) (hinj : Set.InjOn loc K) {k : κ} (hk : k ∈ K)
    (b : β) : Tracks loc K store (j.write loc k b) := by
  by_cases hmem : k ∈ j.saved.map Prod.fst
  · have hsaved : (j.write loc k b).saved = j.saved := if_pos hmem
    refine ⟨by rw [hsaved]; exact h.saved, fun a ha => ?_⟩
    rw [hsaved]
    by_cases hloc : a = loc k
    · obtain ⟨e, he, hek⟩ := List.mem_map.mp hmem
      exact ⟨e, he, by rw [hek, hloc]⟩
    · exact h.changed a (by rwa [store_write, Function.update_of_ne hloc] at ha)
  · have hsaved : (j.write loc k b).saved = j.saved ++ [(k, j.store (loc k))] := if_neg hmem
    -- another handle of this address would have been saved, and be this one
    have hread : j.store (loc k) = store (loc k) := by
      by_contra hne
      obtain ⟨e, he, hloc⟩ := h.changed _ hne
      refine hmem (List.mem_map.mpr ⟨e, he, ?_⟩)
      exact hinj (h.saved e he).1 hk hloc
    constructor
    · intro e he
      rw [hsaved] at he
      rcases List.mem_append.mp he with he | he
      · exact h.saved e he
      · rw [List.mem_singleton.mp he]
        exact ⟨hk, hread⟩
    · intro a ha
      rw [hsaved]
      by_cases hloc : a = loc k
      · exact ⟨_, List.mem_append_right _ (List.mem_singleton_self _), hloc.symm⟩
      · obtain ⟨e, he, hea⟩ :=
          h.changed a (by rwa [store_write, Function.update_of_ne hloc] at ha)
        exact ⟨e, List.mem_append_left _ he, hea⟩

omit [DecidableEq κ] in
/-- Writing reads of a store back leaves its value wherever one is written. -/
theorem foldl_update_apply (saved : List (κ × β)) (now : α → β) (a : α)
    (hsaved : ∀ e ∈ saved, e.2 = store (loc e.1))
    (hnow : now a = store a ∨ ∃ e ∈ saved, loc e.1 = a) :
    saved.foldl (fun s e => Function.update s (loc e.1) e.2) now a = store a := by
  induction saved generalizing now with
  | nil =>
    rcases hnow with h | ⟨e, he, -⟩
    · exact h
    · cases he
  | cons e saved ih =>
    refine ih _ (fun e' he' => hsaved e' (List.mem_cons_of_mem _ he')) ?_
    dsimp only
    by_cases hloc : a = loc e.1
    · refine Or.inl ?_
      rw [hloc, Function.update_self]
      exact hsaved e (List.mem_cons_self ..)
    · rw [Function.update_of_ne hloc]
      rcases hnow with h | ⟨e', he', hea⟩
      · exact Or.inl h
      · rcases List.mem_cons.mp he' with rfl | he'
        · exact absurd hea.symm hloc
        · exact Or.inr ⟨e', he', hea⟩

omit [DecidableEq κ] in
theorem Tracks.rollback (h : Tracks loc K store j) : j.rollback loc = store := by
  funext a
  refine foldl_update_apply j.saved j.store a (fun e he => (h.saved e he).2) ?_
  by_cases ha : j.store a = store a
  · exact Or.inl ha
  · exact Or.inr (h.changed a ha)

/-- **A rollback restores the store**, when the handles have addresses of their own. -/
theorem rollback_of_writes (hinj : Set.InjOn loc K) (h : Writes loc K (start store) j) :
    j.rollback loc = store := by
  have htracks : Tracks loc K store j := by
    induction h with
    | refl => exact tracks_start
    | write _ hk b ih => exact ih.write hinj hk b
  exact htracks.rollback

/-- Writes change the addresses of their handles only. -/
theorem changed_of_writes {j' : Journal κ α β} (h : Writes loc K j j') {a : α}
    (ha : j'.store a ≠ j.store a) : ∃ k ∈ K, loc k = a := by
  induction h with
  | refl => exact absurd rfl ha
  | @write j' k _ hk b ih =>
    by_cases hloc : a = loc k
    · exact ⟨k, hk, hloc.symm⟩
    · exact ih (by rwa [store_write, Function.update_of_ne hloc] at ha)

end Journal

end Systems
