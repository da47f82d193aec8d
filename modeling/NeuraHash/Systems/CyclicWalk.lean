import Mathlib.Data.List.Rotate

/-!
# Walking round a list

From an entry of a list the walk goes to the entries after it and then to those before it; from
anything else it goes through the list from the front. `others` is the list of the stops, and
`successor` the first of them. Going to the successor again and again visits every entry once in
each round (`visited_perm`).
-/

namespace CyclicWalk

variable {α : Type} [DecidableEq α] [BEq α] [LawfulBEq α]

/-- The place after `cur`. -/
def start (order : List α) (cur : α) : ℕ := if cur ∈ order then order.idxOf cur + 1 else 0

/-- The stops of the walk from `cur`. -/
def others (order : List α) (cur : α) : List α :=
  (order.rotate (start order cur)).filter (· ≠ cur)

def successor (order : List α) (cur : α) : Option α := (others order cur).head?

variable {order : List α} {cur : α}

theorem mem_others {a : α} : a ∈ others order cur ↔ a ∈ order ∧ a ≠ cur := by
  unfold others
  rw [List.mem_filter, List.mem_rotate, decide_eq_true_eq]

theorem nodup_others (hnd : order.Nodup) : (others order cur).Nodup :=
  (List.nodup_rotate.mpr hnd).filter _

/-- Among two entries or more, the successor is the next one of the list. -/
theorem successor_eq (hnd : order.Nodup) (hlen : 2 ≤ order.length) :
    successor order cur = order[start order cur % order.length]? := by
  have hpos : 0 < order.length := by omega
  have hhead : (order.rotate (start order cur)).head? = order[start order cur % order.length]? := by
    rw [← List.rotate_mod, List.head?_rotate (Nat.mod_lt _ hpos)]
  rw [← hhead]
  unfold successor others
  cases hrotate : order.rotate (start order cur) with
  | nil => rfl
  | cons a t =>
    -- the entry after `cur` is another one
    have hne : a ≠ cur := by
      rintro rfl
      have hmem : a ∈ order := List.mem_rotate.mp (hrotate ▸ List.mem_cons_self)
      have hidx : order.idxOf a < order.length := List.idxOf_lt_length_iff.mpr hmem
      have hfirst : order[(order.idxOf a + 1) % order.length]? = some a := by
        rw [← (show start order a = order.idxOf a + 1 from if_pos hmem), ← hhead, hrotate]
        rfl
      obtain ⟨hlt, hget⟩ := List.getElem?_eq_some_iff.mp hfirst
      have hsame := hnd.idxOf_getElem _ hlt
      rw [hget] at hsame
      rcases Nat.lt_or_ge (order.idxOf a + 1) order.length with hin | hout
      · rw [Nat.mod_eq_of_lt hin] at hsame
        omega
      · rw [show order.idxOf a + 1 = order.length by omega, Nat.mod_self] at hsame
        omega
    rw [List.filter_cons_of_pos (by simpa using hne)]
    rfl

/-- The stops of a walk, each the successor of the one before. -/
inductive Visits (order : List α) : α → List α → Prop where
  | nil (cur : α) : Visits order cur []
  | cons {cur next : α} {rest : List α} (h : successor order cur = some next)
      (hrest : Visits order next rest) : Visits order cur (next :: rest)

/-- **As many steps as there are entries** visit them in the order of the list. -/
theorem visited_eq (hnd : order.Nodup) (hlen : 2 ≤ order.length) {visited : List α}
    (h : Visits order cur visited) (hle : visited.length ≤ order.length) :
    visited = (order.rotate (start order cur)).take visited.length := by
  induction h with
  | nil cur => simp
  | @cons cur next rest hnext hrest ih =>
    have hpos : 0 < order.length := by omega
    rw [successor_eq hnd hlen] at hnext
    obtain ⟨hlt, hget⟩ := List.getElem?_eq_some_iff.mp hnext
    have hhead : (order.rotate (start order cur)).head? = some next := by
      rw [← List.rotate_mod, List.head?_rotate hlt, hnext]
    obtain ⟨t, ht⟩ : ∃ t, order.rotate (start order cur) = next :: t :=
      ⟨_, (List.cons_head?_tail hhead).symm⟩
    have hstart : start order next = start order cur % order.length + 1 := by
      have hmem : next ∈ order := hget ▸ List.getElem_mem _
      show (if next ∈ order then _ else _) = _
      rw [if_pos hmem, ← hget, hnd.idxOf_getElem _ hlt]
    -- the walk goes on where the rotated list does
    have hrotate : order.rotate (start order next) = t ++ [next] := by
      rw [hstart, ← List.rotate_rotate, List.rotate_mod, ht, List.rotate_cons_succ, List.rotate_zero]
    have hlength : t.length + 1 = order.length := by
      rw [← List.length_rotate order (start order cur), ht, List.length_cons]
    rw [List.length_cons] at hle
    have hrest' := ih (by omega)
    rw [hrotate, List.take_append_of_le_length (by omega)] at hrest'
    rw [ht, List.length_cons, List.take_succ_cons, ← hrest']

/-- **A full round visits every entry once.** -/
theorem visited_perm (hnd : order.Nodup) (hlen : 2 ≤ order.length) {visited : List α}
    (h : Visits order cur visited) (hround : visited.length = order.length) :
    visited.Perm order := by
  have heq := visited_eq hnd hlen h hround.le
  rw [hround, List.take_of_length_le (List.length_rotate _ _).le] at heq
  rw [heq]
  exact List.rotate_perm order _

end CyclicWalk
