import NeuraHash.Python.JsonText

/-!
# Sorting by key

The keys of a dictionary can be told apart, but not every two of them can be ordered: `sorted` over
keys raises `TypeError` as soon as a number meets a text or a `None`. `sortedBy` is `sorted` of
entries that carry such a key; `sortedBy_sortedBy` says that what is sorted stays as it is.
-/

namespace Py

/-! ## Insertion sort without transitivity

A `nan` among the keys is in order with everything, so the order of the keys is total but not
transitive. A sort still orders neighbours, and that is all the lemmas of this section use.
-/

section Neighbours

variable {α : Type} {r : α → α → Prop} [DecidableRel r]

/-- Insertion puts an entry behind one that it is not in order with. -/
theorem isChain_orderedInsert (htotal : ∀ a b, r a b ∨ r b a) (a : α) {l : List α}
    (h : l.IsChain r) : (l.orderedInsert r a).IsChain r := by
  induction l with
  | nil => exact List.isChain_singleton a
  | cons b l ih =>
    rw [List.orderedInsert_cons]
    split
    · next hab => exact List.isChain_cons_cons.mpr ⟨hab, h⟩
    · next hab =>
      have hba : r b a := (htotal a b).resolve_left hab
      cases l with
      | nil => exact List.isChain_cons_cons.mpr ⟨hba, List.isChain_singleton a⟩
      | cons c l =>
        obtain ⟨hbc, hrest⟩ := List.isChain_cons_cons.mp h
        have hinsert := ih hrest
        rw [List.orderedInsert_cons] at hinsert ⊢
        split at hinsert
        · next hac =>
          rw [if_pos hac]
          exact List.isChain_cons_cons.mpr ⟨hba, hinsert⟩
        · next hac =>
          rw [if_neg hac]
          exact List.isChain_cons_cons.mpr ⟨hbc, hinsert⟩

theorem isChain_insertionSort (htotal : ∀ a b, r a b ∨ r b a) (l : List α) :
    (l.insertionSort r).IsChain r := by
  induction l with
  | nil => exact List.isChain_nil
  | cons a l ih => exact isChain_orderedInsert htotal a ih

/-- A list whose neighbours are in order stays as it is. -/
theorem insertionSort_of_isChain {l : List α} (h : l.IsChain r) : l.insertionSort r = l := by
  induction l with
  | nil => rfl
  | cons a l ih =>
    rw [List.insertionSort_cons, ih h.tail]
    cases l with
    | nil => rfl
    | cons b l =>
      rw [List.orderedInsert_cons, if_pos (List.isChain_cons_cons.mp h).1]

end Neighbours

/-! ## The order of the keys -/

namespace Key

/-- `a < b` does not raise. -/
def comparable : Key → Key → Bool
  | num _, num _ => true
  | str _, str _ => true
  | _, _ => false

/-- `not b < a`, as a sort uses it. -/
def sortLe : Key → Key → Bool
  | num x, num y => !PyFloat.lt y x
  | str a, str b => decide (a ≤ b)
  | _, _ => true

theorem comparable_comm (a b : Key) : comparable a b = comparable b a := by
  cases a <;> cases b <;> rfl

theorem sortLe_total (a b : Key) : sortLe a b = true ∨ sortLe b a = true := by
  cases a with
  | num x =>
    cases b with
    | num y =>
      have hlt : PyFloat.lt y x = false ∨ PyFloat.lt x y = false := by
        cases x <;> cases y <;> simp [PyFloat.lt, le_total]
      simpa [sortLe] using hlt
    | _ => exact .inl rfl
  | str s =>
    cases b with
    | str t => simpa [sortLe] using le_total s t
    | _ => exact .inl rfl
  | none => exact .inl rfl

end Key

/-! ## `sorted` -/

section SortedBy

variable {α : Type} (key : α → Key)

/-- Every two keys can be ordered. -/
def Orderable (l : List α) : Prop :=
  l.Pairwise fun a b => (key a).comparable (key b) = true

instance (l : List α) : Decidable (Orderable key l) :=
  inferInstanceAs (Decidable (List.Pairwise _ _))

/-- `sorted(l)` of entries with distinct keys: it raises as soon as two of the keys cannot be
ordered. -/
def sortedBy (l : List α) : Except PyErr (List α) :=
  if Orderable key l then .ok (l.insertionSort fun a b => (key a).sortLe (key b) = true)
  else .error .typeError

variable {key}

theorem orderable_perm {l l' : List α} (h : l.Perm l') : Orderable key l ↔ Orderable key l' :=
  h.pairwise_iff fun {a b} hab => by rw [Key.comparable_comm]; exact hab

theorem sortedBy_eq_ok {l l' : List α} :
    sortedBy key l = .ok l' ↔
      Orderable key l ∧ l' = l.insertionSort fun a b => (key a).sortLe (key b) = true := by
  unfold sortedBy
  split
  · next h => rw [and_iff_right h, Except.ok.injEq, eq_comm]
  · next h => exact iff_of_false (fun h' => by cases h') (fun h' => h h'.1)

theorem sortedBy_perm {l l' : List α} (h : sortedBy key l = .ok l') : l'.Perm l := by
  rw [(sortedBy_eq_ok.mp h).2]
  exact List.perm_insertionSort _ _

/-- **What is sorted stays as it is.** -/
theorem sortedBy_sortedBy {l l' : List α} (h : sortedBy key l = .ok l') :
    sortedBy key l' = .ok l' := by
  refine sortedBy_eq_ok.mpr ⟨(orderable_perm (sortedBy_perm h)).mpr (sortedBy_eq_ok.mp h).1, ?_⟩
  rw [(sortedBy_eq_ok.mp h).2]
  refine (insertionSort_of_isChain (isChain_insertionSort (fun a b => ?_) l)).symm
  exact Key.sortLe_total (key a) (key b)

end SortedBy

/-! ## Sets from lists -/

namespace PySet

variable {α : Type} [DecidableEq α]

/-- `set(l)`. -/
def ofList (l : List α) : PySet α := Dict.ofList (l.map fun a => (a, ()))

/-- A list without repetitions is kept as it is. -/
theorem keys_ofList {l : List α} (h : l.Nodup) : (ofList l).keys = l := by
  have hfst : (l.map fun a => (a, ())).map Prod.fst = l := by
    rw [List.map_map]
    exact List.map_id l
  unfold ofList Dict.keys
  rw [Dict.entries_ofList (by rw [hfst]; exact h), hfst]

/-- Sets with the same members in the same order. -/
theorem ext_keys {s s' : PySet α} (h : s.keys = s'.keys) : s = s' :=
  Dict.ext_get? h fun k => by
    cases hk : s.get? k with
    | none =>
      rw [Dict.get?_eq_none_iff, h, ← Dict.get?_eq_none_iff] at hk
      exact hk.symm
    | some u =>
      obtain ⟨u', hu'⟩ := Dict.mem_keys_iff.mp (h ▸ Dict.mem_keys_iff.mpr ⟨u, hk⟩)
      rw [hu']

end PySet

/-! ## Keys in JSON -/

/-- A key as an item of a list. The kind of a number (`1`, `1.0` or `True`) is not kept in a `Key`,
so `number` says how it is held. -/
def Key.toJson (number : PyFloat → Json) : Key → Json
  | none => .null
  | num x => number x
  | str s => .str s

/-- A key as the key of an object. -/
def Key.text (T : PyText) (number : PyFloat → Json) : Key → String
  | none => "null"
  | num x => String.ofList (Json.scalarText T (number x))
  | str s => s

end Py
