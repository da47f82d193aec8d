import Mathlib
import NeuraHash.Python.Lists

/-!
# Insertion-ordered dictionaries

`Dict α β` is a Python `dict`: a list of `(key, value)` pairs in insertion order whose keys
are distinct. The invariant is a field, so a dictionary with a repeated key cannot be built.
`set` overwrites in place or appends, `erase` drops a key, `ofList` inserts pairs one after
the other (a later pair wins, as `json.loads` does for a repeated object key).

Besides the lookup equations, the file proves how the sum of a measure over the values moves
under `set` and `erase` (`sumBy_set`, `sumBy_erase`); conservation proofs about ledgers rest
on these two.
-/

namespace Py

structure Dict (α β : Type) [DecidableEq α] where
  entries : List (α × β)
  nodup : (entries.map Prod.fst).Nodup

namespace Dict

variable {α β γ : Type} [DecidableEq α]

theorem ext_entries {d d' : Dict α β} (h : d.entries = d'.entries) : d = d' := by
  cases d
  cases d'
  cases h
  rfl

/-- Dictionaries with the same pairs in the same order. -/
instance [DecidableEq β] : DecidableEq (Dict α β) := fun d d' =>
  decidable_of_iff (d.entries = d'.entries) ⟨ext_entries, congrArg entries⟩

/-! ## Lookup -/

/-- The value bound to `k` in a list of pairs (the first one). -/
def lookup (k : α) : List (α × β) → Option β
  | [] => none
  | (a, b) :: t => if a = k then some b else lookup k t

def get? (d : Dict α β) (k : α) : Option β := lookup k d.entries

/-- `d.get(k, default)`. -/
def getD (d : Dict α β) (k : α) (default : β) : β := (d.get? k).getD default

/-- `k in d`. -/
def contains (d : Dict α β) (k : α) : Bool := (d.get? k).isSome

def keys (d : Dict α β) : List α := d.entries.map Prod.fst

def values (d : Dict α β) : List β := d.entries.map Prod.snd

def size (d : Dict α β) : ℕ := d.entries.length

theorem lookup_eq_some_of_mem {k : α} {v : β} {l : List (α × β)}
    (hnd : (l.map Prod.fst).Nodup) (h : (k, v) ∈ l) : lookup k l = some v := by
  induction l with
  | nil => simp at h
  | cons p t ih =>
    obtain ⟨a, b⟩ := p
    simp only [List.map_cons, List.nodup_cons] at hnd
    rcases List.mem_cons.mp h with heq | hmem
    · simp only [Prod.mk.injEq] at heq
      simp [lookup, heq.1, heq.2]
    · have hne : a ≠ k := by
        rintro rfl
        exact hnd.1 (List.mem_map.mpr ⟨_, hmem, rfl⟩)
      simp [lookup, hne, ih hnd.2 hmem]

theorem mem_of_lookup {k : α} {v : β} {l : List (α × β)} (h : lookup k l = some v) :
    (k, v) ∈ l := by
  induction l with
  | nil => simp [lookup] at h
  | cons p t ih =>
    obtain ⟨a, b⟩ := p
    by_cases hak : a = k
    · simp only [lookup, hak, if_true, Option.some.injEq] at h
      simp [hak, h]
    · simp only [lookup, hak, if_false] at h
      exact List.mem_cons_of_mem _ (ih h)

/-- A pair is an entry exactly when the lookup finds it. -/
theorem mem_entries_iff {d : Dict α β} {k : α} {v : β} :
    (k, v) ∈ d.entries ↔ d.get? k = some v :=
  ⟨lookup_eq_some_of_mem d.nodup, mem_of_lookup⟩

theorem lookup_eq_none_iff {k : α} {l : List (α × β)} :
    lookup k l = none ↔ k ∉ l.map Prod.fst := by
  induction l with
  | nil => simp [lookup]
  | cons p t ih =>
    obtain ⟨a, b⟩ := p
    by_cases hak : a = k
    · simp [lookup, hak]
    · simp [lookup, hak, ih, Ne.symm hak]

theorem get?_eq_none_iff {d : Dict α β} {k : α} : d.get? k = none ↔ k ∉ d.keys :=
  lookup_eq_none_iff

theorem mem_keys_iff {d : Dict α β} {k : α} : k ∈ d.keys ↔ ∃ v, d.get? k = some v := by
  rw [← not_iff_not, ← get?_eq_none_iff, Option.eq_none_iff_forall_ne_some]
  push Not
  rfl

theorem contains_iff {d : Dict α β} {k : α} : d.contains k = true ↔ ∃ v, d.get? k = some v :=
  Option.isSome_iff_exists

/-- A dictionary is its keys in order and what each is bound to. -/
theorem ext_get? {d d' : Dict α β} (hkeys : d.keys = d'.keys)
    (hget : ∀ k, d.get? k = d'.get? k) : d = d' := by
  refine ext_entries ?_
  obtain ⟨l, hl⟩ := d
  obtain ⟨l', hl'⟩ := d'
  show l = l'
  change l.map Prod.fst = l'.map Prod.fst at hkeys
  refine List.ext_getElem (by simpa using congrArg List.length hkeys) fun i hi hi' => ?_
  have hfst : l[i].1 = l'[i].1 := by
    have h := congrArg (·[i]?) hkeys
    simpa [hi, hi'] using h
  have hleft : lookup l[i].1 l = some l[i].2 := lookup_eq_some_of_mem hl (List.getElem_mem hi)
  have hright : lookup l[i].1 l' = some l'[i].2 := by
    rw [hfst]
    exact lookup_eq_some_of_mem hl' (List.getElem_mem hi')
  have hsame : lookup l[i].1 l = lookup l[i].1 l' := hget l[i].1
  rw [hleft, hright] at hsame
  exact Prod.ext hfst (Option.some.inj hsame)

/-! ## The empty dictionary -/

def empty : Dict α β := ⟨[], by simp⟩

instance : EmptyCollection (Dict α β) := ⟨empty⟩
instance : Inhabited (Dict α β) := ⟨empty⟩

@[simp] theorem get?_empty (k : α) : (∅ : Dict α β).get? k = none := rfl
@[simp] theorem entries_empty : (∅ : Dict α β).entries = [] := rfl
@[simp] theorem keys_empty : (∅ : Dict α β).keys = [] := rfl

/-! ## Assignment -/

/-- Overwrite in place, or append a new pair. -/
def setEntries (k : α) (v : β) : List (α × β) → List (α × β)
  | [] => [(k, v)]
  | (a, b) :: t => if a = k then (k, v) :: t else (a, b) :: setEntries k v t

theorem map_fst_setEntries (k : α) (v : β) (l : List (α × β)) :
    (setEntries k v l).map Prod.fst
      = if k ∈ l.map Prod.fst then l.map Prod.fst else l.map Prod.fst ++ [k] := by
  induction l with
  | nil => simp [setEntries]
  | cons p t ih =>
    obtain ⟨a, b⟩ := p
    by_cases hak : a = k
    · simp [setEntries, hak]
    · rw [setEntries, if_neg hak, List.map_cons, ih]
      by_cases hmem : k ∈ t.map Prod.fst
      · simp [hmem]
      · simp [hmem, Ne.symm hak]

theorem nodup_setEntries {k : α} {v : β} {l : List (α × β)} (h : (l.map Prod.fst).Nodup) :
    ((setEntries k v l).map Prod.fst).Nodup := by
  rw [map_fst_setEntries]
  split
  · exact h
  · next hmem =>
    refine List.nodup_append.mpr ⟨h, by simp, ?_⟩
    intro a ha b hb
    rw [List.mem_singleton] at hb
    rintro rfl
    exact hmem (hb ▸ ha)

/-- `d[k] = v`. -/
def set (d : Dict α β) (k : α) (v : β) : Dict α β :=
  ⟨setEntries k v d.entries, nodup_setEntries d.nodup⟩

theorem lookup_setEntries (k k' : α) (v : β) (l : List (α × β)) :
    lookup k' (setEntries k v l) = if k = k' then some v else lookup k' l := by
  induction l with
  | nil => simp [setEntries, lookup]
  | cons p t ih =>
    obtain ⟨a, b⟩ := p
    by_cases hak : a = k
    · rw [setEntries, if_pos hak]
      by_cases hkk : k = k' <;> simp [lookup, hkk, hak]
    · rw [setEntries, if_neg hak, lookup, ih]
      by_cases hkk : k = k'
      · have : a ≠ k' := fun h => hak (h.trans hkk.symm)
        simp [hkk, this]
      · simp [hkk, lookup]

theorem get?_set (d : Dict α β) (k k' : α) (v : β) :
    (d.set k v).get? k' = if k = k' then some v else d.get? k' :=
  lookup_setEntries k k' v d.entries

@[simp] theorem get?_set_self (d : Dict α β) (k : α) (v : β) :
    (d.set k v).get? k = some v := by
  rw [get?_set, if_pos rfl]

theorem get?_set_of_ne (d : Dict α β) {k k' : α} (v : β) (h : k ≠ k') :
    (d.set k v).get? k' = d.get? k' := by
  rw [get?_set, if_neg h]

theorem keys_set (d : Dict α β) (k : α) (v : β) :
    (d.set k v).keys = if k ∈ d.keys then d.keys else d.keys ++ [k] :=
  map_fst_setEntries k v d.entries

/-- A write keeps the order of the keys. -/
theorem keys_prefix_set (d : Dict α β) (k : α) (v : β) : d.keys <+: (d.set k v).keys := by
  rw [keys_set]
  split
  · exact List.prefix_rfl
  · exact List.prefix_append _ _

theorem mem_keys_set {d : Dict α β} {k k' : α} {v : β} :
    k' ∈ (d.set k v).keys ↔ k' = k ∨ k' ∈ d.keys := by
  rw [keys_set]
  split
  · next hmem => exact ⟨Or.inr, fun h => h.elim (fun he => he ▸ hmem) id⟩
  · rw [List.mem_append, List.mem_singleton]
    exact or_comm

/-! ## Removal -/

/-- `d.pop(k, None)`. -/
def erase (d : Dict α β) (k : α) : Dict α β :=
  ⟨d.entries.filter (fun p => p.1 ≠ k),
    d.nodup.sublist (List.filter_sublist.map Prod.fst)⟩

theorem lookup_filter_ne (k k' : α) (l : List (α × β)) :
    lookup k' (l.filter (fun p => p.1 ≠ k)) = if k = k' then none else lookup k' l := by
  induction l with
  | nil => simp [lookup]
  | cons p t ih =>
    obtain ⟨a, b⟩ := p
    by_cases hak : a = k
    · rw [List.filter_cons_of_neg (by simp [hak]), ih]
      by_cases hkk : k = k' <;> simp [lookup, hkk, hak]
    · rw [List.filter_cons_of_pos (by simp [hak]), lookup, ih]
      by_cases hkk : k = k'
      · have : a ≠ k' := fun h => hak (h.trans hkk.symm)
        simp [hkk, this]
      · simp [hkk, lookup]

theorem get?_erase (d : Dict α β) (k k' : α) :
    (d.erase k).get? k' = if k = k' then none else d.get? k' :=
  lookup_filter_ne k k' d.entries

/-- Removing several keys. -/
theorem get?_foldl_erase (ks : List α) (d : Dict α β) (k : α) :
    (ks.foldl erase d).get? k = if k ∈ ks then none else d.get? k := by
  induction ks generalizing d with
  | nil => simp
  | cons a ks ih =>
    rw [List.foldl_cons, ih, get?_erase]
    by_cases hk : k ∈ ks
    · simp [hk]
    · by_cases hak : a = k
      · simp [hak]
      · simp [hk, hak, Ne.symm hak]

/-! ## Building from pairs -/

/-- Insert the pairs one after the other; a later pair wins. -/
def ofList (l : List (α × β)) : Dict α β :=
  l.foldl (fun d p => d.set p.1 p.2) ∅

theorem get?_foldl_set (l : List (α × β)) (d : Dict α β) (k : α) :
    (l.foldl (fun d p => d.set p.1 p.2) d).get? k
      = (lookup k l.reverse).or (d.get? k) := by
  induction l generalizing d with
  | nil => simp [lookup]
  | cons p t ih =>
    obtain ⟨a, b⟩ := p
    have happ : ∀ (x : List (α × β)), lookup k (x ++ [(a, b)])
        = (lookup k x).or (if a = k then some b else none) := by
      intro x
      induction x with
      | nil => simp [lookup]
      | cons q x ihx =>
        obtain ⟨c, e⟩ := q
        by_cases hck : c = k <;> simp [lookup, hck, ihx]
    rw [List.foldl_cons, ih, List.reverse_cons, happ, get?_set]
    cases lookup k t.reverse with
    | some v => simp
    | none => by_cases hak : a = k <;> simp [hak]

/-- The last pair with key `k` decides what `ofList` binds to `k`. -/
theorem get?_ofList (l : List (α × β)) (k : α) :
    (ofList l).get? k = lookup k l.reverse := by
  rw [ofList, get?_foldl_set]
  simp

theorem foldl_set_entries {l : List (α × β)} {d : Dict α β}
    (hnd : ((d.entries ++ l).map Prod.fst).Nodup) :
    (l.foldl (fun d p => d.set p.1 p.2) d).entries = d.entries ++ l := by
  induction l generalizing d with
  | nil => simp
  | cons p t ih =>
    obtain ⟨a, b⟩ := p
    have hset : (d.set a b).entries = d.entries ++ [(a, b)] := by
      have hfresh : a ∉ d.entries.map Prod.fst := by
        intro hmem
        rw [List.map_append, List.nodup_append] at hnd
        exact hnd.2.2 a hmem a (by simp) rfl
      show setEntries a b d.entries = _
      revert hfresh
      induction d.entries with
      | nil => intro _; simp [setEntries]
      | cons q s ihs =>
        intro hfresh
        simp only [List.map_cons, List.mem_cons, not_or] at hfresh
        rw [setEntries, if_neg (Ne.symm hfresh.1), ihs hfresh.2, List.cons_append]
    rw [List.foldl_cons, ih (by rw [hset, List.append_assoc]; exact hnd), hset,
      List.append_assoc]
    rfl

/-- Pairs with distinct keys are kept as they are. -/
theorem entries_ofList {l : List (α × β)} (hnd : (l.map Prod.fst).Nodup) :
    (ofList l).entries = l := by
  rw [ofList, foldl_set_entries (by simpa using hnd)]
  rfl

/-! ## Comprehensions -/

/-- `{k: f(k, v) for k, v in d.items()}`. -/
def mapWithKey (f : α → β → γ) (d : Dict α β) : Dict α γ where
  entries := d.entries.map fun e => (e.1, f e.1 e.2)
  nodup := by
    rw [List.map_map]
    exact d.nodup

@[simp] theorem keys_mapWithKey (f : α → β → γ) (d : Dict α β) :
    (d.mapWithKey f).keys = d.keys :=
  List.map_map

theorem get?_mapWithKey (f : α → β → γ) (d : Dict α β) (k : α) :
    (d.mapWithKey f).get? k = (d.get? k).map (f k) := by
  show lookup k (d.entries.map fun e => (e.1, f e.1 e.2)) = (lookup k d.entries).map (f k)
  induction d.entries with
  | nil => rfl
  | cons e l ih =>
    obtain ⟨a, b⟩ := e
    by_cases hak : a = k
    · simp [lookup, hak]
    · simpa [lookup, hak] using ih

theorem mapWithKey_mapWithKey {δ : Type} (f : α → β → γ) (g : α → γ → δ) (d : Dict α β) :
    (d.mapWithKey f).mapWithKey g = d.mapWithKey fun k b => g k (f k b) :=
  ext_entries (List.map_map ..)

theorem mapWithKey_congr {f g : α → β → γ} {d : Dict α β}
    (h : ∀ k b, d.get? k = some b → f k b = g k b) : d.mapWithKey f = d.mapWithKey g := by
  refine ext_entries (List.map_congr_left fun e he => ?_)
  rw [h e.1 e.2 (mem_entries_iff.mp he)]

/-! ## Properties of every value -/

/-- Every value satisfies `p`. -/
def All (p : β → Prop) (d : Dict α β) : Prop := ∀ k v, d.get? k = some v → p v

variable {p : β → Prop} {d : Dict α β}

@[simp] theorem all_empty : (∅ : Dict α β).All p := by
  intro k v h
  simp at h

theorem All.set (h : d.All p) {k : α} {v : β} (hv : p v) : (d.set k v).All p := by
  intro k' v' hget
  rw [get?_set] at hget
  split at hget
  · exact Option.some.inj hget ▸ hv
  · exact h k' v' hget

theorem All.erase (h : d.All p) (k : α) : (d.erase k).All p := by
  intro k' v' hget
  rw [get?_erase] at hget
  split at hget
  · simp at hget
  · exact h k' v' hget

theorem All.getD (h : d.All p) {k : α} {b : β} (hb : p b) : p (d.getD k b) := by
  unfold Dict.getD
  cases hget : d.get? k with
  | none => exact hb
  | some v => exact h k v hget

/-! ## Sums over the values -/

section Sums

variable {M : Type} [AddCommMonoid M]

/-- The sum of a measure over the values. -/
def sumBy (f : β → M) (d : Dict α β) : M := (d.entries.map (fun e => f e.2)).sum

@[simp] theorem sumBy_empty (f : β → M) : (∅ : Dict α β).sumBy f = 0 := by
  simp [sumBy]

/-- What the measure gives for the value bound to `k`, or zero. -/
def measureAt (f : β → M) (d : Dict α β) (k : α) : M := (d.get? k).elim 0 f

theorem sum_setEntries (f : β → M) (k : α) (v : β) {l : List (α × β)} :
    ((setEntries k v l).map (fun e => f e.2)).sum + (lookup k l).elim 0 f
      = (l.map (fun e => f e.2)).sum + f v := by
  induction l with
  | nil => simp [setEntries, lookup]
  | cons q t ih =>
    obtain ⟨a, b⟩ := q
    by_cases hak : a = k
    · simp only [setEntries, lookup, hak, if_true, List.map_cons, List.sum_cons,
        Option.elim_some]
      abel
    · simp only [setEntries, lookup, hak, if_false, List.map_cons, List.sum_cons]
      rw [add_assoc, ih]
      abel

/-- Assignment replaces the old value's measure by the new one's. -/
theorem sumBy_set (f : β → M) (d : Dict α β) (k : α) (v : β) :
    (d.set k v).sumBy f + d.measureAt f k = d.sumBy f + f v :=
  sum_setEntries f k v

theorem sum_filter_ne_of_fresh (f : β → M) {k : α} {l : List (α × β)}
    (h : k ∉ l.map Prod.fst) :
    ((l.filter (fun e => e.1 ≠ k)).map (fun e => f e.2)).sum
      = (l.map (fun e => f e.2)).sum := by
  have hall : ∀ e ∈ l, decide (e.1 ≠ k) = true := by
    intro e he
    simp only [ne_eq, decide_not, Bool.not_eq_true', decide_eq_false_iff_not]
    rintro rfl
    exact h (List.mem_map.mpr ⟨e, he, rfl⟩)
  rw [List.filter_eq_self.mpr hall]

/-- Removal drops exactly the measure of the removed value. -/
theorem sumBy_erase (f : β → M) (d : Dict α β) (k : α) :
    (d.erase k).sumBy f + d.measureAt f k = d.sumBy f := by
  obtain ⟨l, hnd⟩ := d
  show ((l.filter (fun e => e.1 ≠ k)).map (fun e => f e.2)).sum + (lookup k l).elim 0 f
    = (l.map (fun e => f e.2)).sum
  induction l with
  | nil => simp [lookup]
  | cons q t ih =>
    obtain ⟨a, b⟩ := q
    simp only [List.map_cons, List.nodup_cons] at hnd
    by_cases hak : a = k
    · subst hak
      rw [List.filter_cons_of_neg (by simp), sum_filter_ne_of_fresh f hnd.1]
      simp [lookup, add_comm]
    · rw [List.filter_cons_of_pos (by simp [hak])]
      simp only [lookup, hak, if_false, List.map_cons, List.sum_cons]
      rw [add_assoc, ih hnd.2]

end Sums

/-! ## Items in key order -/

/-- `sorted(d.items())` of a dictionary with string keys. -/
def sortedItems (d : Dict String β) : List (String × β) :=
  d.entries.insertionSort (fun a b => a.1 ≤ b.1)

theorem sortedItems_perm (d : Dict String β) : d.sortedItems.Perm d.entries :=
  List.perm_insertionSort _ _

theorem mem_sortedItems {d : Dict String β} {k : String} {v : β} :
    (k, v) ∈ d.sortedItems ↔ d.get? k = some v :=
  d.sortedItems_perm.mem_iff.trans mem_entries_iff

/-- The items come in the order of their keys. -/
theorem map_fst_sortedItems (d : Dict String β) :
    d.sortedItems.map Prod.fst = sortedSet d.keys := by
  have hsorted : (d.sortedItems.map Prod.fst).Pairwise (· ≤ ·) := by
    have : Std.Total (fun a b : String × β => a.1 ≤ b.1) := ⟨fun a b => le_total a.1 b.1⟩
    have : IsTrans (String × β) (fun a b => a.1 ≤ b.1) := ⟨fun a b c => le_trans⟩
    exact List.pairwise_map.mpr (List.pairwise_insertionSort _ _)
  have hperm : (d.sortedItems.map Prod.fst).Perm (sortedSet d.keys) := by
    rw [sortedSet, show d.keys.dedup = d.keys from d.nodup.dedup]
    exact (d.sortedItems_perm.map Prod.fst).trans (List.perm_insertionSort _ _).symm
  exact hperm.eq_of_pairwise' hsorted (sortedSet_sorted _)

end Dict

/-! ## Sets -/

/-- A `set`: a dictionary without values. -/
abbrev PySet (α : Type) [DecidableEq α] := Dict α Unit

namespace PySet

variable {α : Type} [DecidableEq α]

/-- `s.add(a)`. -/
def add (s : PySet α) (a : α) : PySet α := Dict.set s a ()

@[simp] theorem mem_keys_add {s : PySet α} {a b : α} :
    b ∈ (s.add a).keys ↔ b = a ∨ b ∈ s.keys := by
  unfold add
  rw [Dict.keys_set]
  by_cases h : a ∈ s.keys
  · simp only [h, if_true, iff_or_self]
    rintro rfl
    exact h
  · simp [h, or_comm]

end PySet

end Py
