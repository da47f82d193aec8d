import NeuraHash.Python.JsonText

/-!
# The order of the members of an object

`sortKeys` forgets the order in which an object lists its members, and with it everything a text
of sorted keys forgets. `readOrder` keeps it: it is the value as a Python `dict` holds it, each key
once and where it was first written.

* `entries_sortKeys` — sorting permutes the entries of a dict and sorts their values;
* `sortKeys_sortKeys` — sorting twice is sorting once;
* `entries_readOrder` — reading keeps the entries and reads their values;
* `readOrder_eq_iff_toStr` — two values that sort to one value are in the same order exactly when
  they print alike, if `str` tells containers apart (`FaithfulStr`).
-/

namespace Py

namespace Dict

variable {α β γ : Type} [DecidableEq α]

theorem setEntries_map (f : β → γ) (k : α) (v : β) (l : List (α × β)) :
    setEntries k (f v) (l.map fun p => (p.1, f p.2))
      = (setEntries k v l).map fun p => (p.1, f p.2) := by
  induction l with
  | nil => rfl
  | cons p l ih =>
    by_cases hk : p.1 = k
    · simp [setEntries, hk]
    · simp [setEntries, hk, ih]

/-- Building commutes with a map over the values. -/
theorem entries_ofList_map (f : β → γ) (l : List (α × β)) :
    (ofList (l.map fun p => (p.1, f p.2))).entries
      = (ofList l).entries.map fun p => (p.1, f p.2) := by
  suffices h : ∀ (d : Dict α β) (d' : Dict α γ),
      d'.entries = d.entries.map (fun p => (p.1, f p.2)) →
      ((l.map fun p => (p.1, f p.2)).foldl (fun d p => d.set p.1 p.2) d').entries
        = (l.foldl (fun d p => d.set p.1 p.2) d).entries.map fun p => (p.1, f p.2) from h ∅ ∅ rfl
  induction l with
  | nil =>
    intro d d' h
    exact h
  | cons p l ih =>
    intro d d' h
    refine ih (d.set p.1 p.2) (d'.set p.1 (f p.2)) ?_
    show setEntries p.1 (f p.2) d'.entries = (setEntries p.1 p.2 d.entries).map _
    rw [h, setEntries_map]

end Dict

namespace Json

mutual

/-- The value with every object replaced by the dictionary it denotes. -/
def readOrder : Json → Json
  | arr xs => arr (readOrderItems xs)
  | obj kvs => obj (Dict.ofList (readOrderMembers kvs)).entries
  | j => j

def readOrderItems : List Json → List Json
  | [] => []
  | x :: xs => readOrder x :: readOrderItems xs

def readOrderMembers : List (String × Json) → List (String × Json)
  | [] => []
  | (k, v) :: t => (k, readOrder v) :: readOrderMembers t

end

theorem sortKeysMembers_eq_map (kvs : List (String × Json)) :
    sortKeysMembers kvs = kvs.map fun p => (p.1, sortKeys p.2) := by
  induction kvs with
  | nil => rfl
  | cons p t ih => rw [sortKeysMembers, ih, List.map_cons]

theorem readOrderMembers_eq_map (kvs : List (String × Json)) :
    readOrderMembers kvs = kvs.map fun p => (p.1, readOrder p.2) := by
  induction kvs with
  | nil => rfl
  | cons p t ih => rw [readOrderMembers, ih, List.map_cons]

/-- The object of a list of distinct members. -/
theorem entries_dictOf {l : List (String × Json)} (d : Dict String Json)
    (h : l.Perm d.entries) : (dictOf l).entries = l :=
  Dict.entries_ofList ((h.map Prod.fst).nodup_iff.mpr d.nodup)

theorem exists_sortKeys_obj (kvs : List (String × Json)) : ∃ l, sortKeys (obj kvs) = obj l :=
  ⟨sortMembers (Dict.ofList (sortKeysMembers kvs)).entries, by rw [sortKeys]⟩

theorem exists_readOrder_obj (kvs : List (String × Json)) : ∃ l, readOrder (obj kvs) = obj l :=
  ⟨(Dict.ofList (readOrderMembers kvs)).entries, by rw [readOrder]⟩

/-- **Sorting permutes the entries** and sorts their values. -/
theorem entries_sortKeys {kvs l : List (String × Json)} (h : sortKeys (obj kvs) = obj l) :
    (dictOf l).entries.Perm ((dictOf kvs).entries.map fun p => (p.1, sortKeys p.2)) := by
  have hl : sortMembers (Dict.ofList (sortKeysMembers kvs)).entries = l := by
    rw [sortKeys] at h
    exact obj.inj h
  have hperm : l.Perm (Dict.ofList (sortKeysMembers kvs)).entries := by
    rw [← hl]
    exact List.perm_insertionSort _ _
  rw [entries_dictOf _ hperm]
  rw [sortKeysMembers_eq_map, Dict.entries_ofList_map] at hperm
  exact hperm

/-- **Reading keeps the entries** and reads their values. -/
theorem entries_readOrder {kvs l : List (String × Json)} (h : readOrder (obj kvs) = obj l) :
    (dictOf l).entries = (dictOf kvs).entries.map fun p => (p.1, readOrder p.2) := by
  have hl : (Dict.ofList (readOrderMembers kvs)).entries = l := by
    rw [readOrder] at h
    exact obj.inj h
  rw [entries_dictOf _ (List.Perm.of_eq hl.symm), ← hl, readOrderMembers_eq_map,
    Dict.entries_ofList_map]
  rfl

/-! ## Sorting twice -/

theorem sortMembers_of_sorted {l : List (String × Json)}
    (h : l.Pairwise fun a b => a.1 ≤ b.1) : sortMembers l = l :=
  List.Pairwise.insertionSort_eq h

mutual

/-- **Sorting once is enough.** -/
theorem sortKeys_sortKeys : ∀ j : Json, sortKeys (sortKeys j) = sortKeys j
  | arr xs => by rw [sortKeys, sortKeys, sortKeysItems_sortKeysItems xs]
  | obj kvs => by
    have hsorted : (sortMembers (Dict.ofList (sortKeysMembers kvs)).entries).Pairwise
        fun a b => a.1 ≤ b.1 := List.pairwise_insertionSort _ _
    have hperm : (sortMembers (Dict.ofList (sortKeysMembers kvs)).entries).Perm
        (Dict.ofList (sortKeysMembers kvs)).entries := List.perm_insertionSort _ _
    have hfixed : sortKeysMembers (sortMembers (Dict.ofList (sortKeysMembers kvs)).entries)
        = sortMembers (Dict.ofList (sortKeysMembers kvs)).entries := by
      rw [sortKeysMembers_eq_map]
      refine (List.map_congr_left fun p hp => ?_).trans (List.map_id _)
      -- a member of the dictionary is one of the members that were sorted
      have hentry := hperm.mem_iff.mp hp
      have hget : (Dict.ofList (sortKeysMembers kvs)).get? p.1 = some p.2 :=
        Dict.mem_entries_iff.mp hentry
      rw [Dict.get?_ofList] at hget
      have hmem := List.mem_reverse.mp (Dict.mem_of_lookup hget)
      show (p.1, sortKeys p.2) = p
      rw [sortKeys_of_mem kvs p hmem]
    rw [sortKeys, sortKeys, hfixed]
    have hentries := entries_dictOf _ hperm
    rw [dictOf] at hentries
    rw [hentries, sortMembers_of_sorted hsorted]
  | null => rfl
  | bool b => rfl
  | int n => rfl
  | float x => rfl
  | str s => rfl

theorem sortKeysItems_sortKeysItems :
    ∀ xs : List Json, sortKeysItems (sortKeysItems xs) = sortKeysItems xs
  | [] => rfl
  | x :: xs => by
    rw [sortKeysItems, sortKeysItems, sortKeys_sortKeys x, sortKeysItems_sortKeysItems xs]

theorem sortKeys_of_mem : ∀ (kvs : List (String × Json)), ∀ p ∈ sortKeysMembers kvs,
    sortKeys p.2 = p.2
  | [], _, h => absurd h List.not_mem_nil
  | (k, v) :: kvs, p, h => by
    rcases List.mem_cons.mp h with heq | hmem
    · rw [heq]
      exact sortKeys_sortKeys v
    · exact sortKeys_of_mem kvs p hmem

end

theorem sortKeysItems_eq_map (xs : List Json) : sortKeysItems xs = xs.map sortKeys := by
  induction xs with
  | nil => rfl
  | cons x xs ih => rw [sortKeysItems, ih, List.map_cons]

/-! ## Containers and their text -/

/-- A list or a dict. -/
def isContainer : Json → Bool
  | arr _ => true
  | obj _ => true
  | _ => false

theorem sortKeys_of_scalar {j : Json} (h : j.isContainer = false) : sortKeys j = j := by
  cases j with
  | arr xs => cases h
  | obj kvs => cases h
  | _ => rfl

theorem readOrder_of_scalar {j : Json} (h : j.isContainer = false) : readOrder j = j := by
  cases j with
  | arr xs => cases h
  | obj kvs => cases h
  | _ => rfl

theorem isContainer_sortKeys (j : Json) : (sortKeys j).isContainer = j.isContainer := by
  cases j <;> rfl

theorem toStr_of_container (T : PyText) {j : Json} (h : j.isContainer = true) :
    j.toStr T = T.strContainer j := by
  cases j with
  | arr xs => rfl
  | obj kvs => rfl
  | _ => cases h

/-- `str` of a list or a dict spells out the value, the members in the order they are held. -/
def FaithfulStr (T : PyText) : Prop :=
  ∀ a b : Json, a.isContainer = true → b.isContainer = true →
    (T.strContainer a = T.strContainer b ↔ readOrder a = readOrder b)

/-- **Values that differ in the order of members only** print alike when they do not differ. -/
theorem readOrder_eq_iff_toStr {T : PyText} (hT : FaithfulStr T) {a b : Json}
    (h : sortKeys a = sortKeys b) : readOrder a = readOrder b ↔ a.toStr T = b.toStr T := by
  have hkind : a.isContainer = b.isContainer := by
    rw [← isContainer_sortKeys a, h, isContainer_sortKeys b]
  cases hb : b.isContainer with
  | false =>
    -- two scalars are sorted already, so they are one value
    rw [hb] at hkind
    rw [sortKeys_of_scalar hkind, sortKeys_of_scalar hb] at h
    rw [h]
    exact ⟨fun _ => rfl, fun _ => rfl⟩
  | true =>
    rw [hb] at hkind
    rw [toStr_of_container T hkind, toStr_of_container T hb]
    exact (hT a b hkind hb).symm

/-- Text conversions whose `str` spells a container out as `json.dumps` does. -/
def orderedStr (T : PyText) : PyText :=
  { T with strContainer := fun j => String.ofList (render T [' '] (readOrder j)) }

theorem orderedStr_faithful (T : PyText) : FaithfulStr (orderedStr T) := by
  intro a b _ _
  refine ⟨fun h => ?_, fun h => congrArg (fun j => String.ofList (render T [' '] j)) h⟩
  have htext : render T [' '] (readOrder a) ++ [] = render T [' '] (readOrder b) ++ [] := by
    rw [List.append_nil, List.append_nil]
    exact String.ofList_injective h
  have hend : Delimited [] := trivial
  exact (render_append_inj T [' '] _ _ hend hend htext).1

end Json

end Py
