import Mathlib.Data.List.Induction
import Mathlib.Data.List.Perm.Basic

/-!
# Hash chains

Every entry of a chain names the head it continues, and its own digest is the next head. Where a
digest determines the head and the content it was taken over, and the first head is no digest, an
entry fixes everything before it: two chains that share the head an entry names have the same
contents up to there (`Binding.before_eq`). So a chain cannot be changed before an entry that stays.
-/

namespace Systems

variable {H E K : Type} {prev : E → Option H} {next : H → E → H} {content : E → K}

/-- Each entry names the head that the entries before it lead to. -/
def Linked (prev : E → Option H) (next : H → E → H) : H → List E → Prop
  | _, [] => True
  | head, e :: es => prev e = some head ∧ Linked prev next (next head e) es

theorem linked_append {head : H} {a b : List E} :
    Linked prev next head (a ++ b)
      ↔ Linked prev next head a ∧ Linked prev next (a.foldl next head) b := by
  induction a generalizing head with
  | nil => simp [Linked]
  | cons e a ih =>
    rw [List.cons_append, Linked, Linked, ih, List.foldl_cons, and_assoc]

/-- The head an entry names. -/
theorem Linked.prev_eq {head : H} {a b : List E} {e : E}
    (h : Linked prev next head (a ++ e :: b)) : prev e = some (a.foldl next head) :=
  (linked_append.mp h).2.1

/-- A digest determines what it was taken over, as long as the heads are of the given kind, and the
first head is no digest. -/
structure Binding (next : H → E → H) (content : E → K) (IsHead : H → Prop) (first : H) : Prop where
  first_isHead : IsHead first
  next_isHead : ∀ head e, IsHead (next head e)
  inj : ∀ head head' e e', IsHead head → IsHead head' → next head e = next head' e' →
    head = head' ∧ content e = content e'
  fresh : ∀ head e, next head e ≠ first

namespace Binding

variable {IsHead : H → Prop} {first : H} (B : Binding next content IsHead first)
include B

theorem isHead_foldl (es : List E) : IsHead (es.foldl next first) := by
  induction es using List.reverseRecOn with
  | nil => exact B.first_isHead
  | append_singleton es e _ =>
    rw [List.foldl_append]
    exact B.next_isHead _ e

/-- **A head fixes the contents that led to it.** -/
theorem content_eq {a b : List E} (h : a.foldl next first = b.foldl next first) :
    a.map content = b.map content := by
  induction a using List.reverseRecOn generalizing b with
  | nil =>
    cases b using List.reverseRecOn with
    | nil => rfl
    | append_singleton b e =>
      rw [List.foldl_append] at h
      exact absurd h.symm (B.fresh _ e)
  | append_singleton a e ih =>
    cases b using List.reverseRecOn with
    | nil =>
      rw [List.foldl_append] at h
      exact absurd h (B.fresh _ e)
    | append_singleton b e' =>
      rw [List.foldl_append, List.foldl_append] at h
      obtain ⟨hheads, hcontent⟩ :=
        B.inj _ _ e e' (B.isHead_foldl a) (B.isHead_foldl b) h
      rw [List.map_append, List.map_append, ih hheads, List.map_singleton, List.map_singleton,
        hcontent]

/-- **An entry fixes everything before it.** -/
theorem before_eq {a b a' b' : List E} {e : E} (h : Linked prev next first (a ++ e :: b))
    (h' : Linked prev next first (a' ++ e :: b')) : a.map content = a'.map content := by
  apply B.content_eq
  apply Option.some.inj
  rw [← h.prev_eq, ← h'.prev_eq]

theorem length_eq {a b a' b' : List E} {e : E} (h : Linked prev next first (a ++ e :: b))
    (h' : Linked prev next first (a' ++ e :: b')) : a.length = a'.length := by
  have hmap := congrArg List.length (B.before_eq h h')
  simpa only [List.length_map] using hmap

/-- Nothing can be inserted before an entry that stays. Read the other way, nothing can be
dropped there. -/
theorem not_inserted {a b : List E} (x : E) (hb : b ≠ []) (h : Linked prev next first (a ++ b)) :
    ¬ Linked prev next first (a ++ x :: b) := by
  intro h'
  cases b with
  | nil => exact hb rfl
  | cons e b =>
    rw [List.append_cons] at h'
    have hlen := B.length_eq h h'
    rw [List.length_append, List.length_singleton] at hlen
    omega

/-- The entries cannot be reordered. -/
theorem eq_of_perm {es es' : List E} (hperm : es'.Perm es) (h : Linked prev next first es)
    (h' : Linked prev next first es') : es' = es := by
  apply List.ext_getElem hperm.length_eq
  intro i hi' hi
  -- the entry at `i` stands somewhere in the other chain, hence at `i`
  have hsplit : es' = es'.take i ++ es'[i] :: es'.drop (i + 1) := by
    rw [← List.drop_eq_getElem_cons hi', List.take_append_drop]
  have hmem : es'[i] ∈ es := hperm.subset (List.getElem_mem hi')
  generalize es'[i] = e at hsplit hmem ⊢
  obtain ⟨a, b, hes⟩ := List.append_of_mem hmem
  have hlen : a.length = (es'.take i).length := by
    rw [hes] at h
    rw [hsplit] at h'
    exact B.length_eq h h'
  rw [List.length_take, Nat.min_eq_left (Nat.le_of_lt hi')] at hlen
  have hat : es[i]? = some e := by
    rw [hes, ← hlen, List.getElem?_append_right (Nat.le_refl _), Nat.sub_self]
    rfl
  rw [List.getElem?_eq_getElem hi] at hat
  exact (Option.some.inj hat).symm

/-- An entry before one that stays keeps its content. -/
theorem content_of_edited {a b : List E} {x y : E} (hb : b ≠ [])
    (h : Linked prev next first (a ++ x :: b)) (h' : Linked prev next first (a ++ y :: b)) :
    content x = content y := by
  cases b with
  | nil => exact absurd rfl hb
  | cons e b =>
    rw [List.append_cons] at h h'
    have hmap := B.before_eq h h'
    rw [List.map_append, List.map_append] at hmap
    simpa using List.append_cancel_left hmap

end Binding

end Systems
