import Mathlib.Data.List.Basic

/-!
# Trying sources in order

A list of sources is tried until one serves. The one that serves writes its content; one that fails
may leave something behind in its place. What stands afterwards is the content of the first source
that serves, and where none does, what the last broken one left (`snd_tryAll`).
-/

namespace Systems

variable {γ β : Type} (serves leaves : γ → Option β)

/-- The source that served, and what stands afterwards. -/
def tryAll : List γ → Option β → Option γ × Option β
  | [], d => (none, d)
  | t :: ts, d => match serves t with
    | some b => (some t, some b)
    | none => tryAll ts ((leaves t).or d)

theorem fst_tryAll (ts : List γ) (d : Option β) :
    (tryAll serves leaves ts d).1 = ts.find? fun t => (serves t).isSome := by
  induction ts generalizing d with
  | nil => rfl
  | cons t ts ih =>
    unfold tryAll
    cases h : serves t with
    | some b => simp [h]
    | none => simp [h, ih]

/-- **What stands after the trials.** -/
theorem snd_tryAll (ts : List γ) (d : Option β) :
    (tryAll serves leaves ts d).2
      = (ts.findSome? serves).or ((ts.filterMap leaves).getLast?.or d) := by
  induction ts generalizing d with
  | nil => rfl
  | cons t ts ih =>
    unfold tryAll
    cases h : serves t with
    | some b => simp [h]
    | none =>
      dsimp only
      rw [ih, List.findSome?_cons_of_isNone (by rw [h]; rfl), List.filterMap_cons]
      cases hl : leaves t with
      | none => rfl
      | some b =>
        rw [List.getLast?_cons]
        cases (ts.filterMap leaves).getLast? with
        | none => rfl
        | some c => rfl

/-- The source found has served. -/
theorem exists_of_find? {ts : List γ} {t : γ}
    (h : ts.find? (fun t => (serves t).isSome) = some t) : ∃ b, serves t = some b := by
  have hserve : (serves t).isSome = true := by simpa using List.find?_some h
  exact Option.isSome_iff_exists.mp hserve

/-- The source that serves is the one whose content stands. -/
theorem findSome?_of_find? {ts : List γ} {t : γ}
    (h : ts.find? (fun t => (serves t).isSome) = some t) : ts.findSome? serves = serves t := by
  obtain ⟨hserve, before, after, rfl, hbefore⟩ := List.find?_eq_some_iff_append.mp h
  obtain ⟨b, hb⟩ := Option.isSome_iff_exists.mp hserve
  rw [hb]
  refine List.findSome?_eq_some_iff.mpr ⟨before, t, after, rfl, hb, fun u hu => ?_⟩
  simpa using hbefore u hu

end Systems
