import Mathlib.Logic.Function.Basic
import Mathlib.Data.List.Basic

/-!
# Overlays

`overlay ws f` is a function after the writes `ws`, the later ones over the earlier. What it is
at a written point does not depend on the function below (`overlay_of_mem`), so writes hide what
differs only where they fall (`overlay_ext`) and what was written below them (`overlay_absorb`).
-/

namespace Systems

variable {α β : Type} [DecidableEq α]

/-- A function with the writes over it. -/
def overlay (ws : List (α × β)) (f : α → β) : α → β :=
  ws.foldl (fun f w => Function.update f w.1 w.2) f

variable {ws ws' : List (α × β)} {f g : α → β} {a : α}

@[simp] theorem overlay_nil (f : α → β) : overlay [] f = f := rfl
@[simp] theorem overlay_cons (w : α × β) (ws : List (α × β)) (f : α → β) :
    overlay (w :: ws) f = overlay ws (Function.update f w.1 w.2) := rfl

/-- Away from the writes nothing changes. -/
theorem overlay_of_not_mem (h : a ∉ ws.map Prod.fst) : overlay ws f a = f a := by
  induction ws generalizing f with
  | nil => rfl
  | cons w ws ih =>
    rw [List.map_cons, List.mem_cons, not_or] at h
    rw [overlay_cons, ih h.2, Function.update_of_ne h.1]

/-- At a written point the function below does not count. -/
theorem overlay_of_mem (h : a ∈ ws.map Prod.fst) : overlay ws f a = overlay ws g a := by
  induction ws generalizing f g with
  | nil => cases h
  | cons w ws ih =>
    rw [overlay_cons, overlay_cons]
    by_cases hrest : a ∈ ws.map Prod.fst
    · exact ih hrest
    · have ha : a = w.1 := (List.mem_cons.mp h).resolve_right hrest
      rw [overlay_of_not_mem hrest, overlay_of_not_mem hrest, ha, Function.update_self,
        Function.update_self]

/-- **Writes hide what differs under them.** -/
theorem overlay_ext (h : ∀ a, a ∉ ws.map Prod.fst → f a = g a) : overlay ws f = overlay ws g := by
  funext a
  by_cases ha : a ∈ ws.map Prod.fst
  · exact overlay_of_mem ha
  · rw [overlay_of_not_mem ha, overlay_of_not_mem ha]
    exact h a ha

/-- **Writes hide earlier ones at the same points.** -/
theorem overlay_absorb (h : ∀ a, a ∈ ws'.map Prod.fst → a ∈ ws.map Prod.fst) :
    overlay ws (overlay ws' f) = overlay ws f :=
  overlay_ext fun a ha => overlay_of_not_mem fun ha' => ha (h a ha')

end Systems
