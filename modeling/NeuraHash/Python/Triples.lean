import NeuraHash.Python.Mutation

/-!
# What a step leaves, returning or raising

`Ends x s post exc` says that `x`, run in `s`, either returns in a state that satisfies `post` or
raises in one that satisfies `exc`. With `exc` false it is total correctness: `x` returns.
The rules follow the syntax: sequencing, `try`, and the conversions.
-/

namespace Py

namespace PyM

variable {σ α β : Type} {x : PyM σ α} {f : α → PyM σ β} {s : σ}

def Ends (x : PyM σ α) (s : σ) (post : α → σ → Prop) (exc : PyErr → σ → Prop) : Prop :=
  match x s with
  | .ok a s' => post a s'
  | .error e s' => exc e s'

/-- No exception. -/
def never : PyErr → σ → Prop := fun _ _ => False

variable {post post' : α → σ → Prop} {exc exc' : PyErr → σ → Prop}

theorem Ends.mono (h : Ends x s post exc) (hpost : ∀ a s', post a s' → post' a s')
    (hexc : ∀ e s', exc e s' → exc' e s') : Ends x s post' exc' := by
  unfold Ends at *
  split
  · next hx =>
    rw [hx] at h
    exact hpost _ _ h
  · next hx =>
    rw [hx] at h
    exact hexc _ _ h

theorem Ends.pure {a : α} (h : post a s) : Ends (Pure.pure a : PyM σ α) s post exc := h

/-- The rule of sequencing. -/
theorem Ends.bind {post : β → σ → Prop} {q : α → σ → Prop} (hx : Ends x s q exc)
    (hf : ∀ a s', q a s' → Ends (f a) s' post exc) : Ends (x >>= f) s post exc := by
  unfold Ends at hx ⊢
  cases h : x s with
  | ok a s' =>
    rw [h] at hx
    rw [bind_run_ok h]
    exact hf a s' hx
  | error e s' =>
    rw [h] at hx
    rw [bind_run_error h]
    exact hx

/-- A returned value that is only renamed. -/
theorem Ends.map {γ : Type} {g : α → γ} {post : γ → σ → Prop}
    (hx : Ends x s (fun a => post (g a)) exc) : Ends (g <$> x) s post exc := by
  have hmap : (g <$> x) = x >>= fun a => Pure.pure (g a) := map_eq_pure_bind g x
  rw [hmap]
  exact hx.bind fun a s' h => Ends.pure h

/-- `try` catches what is raised. -/
theorem Ends.attempt {q : Except PyErr α → σ → Prop}
    (hx : Ends x s (fun a => q (.ok a)) (fun e => q (.error e))) :
    Ends (attempt x) s q exc := by
  unfold Ends at hx ⊢
  cases h : x s with
  | ok a s' =>
    rw [h] at hx
    rw [attempt_ok h]
    exact hx
  | error e s' =>
    rw [h] at hx
    rw [attempt_error h]
    exact hx

theorem Ends.ofExcept {r : Except PyErr α} (hok : ∀ a, r = .ok a → post a s)
    (herr : ∀ e, r = .error e → exc e s) : Ends (ofExcept r) s post exc := by
  cases r with
  | ok a => exact hok a rfl
  | error e => exact herr e rfl

/-- The returned state of a step that never raises. -/
theorem Ends.returned (h : Ends x s post never) : ∃ a s', x s = .ok a s' ∧ post a s' := by
  unfold Ends at h
  cases hx : x s with
  | ok a s' =>
    rw [hx] at h
    exact ⟨a, s', rfl, h⟩
  | error e s' =>
    rw [hx] at h
    exact h.elim

theorem Ends.of_run {a : α} {s' : σ} (h : Ends x s post exc) (hx : x s = .ok a s') : post a s' := by
  unfold Ends at h
  rw [hx] at h
  exact h

end PyM

end Py
