import Mathlib.Data.List.Basic

/-!
# The first answer of a list

A variable that is written only while it is blank holds the first answer it was given. It holds the
answer of every turn right after that turn exactly when no two turns answer differently
(`first_is_each_iff`).
-/

namespace FirstAnswer

variable {γ β : Type} {ask : γ → Option β}

/-- One more turn answers only where no turn has answered. -/
theorem findSome?_concat (l : List γ) (c : γ) :
    (l ++ [c]).findSome? ask = (l.findSome? ask).or (ask c) := by
  rw [List.findSome?_append, List.findSome?_singleton]

/-- The first answer stays the first one. -/
theorem findSome?_append_of_some {l : List γ} {v : β} (h : l.findSome? ask = some v)
    (l' : List γ) : (l ++ l').findSome? ask = some v := by
  rw [List.findSome?_append, h, Option.some_or]

/-- Where one turn answers there is a first answer, and it is the answer of a turn. -/
theorem exists_first {l : List γ} {c : γ} (hc : c ∈ l) {v : β} (hv : ask c = some v) :
    ∃ w, l.findSome? ask = some w ∧ ∃ d ∈ l, ask d = some w := by
  cases hfirst : l.findSome? ask with
  | none =>
    have hnone := List.findSome?_eq_none_iff.mp hfirst c hc
    rw [hv] at hnone
    cases hnone
  | some w =>
    obtain ⟨d, hd, hask⟩ := List.exists_of_findSome?_eq_some hfirst
    exact ⟨w, rfl, d, hd, hask⟩

/-- **The first answer is each turn's answer** exactly when the turns agree. -/
theorem first_is_each_iff {l : List γ} :
    (∀ pre c post, l = pre ++ c :: post → ∀ v, ask c = some v →
        (pre ++ [c]).findSome? ask = some v)
      ↔ ∀ c ∈ l, ∀ d ∈ l, ∀ v w, ask c = some v → ask d = some w → v = w := by
  constructor
  · intro h
    -- every answer is the first one of the whole list
    have hfirst : ∀ c ∈ l, ∀ v, ask c = some v → l.findSome? ask = some v := by
      intro c hc v hv
      obtain ⟨pre, post, hl⟩ := List.append_of_mem hc
      have hhere := h pre c post hl v hv
      rw [hl, List.append_cons]
      exact findSome?_append_of_some hhere post
    intro c hc d hd v w hv hw
    exact Option.some.inj ((hfirst c hc v hv).symm.trans (hfirst d hd w hw))
  · intro h pre c post hl v hv
    have hc : c ∈ pre ++ [c] := List.mem_append_right _ (List.mem_singleton_self c)
    obtain ⟨w, hw, d, hd, hask⟩ := exists_first hc hv
    have hsub : ∀ e ∈ pre ++ [c], e ∈ l := by
      intro e he
      rw [hl, List.append_cons]
      exact List.mem_append_left _ he
    rw [hw, h c (hsub c hc) d (hsub d hd) v w hv hask]

/-! ## A run that writes what is blank -/

section Run

variable {σ : Type} (read : σ → Option β) (step : σ → γ → σ) (isBlank : Option β → Prop)
  [DecidablePred isBlank]

/-- **A run holds the first answer**, where one turn writes its answer if the variable is blank and
no answer is blank. The induction is on the turns; a variable that has an answer is not blank. -/
theorem read_foldl
    (hstep : ∀ s c, read (step s c) = if isBlank (read s) then (ask c).or (read s) else read s)
    {l : List γ} (hfilled : ∀ c ∈ l, ∀ v, ask c = some v → ¬ isBlank (some v)) (s : σ) :
    read (l.foldl step s)
      = if isBlank (read s) then (l.findSome? ask).or (read s) else read s := by
  induction l generalizing s with
  | nil => simp
  | cons c l ih =>
    have hrest : ∀ d ∈ l, ∀ v, ask d = some v → ¬ isBlank (some v) :=
      fun d hd => hfilled d (List.mem_cons_of_mem _ hd)
    rw [List.foldl_cons, ih hrest, hstep]
    by_cases hblank : isBlank (read s)
    · rw [if_pos hblank, if_pos hblank]
      cases hask : ask c with
      | none =>
        rw [Option.none_or, if_pos hblank, List.findSome?_cons_of_isNone]
        simp [hask]
      | some v =>
        have hv := hfilled c List.mem_cons_self v hask
        rw [Option.some_or, if_neg hv, List.findSome?_cons_of_isSome]
        · rw [hask, Option.some_or]
        · simp [hask]
    · rw [if_neg hblank, if_neg hblank, if_neg hblank]

end Run

end FirstAnswer
