import Mathlib.Data.List.Basic
import Mathlib.Order.Basic

/-!
# Histories of a machine

A machine answers each input and moves to a new state: `step : σ → α → β × σ`. The `history` of
a run lists what happened at each input, and `final` is the state the run ends in.

The rules carry a fact about one step to a whole run:

* `final_induction` — what every step keeps, the run keeps;
* `history_forall` — what holds of every step from a state with the invariant, holds of every
  event;
* `admissible_run` — the same for runs whose steps all meet a condition;
* `countP_history_le` — events that each raise a measure are no more than it rises;
* `history_pairwise` — a quantity no step lowers orders the events.
-/

namespace Systems

structure Event (σ α β : Type) where
  before : σ
  input : α
  output : β
  after : σ

variable {σ α β ι : Type} {step : σ → α → β × σ}

def event (step : σ → α → β × σ) (s : σ) (a : α) : Event σ α β :=
  ⟨s, a, (step s a).1, (step s a).2⟩

def final (step : σ → α → β × σ) (s : σ) (as : List α) : σ :=
  as.foldl (fun s a => (step s a).2) s

def history (step : σ → α → β × σ) : σ → List α → List (Event σ α β)
  | _, [] => []
  | s, a :: as => event step s a :: history step (step s a).2 as

/-! ## A run in parts -/

@[simp] theorem final_nil (s : σ) : final step s [] = s := rfl
@[simp] theorem final_cons (s : σ) (a : α) (as : List α) :
    final step s (a :: as) = final step (step s a).2 as := rfl
@[simp] theorem history_nil (s : σ) : history step s [] = [] := rfl
@[simp] theorem history_cons (s : σ) (a : α) (as : List α) :
    history step s (a :: as) = event step s a :: history step (step s a).2 as := rfl

theorem final_append (s : σ) (as bs : List α) :
    final step s (as ++ bs) = final step (final step s as) bs :=
  List.foldl_append

theorem history_append (s : σ) (as bs : List α) :
    history step s (as ++ bs) = history step s as ++ history step (final step s as) bs := by
  induction as generalizing s with
  | nil => rfl
  | cons a as ih =>
    show event step s a :: history step (step s a).2 (as ++ bs) = _
    rw [ih]
    rfl

theorem history_concat (s : σ) (as : List α) (a : α) :
    history step s (as ++ [a]) = history step s as ++ [event step (final step s as) a] :=
  history_append s as [a]

/-- An event is a step of the machine. -/
theorem of_mem_history {s : σ} {as : List α} {e : Event σ α β} (he : e ∈ history step s as) :
    e = event step e.before e.input := by
  induction as generalizing s with
  | nil => cases he
  | cons a as ih =>
    rcases List.mem_cons.mp he with rfl | he
    · rfl
    · exact ih he

/-- The inputs of a history are the inputs of the run. -/
theorem map_input_history (s : σ) (as : List α) :
    (history step s as).map Event.input = as := by
  induction as generalizing s with
  | nil => rfl
  | cons a as ih =>
    show a :: (history step (step s a).2 as).map Event.input = a :: as
    rw [ih]

/-! ## From one step to a run -/

/-- **An invariant of every step is an invariant of the run.** -/
theorem final_induction {p : σ → Prop} (hstep : ∀ s a, p s → p (step s a).2) {s : σ}
    (hs : p s) (as : List α) : p (final step s as) := by
  induction as generalizing s with
  | nil => exact hs
  | cons a as ih => exact ih (hstep s a hs)

/-- **What holds at every step from the invariant holds of every event.** -/
theorem history_forall {p : σ → Prop} (hstep : ∀ s a, p s → p (step s a).2)
    {q : Event σ α β → Prop} (hq : ∀ s a, p s → q (event step s a)) {s : σ} (hs : p s)
    (as : List α) : ∀ e ∈ history step s as, q e := by
  induction as generalizing s with
  | nil => exact fun _ he => absurd he List.not_mem_nil
  | cons a as ih =>
    intro e he
    rcases List.mem_cons.mp he with rfl | he
    · exact hq s a hs
    · exact ih (hstep s a hs) e he

/-- **A run whose steps are all admissible** keeps what an admissible step keeps, and each of its
events has what an admissible step gives. -/
theorem admissible_run {p : σ → Prop} {ok : σ → α → Prop}
    (hstep : ∀ s a, ok s a → p s → p (step s a).2) {q : Event σ α β → Prop}
    (hq : ∀ s a, ok s a → p s → q (event step s a)) {s : σ} (hs : p s) {as : List α}
    (hok : ∀ e ∈ history step s as, ok e.before e.input) :
    p (final step s as) ∧ ∀ e ∈ history step s as, q e := by
  induction as generalizing s with
  | nil => exact ⟨hs, fun _ he => absurd he List.not_mem_nil⟩
  | cons a as ih =>
    have hfirst : ok s a := hok (event step s a) (List.mem_cons_self ..)
    obtain ⟨hfinal, hevents⟩ := ih (hstep s a hfirst hs) fun e he => hok e (List.mem_cons_of_mem _ he)
    refine ⟨hfinal, fun e he => ?_⟩
    rcases List.mem_cons.mp he with rfl | he
    · exact hq s a hfirst hs
    · exact hevents e he

/-- **What an event costs**: where a counted event raises a measure by one and no other lowers it,
the run has at most as many of them as the measure rises. -/
theorem countP_history_le {p : σ → Prop} (hstep : ∀ s a, p s → p (step s a).2) {m : σ → ℕ}
    {q : Event σ α β → Bool} {as : List α}
    (hq : ∀ s, p s → ∀ a ∈ as, m s + (if q (event step s a) then 1 else 0) ≤ m (step s a).2)
    {s : σ} (hs : p s) : m s + (history step s as).countP q ≤ m (final step s as) := by
  induction as generalizing s with
  | nil => exact Nat.le_refl (m s)
  | cons a as ih =>
    have hhead := hq s hs a (List.mem_cons_self ..)
    have htail := ih (fun s' hs' a' ha' => hq s' hs' a' (List.mem_cons_of_mem _ ha'))
      (hstep s a hs)
    rw [history_cons, List.countP_cons, final_cons]
    omega

section Constant

variable {f : σ → ι}

/-- What no step changes, the run does not change. -/
theorem final_const (hf : ∀ s a, f (step s a).2 = f s) (s : σ) (as : List α) :
    f (final step s as) = f s := by
  induction as generalizing s with
  | nil => rfl
  | cons a as ih => exact (ih (step s a).2).trans (hf s a)

theorem before_const (hf : ∀ s a, f (step s a).2 = f s) {s : σ} {as : List α}
    {e : Event σ α β} (he : e ∈ history step s as) : f e.before = f s := by
  induction as generalizing s with
  | nil => cases he
  | cons a as ih =>
    rcases List.mem_cons.mp he with rfl | he
    · rfl
    · exact (ih he).trans (hf s a)

end Constant

section Monotone

variable [Preorder ι] {m : σ → ι}

/-- A quantity no step lowers is at least its first value at every event. -/
theorem le_before (hm : ∀ s a, m s ≤ m (step s a).2) {s : σ} {as : List α} {e : Event σ α β}
    (he : e ∈ history step s as) : m s ≤ m e.before := by
  have hevery : ∀ e ∈ history step s as, m s ≤ m e.before := by
    refine history_forall (p := fun s' => m s ≤ m s') (fun s' a h => h.trans (hm s' a)) ?_ le_rfl as
    exact fun s' a h => h
  exact hevery e he

/-- **A quantity no step lowers orders the events**: where one step left it, every later step
found it or more. -/
theorem history_pairwise (hm : ∀ s a, m s ≤ m (step s a).2) (s : σ) (as : List α) :
    (history step s as).Pairwise (fun e e' => m e.after ≤ m e'.before) := by
  induction as generalizing s with
  | nil => exact List.Pairwise.nil
  | cons a as ih =>
    rw [history_cons, List.pairwise_cons]
    exact ⟨fun e he => le_before hm he, ih (step s a).2⟩

end Monotone

end Systems
