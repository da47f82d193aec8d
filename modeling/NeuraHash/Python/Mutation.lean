import NeuraHash.Python.Float

/-!
# Code that writes in place

`PyM σ` is code that mutates a state and may raise; what was written before an exception stays
written. `zoom` runs code on a part of the state, `attempt` is a `try`, and `loop` is a `for` with a
way out. `loop_returns_iff` and `loop_invariant` are the rules of a loop.
-/

namespace Py

/-- Code over a state that may raise. -/
abbrev PyM (σ α : Type) := EStateM PyErr σ α

namespace PyM

variable {σ τ α β : Type}

/-- A value, or an exception. -/
def ofExcept (x : Except PyErr α) : PyM σ α := fun s =>
  match x with
  | .ok a => .ok a s
  | .error e => .error e s

/-- Code on a part of the state. -/
def zoom (read : σ → τ) (write : τ → σ → σ) (x : PyM τ α) : PyM σ α := fun s =>
  match x (read s) with
  | .ok a t => .ok a (write t s)
  | .error e t => .error e (write t s)

/-- The state after the code, whether it returned or raised. -/
def after (x : PyM σ α) (s : σ) : σ :=
  match x s with
  | .ok _ s' => s'
  | .error _ s' => s'

/-- The code returns. -/
def Returns (x : PyM σ α) (s : σ) : Prop := ∃ a s', x s = .ok a s'

@[simp] theorem pure_run (a : α) (s : σ) : (pure a : PyM σ α) s = .ok a s := rfl

theorem bind_run (x : PyM σ α) (f : α → PyM σ β) (s : σ) :
    (x >>= f) s = match x s with
      | .ok a s' => f a s'
      | .error e s' => .error e s' := by
  show EStateM.bind x f s = _
  unfold EStateM.bind
  cases x s <;> rfl

theorem bind_run_ok {x : PyM σ α} {f : α → PyM σ β} {s s' : σ} {a : α} (h : x s = .ok a s') :
    (x >>= f) s = f a s' := by
  rw [bind_run, h]

theorem bind_run_error {x : PyM σ α} {f : α → PyM σ β} {s s' : σ} {e : PyErr}
    (h : x s = .error e s') : (x >>= f) s = .error e s' := by
  rw [bind_run, h]

/-- A sequence of two steps returns when both do, the second from the state the first leaves. -/
theorem of_bind_ok {x : PyM σ α} {f : α → PyM σ β} {s s'' : σ} {b : β}
    (h : (x >>= f) s = .ok b s'') : ∃ a s', x s = .ok a s' ∧ f a s' = .ok b s'' := by
  rw [bind_run] at h
  cases hx : x s with
  | ok a s' =>
    rw [hx] at h
    exact ⟨a, s', rfl, h⟩
  | error e s' =>
    rw [hx] at h
    cases h

/-- A sequence of two steps that raises: in the first, or in the second from where the first ends. -/
theorem of_bind_error {x : PyM σ α} {f : α → PyM σ β} {s s'' : σ} {e : PyErr}
    (h : (x >>= f) s = .error e s'') :
    x s = .error e s'' ∨ ∃ a s', x s = .ok a s' ∧ f a s' = .error e s'' := by
  rw [bind_run] at h
  cases hx : x s with
  | ok a s' =>
    rw [hx] at h
    exact .inr ⟨a, s', rfl, h⟩
  | error e' s' =>
    rw [hx] at h
    cases h
    exact .inl rfl

theorem of_ofExcept_ok {x : Except PyErr α} {s s' : σ} {a : α}
    (h : ofExcept x s = .ok a s') : x = .ok a ∧ s' = s := by
  cases x with
  | ok b =>
    cases h
    exact ⟨rfl, rfl⟩
  | error e => cases h

@[simp] theorem get_run (s : σ) : (get : PyM σ σ) s = .ok s s := rfl
@[simp] theorem set_run (s s' : σ) : (set s' : PyM σ Unit) s = .ok () s' := rfl
@[simp] theorem modify_run (f : σ → σ) (s : σ) : (modify f : PyM σ Unit) s = .ok () (f s) := rfl
@[simp] theorem throw_run (e : PyErr) (s : σ) : (throw e : PyM σ α) s = .error e s := rfl
@[simp] theorem ofExcept_ok (a : α) (s : σ) : ofExcept (.ok a) s = .ok a s := rfl
@[simp] theorem ofExcept_error (e : PyErr) (s : σ) :
    (ofExcept (.error e) : PyM σ α) s = .error e s := rfl

@[simp] theorem returns_pure (a : α) (s : σ) : (pure a : PyM σ α).Returns s := ⟨a, s, rfl⟩

@[simp] theorem not_returns_throw (e : PyErr) (s : σ) : ¬ (throw e : PyM σ α).Returns s :=
  fun ⟨_, _, h⟩ => by cases h

theorem returns_bind_ok {x : PyM σ α} {f : α → PyM σ β} {s s' : σ} {a : α} (h : x s = .ok a s') :
    (x >>= f).Returns s ↔ (f a).Returns s' := by
  unfold Returns
  rw [bind_run_ok h]

theorem not_returns_bind {x : PyM σ α} {f : α → PyM σ β} {s s' : σ} {e : PyErr}
    (h : x s = .error e s') : ¬ (x >>= f).Returns s := by
  unfold Returns
  rw [bind_run_error h]
  exact fun ⟨_, _, h⟩ => by cases h

theorem returns_bind_iff {x : PyM σ α} {f : α → PyM σ β} {s : σ}
    (hf : ∀ a s', (f a).Returns s') : (x >>= f).Returns s ↔ x.Returns s := by
  cases hx : x s with
  | ok a s' => exact iff_of_true ((returns_bind_ok hx).mpr (hf a s')) ⟨a, s', hx⟩
  | error e s' =>
    refine iff_of_false (not_returns_bind hx) fun ⟨a, s'', h⟩ => ?_
    rw [hx] at h
    cases h

/-- **What both steps keep, their sequence keeps**, also when one of them raises. -/
theorem after_bind {p : σ → Prop} {x : PyM σ α} {f : α → PyM σ β} {s : σ}
    (hx : p (x.after s)) (hf : ∀ a s', p s' → p ((f a).after s')) : p ((x >>= f).after s) := by
  unfold after at hx ⊢
  rw [bind_run]
  cases h : x s with
  | ok a s' =>
    rw [h] at hx
    exact hf a s' hx
  | error e s' =>
    rw [h] at hx
    exact hx

theorem after_foldlM {p : σ → Prop} {f : β → α → PyM σ β} (hf : ∀ b a s, p s → p ((f b a).after s))
    (as : List α) (b : β) {s : σ} (hs : p s) : p ((as.foldlM f b).after s) := by
  induction as generalizing b s with
  | nil => exact hs
  | cons a as ih =>
    rw [List.foldlM_cons]
    exact after_bind (hf b a s hs) fun b' s' hs' => ih b' hs'

theorem zoom_ok {read : σ → τ} {write : τ → σ → σ} {x : PyM τ α} {s : σ} {a : α} {t : τ}
    (h : x (read s) = .ok a t) : zoom read write x s = .ok a (write t s) := by
  rw [zoom, h]

theorem zoom_error {read : σ → τ} {write : τ → σ → σ} {x : PyM τ α} {s : σ} {e : PyErr} {t : τ}
    (h : x (read s) = .error e t) : zoom read write x s = .error e (write t s) := by
  rw [zoom, h]

/-! ## Sequences -/

/-- **Where a sequence of steps raises**: at a step the steps before it lead to. -/
theorem foldlM_error_iff {f : β → α → PyM σ β} {as : List α} {b : β} {s s' : σ} {e : PyErr} :
    as.foldlM f b s = .error e s' ↔ ∃ before a after b₁ s₁, as = before ++ a :: after ∧
      before.foldlM f b s = .ok b₁ s₁ ∧ f b₁ a s₁ = .error e s' := by
  induction as generalizing b s with
  | nil =>
    refine iff_of_false (fun h => by cases h) ?_
    rintro ⟨before, a, after, b₁, s₁, hsplit, -⟩
    cases before <;> cases hsplit
  | cons a as ih =>
    rw [List.foldlM_cons]
    cases hstep : f b a s with
    | error e₁ s₁ =>
      rw [bind_run_error hstep]
      constructor
      · intro h
        cases h
        exact ⟨[], a, as, b, s, rfl, rfl, hstep⟩
      · rintro ⟨before, a', after, b₁, s₂, hsplit, hbefore, hraise⟩
        cases before with
        | nil =>
          obtain ⟨rfl, -⟩ := List.cons.inj hsplit
          cases hbefore
          rw [hstep] at hraise
          exact hraise
        | cons a'' before =>
          obtain ⟨rfl, -⟩ := List.cons.inj hsplit
          rw [List.foldlM_cons, bind_run_error hstep] at hbefore
          cases hbefore
    | ok b₁ s₁ =>
      rw [bind_run_ok hstep, ih]
      constructor
      · rintro ⟨before, a', after, b₂, s₂, rfl, hbefore, hraise⟩
        refine ⟨a :: before, a', after, b₂, s₂, rfl, ?_, hraise⟩
        rw [List.foldlM_cons, bind_run_ok hstep, hbefore]
      · rintro ⟨before, a', after, b₂, s₂, hsplit, hbefore, hraise⟩
        cases before with
        | nil =>
          obtain ⟨rfl, -⟩ := List.cons.inj hsplit
          cases hbefore
          rw [hstep] at hraise
          cases hraise
        | cons a'' before =>
          obtain ⟨rfl, htail⟩ := List.cons.inj hsplit
          rw [List.foldlM_cons, bind_run_ok hstep] at hbefore
          exact ⟨before, a', after, b₂, s₂, htail, hbefore, hraise⟩

theorem length_mapM {f : α → PyM σ β} {as : List α} {bs : List β} {s s' : σ}
    (h : as.mapM f s = .ok bs s') : bs.length = as.length := by
  induction as generalizing bs s with
  | nil =>
    cases h
    rfl
  | cons a as ih =>
    rw [List.mapM_cons] at h
    obtain ⟨b, s₁, -, h⟩ := of_bind_ok h
    obtain ⟨bs', s₂, hbs, h⟩ := of_bind_ok h
    cases h
    rw [List.length_cons, List.length_cons, ih hbs]

/-! ## Exceptions as values -/

/-- `try`: what is raised becomes a value. -/
def attempt (x : PyM σ α) : PyM σ (Except PyErr α) := fun s =>
  match x s with
  | .ok a s' => .ok (.ok a) s'
  | .error e s' => .ok (.error e) s'

theorem attempt_ok {x : PyM σ α} {s s' : σ} {a : α} (h : x s = .ok a s') :
    attempt x s = .ok (.ok a) s' := by
  rw [attempt, h]

theorem attempt_error {x : PyM σ α} {s s' : σ} {e : PyErr} (h : x s = .error e s') :
    attempt x s = .ok (.error e) s' := by
  rw [attempt, h]

/-! ## Loops -/

variable {γ : Type}

/-- How the turn of a loop ends: with the next turn, or for good. -/
inductive Turn (β γ : Type) where
  | next (b : β)
  | stop (c : γ)

/-- `for a in as`; a `break` or a `return` in a turn stops it. -/
def loop (turn : β → α → PyM σ (Turn β γ)) : List α → β → PyM σ (Turn β γ)
  | [], b => pure (.next b)
  | a :: as, b => do
    match ← turn b a with
    | .next b' => loop turn as b'
    | .stop c => return .stop c

section Loop

variable {turn : β → α → PyM σ (Turn β γ)} {a : α} {as : List α} {b b' : β} {c : γ} {s s' : σ}
  {e : PyErr}

theorem loop_cons_next (h : turn b a s = .ok (.next b') s') :
    loop turn (a :: as) b s = loop turn as b' s' :=
  bind_run_ok h

theorem loop_cons_stop (h : turn b a s = .ok (.stop c) s') :
    loop turn (a :: as) b s = .ok (.stop c) s' :=
  bind_run_ok h

theorem loop_cons_error (h : turn b a s = .error e s') :
    loop turn (a :: as) b s = .error e s' :=
  bind_run_error h

/-- **A loop returns when every turn it reaches does.** -/
theorem loop_returns_iff :
    (loop turn as b).Returns s ↔ ∀ before a after b' s', as = before ++ a :: after →
      loop turn before b s = .ok (.next b') s' → (turn b' a).Returns s' := by
  induction as generalizing b s with
  | nil =>
    refine iff_of_true ⟨_, _, rfl⟩ fun before a after b' s' h => ?_
    cases before <;> cases h
  | cons a as ih =>
    constructor
    · intro hreturns before a' after b' s' hsplit hbefore
      cases before with
      | nil =>
        obtain ⟨rfl, -⟩ := List.cons.inj hsplit
        cases hbefore
        cases hturn : turn b a s with
        | ok r s' => exact ⟨r, s', hturn⟩
        | error e s' =>
          obtain ⟨r, s'', h⟩ := hreturns
          rw [loop_cons_error hturn] at h
          cases h
      | cons a'' before =>
        obtain ⟨rfl, htail⟩ := List.cons.inj hsplit
        cases hturn : turn b a s with
        | error e s'' =>
          rw [loop_cons_error hturn] at hbefore
          cases hbefore
        | ok r s'' =>
          cases r with
          | stop c =>
            rw [loop_cons_stop hturn] at hbefore
            cases hbefore
          | next b'' =>
            rw [loop_cons_next hturn] at hbefore
            unfold Returns at hreturns
            rw [loop_cons_next hturn] at hreturns
            exact ih.mp hreturns before a' after b' s' htail hbefore
    · intro hturns
      obtain ⟨r, s', hturn⟩ := hturns [] a as b s rfl rfl
      unfold Returns
      cases r with
      | stop c => exact ⟨_, _, loop_cons_stop hturn⟩
      | next b' =>
        rw [loop_cons_next hturn]
        refine ih.mpr fun before a' after b'' s'' hsplit hbefore => ?_
        refine hturns (a :: before) a' after b'' s'' (by rw [hsplit, List.cons_append]) ?_
        rw [loop_cons_next hturn, hbefore]

/-- A loop goes on where its first turns end. -/
theorem loop_append {bs : List α} (h : loop turn as b s = .ok (.next b') s') :
    loop turn (as ++ bs) b s = loop turn bs b' s' := by
  induction as generalizing b s with
  | nil =>
    cases h
    rfl
  | cons a as ih =>
    cases hturn : turn b a s with
    | error e s'' =>
      rw [loop_cons_error hturn] at h
      cases h
    | ok r s'' =>
      cases r with
      | stop c =>
        rw [loop_cons_stop hturn] at h
        cases h
      | next b'' =>
        rw [loop_cons_next hturn] at h
        rw [List.cons_append, loop_cons_next hturn, ih h]

/-- The last turn of a loop that ran to its end. -/
theorem loop_concat (h : loop turn (as ++ [a]) b s = .ok (.next b') s') :
    ∃ b'' s'', loop turn as b s = .ok (.next b'') s'' ∧ turn b'' a s'' = .ok (.next b') s' := by
  induction as generalizing b s with
  | nil =>
    refine ⟨b, s, rfl, ?_⟩
    cases hturn : turn b a s with
    | error e s'' =>
      rw [List.nil_append, loop_cons_error hturn] at h
      cases h
    | ok r s'' =>
      cases r with
      | stop c =>
        rw [List.nil_append, loop_cons_stop hturn] at h
        cases h
      | next b'' =>
        rw [List.nil_append, loop_cons_next hturn] at h
        exact h
  | cons a' as ih =>
    cases hturn : turn b a' s with
    | error e s'' =>
      rw [List.cons_append, loop_cons_error hturn] at h
      cases h
    | ok r s'' =>
      cases r with
      | stop c =>
        rw [List.cons_append, loop_cons_stop hturn] at h
        cases h
      | next b'' =>
        rw [List.cons_append, loop_cons_next hturn] at h
        obtain ⟨b₁, s₁, hbefore, hlast⟩ := ih h
        exact ⟨b₁, s₁, by rw [loop_cons_next hturn, hbefore], hlast⟩

/-- A loop that is stopped is stopped by a turn it reaches. -/
theorem loop_stopped (h : loop turn as b s = .ok (.stop c) s') :
    ∃ before a after b' s'', as = before ++ a :: after
      ∧ loop turn before b s = .ok (.next b') s'' ∧ turn b' a s'' = .ok (.stop c) s' := by
  induction as generalizing b s with
  | nil => cases h
  | cons a as ih =>
    cases hturn : turn b a s with
    | error e s'' =>
      rw [loop_cons_error hturn] at h
      cases h
    | ok r s'' =>
      cases r with
      | stop c' =>
        rw [loop_cons_stop hturn] at h
        cases h
        exact ⟨[], a, as, b, s, rfl, rfl, hturn⟩
      | next b' =>
        rw [loop_cons_next hturn] at h
        obtain ⟨before, a', after, b'', s₁, hsplit, hbefore, hstop⟩ := ih h
        refine ⟨a :: before, a', after, b'', s₁, by rw [hsplit, List.cons_append], ?_, hstop⟩
        rw [loop_cons_next hturn, hbefore]

/-- **What every turn keeps, the loop keeps**; a turn that stops or raises may end with less. -/
theorem loop_invariant (inv : β → σ → Prop) (stopped : γ → σ → Prop) (raised : PyErr → σ → Prop)
    (turn : β → α → PyM σ (Turn β γ)) (as : List α) (b : β) (s : σ) (hb : inv b s)
    (hnext : ∀ a ∈ as, ∀ b s b' s', inv b s → turn b a s = .ok (.next b') s' → inv b' s')
    (hstop : ∀ a ∈ as, ∀ b s c s', inv b s → turn b a s = .ok (.stop c) s' → stopped c s')
    (herror : ∀ a ∈ as, ∀ b s e s', inv b s → turn b a s = .error e s' → raised e s') :
    match loop turn as b s with
    | .ok (.next b') s' => inv b' s'
    | .ok (.stop c) s' => stopped c s'
    | .error e s' => raised e s' := by
  induction as generalizing b s with
  | nil => exact hb
  | cons a as ih =>
    have ha : a ∈ a :: as := List.mem_cons_self ..
    cases hturn : turn b a s with
    | error e s' =>
      rw [loop_cons_error hturn]
      exact herror a ha b s e s' hb hturn
    | ok r s' =>
      cases r with
      | stop c =>
        rw [loop_cons_stop hturn]
        exact hstop a ha b s c s' hb hturn
      | next b' =>
        rw [loop_cons_next hturn]
        exact ih b' s' (hnext a ha b s b' s' hb hturn)
          (fun a' ha' => hnext a' (List.mem_cons_of_mem _ ha'))
          (fun a' ha' => hstop a' (List.mem_cons_of_mem _ ha'))
          (fun a' ha' => herror a' (List.mem_cons_of_mem _ ha'))

end Loop

end PyM

end Py
