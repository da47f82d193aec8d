import Mathlib.Data.List.Basic
import Mathlib.Logic.Function.Basic
import Mathlib.Tactic.Common

/-!
# Writing files, and stopping in between

A directory maps names to contents. A program that changes it does one operation after the other:
it removes a file, writes one, or replaces one by another at once. `Stopped` are the directories it
can leave when it stops between two operations or within a write, which can leave anything.

A marker file that is removed first and put in place last is absent wherever the program stops in
between (`stopped_absent`).
-/

namespace Systems

inductive FileOp (N C : Type) where
  | remove (name : N)
  | write (name : N) (content : C)
  /-- The file moves over whatever has the new name. -/
  | replace (source target : N)
  deriving DecidableEq

namespace FileOp

variable {N C : Type} [DecidableEq N]

def apply (op : FileOp N C) (dir : N → Option C) : N → Option C :=
  match op with
  | remove name => Function.update dir name none
  | write name content => Function.update dir name (some content)
  | replace source target => Function.update (Function.update dir target (dir source)) source none

def applyAll (ops : List (FileOp N C)) (dir : N → Option C) : N → Option C :=
  ops.foldl (fun dir op => op.apply dir) dir

/-- The operation can change the content of a name. -/
def Touches (op : FileOp N C) (name : N) : Prop :=
  match op with
  | remove n => n = name
  | write n _ => n = name
  | replace source target => source = name ∨ target = name

/-- Where a program that stops can leave the directory, after it has done the operations `pre` of
`pre ++ post`. -/
inductive Stopped (dir : N → Option C) (pre post : List (FileOp N C)) : (N → Option C) → Prop where
  | between : Stopped dir pre post (applyAll pre dir)
  | within {name : N} {content : C} {rest : List (FileOp N C)} (h : post = write name content :: rest)
      (left : Option C) : Stopped dir pre post (Function.update (applyAll pre dir) name left)

variable {dir : N → Option C} {ops pre post : List (FileOp N C)} {op : FileOp N C} {name : N}

@[simp] theorem applyAll_nil : applyAll [] dir = dir := rfl

@[simp] theorem applyAll_append :
    applyAll (ops ++ post) dir = applyAll post (applyAll ops dir) :=
  List.foldl_append

@[simp] theorem applyAll_cons : applyAll (op :: ops) dir = applyAll ops (op.apply dir) := rfl

theorem apply_of_untouched (h : ¬ op.Touches name) : op.apply dir name = dir name := by
  cases op with
  | remove n => exact Function.update_of_ne (fun heq => h heq.symm) _ _
  | write n content => exact Function.update_of_ne (fun heq => h heq.symm) _ _
  | replace source target =>
    have hsource : name ≠ source := fun heq => h (Or.inl heq.symm)
    have htarget : name ≠ target := fun heq => h (Or.inr heq.symm)
    show Function.update (Function.update dir target _) source none name = _
    rw [Function.update_of_ne hsource, Function.update_of_ne htarget]

theorem applyAll_of_untouched (h : ∀ op ∈ ops, ¬ op.Touches name) :
    applyAll ops dir name = dir name := by
  induction ops generalizing dir with
  | nil => rfl
  | cons op ops ih =>
    rw [applyAll_cons, ih fun o ho => h o (List.mem_cons_of_mem _ ho),
      apply_of_untouched (h op (List.mem_cons_self ..))]

/-- A name that is only removed stays absent. -/
theorem applyAll_absent (h : ∀ op ∈ ops, op = remove name ∨ ¬ op.Touches name)
    (habsent : dir name = none) : applyAll ops dir name = none := by
  induction ops generalizing dir with
  | nil => exact habsent
  | cons op ops ih =>
    refine ih (fun o ho => h o (List.mem_cons_of_mem _ ho)) ?_
    show op.apply dir name = none
    rcases h op (List.mem_cons_self ..) with hremove | huntouched
    · rw [hremove]
      exact Function.update_self ..
    · rw [apply_of_untouched huntouched]
      exact habsent

/-- **A marker that is not put in place is absent wherever the program stops.** -/
theorem stopped_absent {d : N → Option C} (h : Stopped dir pre post d)
    (hpre : ∀ op ∈ pre, op = remove name ∨ ¬ op.Touches name)
    (hpost : ∀ n content, write n content ∈ post → n ≠ name) (habsent : dir name = none) :
    d name = none := by
  have hdone := applyAll_absent hpre habsent
  cases h with
  | between => exact hdone
  | @within n content rest hwrite left =>
    have hne : n ≠ name := hpost n content (by rw [hwrite]; exact List.mem_cons_self ..)
    rw [Function.update_of_ne hne.symm]
    exact hdone

/-- The first operation can be done before. -/
theorem stopped_cons {d : N → Option C} (h : Stopped dir (op :: pre) post d) :
    Stopped (op.apply dir) pre post d := by
  cases h with
  | between => exact .between
  | within hwrite left => exact .within hwrite left

/-- A file that is written under another name and then moved has its content. -/
theorem apply_write_replace {tmp target : N} (hne : tmp ≠ target) (content : C) :
    applyAll [write tmp content, replace tmp target] dir target = some content := by
  simp only [applyAll_cons, applyAll_nil, apply]
  rw [Function.update_of_ne hne.symm, Function.update_self, Function.update_self]

end FileOp

end Systems
