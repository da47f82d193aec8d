import NeuraHash.Judge.Rows
import NeuraHash.Platform
import NeuraHash.Systems.History

/-!
# The judge off the event loop (`JudgeGate`)

A caller submits a candidate under a coordinate and a key and polls for its verdict; one worker
takes the jobs in order. The queue, the job in flight and the cached verdicts hold each pair of a
coordinate and a key at most once (`Keyed`), and `Traced` says what a gate owes to the calls made
on it: a cached verdict to a call of the judge, a job to a submission, an attempt to a submission
that was accepted.
-/

namespace NeuraHash

open Py Systems

section Gate

variable {κ ρ : Type} [DecidableEq κ]

/-! ## The gate -/

/-- A verdict as the caller reads it. -/
abbrev Verdict := Dict String Json

/-- A candidate to be judged. -/
structure Job (κ ρ : Type) where
  coord : Coord
  key : κ
  base : RowState ρ
  cand : RowState ρ

def Job.id (job : Job κ ρ) : Coord × κ := (job.coord, job.key)

/-- The gate, with the states its worker holds of the job in flight. -/
structure JudgeGate (κ ρ : Type) [DecidableEq κ] where
  queue : List (Job κ ρ)
  inflight : Option (Job κ ρ)
  done : Dict (Coord × κ) Verdict
  attempts : Dict Coord (List κ)

namespace JudgeGate

/-- A gate that nothing was submitted to. -/
def fresh : JudgeGate κ ρ := ⟨[], none, ∅, ∅⟩

/-- The distinct keys a coordinate was queued under. -/
def seen (g : JudgeGate κ ρ) (c : Coord) : List κ := g.attempts.getD c []

/-- `submit`, with the states normalized. -/
def enqueue (maxRejudges : ℤ) (g : JudgeGate κ ρ) (job : Job κ ρ) : Bool × JudgeGate κ ρ :=
  if g.done.contains job.id || (g.inflight.map Job.id == some job.id) then (true, g)
  else if g.queue.any (fun q => q.id = job.id) then (true, g)
  else
    let seen := g.seen job.coord
    if job.key ∉ seen ∧ maxRejudges ≤ seen.length then
      (false, { g with attempts := g.attempts.set job.coord seen })
    else
      let seen := if job.key ∈ seen then seen else seen ++ [job.key]
      (true, { g with
        attempts := g.attempts.set job.coord seen
        queue := g.queue ++ [job] })

/-- What `submit` makes of its arguments. -/
def jobOf (T : PyText) (coord : CoordArg) (key : κ) (base cand : StateArg ρ) :
    Except PyErr (Job κ ρ) := do
  let c ← asCoord T coord
  let b ← normalizeState T (some (.of c)) base
  let d ← normalizeState T (some (.of c)) cand
  return ⟨c, key, b, d⟩

/-- The verdict a `wait` returns when its time is up. -/
def timeoutVerdict (within : String) : Verdict :=
  Dict.ofList [("accept", .bool false), ("tag", .str "JUDGE-TIMEOUT"),
    ("verdict", .str "UNAVAILABLE"), ("error", .str ("no verdict within " ++ within ++ "s")),
    ("ce_before", .null), ("ce_after", .null), ("delta", .null)]

/-- `forget(coord, key)`, of a converted coordinate. -/
def forget (g : JudgeGate κ ρ) (c : Coord) (key : Option κ) : JudgeGate κ ρ :=
  { g with
    done := (g.done.keys.filter fun kk => kk.1 = c ∧ (key = none ∨ key = some kk.2)).foldl
      Dict.erase g.done }

/-- `d.setdefault(k, v)`. -/
def setDefault (d : Verdict) (k : String) (v : Json) : Verdict :=
  if d.contains k then d else d.set k v

/-- The verdict the worker stores: what `judge_fn` returned, or a rejection with the text of what
it raised. -/
def verdictOf (reply : Except String Verdict) (wall : PyFloat) : Verdict :=
  let v := match reply with
    | .ok d =>
      ((setDefault (setDefault d "accept" (.bool false)) "tag" (.str "JUDGE-OK")).set "error" .null)
    | .error text =>
      Dict.ofList [("accept", .bool false), ("error", .str text), ("tag", .str "JUDGE-FAILCLOSED"),
        ("ce_before", .null), ("ce_after", .null), ("delta", .null),
        ("verdict", .str "UNAVAILABLE")]
  v.set "wall_s" (.float wall)

/-! ## Runs -/

/-- What happens to a gate: a call, or a step of its worker. A `wait` is here when it returns. -/
inductive Action (κ ρ : Type) where
  | submit (coord : CoordArg) (key : κ) (base cand : StateArg ρ)
  | poll (coord : CoordArg) (key : κ)
  | wait (coord : CoordArg) (key : κ) (within : String)
  | forget (coord : CoordArg) (key : Option κ)
  | take
  | finish (reply : Except String Verdict) (wall : PyFloat)

/-- What comes of it. -/
inductive Answer (κ ρ : Type) where
  | submitted (b : Bool)
  | verdict (v : Option Verdict)
  | forgotten
  | began (job : Job κ ρ)
  | ended (job : Job κ ρ) (reply : Except String Verdict)
  | idle
  | raised (e : PyErr)

def step (T : PyText) (maxRejudges : ℤ) (g : JudgeGate κ ρ) :
    Action κ ρ → Answer κ ρ × JudgeGate κ ρ
  | .submit coord key base cand =>
    match jobOf T coord key base cand with
    | .error e => (.raised e, g)
    | .ok job => (.submitted (g.enqueue maxRejudges job).1, (g.enqueue maxRejudges job).2)
  | .poll coord key =>
    match asCoord T coord with
    | .error e => (.raised e, g)
    | .ok c => (.verdict (g.done.get? (c, key)), g)
  | .wait coord key within =>
    match asCoord T coord with
    | .error e => (.raised e, g)
    | .ok c => (.verdict (some ((g.done.get? (c, key)).getD (timeoutVerdict within))), g)
  | .forget coord key =>
    match asCoord T coord with
    | .error e => (.raised e, g)
    | .ok c => (.forgotten, g.forget c key)
  | .take =>
    match g.inflight, g.queue with
    | none, job :: rest => (.began job, { g with queue := rest, inflight := some job })
    | _, _ => (.idle, g)
  | .finish reply wall =>
    match g.inflight with
    | none => (.idle, g)
    | some job => (.ended job reply,
        { g with done := g.done.set job.id (verdictOf reply wall), inflight := none })

/-! ## One place for a key -/

/-- The pairs of a coordinate and a key that are queued, in flight or cached. -/
def ids (g : JudgeGate κ ρ) : List (Coord × κ) :=
  g.queue.map Job.id ++ (g.inflight.toList.map Job.id ++ g.done.keys)

section Ids

variable {g : JudgeGate κ ρ} {job : Job κ ρ} {c : Coord} {k : κ}

theorem mem_ids {id : Coord × κ} :
    id ∈ g.ids ↔ (∃ job ∈ g.queue, job.id = id) ∨ (∃ job, g.inflight = some job ∧ job.id = id)
      ∨ id ∈ g.done.keys := by
  unfold ids
  rw [List.mem_append, List.mem_append, List.mem_map, List.mem_map]
  simp only [Option.mem_toList]

/-- **What a submission does**: it finds its pair known, is refused for want of attempts, or is
queued. -/
theorem enqueue_cases (maxRejudges : ℤ) (g : JudgeGate κ ρ) (job : Job κ ρ) :
    (job.id ∈ g.ids ∧ g.enqueue maxRejudges job = (true, g))
    ∨ (job.id ∉ g.ids ∧ (job.key ∉ g.seen job.coord ∧ maxRejudges ≤ (g.seen job.coord).length)
      ∧ g.enqueue maxRejudges job
        = (false, { g with attempts := g.attempts.set job.coord (g.seen job.coord) }))
    ∨ (job.id ∉ g.ids ∧ ¬ (job.key ∉ g.seen job.coord ∧ maxRejudges ≤ (g.seen job.coord).length)
      ∧ g.enqueue maxRejudges job = (true, { g with
          attempts := g.attempts.set job.coord
            (if job.key ∈ g.seen job.coord then g.seen job.coord
              else g.seen job.coord ++ [job.key])
          queue := g.queue ++ [job] })) := by
  have hknown : job.id ∈ g.ids ↔
      ((g.done.contains job.id || (g.inflight.map Job.id == some job.id)) = true
        ∨ g.queue.any (fun q => q.id = job.id) = true) := by
    rw [mem_ids, Dict.mem_keys_iff, ← Dict.contains_iff]
    simp only [Bool.or_eq_true, beq_iff_eq, Option.map_eq_some_iff, List.any_eq_true,
      decide_eq_true_eq]
    exact or_comm.trans (or_congr_left or_comm)
  unfold enqueue
  by_cases hcached : (g.done.contains job.id || (g.inflight.map Job.id == some job.id)) = true
  · exact Or.inl ⟨hknown.mpr (Or.inl hcached), if_pos hcached⟩
  by_cases hqueued : g.queue.any (fun q => q.id = job.id) = true
  · refine Or.inl ⟨hknown.mpr (Or.inr hqueued), ?_⟩
    rw [if_neg hcached, if_pos hqueued]
  have hout : job.id ∉ g.ids := fun h => (hknown.mp h).elim hcached hqueued
  rw [if_neg hcached, if_neg hqueued]
  by_cases hfull : job.key ∉ g.seen job.coord ∧ maxRejudges ≤ (g.seen job.coord).length
  · exact Or.inr (Or.inl ⟨hout, hfull, if_pos hfull⟩)
  · exact Or.inr (Or.inr ⟨hout, hfull, if_neg hfull⟩)

theorem get?_forget (g : JudgeGate κ ρ) (c : Coord) (key : Option κ) (id : Coord × κ) :
    (g.forget c key).done.get? id
      = if id.1 = c ∧ (key = none ∨ key = some id.2) then none else g.done.get? id := by
  show (Dict.get? (List.foldl Dict.erase g.done _) id) = _
  rw [Dict.get?_foldl_erase]
  by_cases hdrop : id.1 = c ∧ (key = none ∨ key = some id.2)
  · rw [if_pos hdrop]
    split
    · rfl
    · next hout =>
      refine Dict.get?_eq_none_iff.mpr fun hin => hout ?_
      exact List.mem_filter.mpr ⟨hin, decide_eq_true hdrop⟩
  · rw [if_neg hdrop, if_neg]
    intro hin
    exact hdrop (of_decide_eq_true (List.mem_filter.mp hin).2)

theorem keys_foldl_erase {α β : Type} [DecidableEq α] (ks : List α) (d : Dict α β) :
    ((ks.foldl Dict.erase d).keys).Sublist d.keys := by
  induction ks generalizing d with
  | nil => exact List.Sublist.refl _
  | cons a ks ih => exact (ih (d.erase a)).trans (List.filter_sublist.map Prod.fst)

theorem ids_forget_sublist (c : Coord) (key : Option κ) : (g.forget c key).ids.Sublist g.ids :=
  ((keys_foldl_erase _ g.done).append_left _).append_left _

theorem ids_take_perm {rest : List (Job κ ρ)} (hidle : g.inflight = none)
    (hqueue : g.queue = job :: rest) :
    ({ g with queue := rest, inflight := some job } : JudgeGate κ ρ).ids.Perm g.ids := by
  unfold ids
  rw [hidle, hqueue]
  exact List.perm_middle

theorem ids_finish_perm {v : Verdict} (hflight : g.inflight = some job) (hnodup : g.ids.Nodup) :
    ({ g with done := g.done.set job.id v, inflight := none } : JudgeGate κ ρ).ids.Perm g.ids := by
  have hnew : job.id ∉ g.done.keys := by
    unfold ids at hnodup
    rw [hflight] at hnodup
    exact (List.nodup_cons.mp (List.nodup_append.mp hnodup).2.1).1
  unfold ids
  rw [hflight, Dict.keys_set, if_neg hnew]
  refine List.Perm.append_left _ ?_
  exact List.perm_append_singleton job.id g.done.keys

/-- **What a step can do.** -/
theorem step_cases (T : PyText) (maxRejudges : ℤ) (g : JudgeGate κ ρ) (a : Action κ ρ) :
    (∃ x, g.step T maxRejudges a = (x, g) ∧ x ≠ .submitted true ∧ ∀ job, x ≠ .began job)
    ∨ (∃ coord k base cand job, a = .submit coord k base cand
      ∧ jobOf T coord k base cand = .ok job
      ∧ g.step T maxRejudges a
        = (.submitted (g.enqueue maxRejudges job).1, (g.enqueue maxRejudges job).2))
    ∨ (∃ coord c key, a = .forget coord key ∧ asCoord T coord = .ok c
      ∧ g.step T maxRejudges a = (.forgotten, g.forget c key))
    ∨ (∃ job rest, a = .take ∧ g.inflight = none ∧ g.queue = job :: rest
      ∧ g.step T maxRejudges a = (.began job, { g with queue := rest, inflight := some job }))
    ∨ (∃ job reply wall, a = .finish reply wall ∧ g.inflight = some job
      ∧ g.step T maxRejudges a = (.ended job reply,
        { g with done := g.done.set job.id (verdictOf reply wall), inflight := none })) := by
  unfold step
  cases a with
  | submit coord key base cand =>
    cases hjob : jobOf T coord key base cand with
    | error x => exact Or.inl ⟨.raised x, by simp only [hjob], nofun, nofun⟩
    | ok job =>
      refine Or.inr (Or.inl ⟨coord, key, base, cand, job, rfl, hjob, ?_⟩)
      simp only [hjob]
  | poll coord key =>
    cases hcoord : asCoord T coord with
    | error x => exact Or.inl ⟨.raised x, by simp only [hcoord], nofun, nofun⟩
    | ok c => exact Or.inl ⟨.verdict (g.done.get? (c, key)), by simp only [hcoord], nofun, nofun⟩
  | wait coord key within =>
    cases hcoord : asCoord T coord with
    | error x => exact Or.inl ⟨.raised x, by simp only [hcoord], nofun, nofun⟩
    | ok c =>
      exact Or.inl ⟨.verdict (some ((g.done.get? (c, key)).getD (timeoutVerdict within))),
        by simp only [hcoord], nofun, nofun⟩
  | forget coord key =>
    cases hcoord : asCoord T coord with
    | error x => exact Or.inl ⟨.raised x, by simp only [hcoord], nofun, nofun⟩
    | ok c =>
      refine Or.inr (Or.inr (Or.inl ⟨coord, c, key, rfl, hcoord, ?_⟩))
      simp only [hcoord]
  | take =>
    cases hidle : g.inflight with
    | some job => exact Or.inl ⟨.idle, rfl, nofun, nofun⟩
    | none =>
      cases hqueue : g.queue with
      | nil => exact Or.inl ⟨.idle, rfl, nofun, nofun⟩
      | cons job rest =>
        exact Or.inr (Or.inr (Or.inr (Or.inl ⟨job, rest, rfl, rfl, rfl, rfl⟩)))
  | finish reply wall =>
    cases hflight : g.inflight with
    | none => exact Or.inl ⟨.idle, rfl, nofun, nofun⟩
    | some job =>
      exact Or.inr (Or.inr (Or.inr (Or.inr ⟨job, reply, wall, rfl, rfl, rfl⟩)))

end Ids

/-! ## What a gate owes to its calls -/

/-- A verdict accepts its candidate. -/
def accepts (v : Verdict) : Bool := (v.get? "accept").any Json.truthy

/-- The events of a gate. -/
abbrev GateEvent (κ ρ : Type) [DecidableEq κ] :=
  Event (JudgeGate κ ρ) (Action κ ρ) (Answer κ ρ)

/-- The event is a submission of the job. -/
def SubmitOf (T : PyText) (job : Job κ ρ) (e : GateEvent κ ρ) : Prop :=
  ∃ coord base cand, e.input = .submit coord job.key base cand
    ∧ jobOf T coord job.key base cand = .ok job

/-- The event is a submission under the pair that was not refused. -/
def AcceptedAt (T : PyText) (c : Coord) (k : κ) (e : GateEvent κ ρ) : Prop :=
  e.output = .submitted true
    ∧ ∃ coord base cand, e.input = .submit coord k base cand ∧ asCoord T coord = .ok c

/-- The event is a call of the judge on the job, which accepted it. -/
def JudgedAccept (job : Job κ ρ) (e : GateEvent κ ρ) : Prop :=
  ∃ reply, e.output = .ended job (.ok reply) ∧ accepts reply = true

structure Traced (T : PyText) (maxRejudges : ℤ) (g : JudgeGate κ ρ) (h : List (GateEvent κ ρ)) :
    Prop where
  keyed : g.ids.Nodup
  jobs : ∀ job, job ∈ g.queue ∨ g.inflight = some job → ∃ e ∈ h, SubmitOf T job e
  verdicts : ∀ id v, g.done.get? id = some v → accepts v = true →
    ∃ job, job.id = id ∧ (∃ e ∈ h, SubmitOf T job e) ∧ ∃ e ∈ h, JudgedAccept job e
  seen_nodup : ∀ c, (g.seen c).Nodup
  seen_le : ∀ c, ((g.seen c).length : ℤ) ≤ max maxRejudges 0
  mem_seen : ∀ c k, k ∈ g.seen c ↔ ∃ e ∈ h, AcceptedAt T c k e
  ids_seen : ∀ id ∈ g.ids, id.2 ∈ g.seen id.1

section Traced

variable {T : PyText} {maxRejudges : ℤ} {g : JudgeGate κ ρ} {h : List (GateEvent κ ρ)}
  {e : GateEvent κ ρ} {job : Job κ ρ} {c : Coord} {k : κ}

theorem traced_fresh : Traced T maxRejudges (fresh : JudgeGate κ ρ) [] where
  keyed := List.nodup_nil
  jobs := by
    intro job hjob
    rcases hjob with hjob | hjob <;> cases hjob
  verdicts := by
    intro id v hv
    cases hv
  seen_nodup _ := List.nodup_nil
  seen_le _ := le_max_right _ _
  mem_seen c k := iff_of_false List.not_mem_nil fun ⟨_, he, _⟩ => absurd he List.not_mem_nil
  ids_seen id hid := absurd hid List.not_mem_nil

theorem exists_mem_concat {p : GateEvent κ ρ → Prop} (hp : ∃ e ∈ h, p e) :
    ∃ e' ∈ h ++ [e], p e' := by
  obtain ⟨e', he', hpe⟩ := hp
  exact ⟨e', List.mem_append_left _ he', hpe⟩

/-- An accepted submission is the last event or an earlier one. -/
theorem acceptedAt_concat : (∃ e' ∈ h ++ [e], AcceptedAt T c k e')
    ↔ (∃ e' ∈ h, AcceptedAt T c k e') ∨ AcceptedAt T c k e := by
  constructor
  · intro hin
    obtain ⟨e', he', hacc⟩ := hin
    rcases List.mem_append.mp he' with he' | he'
    · exact Or.inl ⟨e', he', hacc⟩
    · exact Or.inr (List.mem_singleton.mp he' ▸ hacc)
  · intro hin
    rcases hin with hin | hacc
    · exact exists_mem_concat hin
    · exact ⟨e, List.mem_append_right _ (List.mem_singleton_self e), hacc⟩

theorem verdicts_concat {g' : JudgeGate κ ρ} (ht : Traced T maxRejudges g h)
    (hdone : ∀ id v, g'.done.get? id = some v → g.done.get? id = some v) :
    ∀ id v, g'.done.get? id = some v → accepts v = true →
      ∃ job, job.id = id ∧ (∃ e' ∈ h ++ [e], SubmitOf T job e')
        ∧ ∃ e' ∈ h ++ [e], JudgedAccept job e' := by
  intro id v hv hacc
  obtain ⟨job, hid, hsub, hjudge⟩ := ht.verdicts id v (hdone id v hv) hacc
  exact ⟨job, hid, exists_mem_concat hsub, exists_mem_concat hjudge⟩

/-- An event that changes nothing and accepts no submission. -/
theorem Traced.same (ht : Traced T maxRejudges g h) (hout : e.output ≠ .submitted true) :
    Traced T maxRejudges g (h ++ [e]) where
  keyed := ht.keyed
  jobs job hjob := exists_mem_concat (ht.jobs job hjob)
  verdicts := verdicts_concat ht fun _ _ hv => hv
  seen_nodup := ht.seen_nodup
  seen_le := ht.seen_le
  mem_seen c k := by
    rw [ht.mem_seen, acceptedAt_concat]
    exact (or_iff_left fun hacc => hout hacc.1).symm
  ids_seen := ht.ids_seen

theorem seen_set (g : JudgeGate κ ρ) (c c' : Coord) (ks : List κ) (q : List (Job κ ρ)) :
    ({ g with attempts := g.attempts.set c ks, queue := q } : JudgeGate κ ρ).seen c'
      = if c = c' then ks else g.seen c' := by
  unfold seen Dict.getD
  rw [Dict.get?_set]
  split <;> rfl

omit [DecidableEq κ] in
theorem jobOf_ok {coord : CoordArg} {base cand : StateArg ρ}
    (hjob : jobOf T coord k base cand = .ok job) :
    asCoord T coord = .ok job.coord ∧ job.key = k := by
  unfold jobOf at hjob
  obtain ⟨c, hc, hjob⟩ := bind_eq_ok.mp hjob
  obtain ⟨b, -, hjob⟩ := bind_eq_ok.mp hjob
  obtain ⟨d, -, hjob⟩ := bind_eq_ok.mp hjob
  cases hjob
  exact ⟨hc, rfl⟩

/-- **A submission** leaves the gate traced. -/
theorem Traced.enqueue (ht : Traced T maxRejudges g h) {coord : CoordArg} {base cand : StateArg ρ}
    (hjob : jobOf T coord k base cand = .ok job) :
    Traced T maxRejudges (g.enqueue maxRejudges job).2 (h ++ [⟨g, .submit coord k base cand,
      .submitted (g.enqueue maxRejudges job).1, (g.enqueue maxRejudges job).2⟩]) := by
  obtain ⟨hcoord, hkey⟩ := jobOf_ok hjob
  -- who the last event accepts
  have hlast : ∀ b g' c' k', AcceptedAt T c' k' (⟨g, .submit coord k base cand, .submitted b, g'⟩ :
      GateEvent κ ρ) ↔ b = true ∧ c' = job.coord ∧ k' = job.key := by
    intro b g' c' k'
    constructor
    · intro hacc
      obtain ⟨hb, coord', base', cand', hin, hc'⟩ := hacc
      cases hb
      cases hin
      exact ⟨rfl, Except.ok.inj (hc'.symm.trans hcoord), hkey.symm⟩
    · intro hacc
      obtain ⟨rfl, rfl, rfl⟩ := hacc
      exact ⟨rfl, coord, base, cand, by rw [hkey], hcoord⟩
  rcases enqueue_cases maxRejudges g job with
    ⟨hin, heq⟩ | ⟨hout, hfull, heq⟩ | ⟨hout, hroom, heq⟩
  · rw [heq]
    exact {
      keyed := ht.keyed
      jobs := fun job hjob => exists_mem_concat (ht.jobs job hjob)
      verdicts := verdicts_concat ht fun _ _ hv => hv
      seen_nodup := ht.seen_nodup
      seen_le := ht.seen_le
      mem_seen := fun c' k' => by
        rw [acceptedAt_concat, ht.mem_seen, hlast]
        refine (or_iff_left_of_imp fun hacc => ?_).symm
        obtain ⟨-, rfl, rfl⟩ := hacc
        exact (ht.mem_seen _ _).mp (ht.ids_seen _ hin)
      ids_seen := ht.ids_seen }
  · rw [heq]
    have hseen := fun c' => seen_set g job.coord c' (g.seen job.coord) g.queue
    have hsame : ∀ c', ({ g with attempts := g.attempts.set job.coord (g.seen job.coord) } :
        JudgeGate κ ρ).seen c' = g.seen c' := by
      intro c'
      rw [hseen]
      split
      · next hc => rw [hc]
      · rfl
    exact {
      keyed := ht.keyed
      jobs := fun job hjob => exists_mem_concat (ht.jobs job hjob)
      verdicts := verdicts_concat ht fun _ _ hv => hv
      seen_nodup := fun c' => by
        rw [hsame]
        exact ht.seen_nodup c'
      seen_le := fun c' => by
        rw [hsame]
        exact ht.seen_le c'
      mem_seen := fun c' k' => by
        rw [hsame, acceptedAt_concat, ht.mem_seen, hlast]
        exact (or_iff_left fun hacc => Bool.false_ne_true hacc.1).symm
      ids_seen := fun id hid => by
        rw [hsame]
        exact ht.ids_seen id hid }
  · rw [heq]
    have hseen := fun c' => seen_set g job.coord c' (if job.key ∈ g.seen job.coord then
      g.seen job.coord else g.seen job.coord ++ [job.key]) (g.queue ++ [job])
    have hmem : ∀ c' k', k' ∈ (if job.coord = c' then (if job.key ∈ g.seen job.coord then
        g.seen job.coord else g.seen job.coord ++ [job.key]) else g.seen c')
        ↔ k' ∈ g.seen c' ∨ (c' = job.coord ∧ k' = job.key) := by
      intro c' k'
      by_cases hc : job.coord = c'
      · subst hc
        rw [if_pos rfl]
        split
        · next hin =>
          refine (or_iff_left_of_imp fun hacc => ?_).symm
          rw [hacc.2]
          exact hin
        · rw [List.mem_append, List.mem_singleton]
          simp only [true_and]
      · rw [if_neg hc]
        exact (or_iff_left fun hacc => hc hacc.1.symm).symm
    exact {
      keyed := by
        show ((g.queue ++ [job]).map Job.id ++ _).Nodup
        rw [List.map_append, List.append_assoc]
        exact List.perm_middle.nodup_iff.mpr (List.nodup_cons.mpr ⟨hout, ht.keyed⟩)
      jobs := fun job' hjob' => by
        rcases hjob' with hjob' | hjob'
        · rcases List.mem_append.mp hjob' with hjob' | hjob'
          · exact exists_mem_concat (ht.jobs job' (Or.inl hjob'))
          · obtain rfl := List.mem_singleton.mp hjob'
            exact ⟨_, List.mem_append_right _ (List.mem_singleton_self _), coord, base, cand,
              by rw [hkey], by rw [hkey]; exact hjob⟩
        · exact exists_mem_concat (ht.jobs job' (Or.inr hjob'))
      verdicts := verdicts_concat ht fun _ _ hv => hv
      seen_nodup := fun c' => by
        rw [hseen]
        split
        · split
          · exact ht.seen_nodup _
          · next hnew =>
            exact List.Nodup.append (ht.seen_nodup _) (List.nodup_singleton _)
              (List.disjoint_singleton.mpr hnew)
        · exact ht.seen_nodup c'
      seen_le := fun c' => by
        rw [hseen]
        split
        · split
          · exact ht.seen_le _
          · next hnew =>
            have hlt : ((g.seen job.coord).length : ℤ) < maxRejudges := by
              by_contra hge
              exact hroom ⟨hnew, not_lt.mp hge⟩
            rw [List.length_append, List.length_singleton]
            push_cast
            omega
        · exact ht.seen_le c'
      mem_seen := fun c' k' => by
        rw [hseen, hmem, acceptedAt_concat, ht.mem_seen, hlast]
        simp only [true_and]
      ids_seen := fun id hid => by
        rw [hseen, hmem]
        have hid' : id ∈ g.ids ∨ id = job.id := by
          rw [mem_ids] at hid ⊢
          rcases hid with ⟨job', hjob', rfl⟩ | hid
          · rcases List.mem_append.mp hjob' with hjob' | hjob'
            · exact Or.inl (Or.inl ⟨job', hjob', rfl⟩)
            · exact Or.inr (by rw [List.mem_singleton.mp hjob'])
          · exact Or.inl (Or.inr hid)
        rcases hid' with hid' | rfl
        · exact Or.inl (ht.ids_seen id hid')
        · exact Or.inr ⟨rfl, rfl⟩ }

theorem Traced.forget (ht : Traced T maxRejudges g h) (hout : e.output ≠ .submitted true)
    (c : Coord) (key : Option κ) : Traced T maxRejudges (g.forget c key) (h ++ [e]) where
  keyed := ht.keyed.sublist (ids_forget_sublist c key)
  jobs job hjob := exists_mem_concat (ht.jobs job hjob)
  verdicts := by
    refine verdicts_concat ht fun id v hv => ?_
    rw [get?_forget] at hv
    split at hv
    · cases hv
    · exact hv
  seen_nodup := ht.seen_nodup
  seen_le := ht.seen_le
  mem_seen := (ht.same hout).mem_seen
  ids_seen id hid := ht.ids_seen id ((ids_forget_sublist c key).subset hid)

theorem Traced.take (ht : Traced T maxRejudges g h) (hout : e.output ≠ .submitted true)
    {rest : List (Job κ ρ)} (hidle : g.inflight = none) (hqueue : g.queue = job :: rest) :
    Traced T maxRejudges { g with queue := rest, inflight := some job } (h ++ [e]) where
  keyed := (ids_take_perm hidle hqueue).nodup_iff.mpr ht.keyed
  jobs job' hjob' := by
    refine exists_mem_concat (ht.jobs job' (Or.inl ?_))
    rw [hqueue]
    rcases hjob' with hjob' | hjob'
    · exact List.mem_cons_of_mem _ hjob'
    · obtain rfl := Option.some.inj hjob'
      exact List.mem_cons_self ..
  verdicts := verdicts_concat ht fun _ _ hv => hv
  seen_nodup := ht.seen_nodup
  seen_le := ht.seen_le
  mem_seen := (ht.same hout).mem_seen
  ids_seen id hid := ht.ids_seen id ((ids_take_perm hidle hqueue).subset hid)

theorem get?_setDefault (d : Verdict) (k k' : String) (v : Json) :
    (setDefault d k v).get? k' = (d.get? k').or (if k = k' then some v else none) := by
  unfold setDefault
  split
  · next hin =>
    obtain ⟨w, hw⟩ := Dict.contains_iff.mp hin
    by_cases hk : k = k'
    · rw [← hk, hw]
      rfl
    · rw [if_neg hk, Option.or_none]
  · next hout =>
    rw [Dict.get?_set]
    by_cases hk : k = k'
    · have hnone : d.get? k = none := by
        cases hget : d.get? k with
        | none => rfl
        | some w => exact absurd (Dict.contains_iff.mpr ⟨w, hget⟩) hout
      rw [← hk, hnone, if_pos rfl, Option.none_or]
    · rw [if_neg hk, if_neg hk, Option.or_none]

/-- **Fail closed**: a stored verdict accepts only where `judge_fn` returned one that does. -/
theorem accepts_verdictOf {reply : Except String Verdict} {wall : PyFloat}
    (hacc : accepts (verdictOf reply wall) = true) :
    ∃ d, reply = .ok d ∧ accepts d = true := by
  cases reply with
  | error text => cases hacc
  | ok d =>
    refine ⟨d, rfl, ?_⟩
    unfold accepts verdictOf at hacc
    rw [Dict.get?_set_of_ne _ _ (by decide), Dict.get?_set_of_ne _ _ (by decide),
      get?_setDefault, get?_setDefault] at hacc
    unfold accepts
    cases hd : d.get? "accept" with
    | none =>
      rw [hd] at hacc
      cases hacc
    | some w =>
      rw [hd] at hacc
      exact hacc

theorem Traced.finish (ht : Traced T maxRejudges g h) (hflight : g.inflight = some job)
    (reply : Except String Verdict) (wall : PyFloat) (hout : e.output = .ended job reply) :
    Traced T maxRejudges
      { g with done := g.done.set job.id (verdictOf reply wall), inflight := none }
      (h ++ [e]) where
  keyed := (ids_finish_perm hflight ht.keyed).nodup_iff.mpr ht.keyed
  jobs job' hjob' := by
    rcases hjob' with hjob' | hjob'
    · exact exists_mem_concat (ht.jobs job' (Or.inl hjob'))
    · cases hjob'
  verdicts := by
    intro id v hv hacc
    rw [Dict.get?_set] at hv
    split at hv
    · next hid =>
      obtain rfl := Option.some.inj hv
      obtain ⟨d, rfl, hd⟩ := accepts_verdictOf hacc
      exact ⟨job, hid, exists_mem_concat (ht.jobs job (Or.inr hflight)), e,
        List.mem_append_right _ (List.mem_singleton_self e), d, hout, hd⟩
    · obtain ⟨job', hid, hsub, hjudge⟩ := ht.verdicts id v hv hacc
      exact ⟨job', hid, exists_mem_concat hsub, exists_mem_concat hjudge⟩
  seen_nodup := ht.seen_nodup
  seen_le := ht.seen_le
  mem_seen := by
    refine (ht.same (e := e) ?_).mem_seen
    rw [hout]
    nofun
  ids_seen id hid := ht.ids_seen id ((ids_finish_perm hflight ht.keyed).subset hid)

/-- **Every step keeps a gate traced.** -/
theorem Traced.step (ht : Traced T maxRejudges g h) (a : Action κ ρ) :
    Traced T maxRejudges (g.step T maxRejudges a).2
      (h ++ [event (JudgeGate.step T maxRejudges) g a]) := by
  unfold event
  rcases step_cases T maxRejudges g a with ⟨x, heq, hx, -⟩
    | ⟨coord, k, base, cand, job, rfl, hjob, heq⟩ | ⟨coord, c, key, rfl, -, heq⟩
    | ⟨job, rest, rfl, hidle, hqueue, heq⟩
    | ⟨job, reply, wall, rfl, hflight, heq⟩
  · rw [heq]
    exact ht.same hx
  · rw [heq]
    exact ht.enqueue hjob
  · rw [heq]
    refine ht.forget ?_ c key
    nofun
  · rw [heq]
    refine ht.take ?_ hidle hqueue
    nofun
  · rw [heq]
    exact ht.finish hflight reply wall rfl

/-- **Every gate in use is traced.** -/
theorem traced_run (T : PyText) (maxRejudges : ℤ) (actions : List (Action κ ρ)) :
    Traced T maxRejudges (final (JudgeGate.step T maxRejudges) fresh actions)
      (history (JudgeGate.step T maxRejudges) fresh actions) := by
  induction actions using List.reverseRecOn with
  | nil => exact traced_fresh
  | append_singleton actions a ih =>
    rw [history_concat, final_append]
    exact ih.step a

end Traced

/-! ## Keyed, fail-closed, and how far reusable -/

/-- The action drops what is cached under the pair. -/
def Action.Drops (T : PyText) (c : Coord) (k : κ) (a : Action κ ρ) : Prop :=
  ∃ coord key, a = .forget coord key ∧ asCoord T coord = .ok c ∧ (key = none ∨ key = some k)

/-- The event is the start of a call of the judge under the pair. -/
def begins (id : Coord × κ) (e : GateEvent κ ρ) : Bool :=
  match e.output with
  | .began job => job.id = id
  | _ => false

/-- Whether a pair is in flight or cached. -/
def judged (id : Coord × κ) (g : JudgeGate κ ρ) : Bool :=
  g.inflight.map Job.id = some id || g.done.contains id

section Results

variable {T : PyText} {maxRejudges : ℤ} {g : JudgeGate κ ρ} {c : Coord} {k : κ}

/-- A call of the judge under a pair puts it in flight, and only a `forget` drops it. -/
theorem judged_step (hkeyed : g.ids.Nodup) {a : Action κ ρ} (hkeep : ¬ a.Drops T c k) :
    (judged (c, k) g).toNat
        + (if begins (c, k) (event (step T maxRejudges) g a) then 1 else 0)
      ≤ (judged (c, k) (g.step T maxRejudges a).2).toNat := by
  unfold event
  rcases step_cases T maxRejudges g a with ⟨x, heq, -, hx⟩
    | ⟨coord, k', base, cand, job, rfl, hjob, heq⟩ | ⟨coord, c', key, rfl, hcoord, heq⟩
    | ⟨job, rest, rfl, hidle, hqueue, heq⟩
    | ⟨job, reply, wall, rfl, hflight, heq⟩
  · rw [heq]
    have hno : begins (c, k) (⟨g, a, x, g⟩ : GateEvent κ ρ) = false := by
      cases x with
      | began job => exact absurd rfl (hx job)
      | _ => rfl
    rw [hno]
    exact le_rfl
  · rw [heq]
    have hsame : judged (c, k) (g.enqueue maxRejudges job).2 = judged (c, k) g := by
      rcases enqueue_cases maxRejudges g job with
        ⟨-, h⟩ | ⟨-, -, h⟩ | ⟨-, -, h⟩
      · rw [h]
      · rw [h]
        rfl
      · rw [h]
        rfl
    exact (congrArg Bool.toNat hsame).ge
  · rw [heq]
    have hsame : judged (c, k) (g.forget c' key) = judged (c, k) g := by
      unfold judged Dict.contains
      rw [get?_forget, if_neg]
      · rfl
      · rintro ⟨rfl, hkey⟩
        exact hkeep ⟨coord, key, rfl, hcoord, hkey⟩
    exact (congrArg Bool.toNat hsame).ge
  · rw [heq]
    by_cases hid : job.id = (c, k)
    · -- the job was queued, so its pair was neither in flight nor cached
      have hbefore : judged (c, k) g = false := by
        unfold ids at hkeyed
        rw [hidle, hqueue] at hkeyed
        have hout : job.id ∉ g.done.keys := fun hin =>
          (List.nodup_cons.mp hkeyed).1 (List.mem_append_right _ hin)
        unfold judged Dict.contains
        rw [hidle, ← hid, Dict.get?_eq_none_iff.mpr hout]
        rfl
      have hafter : judged (c, k)
          ({ g with queue := rest, inflight := some job } : JudgeGate κ ρ) = true := by
        unfold judged
        rw [Bool.or_eq_true]
        exact Or.inl (decide_eq_true (congrArg some hid))
      rw [hbefore, hafter]
      split <;> decide
    · have hno : begins (c, k) (⟨g, .take, .began job,
          { g with queue := rest, inflight := some job }⟩ : GateEvent κ ρ) = false :=
        decide_eq_false hid
      rw [hno]
      unfold judged
      rw [hidle]
      cases g.done.contains (c, k) with
      | true => simp
      | false => simp
  · rw [heq]
    have hle : judged (c, k) g = true → judged (c, k)
        ({ g with done := g.done.set job.id (verdictOf reply wall), inflight := none } :
          JudgeGate κ ρ) = true := by
      unfold judged Dict.contains
      rw [hflight, Dict.get?_set]
      intro hin
      by_cases hid : job.id = (c, k)
      · rw [if_pos hid]
        rfl
      · rw [if_neg hid]
        have hother : (Option.map Job.id (some job) = some (c, k)) = False :=
          eq_false fun h => hid (Option.some.inj h)
        simp only [hother, decide_false, Bool.false_or] at hin
        rw [hin]
        exact Bool.or_true _
    show (judged (c, k) g).toNat ≤ _
    cases hin : judged (c, k) g with
    | false => exact Nat.zero_le _
    | true =>
      rw [hle hin]

/-- A gate without work or verdicts for a coordinate. -/
structure Clear (g : JudgeGate κ ρ) (c : Coord) : Prop where
  queue : ∀ job ∈ g.queue, job.coord ≠ c
  inflight : ∀ job, g.inflight = some job → job.coord ≠ c
  done : ∀ k, g.done.get? (c, k) = none

theorem Clear.not_mem_ids (hclear : g.Clear c) : (c, k) ∉ g.ids := by
  rw [mem_ids]
  rintro (⟨job, hjob, hid⟩ | ⟨job, hjob, hid⟩ | hin)
  · exact hclear.queue job hjob (congrArg Prod.fst hid)
  · exact hclear.inflight job hjob (congrArg Prod.fst hid)
  · exact Dict.get?_eq_none_iff.mp (hclear.done k) hin

/-- A submission to a gate that is clear of the coordinate, by the attempts left. -/
theorem enqueue_clear (maxRejudges : ℤ) {job : Job κ ρ} (hclear : g.Clear job.coord) :
    (g.enqueue maxRejudges job).1
        = decide (job.key ∈ g.seen job.coord ∨ ((g.seen job.coord).length : ℤ) < maxRejudges)
      ∧ (g.enqueue maxRejudges job).2.queue = g.queue
        ++ (if job.key ∈ g.seen job.coord ∨ ((g.seen job.coord).length : ℤ) < maxRejudges then [job]
          else []) := by
  have hout : job.id ∉ g.ids := hclear.not_mem_ids
  rcases enqueue_cases maxRejudges g job with
    ⟨hin, -⟩ | ⟨-, hfull, h⟩ | ⟨-, hroom, h⟩
  · exact absurd hin hout
  · have hno : ¬ (job.key ∈ g.seen job.coord
        ∨ ((g.seen job.coord).length : ℤ) < maxRejudges) := by
      rintro (hin | hlt)
      · exact hfull.1 hin
      · omega
    rw [h, if_neg hno, decide_eq_false hno, List.append_nil]
    exact ⟨rfl, rfl⟩
  · have hyes : job.key ∈ g.seen job.coord
        ∨ ((g.seen job.coord).length : ℤ) < maxRejudges := by
      by_contra hno
      rw [not_or] at hno
      exact hroom ⟨hno.1, not_lt.mp hno.2⟩
    rw [h, if_pos hyes, decide_eq_true hyes]
    exact ⟨rfl, rfl⟩

end Results

/-- **The judge gate.** After any actions: a verdict read under a pair accepts only where a call of
the judge, on states submitted under that pair, returned a verdict that does; without a `forget`
of the pair it is judged at most once more, and not at all if its verdict is cached; and where the
gate is clear of a coordinate, a submission does what it does on a fresh gate if its key was let
through before or fewer than `max_rejudges` keys were, and is refused otherwise. -/
theorem judge_gate (T : PyText) (maxRejudges : ℤ) (actions : List (Action κ ρ)) :
    let g := final (step T maxRejudges) fresh actions
    let h := history (step T maxRejudges) fresh actions
    (∀ coord c k within v, asCoord T coord = .ok c →
        ((g.step T maxRejudges (.poll coord k)).1 = .verdict (some v)
          ∨ (g.step T maxRejudges (.wait coord k within)).1 = .verdict (some v)) →
        accepts v = true →
        ∃ job : Job κ ρ, job.coord = c ∧ job.key = k
          ∧ (∃ e ∈ h, SubmitOf T job e) ∧ ∃ e ∈ h, JudgedAccept job e)
    ∧ (∀ c k (more : List (Action κ ρ)), (∀ a ∈ more, ¬ a.Drops T c k) →
        (history (step T maxRejudges) g more).countP (begins (c, k))
          ≤ if g.done.contains (c, k) then 0 else 1)
    ∧ ∀ c, g.Clear c → ∃ tried : List κ, tried.Nodup
        ∧ (∀ k, k ∈ tried ↔ ∃ e ∈ h, AcceptedAt T c k e)
        ∧ ∀ coord k base cand job, jobOf T coord k base cand = .ok job → job.coord = c →
            let here := g.step T maxRejudges (.submit coord k base cand)
            let there := (fresh : JudgeGate κ ρ).step T maxRejudges (.submit coord k base cand)
            (k ∈ tried ∨ (tried.length : ℤ) < maxRejudges ∨ maxRejudges ≤ 0 →
              here.1 = there.1 ∧ here.2.queue = g.queue ++ there.2.queue)
            ∧ (¬ (k ∈ tried ∨ (tried.length : ℤ) < maxRejudges) →
              here.1 = .submitted false ∧ here.2.queue = g.queue) := by
  intro g h
  have ht : Traced T maxRejudges g h := traced_run T maxRejudges actions
  refine ⟨fun coord c k within v hcoord hread hacc => ?_, fun c k more hkeep => ?_,
    fun c hclear => ?_⟩
  · have hv : g.done.get? (c, k) = some v := by
      unfold step at hread
      simp only [hcoord] at hread
      rcases hread with hread | hread
      · cases hget : g.done.get? (c, k) with
        | none =>
          rw [hget] at hread
          cases hread
        | some w =>
          rw [hget] at hread
          cases hread
          rfl
      · cases hget : g.done.get? (c, k) with
        | none =>
          rw [hget] at hread
          cases hread
          cases hacc
        | some w =>
          rw [hget] at hread
          cases hread
          rfl
    obtain ⟨job, hid, hsub, hjudge⟩ := ht.verdicts _ v hv hacc
    exact ⟨job, congrArg Prod.fst hid, congrArg Prod.snd hid, hsub, hjudge⟩
  · -- one unit of `judged` a call, from what the gate has to what it can have
    have hcount : (judged (c, k) g).toNat + (history (step T maxRejudges) g more).countP
        (begins (c, k)) ≤ (judged (c, k) (final (step T maxRejudges) g more)).toNat :=
      countP_history_le (p := fun g => ∃ h, Traced T maxRejudges g h)
        (fun g a hp => hp.imp' _ fun h ht => ht.step a) (m := fun g => (judged (c, k) g).toNat)
        (fun g hp a ha => judged_step (hp.choose_spec.keyed) (hkeep a ha)) ⟨h, ht⟩
    have hlast := Bool.toNat_le (judged (c, k) (final (step T maxRejudges) g more))
    split
    · next hin =>
      have hjudged : judged (c, k) g = true := by
        unfold judged
        rw [hin, Bool.or_true]
      rw [hjudged] at hcount
      have hone : Bool.toNat true = 1 := rfl
      omega
    · omega
  · refine ⟨g.seen c, ht.seen_nodup c, ht.mem_seen c, fun coord k base cand job hjob hc => ?_⟩
    subst hc
    obtain rfl := (jobOf_ok hjob).2
    have hfresh : (fresh : JudgeGate κ ρ).Clear job.coord :=
      ⟨fun _ hin => absurd hin List.not_mem_nil, nofun, fun _ => rfl⟩
    obtain ⟨hhere, hqueue⟩ := enqueue_clear maxRejudges hclear
    obtain ⟨hthere, hqueue'⟩ := enqueue_clear maxRejudges hfresh
    have hnone : (fresh : JudgeGate κ ρ).seen job.coord = [] := rfl
    have hstep : ∀ g' : JudgeGate κ ρ, g'.step T maxRejudges (.submit coord job.key base cand)
        = (.submitted (g'.enqueue maxRejudges job).1, (g'.enqueue maxRejudges job).2) := by
      intro g'
      unfold step
      simp only [hjob]
    rw [hnone] at hthere hqueue'
    dsimp only
    rw [hstep, hstep]
    constructor
    · intro hroom
      by_cases hmax : 0 < maxRejudges
      · have hyes : job.key ∈ g.seen job.coord ∨ ((g.seen job.coord).length : ℤ) < maxRejudges :=
          hroom.imp_right fun h => h.resolve_right (not_le.mpr hmax)
        have hyes' : job.key ∈ ([] : List κ) ∨ (([] : List κ).length : ℤ) < maxRejudges :=
          Or.inr hmax
        rw [if_pos hyes] at hqueue
        rw [if_pos hyes'] at hqueue'
        rw [hhere, hthere, decide_eq_true hyes, decide_eq_true hyes', hqueue, hqueue']
        exact ⟨rfl, rfl⟩
      · have hempty : g.seen job.coord = [] := by
          have hle := ht.seen_le job.coord
          exact List.eq_nil_of_length_eq_zero (by omega)
        rw [hempty] at hhere hqueue
        rw [hhere, hthere, hqueue, hqueue']
        exact ⟨rfl, rfl⟩
    · intro hfull
      rw [if_neg hfull, List.append_nil] at hqueue
      rw [hhere, decide_eq_false hfull]
      exact ⟨rfl, hqueue⟩

/-- A call of the judge on a candidate of one coordinate, answered and then forgotten. -/
def judgeAndForget (k : ℕ) : List (Action ℕ Unit) :=
  [.submit (.of (3, 7)) k .none .none, .take,
    .finish (.ok (Dict.ofList [("accept", .bool true)])) 0, .forget (.of (3, 7)) none]

/-- A verdict that was given is read back: one candidate submitted, judged and accepted. -/
theorem judge_gate_accepted :
    ∃ job : Job ℕ Unit, job.coord = (3, 7) ∧ job.key = 1
      ∧ (∃ e ∈ history (step Platform.ideal.toPyText 3) fresh ((judgeAndForget 1).take 3),
        SubmitOf Platform.ideal.toPyText job e)
      ∧ ∃ e ∈ history (step Platform.ideal.toPyText 3) fresh ((judgeAndForget 1).take 3),
        JudgedAccept job e :=
  (judge_gate Platform.ideal.toPyText 3 ((judgeAndForget 1).take 3)).1 (.of (3, 7)) (3, 7) 1 ""
    _ rfl (Or.inl rfl) rfl

/-- After three candidates of a coordinate were judged and forgotten, a fourth is refused, although
the gate has nothing of the coordinate left. -/
theorem judge_gate_not_reusable :
    ¬ ∀ (actions : List (Action ℕ Unit)) (c : Coord) (coord : CoordArg) (k : ℕ)
        (base cand : StateArg Unit),
        (final (step Platform.ideal.toPyText 3) fresh actions).Clear c →
        asCoord Platform.ideal.toPyText coord = .ok c →
        ((final (step Platform.ideal.toPyText 3) fresh actions).step Platform.ideal.toPyText 3
            (.submit coord k base cand)).1
          = ((fresh : JudgeGate ℕ Unit).step Platform.ideal.toPyText 3
            (.submit coord k base cand)).1 := by
  intro hall
  have hclear : (final (step Platform.ideal.toPyText 3) fresh
      (judgeAndForget 1 ++ judgeAndForget 2 ++ judgeAndForget 3)).Clear (3, 7) :=
    ⟨fun _ hin => absurd hin List.not_mem_nil, nofun, fun _ => rfl⟩
  cases hall (judgeAndForget 1 ++ judgeAndForget 2 ++ judgeAndForget 3) (3, 7) (.of (3, 7)) 4 .none
    .none hclear rfl

end JudgeGate

end Gate

end NeuraHash
