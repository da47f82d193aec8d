import NeuraHash.Python.Mutation
import NeuraHash.Replica.Host

/-!
# The lane a miner reads (`_DeadlineLane`, `accepted_events_in`, `scan_accepted_events`)

A `Lane` is the store over a world of its own: a call returns, raises, or is still out when its time
is over, and what it does may differ from call to call. `BoundedLane` gives every call a deadline;
a late one raises `CatchupTimeout`.

The accepted records of a campaign are found by name in the manifest.
-/

namespace NeuraHash

open Py

/-! ## Calls -/

/-- How a call to the store ends. -/
inductive Reply (α : Type) where
  | value (a : α)
  | raised (e : PyErr)
  | late

/-- `{name: entry}`; an entry has the hash of the object under `sha256`. -/
abbrev Manifest := Dict String Json

structure Lane (ω : Type) where
  manifest : ω → Reply Manifest × ω
  getJson : Json → ω → Reply Json × ω
  getDelta : Json → ω → Reply (Params PyFloat) × ω
  /-- `time.monotonic()`. -/
  now : ω → ℚ × ω

/-- `CatchupTimeout`. -/
def catchupTimeout : PyErr := .raised "CatchupTimeout"

variable {ω α : Type}

/-- `_now()`. -/
def Lane.clock (lane : Lane ω) : PyM ω PyFloat := fun world =>
  .ok (.fin (lane.now world).1) (lane.now world).2

theorem Lane.clock_run (lane : Lane ω) (world : ω) :
    lane.clock world = .ok (.fin (lane.now world).1) (lane.now world).2 := rfl

/-- `_DeadlineLane`: what bounds a call. -/
structure BoundedLane (ω : Type) where
  lane : Lane ω
  callTimeout : PyFloat
  deadline : Option PyFloat

namespace BoundedLane

variable (bounded : BoundedLane ω)

/-- The time a call may take. -/
def budget : PyM ω PyFloat := do
  match bounded.deadline with
  | none => return bounded.callTimeout
  | some deadline => return FloatOps.min bounded.callTimeout (deadline - (← bounded.lane.clock))

/-- `_bounded(*a, **kw)`. -/
def call (target : ω → Reply α × ω) : PyM ω α := do
  if FloatOps.le (← bounded.budget) 0 then throw catchupTimeout
  match target (← get) with
  | (.value a, world) => do set world; return a
  | (.raised e, world) => do set world; throw e
  | (.late, world) => do set world; throw catchupTimeout

/-- What a call returns is a value of the store. -/
theorem call_ok {target : ω → Reply α × ω} {a : α} {world world' : ω}
    (h : bounded.call target world = .ok a world') :
    ∃ world₁, target world₁ = (.value a, world') := by
  unfold call at h
  rw [PyM.bind_run] at h
  split at h
  · next budget world₁ _ =>
    split at h
    · cases h
    · dsimp only at h
      rw [PyM.bind_run_ok (PyM.get_run _)] at h
      refine ⟨world₁, ?_⟩
      generalize target world₁ = reply at h ⊢
      match reply with
      | (.value _, _) =>
        cases h
        rfl
      | (.raised _, _) => cases h
      | (.late, _) => cases h
  · cases h

def getJson (sha : Json) : PyM ω Json := bounded.call (bounded.lane.getJson sha)

def getDelta (cid : Json) : PyM ω (Params PyFloat) := bounded.call (bounded.lane.getDelta cid)

def manifest : PyM ω Manifest := bounded.call bounded.lane.manifest

end BoundedLane

/-! ## Accepted records -/

/-- What follows the prefix of the campaign's accepted records. -/
def acceptedSuffix (campaign : Option CampaignId) (name : String) : Option String :=
  ((acceptedPrefix campaign).toList.isPrefixOf? name.toList).map String.ofList

/-- `int(s)` of a text. -/
def intOfText (T : PyText) (s : String) : Except PyErr ℤ :=
  match T.parseInt s with
  | some n => .ok n
  | none => .error .valueError

/-- `accepted_events_in(manifest_names, campaign)`. -/
def acceptedEventsIn (E : MinerEnv) (man : Manifest) (campaign : Option CampaignId) :
    Except PyErr (List ℤ) := do
  let numerals := (man.keys.filterMap (acceptedSuffix campaign)).filter E.isDigit
  return (← numerals.mapM (intOfText E.toPyText)).insertionSort (· ≤ ·)

/-- `scan_accepted_events(manifest_names, last_applied, max_scan, campaign)`. -/
def scanAcceptedEvents (man : Manifest) (campaign : Option CampaignId) : ℕ → ℤ → List ℤ
  | 0, _ => []
  | maxScan + 1, lastApplied =>
    if man.contains (acceptedName campaign (lastApplied + 1)) then
      (lastApplied + 1) :: scanAcceptedEvents man campaign maxScan (lastApplied + 1)
    else []

/-- `scan_accepted_events_bounded(manifest_names, last_applied, frontier, campaign)`. -/
def scanAcceptedEventsBounded (man : Manifest) (lastApplied : ℤ) (frontier : Option ℤ)
    (campaign : Option CampaignId) : List ℤ :=
  let events := scanAcceptedEvents man campaign 1000000 lastApplied
  match frontier with
  | none => events
  | some f => events.filter (· ≤ f)

/-- The events from one after `a` up to `b`. -/
def eventsBetween (a b : ℤ) : List ℤ := (List.range (b - a).toNat).map fun i : ℕ => a + 1 + (i : ℤ)

theorem eventsBetween_cons (a : ℤ) (n : ℕ) :
    eventsBetween a (a + (n + 1 : ℕ)) = (a + 1) :: eventsBetween (a + 1) (a + 1 + n) := by
  have hlen : (a + ((n + 1 : ℕ) : ℤ) - a).toNat = n + 1 := by omega
  have hlen' : (a + 1 + (n : ℤ) - (a + 1)).toNat = n := by omega
  unfold eventsBetween
  rw [hlen, hlen', List.range_succ_eq_map, List.map_cons, List.map_map]
  refine congrArg₂ List.cons (by simp) (List.map_congr_left fun i _ => ?_)
  show a + 1 + ((i + 1 : ℕ) : ℤ) = a + 1 + 1 + (i : ℤ)
  omega

@[simp] theorem eventsBetween_self (a : ℤ) : eventsBetween a a = [] := by
  simp [eventsBetween]

@[simp] theorem length_eventsBetween (a b : ℤ) : (eventsBetween a b).length = (b - a).toNat := by
  simp [eventsBetween]

theorem mem_eventsBetween {a b e : ℤ} : e ∈ eventsBetween a b ↔ a < e ∧ e ≤ b := by
  unfold eventsBetween
  rw [List.mem_map]
  constructor
  · rintro ⟨i, hi, rfl⟩
    rw [List.mem_range] at hi
    omega
  · rintro ⟨ha, hb⟩
    exact ⟨(e - a - 1).toNat, by rw [List.mem_range]; omega, by omega⟩

/-- The first of some consecutive events are consecutive. -/
theorem eventsBetween_prefix {a b : ℤ} {before : List ℤ} (h : before <+: eventsBetween a b) :
    before = eventsBetween a (a + before.length) := by
  have hlen := h.length_le
  rw [length_eventsBetween] at hlen
  rw [List.prefix_iff_eq_take] at h
  rw [h]
  unfold eventsBetween
  rw [← List.map_take, List.take_range, List.length_map, List.length_range]
  congr 2
  omega

theorem getLastD_eventsBetween (a : ℤ) (n : ℕ) :
    (eventsBetween a (a + n)).getLastD a = a + n := by
  induction n generalizing a with
  | zero => simp
  | succ n ih =>
    have hlast := ih (a + 1)
    rw [eventsBetween_cons, List.getLastD_cons, hlast]
    omega

theorem scanAcceptedEvents_eq (man : Manifest) (campaign : Option CampaignId) (maxScan : ℕ)
    (lastApplied : ℤ) : ∃ n : ℕ, scanAcceptedEvents man campaign maxScan lastApplied
      = eventsBetween lastApplied (lastApplied + n) := by
  induction maxScan generalizing lastApplied with
  | zero => exact ⟨0, by simp [scanAcceptedEvents]⟩
  | succ maxScan ih =>
    unfold scanAcceptedEvents
    split
    · obtain ⟨n, hscan⟩ := ih (lastApplied + 1)
      exact ⟨n + 1, by rw [hscan, eventsBetween_cons]⟩
    · exact ⟨0, by simp⟩

theorem filter_eventsBetween (a f : ℤ) (n : ℕ) : ∃ m : ℕ, a + m ≤ max a f
    ∧ (eventsBetween a (a + n)).filter (· ≤ f) = eventsBetween a (a + m) := by
  induction n generalizing a with
  | zero => exact ⟨0, by simp, by simp⟩
  | succ n ih =>
    rw [eventsBetween_cons]
    by_cases hf : a + 1 ≤ f
    · obtain ⟨m, hm, hfilter⟩ := ih (a + 1)
      refine ⟨m + 1, by omega, ?_⟩
      rw [List.filter_cons_of_pos (by simpa using hf), hfilter, eventsBetween_cons]
    · refine ⟨0, by simp, ?_⟩
      rw [List.filter_eq_nil_iff.mpr fun e he => ?_]
      · simp
      · have hlt : a < e := by
          rw [← eventsBetween_cons] at he
          exact (mem_eventsBetween.mp he).1
        simp only [decide_eq_true_eq]
        omega

/-- **The scan lists consecutive events**, up to the frontier at most. -/
theorem scanAcceptedEventsBounded_eq (man : Manifest) (lastApplied : ℤ) (frontier : Option ℤ)
    (campaign : Option CampaignId) : ∃ n : ℕ,
      (∀ f, frontier = some f → lastApplied + n ≤ max lastApplied f)
      ∧ scanAcceptedEventsBounded man lastApplied frontier campaign
        = eventsBetween lastApplied (lastApplied + n) := by
  obtain ⟨n, hscan⟩ := scanAcceptedEvents_eq man campaign 1000000 lastApplied
  unfold scanAcceptedEventsBounded
  rw [hscan]
  cases frontier with
  | none => exact ⟨n, fun f hf => (by cases hf), rfl⟩
  | some f =>
    obtain ⟨m, hm, hfilter⟩ := filter_eventsBetween lastApplied f n
    exact ⟨m, fun f' hf' => (by cases hf'; exact hm), hfilter⟩

/-! ## A store that stands still

It answers at once, from tables; what they do not have raises. -/

section Still

/-- What is under a key of a table. -/
def stillReply {β : Type} (table : Dict String β) : Json → Unit → Reply β × Unit
  | .str key, _ => (match table.get? key with
    | some b => .value b
    | none => .raised .keyError, ())
  | _, _ => (.raised .typeError, ())

def Lane.still (man : Manifest) (objects : Dict String Json)
    (deltas : Dict String (Params PyFloat)) : Lane Unit where
  manifest _ := (.value man, ())
  getJson := stillReply objects
  getDelta := stillReply deltas
  now _ := (0, ())

/-- The objects of that store, by their content. -/
def stillObjects (objects : Dict String Json) : Json → Option Json
  | .str key => objects.get? key
  | _ => none

theorem getJson_still {man : Manifest} {objects : Dict String Json}
    {deltas : Dict String (Params PyFloat)} {sha record : Json} {world world' : Unit}
    (h : (Lane.still man objects deltas).getJson sha world = (.value record, world')) :
    stillObjects objects sha = some record := by
  cases sha with
  | str key =>
    show objects.get? key = some record
    have hreply : (stillReply objects (.str key) world).1 = .value record := congrArg Prod.fst h
    dsimp only [stillReply] at hreply
    cases hget : objects.get? key with
    | some b =>
      rw [hget] at hreply
      cases hreply
      rfl
    | none =>
      rw [hget] at hreply
      cases hreply
  | _ => cases h

/-- An executable miner: floats are spelled out, and no products are taken. -/
def MinerEnv.ideal : MinerEnv where
  toPlatform := .ideal
  np := ⟨id, id, fun x => utf8 (Platform.ideal.format8g x ++ ";")⟩
  matmul _ _ := .error .valueError
  isDigit s := s ≠ "" && s.toList.all Char.isDigit

/-- The same, with an `int` that reads decimal digits only. -/
def MinerEnv.digits : MinerEnv :=
  { MinerEnv.ideal with
    parseInt s := if s ≠ "" && s.toList.all Char.isDigit then
        some (s.toList.foldl (fun n c => 10 * n + (c.toNat - 48 : ℕ)) 0)
      else none }

end Still

end NeuraHash
