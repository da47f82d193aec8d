import NeuraHash.Miner.Names

/-!
# The names a miner publishes under (`_run_async`)

Every record of a miner goes to the lane under its base event and a counter, `publish_k`. The
counter threads through the single records and the per-coordinate records of a layer, and starts
at zero in every process.

Within one process no two records share a name (`nodup_processNames`). Over restarts they do
exactly when two processes publish a record with the same counter against the same base event
(`names_distinct_iff`): the later record replaces the earlier one.
-/

namespace NeuraHash

open Py

/-- `_clamp_base_event(last_applied, frontier)`. -/
def clampBaseEvent (lastApplied : ℤ) (frontier : Option ℤ) : ℤ :=
  match frontier with
  | none => lastApplied
  | some f => if f < lastApplied then f else lastApplied

/-- `host.index_of(L, E)`, for the host's registered slots. -/
def indexOf (slots : List Coord) (c : Coord) : Option ℕ := slots.findIdx? (· = c)

/-- What a round publishes: one record, or one for each coordinate of a layer. -/
inductive LaneRound where
  | single
  | layer (slots coords : List Coord)

/-- A round of the loop: what the node has applied, the pointer's event, and what it publishes. -/
structure Publish where
  lastApplied : ℤ
  frontier : Option ℤ
  round : LaneRound

namespace Publish

def baseEvent (p : Publish) : ℤ := clampBaseEvent p.lastApplied p.frontier

/-- `publish_layer_claim_records`: the names put on the lane, and `publish_k` after them. -/
def layerClaimRecords (campaign : Option CampaignId) (miner : String) (base : ℤ)
    (slots : List Coord) : List Coord → ℕ → List String × ℕ
  | [], k => ([], k)
  | c :: coords, k =>
    match indexOf slots c with
    | none => layerClaimRecords campaign miner base slots coords k
    | some _ =>
      let (names, k') := layerClaimRecords campaign miner base slots coords (k + 1)
      (asyncPublishName campaign base miner k :: names, k')

/-- The names of a round, and `publish_k` after it. -/
def run (campaign : Option CampaignId) (miner : String) (p : Publish) (k : ℕ) :
    List String × ℕ :=
  match p.round with
  | .single => ([asyncPublishName campaign p.baseEvent miner k], k + 1)
  | .layer slots coords => layerClaimRecords campaign miner p.baseEvent slots coords k

/-- The base event of each record of the round. -/
def recordEvents (p : Publish) : List ℤ :=
  match p.round with
  | .single => [p.baseEvent]
  | .layer slots coords =>
    (coords.filter fun c => (indexOf slots c).isSome).map fun _ => p.baseEvent

end Publish

/-- The names of a process whose `publish_k` is `k`. -/
def processNamesFrom (campaign : Option CampaignId) (miner : String) : ℕ → List Publish → List String
  | _, [] => []
  | k, p :: later =>
    (p.run campaign miner k).1 ++ processNamesFrom campaign miner (p.run campaign miner k).2 later

/-- The names of a process, from its start. -/
def processNames (campaign : Option CampaignId) (miner : String) (process : List Publish) :
    List String :=
  processNamesFrom campaign miner 0 process

/-- The base event of each record of a process, in order: the `n`-th record has the counter `n`. -/
def processEvents (process : List Publish) : List ℤ := process.flatMap Publish.recordEvents

/-- No record of one process has the counter and the base event of a record of the other. -/
def Apart (p q : List Publish) : Prop :=
  ∀ (n : ℕ) (b : ℤ), (processEvents p)[n]? = some b → (processEvents q)[n]? ≠ some b

section

variable {campaign : Option CampaignId} {miner : String}

/-- The names of records with these base events, counted from `k`. -/
def numbered (campaign : Option CampaignId) (miner : String) : ℕ → List ℤ → List String
  | _, [] => []
  | k, b :: events => asyncPublishName campaign b miner k :: numbered campaign miner (k + 1) events

theorem numbered_append (k : ℕ) (l l' : List ℤ) :
    numbered campaign miner k (l ++ l')
      = numbered campaign miner k l ++ numbered campaign miner (k + l.length) l' := by
  induction l generalizing k with
  | nil => rfl
  | cons b l ih =>
    rw [List.cons_append, numbered, numbered, ih, List.length_cons, List.cons_append,
      show k + 1 + l.length = k + (l.length + 1) by omega]

theorem mem_numbered {k : ℕ} {l : List ℤ} {name : String} :
    name ∈ numbered campaign miner k l ↔
      ∃ n b, l[n]? = some b ∧ name = asyncPublishName campaign b miner (k + n) := by
  induction l generalizing k with
  | nil => simp [numbered]
  | cons b l ih =>
    show name ∈ asyncPublishName campaign b miner k :: numbered campaign miner (k + 1) l ↔ _
    rw [List.mem_cons, ih]
    constructor
    · rintro (rfl | ⟨n, b', hn, rfl⟩)
      · exact ⟨0, b, rfl, rfl⟩
      · exact ⟨n + 1, b', hn, by rw [show k + 1 + n = k + (n + 1) by omega]⟩
    · rintro ⟨n, b', hn, rfl⟩
      cases n with
      | zero => exact Or.inl (by cases hn; rfl)
      | succ n => exact Or.inr ⟨n, b', hn, by rw [show k + 1 + n = k + (n + 1) by omega]⟩

theorem nodup_numbered (k : ℕ) (l : List ℤ) : (numbered campaign miner k l).Nodup := by
  induction l generalizing k with
  | nil => exact List.nodup_nil
  | cons b l ih =>
    refine List.nodup_cons.mpr ⟨fun hmem => ?_, ih (k + 1)⟩
    obtain ⟨n, b', -, hname⟩ := mem_numbered.mp hmem
    have := (asyncPublishName_inj hname).2
    omega

theorem layerClaimRecords_eq (base : ℤ) (slots coords : List Coord) (k : ℕ) :
    Publish.layerClaimRecords campaign miner base slots coords k
      = (numbered campaign miner k
          ((coords.filter fun c => (indexOf slots c).isSome).map fun _ => base),
        k + (coords.filter fun c => (indexOf slots c).isSome).length) := by
  induction coords generalizing k with
  | nil => rfl
  | cons c coords ih =>
    unfold Publish.layerClaimRecords
    cases hidx : indexOf slots c with
    | none =>
      -- a coordinate this node does not hold takes no name
      rw [List.filter_cons_of_neg (by simp [hidx])]
      exact ih k
    | some i =>
      rw [List.filter_cons_of_pos (by simp [hidx])]
      dsimp only
      rw [ih, List.map_cons, List.length_cons,
        show k + 1 + (coords.filter fun c => (indexOf slots c).isSome).length
          = k + ((coords.filter fun c => (indexOf slots c).isSome).length + 1) by omega]
      rfl

/-- **A round numbers its records from `publish_k` on.** -/
theorem run_eq (p : Publish) (k : ℕ) :
    p.run campaign miner k
      = (numbered campaign miner k p.recordEvents, k + p.recordEvents.length) := by
  unfold Publish.run Publish.recordEvents
  cases p.round with
  | single => rfl
  | layer slots coords =>
    dsimp only
    rw [layerClaimRecords_eq, List.length_map]

theorem processNamesFrom_eq (k : ℕ) (process : List Publish) :
    processNamesFrom campaign miner k process
      = numbered campaign miner k (processEvents process) := by
  induction process generalizing k with
  | nil => rfl
  | cons p later ih =>
    unfold processNamesFrom processEvents
    rw [run_eq, List.flatMap_cons, numbered_append, ih]
    rfl

/-- **A process uses no name twice.** -/
theorem nodup_processNames (process : List Publish) :
    (processNames campaign miner process).Nodup := by
  unfold processNames
  rw [processNamesFrom_eq]
  exact nodup_numbered 0 _

theorem disjoint_processNames_iff (p q : List Publish) :
    List.Disjoint (processNames campaign miner p) (processNames campaign miner q) ↔ Apart p q := by
  unfold processNames
  rw [processNamesFrom_eq, processNamesFrom_eq]
  constructor
  · intro hdisj n b hp hq
    exact hdisj (mem_numbered.mpr ⟨n, b, hp, rfl⟩) (mem_numbered.mpr ⟨n, b, hq, rfl⟩)
  · intro hapart name hp hq
    obtain ⟨n, b, hn, rfl⟩ := mem_numbered.mp hp
    obtain ⟨m, b', hm, hname⟩ := mem_numbered.mp hq
    obtain ⟨rfl, hk⟩ := asyncPublishName_inj hname
    obtain rfl : n = m := by omega
    exact hapart n b hn hm

/-- **A miner's names over all its processes are distinct exactly when no two processes publish a
record with the same counter against the same base event.** -/
theorem names_distinct_iff (campaign : Option CampaignId) (miner : String)
    (processes : List (List Publish)) :
    (processes.flatMap (processNames campaign miner)).Nodup ↔ processes.Pairwise Apart := by
  rw [List.nodup_flatMap]
  constructor
  · rintro ⟨-, hpairs⟩
    exact hpairs.imp fun h => (disjoint_processNames_iff _ _).mp h
  · intro hapart
    refine ⟨fun process _ => nodup_processNames process, ?_⟩
    exact hapart.imp fun h => (disjoint_processNames_iff _ _).mpr h

/-- A miner that restarts before the coordinator's event moved. -/
theorem names_not_distinct :
    ¬ ∀ (campaign : Option CampaignId) (miner : String) (processes : List (List Publish)),
      (processes.flatMap (processNames campaign miner)).Nodup := by
  intro h
  have htwice := h none "miner0" [[⟨5, some 5, .single⟩], [⟨5, some 5, .single⟩]]
  -- both processes publish as cg/r5/miner0.0
  exact (List.nodup_cons.mp htwice).1 (List.mem_singleton_self _)

end

end NeuraHash
