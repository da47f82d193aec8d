import NeuraHash.Platform
import NeuraHash.Miner.Cooldown
import NeuraHash.Systems.CyclicWalk

/-!
# The claim walk (`claim_walk_order`, `next_claim_coord`, `advance_claim`)

A miner sweeps the coordinates it can host in an order of its own: by affinity where it was
measured, by a hash of its identity otherwise. `next_claim_coord` is the next coordinate of the
sweep, `advance_claim` the first one from there on that it can start on; those that refuse the
registration or whose catch-up is cut off are parked.

`advance_claim_lands` says where the walk lands and which coordinates it parks. A node with one
coordinate to claim never moves, not even from a coordinate that is not on its list.
-/

namespace NeuraHash

open Py

/-! ## The order -/

/-- The ranked coordinates that can be claimed, each once. -/
def rankedFront (claimable ranked : List Coord) : List Coord :=
  ranked.foldl (fun order c => if c ∈ claimable ∧ c ∉ order then order ++ [c] else order) []

/-- `sha256("%s|%d:%d" % (identity, L, E))`. -/
def walkKey (P : Platform) (identity : String) (c : Coord) : String :=
  P.sha256 (utf8 (identity ++ "|" ++ c.1.repr ++ ":" ++ c.2.repr))

/-- `claim_walk_order(claimable, identity, ranked)`; an empty `ranked` is no ranking. -/
def claimWalkOrder (P : Platform) (claimable : List Coord) (identity : Option String)
    (ranked : List Coord) : List Coord :=
  if ranked ≠ [] then
    rankedFront claimable ranked ++ claimable.filter (· ∉ rankedFront claimable ranked)
  else match identity with
    | none => claimable
    | some id => claimable.insertionSort fun a b => walkKey P id a ≤ walkKey P id b

/-- `next_claim_coord(claimable, current, identity, ranked)`. -/
def nextClaimCoord (P : Platform) (claimable : List Coord) (cur : Coord) (identity : Option String)
    (ranked : List Coord) : Option Coord :=
  if claimable.length ≤ 1 then none
  else
    let order := claimWalkOrder P claimable identity ranked
    if cur ∉ order then order[0]? else order[(order.idxOf cur + 1) % order.length]?

/-! ## The walk -/

/-- How `resume_to_root` ends: at one of its bounds, or with so many records folded. -/
inductive CatchUpEnd where
  | aborted (reason : String)
  | folded (records : ℕ) (reached : Bool)

/-- What happens at a coordinate: the clock when its park is looked up and when it is parked, the
slot or the text of the refusal, and the catch-up. -/
structure Attempt where
  lookedUpAt : ℚ
  parkedAt : ℚ
  register : Except String ℕ
  catchUp : CatchUpEnd

/-- What `advance_claim` returns. -/
structure Advance where
  coord : Coord
  slot : ℕ
  records : ℕ
  reached : Bool

namespace Attempt

/-- Why the coordinate is parked. -/
def failure (a : Attempt) : Option String :=
  match a.register with
  | .error text => some ("register refused (" ++ String.ofList (text.toList.take 60) ++ ")")
  | .ok _ => match a.catchUp with
    | .aborted reason => some ("catch-up " ++ reason)
    | .folded .. => none

/-- The claim the coordinate gives. -/
def advance (a : Attempt) (c : Coord) : Option Advance :=
  match a.register, a.catchUp with
  | .ok slot, .folded records reached => some ⟨c, slot, records, reached⟩
  | _, _ => none

end Attempt

section Walk

variable (attempt : Coord → Attempt) (event : ℤ)

/-- The body of the loop: the claim, if the walk ends here, and the table. -/
def visit (cd : CoordCooldown) (c : Coord) : Option Advance × CoordCooldown :=
  match cd.blocked (attempt c).lookedUpAt c event with
  | (true, cd) => (none, cd)
  | (false, cd) => match (attempt c).failure with
    | some reason => (none, cd.park (attempt c).parkedAt c event reason)
    | none => ((attempt c).advance c, cd)

def advanceWalk : List Coord → CoordCooldown → Option Advance × CoordCooldown
  | [], cd => (none, cd)
  | c :: cs, cd => match visit attempt event cd c with
    | (some claim, cd) => (some claim, cd)
    | (none, cd) => advanceWalk cs cd

/-- `advance_claim(host, lane, claim_coords, current, identity, ranked, ..., event, cooldown, ...)`. -/
def advanceClaim (P : Platform) (claimable : List Coord) (cur : Coord) (identity : Option String)
    (ranked : List Coord) (cd : CoordCooldown) : Option Advance × CoordCooldown :=
  let order := claimWalkOrder P claimable identity ranked
  if order.length ≤ 1 then (none, cd)
  else advanceWalk attempt event (CyclicWalk.others order cur) cd

/-- The coordinate is parked when the walk comes to it. -/
def parkedAtVisit (cd : CoordCooldown) (c : Coord) : Bool :=
  (cd.blocked (attempt c).lookedUpAt c event).1

/-- The walk ends at the coordinate when it comes to it. -/
def startable (cd : CoordCooldown) (c : Coord) : Bool :=
  !parkedAtVisit attempt event cd c && (attempt c).failure.isNone

/-- The coordinates the walk parks on its way through `stops`. -/
def parkedOnTheWay (cd : CoordCooldown) (stops : List Coord) : List Coord :=
  (stops.takeWhile fun c => !startable attempt event cd c).filter fun c =>
    !parkedAtVisit attempt event cd c

/-- The park of a coordinate that fails. -/
def failurePark (cd : CoordCooldown) (c : Coord) : Park :=
  ⟨(attempt c).failure.getD "", .fin (attempt c).parkedAt + cd.seconds, event + cd.events⟩

end Walk

/-! ## The order is a permutation -/

section Order

variable {P : Platform} {claimable : List Coord} {identity : Option String} {ranked : List Coord}

theorem rankedFront_spec (claimable ranked : List Coord) :
    (rankedFront claimable ranked).Nodup ∧ ∀ c ∈ rankedFront claimable ranked, c ∈ claimable := by
  suffices h : ∀ order : List Coord, order.Nodup ∧ (∀ c ∈ order, c ∈ claimable) →
      (ranked.foldl (fun order c => if c ∈ claimable ∧ c ∉ order then order ++ [c] else order)
        order).Nodup ∧
      ∀ c ∈ ranked.foldl (fun order c => if c ∈ claimable ∧ c ∉ order then order ++ [c] else order)
        order, c ∈ claimable from h [] ⟨List.nodup_nil, fun c hc => by cases hc⟩
  induction ranked with
  | nil => exact fun order h => h
  | cons c ranked ih =>
    intro order h
    rw [List.foldl_cons]
    apply ih
    split
    · next hc =>
      refine ⟨List.nodup_append.mpr ⟨h.1, List.nodup_singleton c, ?_⟩, fun d hd => ?_⟩
      · intro a ha b hb
        rw [List.mem_singleton.mp hb]
        rintro rfl
        exact hc.2 ha
      · rcases List.mem_append.mp hd with hd | hd
        · exact h.2 d hd
        · rw [List.mem_singleton.mp hd]
          exact hc.1
    · exact h

theorem claimWalkOrder_perm (hnd : claimable.Nodup) :
    (claimWalkOrder P claimable identity ranked).Perm claimable := by
  unfold claimWalkOrder
  split
  · obtain ⟨hfront, hsub⟩ := rankedFront_spec claimable ranked
    refine (List.perm_ext_iff_of_nodup ?_ hnd).mpr fun c => ?_
    · refine List.nodup_append.mpr ⟨hfront, hnd.filter _, ?_⟩
      rintro a ha b hb rfl
      have hb' := (List.mem_filter.mp hb).2
      exact of_decide_eq_true hb' ha
    · rw [List.mem_append, List.mem_filter, decide_eq_true_eq]
      constructor
      · rintro (hc | hc)
        · exact hsub c hc
        · exact hc.1
      · intro hc
        by_cases hmem : c ∈ rankedFront claimable ranked
        · exact .inl hmem
        · exact .inr ⟨hc, hmem⟩
  · cases identity with
    | none => exact List.Perm.refl _
    | some id => exact List.perm_insertionSort _ _

theorem nextClaimCoord_eq (hnd : claimable.Nodup) {cur : Coord} (hlen : 2 ≤ claimable.length) :
    nextClaimCoord P claimable cur identity ranked
      = CyclicWalk.successor (claimWalkOrder P claimable identity ranked) cur := by
  have hperm : (claimWalkOrder P claimable identity ranked).Perm claimable :=
    claimWalkOrder_perm hnd
  have hnd' := hperm.nodup_iff.mpr hnd
  have hlen' : 2 ≤ (claimWalkOrder P claimable identity ranked).length := by
    rw [hperm.length_eq]
    exact hlen
  rw [CyclicWalk.successor_eq hnd' hlen']
  unfold nextClaimCoord CyclicWalk.start
  rw [if_neg (by omega)]
  by_cases hcur : cur ∈ claimWalkOrder P claimable identity ranked
  · simp [hcur]
  · simp [hcur]

end Order

/-! ## One visit -/

section Visit

variable {attempt : Coord → Attempt} {event : ℤ} {cd cd' : CoordCooldown} {c : Coord}

theorem Attempt.advance_of_failure {a : Attempt} (h : a.failure = none) (c : Coord) :
    ∃ claim, a.advance c = some claim ∧ claim.coord = c := by
  unfold Attempt.failure at h
  unfold Attempt.advance
  cases hr : a.register with
  | error text => simp [hr] at h
  | ok slot => cases hc : a.catchUp with
    | aborted reason => simp [hr, hc] at h
    | folded records reached => exact ⟨_, rfl, rfl⟩

/-- Two tables with the same bounds and the same parks of the stops. -/
structure AgreeOn (stops : List Coord) (cd cd' : CoordCooldown) : Prop where
  seconds : cd'.seconds = cd.seconds
  events : cd'.events = cd.events
  parked : ∀ c ∈ stops, cd'.parked.get? c = cd.parked.get? c

theorem AgreeOn.parkedAtVisit {stops : List Coord} (h : AgreeOn stops cd cd') (hc : c ∈ stops) :
    parkedAtVisit attempt event cd' c = parkedAtVisit attempt event cd c := by
  unfold NeuraHash.parkedAtVisit
  rw [Bool.eq_iff_iff, CoordCooldown.blocked_fst, CoordCooldown.blocked_fst, h.parked c hc]

theorem AgreeOn.startable {stops : List Coord} (h : AgreeOn stops cd cd') (hc : c ∈ stops) :
    startable attempt event cd' c = startable attempt event cd c := by
  unfold NeuraHash.startable
  rw [h.parkedAtVisit hc]

theorem AgreeOn.failurePark {stops : List Coord} (h : AgreeOn stops cd cd') (c : Coord) :
    failurePark attempt event cd' c = failurePark attempt event cd c := by
  unfold NeuraHash.failurePark
  rw [h.seconds, h.events]

/-- A coordinate that is not parked has no park once it was looked up. -/
theorem blocked_snd_get? {now : ℚ} (h : (cd.blocked now c event).1 = false) :
    (cd.blocked now c event).2.parked.get? c = none := by
  unfold CoordCooldown.blocked at h ⊢
  cases hp : cd.parked.get? c with
  | none => simpa using hp
  | some p =>
    simp only [hp] at h ⊢
    split
    · simp [Dict.get?_erase]
    · next hrun => simp [hrun] at h

theorem blocked_of_parked {now : ℚ} (h : (cd.blocked now c event).1 = true) :
    (cd.blocked now c event).2 = cd := by
  unfold CoordCooldown.blocked at h ⊢
  cases hp : cd.parked.get? c with
  | none => simp [hp] at h
  | some p =>
    simp only [hp] at h ⊢
    split
    · next hrun => simp [hrun] at h
    · rfl

/-- A look at the table leaves the bounds and the other parks. -/
theorem blocked_agree {stops : List Coord} (hc : c ∉ stops) (now : ℚ) :
    AgreeOn stops cd (cd.blocked now c event).2 := by
  rcases cd.blocked_snd now c event with h | h
  · rw [h]
    exact ⟨rfl, rfl, fun _ _ => rfl⟩
  · rw [h]
    refine ⟨rfl, rfl, fun d hd => ?_⟩
    have hne : c ≠ d := fun heq => hc (heq ▸ hd)
    rw [Dict.get?_erase, if_neg hne]

theorem visit_of_startable (h : startable attempt event cd c = true) :
    (visit attempt event cd c).1 = (attempt c).advance c
      ∧ (visit attempt event cd c).2 = (cd.blocked (attempt c).lookedUpAt c event).2 := by
  unfold startable parkedAtVisit at h
  simp only [Bool.and_eq_true, Bool.not_eq_true', Option.isNone_iff_eq_none] at h
  unfold visit
  cases hb : cd.blocked (attempt c).lookedUpAt c event with
  | mk parked cd' =>
    rw [hb] at h
    obtain ⟨hfree, hok⟩ := h
    dsimp only at hfree
    subst hfree
    simp [hok]

theorem visit_of_parked (h : parkedAtVisit attempt event cd c = true) :
    visit attempt event cd c = (none, cd) := by
  have hcd := blocked_of_parked h
  unfold parkedAtVisit at h
  unfold visit
  cases hb : cd.blocked (attempt c).lookedUpAt c event with
  | mk parked cd' =>
    rw [hb] at h hcd
    dsimp only at h hcd
    rw [h, hcd]

/-- A coordinate that fails is parked. -/
theorem visit_of_failure (hfree : parkedAtVisit attempt event cd c = false)
    (hfail : startable attempt event cd c = false) :
    (visit attempt event cd c).1 = none
      ∧ (visit attempt event cd c).2.parked.get? c = some (failurePark attempt event cd c)
      ∧ ∀ stops, c ∉ stops → AgreeOn stops cd (visit attempt event cd c).2 := by
  have hagree : ∀ stops, c ∉ stops → AgreeOn stops cd (cd.blocked (attempt c).lookedUpAt c event).2 :=
    fun stops hc => blocked_agree hc _
  unfold startable at hfail
  rw [hfree, Bool.not_false, Bool.true_and] at hfail
  obtain ⟨reason, hreason⟩ : ∃ reason, (attempt c).failure = some reason := by
    cases hf : (attempt c).failure with
    | none => simp [hf] at hfail
    | some reason => exact ⟨reason, rfl⟩
  unfold parkedAtVisit at hfree
  have hsame := hagree [] (by simp)
  unfold visit failurePark
  cases hb : cd.blocked (attempt c).lookedUpAt c event with
  | mk parked cd' =>
    rw [hb] at hfree hagree hsame
    dsimp only at hfree
    subst hfree
    have hseconds : cd'.seconds = cd.seconds := hsame.seconds
    have hevents : cd'.events = cd.events := hsame.events
    simp only [hreason, CoordCooldown.park, Dict.get?_set_self, Option.getD_some, true_and]
    rw [hseconds, hevents]
    refine ⟨rfl, fun stops hc => ?_⟩
    have h := hagree stops hc
    refine ⟨rfl, rfl, fun d hd => ?_⟩
    have hne : c ≠ d := fun heq => hc (heq ▸ hd)
    rw [Dict.get?_set_of_ne _ _ hne, h.parked d hd]

end Visit

/-! ## The whole walk -/

section Landing

variable {attempt : Coord → Attempt} {event : ℤ} {cd₀ : CoordCooldown}

theorem mem_of_mem_parkedOnTheWay {stops : List Coord} {c : Coord}
    (h : c ∈ parkedOnTheWay attempt event cd₀ stops) : c ∈ stops :=
  (List.takeWhile_sublist _).mem (List.mem_filter.mp h).1

theorem parkedOnTheWay_of_startable {c : Coord} {stops : List Coord}
    (h : startable attempt event cd₀ c = true) :
    parkedOnTheWay attempt event cd₀ (c :: stops) = [] := by
  simp [parkedOnTheWay, h]

theorem parkedOnTheWay_of_parked {c : Coord} {stops : List Coord}
    (h : parkedAtVisit attempt event cd₀ c = true) :
    parkedOnTheWay attempt event cd₀ (c :: stops) = parkedOnTheWay attempt event cd₀ stops := by
  simp [parkedOnTheWay, startable, h]

theorem parkedOnTheWay_of_failure {c : Coord} {stops : List Coord}
    (hfree : parkedAtVisit attempt event cd₀ c = false)
    (hfail : startable attempt event cd₀ c = false) :
    parkedOnTheWay attempt event cd₀ (c :: stops)
      = c :: parkedOnTheWay attempt event cd₀ stops := by
  simp [parkedOnTheWay, hfail, hfree]

/-- Where a walk from the table `cd` ends, the stops being as they were in the table `cd₀`. -/
structure Landing (attempt : Coord → Attempt) (event : ℤ) (cd₀ cd : CoordCooldown)
    (stops : List Coord) (out : Option Advance × CoordCooldown) : Prop where
  claim : out.1 = (stops.find? (startable attempt event cd₀)).bind fun c => (attempt c).advance c
  parks : ∀ c ∈ parkedOnTheWay attempt event cd₀ stops,
    out.2.parked.get? c = some (failurePark attempt event cd₀ c)
  frees : ∀ c, stops.find? (startable attempt event cd₀) = some c → out.2.parked.get? c = none
  keeps : ∀ c, c ∉ parkedOnTheWay attempt event cd₀ stops →
    stops.find? (startable attempt event cd₀) ≠ some c → out.2.parked.get? c = cd.parked.get? c

/-- The induction is on the stops; the table changes on the way, but not at the stops to come. -/
theorem advanceWalk_lands {stops : List Coord} (hnd : stops.Nodup) {cd : CoordCooldown}
    (hagree : AgreeOn stops cd₀ cd) :
    Landing attempt event cd₀ cd stops (advanceWalk attempt event stops cd) := by
  induction stops generalizing cd with
  | nil =>
    refine ⟨rfl, fun c hc => ?_, fun c hc => ?_, fun c _ _ => rfl⟩
    · cases hc
    · cases hc
  | cons c stops ih =>
    have hc : c ∉ stops := (List.nodup_cons.mp hnd).1
    have hvisited : startable attempt event cd c = startable attempt event cd₀ c :=
      hagree.startable List.mem_cons_self
    have hparked : parkedAtVisit attempt event cd c = parkedAtVisit attempt event cd₀ c :=
      hagree.parkedAtVisit List.mem_cons_self
    have hrest : AgreeOn stops cd₀ cd :=
      ⟨hagree.seconds, hagree.events, fun d hd => hagree.parked d (List.mem_cons_of_mem _ hd)⟩
    cases hstart : startable attempt event cd₀ c with
    | true =>
      -- the walk ends here
      rw [hstart] at hvisited
      obtain ⟨hclaim, htable⟩ := visit_of_startable hvisited
      have hfree : (cd.blocked (attempt c).lookedUpAt c event).1 = false := by
        unfold startable parkedAtVisit at hvisited
        simp only [Bool.and_eq_true, Bool.not_eq_true'] at hvisited
        exact hvisited.1
      have hok : (attempt c).failure = none := by
        unfold startable at hvisited
        simp only [Bool.and_eq_true, Option.isNone_iff_eq_none] at hvisited
        exact hvisited.2
      obtain ⟨claim, hadvance, -⟩ := Attempt.advance_of_failure hok c
      have hout : advanceWalk attempt event (c :: stops) cd
          = (some claim, (cd.blocked (attempt c).lookedUpAt c event).2) := by
        rw [← htable]
        rw [hadvance] at hclaim
        unfold advanceWalk
        cases hv : visit attempt event cd c with
        | mk first cd' =>
          rw [hv] at hclaim
          dsimp only at hclaim
          rw [hclaim]
      have hfind : (c :: stops).find? (startable attempt event cd₀) = some c := by
        rw [List.find?_cons_of_pos hstart]
      rw [hout]
      refine ⟨?_, ?_, ?_, ?_⟩
      · rw [hfind]
        exact hadvance.symm
      · intro d hd
        rw [parkedOnTheWay_of_startable hstart] at hd
        cases hd
      · intro d hd
        rw [hfind] at hd
        cases hd
        exact blocked_snd_get? hfree
      · intro d _ hd
        have hne : c ∉ [d] := by
          rw [List.mem_singleton]
          rintro rfl
          exact hd hfind
        exact (blocked_agree hne _).parked d (List.mem_singleton_self d)
    | false =>
      have hfind : (c :: stops).find? (startable attempt event cd₀)
          = stops.find? (startable attempt event cd₀) := by
        rw [List.find?_cons_of_neg (by simp [hstart])]
      cases hp : parkedAtVisit attempt event cd₀ c with
      | true =>
        -- a parked stop is passed by
        rw [hp] at hparked
        have hout : advanceWalk attempt event (c :: stops) cd = advanceWalk attempt event stops cd := by
          rw [advanceWalk, visit_of_parked hparked]
        have hland := ih (List.nodup_cons.mp hnd).2 hrest
        rw [hout]
        refine ⟨?_, ?_, ?_, ?_⟩
        · rw [hfind]
          exact hland.claim
        · rw [parkedOnTheWay_of_parked hp]
          exact hland.parks
        · rw [hfind]
          exact hland.frees
        · rw [hfind, parkedOnTheWay_of_parked hp]
          exact hland.keeps
      | false =>
        -- a stop that fails is parked, and the walk goes on with the new table
        rw [hp] at hparked
        rw [hstart] at hvisited
        obtain ⟨hnone, hpark, hsame⟩ := visit_of_failure hparked hvisited
        have hout : advanceWalk attempt event (c :: stops) cd
            = advanceWalk attempt event stops (visit attempt event cd c).2 := by
          rw [advanceWalk]
          cases hv : visit attempt event cd c with
          | mk first cd' =>
            rw [hv] at hnone
            dsimp only at hnone
            rw [hnone]
        have hkept := hsame stops hc
        have hnext : AgreeOn stops cd₀ (visit attempt event cd c).2 :=
          ⟨hkept.seconds.trans hrest.seconds, hkept.events.trans hrest.events,
            fun d hd => (hkept.parked d hd).trans (hrest.parked d hd)⟩
        have hland := ih (List.nodup_cons.mp hnd).2 hnext
        have hout_c : c ∉ parkedOnTheWay attempt event cd₀ stops :=
          fun h => hc (mem_of_mem_parkedOnTheWay h)
        have hfind_c : stops.find? (startable attempt event cd₀) ≠ some c :=
          fun h => hc (List.mem_of_find?_eq_some h)
        rw [hout]
        refine ⟨?_, ?_, ?_, ?_⟩
        · rw [hfind]
          exact hland.claim
        · rw [parkedOnTheWay_of_failure hp hstart]
          intro d hd
          rcases List.mem_cons.mp hd with rfl | hd
          · rw [hland.keeps d hout_c hfind_c, hpark, hagree.failurePark]
          · exact hland.parks d hd
        · rw [hfind]
          exact hland.frees
        · rw [hfind, parkedOnTheWay_of_failure hp hstart]
          intro d hd hne
          rw [List.mem_cons, not_or] at hd
          have hne' : c ∉ [d] := by
            rw [List.mem_singleton]
            exact fun h => hd.1 h.symm
          rw [hland.keeps d hd.2 hne, (hsame [d] hne').parked d (List.mem_singleton_self d)]

end Landing

/-! ## Where the claim lands -/

section Claim

variable {P : Platform} {claimable : List Coord} {cur : Coord} {identity : Option String}
  {ranked : List Coord} {attempt : Coord → Attempt} {event : ℤ} {cd : CoordCooldown}

/-- The stops of `advance_claim` from `cur`. -/
def claimStops (P : Platform) (claimable : List Coord) (cur : Coord) (identity : Option String)
    (ranked : List Coord) : List Coord :=
  CyclicWalk.others (claimWalkOrder P claimable identity ranked) cur

theorem mem_claimStops (hnd : claimable.Nodup) {c : Coord} :
    c ∈ claimStops P claimable cur identity ranked ↔ c ∈ claimable ∧ c ≠ cur := by
  unfold claimStops
  rw [CyclicWalk.mem_others, (claimWalkOrder_perm hnd).mem_iff]

/-- With one coordinate to claim there is nothing to advance to. -/
theorem advanceClaim_of_length_le (hnd : claimable.Nodup) (hlen : claimable.length ≤ 1) :
    advanceClaim attempt event P claimable cur identity ranked cd = (none, cd) := by
  unfold advanceClaim
  have hperm : (claimWalkOrder P claimable identity ranked).Perm claimable :=
    claimWalkOrder_perm hnd
  rw [if_pos (hperm.length_eq ▸ hlen)]

theorem advanceClaim_lands (hnd : claimable.Nodup) (hmove : ∀ c, claimable = [c] → c = cur) :
    Landing attempt event cd cd (claimStops P claimable cur identity ranked)
      (advanceClaim attempt event P claimable cur identity ranked cd) := by
  have hperm : (claimWalkOrder P claimable identity ranked).Perm claimable :=
    claimWalkOrder_perm hnd
  have hwalk : Landing attempt event cd cd (claimStops P claimable cur identity ranked)
      (advanceWalk attempt event (claimStops P claimable cur identity ranked) cd) :=
    advanceWalk_lands (CyclicWalk.nodup_others (hperm.nodup_iff.mpr hnd))
      ⟨rfl, rfl, fun _ _ => rfl⟩
  by_cases hlen : claimable.length ≤ 1
  · -- no stop: the list is empty, or the current coordinate alone
    have hstops : claimStops P claimable cur identity ranked = [] := by
      apply List.eq_nil_iff_forall_not_mem.mpr
      intro c hc
      obtain ⟨hmem, hne⟩ := (mem_claimStops hnd).mp hc
      have hpos : 0 < claimable.length := List.length_pos_of_mem hmem
      obtain ⟨d, hd⟩ := List.length_eq_one_iff.mp (show claimable.length = 1 by omega)
      rw [hd, List.mem_singleton] at hmem
      exact hne (hmem.trans (hmove d hd))
    rw [hstops] at hwalk ⊢
    rw [advanceClaim_of_length_le hnd hlen]
    exact hwalk
  · rw [← hperm.length_eq] at hlen
    unfold advanceClaim
    rw [if_neg hlen]
    exact hwalk

/-- The claim is on the first stop that can be started. -/
theorem advance_coord (hnd : claimable.Nodup) (hmove : ∀ c, claimable = [c] → c = cur) :
    (advanceClaim attempt event P claimable cur identity ranked cd).1.map Advance.coord
      = (claimStops P claimable cur identity ranked).find? (startable attempt event cd) := by
  rw [(advanceClaim_lands hnd hmove).claim]
  cases hfind : (claimStops P claimable cur identity ranked).find? (startable attempt event cd) with
  | none => rfl
  | some c =>
    have hstart := List.find?_some hfind
    unfold startable at hstart
    simp only [Bool.and_eq_true, Option.isNone_iff_eq_none] at hstart
    obtain ⟨claim, hclaim, hcoord⟩ := Attempt.advance_of_failure hstart.2 c
    show ((attempt c).advance c).map Advance.coord = some c
    rw [hclaim, Option.map_some, hcoord]

/-- Nothing on the way is parked, refuses or is cut off. -/
def Unobstructed (attempt : Coord → Attempt) (event : ℤ) (cd : CoordCooldown)
    (claimable : List Coord) (cur : Coord) : Prop :=
  ∀ c ∈ claimable, c ≠ cur → startable attempt event cd c = true

/-- An unobstructed claim is the next coordinate of the sweep. -/
theorem advance_unobstructed (hnd : claimable.Nodup) (hmove : ∀ c, claimable = [c] → c = cur)
    (hfree : Unobstructed attempt event cd claimable cur) :
    (advanceClaim attempt event P claimable cur identity ranked cd).1.map Advance.coord
      = nextClaimCoord P claimable cur identity ranked := by
  by_cases hlen : 2 ≤ claimable.length
  · rw [advance_coord hnd hmove, nextClaimCoord_eq hnd hlen]
    show _ = (claimStops P claimable cur identity ranked).head?
    cases hstops : claimStops P claimable cur identity ranked with
    | nil => rfl
    | cons c stops =>
      have hc := (mem_claimStops (P := P) hnd).mp (hstops ▸ List.mem_cons_self)
      rw [List.find?_cons_of_pos (hfree c hc.1 hc.2)]
      rfl
  · rw [advanceClaim_of_length_le hnd (by omega), nextClaimCoord, if_pos (by omega)]
    rfl

/-- The claims of unobstructed advances, one after the other: each with its own outcomes, event and
table. -/
inductive Sweep (P : Platform) (claimable : List Coord) (identity : Option String)
    (ranked : List Coord) : Coord → List Coord → Prop where
  | nil (cur : Coord) : Sweep P claimable identity ranked cur []
  | cons {cur : Coord} {claims : List Coord} (attempt : Coord → Attempt) (event : ℤ)
      (cd : CoordCooldown) (claim : Advance)
      (hfree : Unobstructed attempt event cd claimable cur)
      (hclaim : (advanceClaim attempt event P claimable cur identity ranked cd).1 = some claim)
      (hrest : Sweep P claimable identity ranked claim.coord claims) :
      Sweep P claimable identity ranked cur (claim.coord :: claims)

theorem Sweep.visits (hnd : claimable.Nodup) (hlen : 2 ≤ claimable.length) {claims : List Coord}
    (h : Sweep P claimable identity ranked cur claims) :
    CyclicWalk.Visits (claimWalkOrder P claimable identity ranked) cur claims := by
  induction h with
  | nil cur => exact .nil cur
  | @cons cur claims attempt event cd claim hfree hclaim hrest ih =>
    have hmove : ∀ c, claimable = [c] → c = cur := by
      intro c hc
      rw [hc, List.length_singleton] at hlen
      omega
    have hnext : (advanceClaim attempt event P claimable cur identity ranked cd).1.map Advance.coord
        = nextClaimCoord P claimable cur identity ranked :=
      advance_unobstructed hnd hmove hfree
    rw [hclaim, nextClaimCoord_eq hnd hlen] at hnext
    exact .cons hnext.symm ih

/-- **A full sweep** claims every coordinate once. -/
theorem Sweep.perm (hnd : claimable.Nodup) {claims : List Coord}
    (h : Sweep P claimable identity ranked cur claims) (hround : claims.length = claimable.length) :
    claims.Perm claimable := by
  have hperm : (claimWalkOrder P claimable identity ranked).Perm claimable :=
    claimWalkOrder_perm hnd
  by_cases hlen : 2 ≤ claimable.length
  · refine (CyclicWalk.visited_perm (hperm.nodup_iff.mpr hnd) ?_ (h.visits hnd hlen) ?_).trans hperm
    · rw [hperm.length_eq]
      exact hlen
    · rw [hperm.length_eq]
      exact hround
  · -- one coordinate or none gives no claim at all
    cases h with
    | nil => rw [List.eq_nil_of_length_eq_zero hround.symm]
    | cons attempt event cd claim hfree hclaim hrest =>
      rw [advanceClaim_of_length_le hnd (by omega)] at hclaim
      cases hclaim

end Claim

/-- **Where the claim lands.** Unless the only coordinate to claim is another one than the current
one, the claim is on the first coordinate of the walk that is not parked, registers and catches up;
the coordinates tried before it are parked, its own park is dropped, and no other changes; without
obstacles it is the next coordinate of the sweep, and a round of such claims has every coordinate
once. A single other coordinate is never claimed. -/
theorem advance_claim_lands (P : Platform) (attempt : Coord → Attempt) (event : ℤ)
    (claimable : List Coord) (cur : Coord) (identity : Option String) (ranked : List Coord)
    (cd : CoordCooldown) (hnd : claimable.Nodup) :
    let stops := claimStops P claimable cur identity ranked
    let out := advanceClaim attempt event P claimable cur identity ranked cd
    ((∀ c, claimable = [c] → c = cur) →
      (claimWalkOrder P claimable identity ranked).Perm claimable
      ∧ out.1 = (stops.find? (startable attempt event cd)).bind (fun c => (attempt c).advance c)
      ∧ out.1.map Advance.coord = stops.find? (startable attempt event cd)
      ∧ (out.1 = none ↔ ∀ c ∈ claimable, c ≠ cur → startable attempt event cd c = false)
      ∧ (∀ c, out.2.parked.get? c =
          if c ∈ parkedOnTheWay attempt event cd stops then some (failurePark attempt event cd c)
          else if stops.find? (startable attempt event cd) = some c then none
          else cd.parked.get? c)
      ∧ (Unobstructed attempt event cd claimable cur →
          out.1.map Advance.coord = nextClaimCoord P claimable cur identity ranked)
      ∧ ∀ claims, Sweep P claimable identity ranked cur claims →
          claims.length = claimable.length → claims.Perm claimable)
    ∧ ∀ c, claimable = [c] → out = (none, cd) := by
  intro stops out
  refine ⟨fun hmove => ?_, fun c hc => ?_⟩
  · have hland : Landing attempt event cd cd stops out := advanceClaim_lands hnd hmove
    have hcoord : out.1.map Advance.coord = stops.find? (startable attempt event cd) :=
      advance_coord hnd hmove
    refine ⟨claimWalkOrder_perm hnd, hland.claim, hcoord, ?_, fun c => ?_, ?_, ?_⟩
    · rw [← Option.map_eq_none_iff, hcoord, List.find?_eq_none]
      simp only [Bool.not_eq_true]
      constructor
      · intro h c hc hne
        exact h c ((mem_claimStops hnd).mpr ⟨hc, hne⟩)
      · intro h c hc
        have hmem := (mem_claimStops hnd).mp hc
        exact h c hmem.1 hmem.2
    · by_cases hpark : c ∈ parkedOnTheWay attempt event cd stops
      · rw [if_pos hpark, hland.parks c hpark]
      · rw [if_neg hpark]
        by_cases hfind : stops.find? (startable attempt event cd) = some c
        · rw [if_pos hfind, hland.frees c hfind]
        · rw [if_neg hfind, hland.keeps c hpark hfind]
    · exact fun hfree => advance_unobstructed hnd hmove hfree
    · exact fun claims h hround => h.perm hnd hround
  · apply advanceClaim_of_length_le hnd
    rw [hc, List.length_singleton]

/-- The only coordinate that can be claimed is not the current one and nothing stands in its way: it
is the first one after the current one, and it is not claimed. -/
theorem advance_claim_single :
    (advanceClaim (fun _ => ⟨0, 0, .ok 0, .folded 0 true⟩) 0 Platform.ideal [(1, 2)] (1, 1) none []
        (CoordCooldown.fresh (.fin 900) 10)).1 = none
      ∧ startable (fun _ => ⟨0, 0, .ok 0, .folded 0 true⟩) 0 (CoordCooldown.fresh (.fin 900) 10) (1, 2) = true
      ∧ (claimStops Platform.ideal [(1, 2)] (1, 1) none []).find?
          (startable (fun _ => ⟨0, 0, .ok 0, .folded 0 true⟩) 0 (CoordCooldown.fresh (.fin 900) 10))
        = some (1, 2) := by
  decide +kernel

/-- Three coordinates, a ranking that names a foreign and a repeated one: the first stop refuses and
is parked, the second one is claimed. -/
theorem advance_claim_lands_ranked :
    ((advanceClaim (fun c => ⟨0, 0, if c = (1, 3) then .error "no seat" else .ok 7, .folded 2 true⟩) 5
        Platform.ideal [(1, 1), (1, 2), (1, 3)] (1, 1) none [(9, 9), (1, 1), (1, 3), (1, 1)]
        (CoordCooldown.fresh (.fin 900) 10)).1.map Advance.coord = some (1, 2))
      ∧ parkedOnTheWay
          (fun c => ⟨0, 0, if c = (1, 3) then .error "no seat" else .ok 7, .folded 2 true⟩) 5
          (CoordCooldown.fresh (.fin 900) 10)
          (claimStops Platform.ideal [(1, 1), (1, 2), (1, 3)] (1, 1) none
            [(9, 9), (1, 1), (1, 3), (1, 1)]) = [(1, 3)] := by
  have hland := (advance_claim_lands Platform.ideal
    (fun c => ⟨0, 0, if c = (1, 3) then .error "no seat" else .ok 7, .folded 2 true⟩) 5
    [(1, 1), (1, 2), (1, 3)] (1, 1) none [(9, 9), (1, 1), (1, 3), (1, 1)]
    (CoordCooldown.fresh (.fin 900) 10) (by decide)).1 (fun c hc => by cases hc)
  refine ⟨hland.2.2.1.trans ?_, ?_⟩
  · decide +kernel
  · decide +kernel

end NeuraHash
