import NeuraHash.Replica.Fold

/-!
# What a checked fold leaves behind

`_fold_accepted_checked` promises all or nothing: a record that raises or is off-lineage leaves the
host as it was, and one that is folded leaves the advertised weights (`AllOrNothing`).

Two kinds of record break it. Where two rows are placed at two indices of one coordinate, the second
index saves what the first has written, and the rollback ends with that (`PlacedApart`). Where two
keys of `slot_roots` spell one coordinate, only the later root is compared (`RootsAgree`).
-/

namespace NeuraHash

open Py Systems

variable {host : LaneHost} {ω : Type} {E : MinerEnv} {bounded : BoundedLane ω}
  {regate : Regate host ω} {record : Json} {s s' : Weights host × ω}

/-- The slot a `slot_roots` key names. -/
def residentSlot (T : PyText) (host : LaneHost) (key : String) : Option ℕ :=
  (advertisedCoord T key).bind (indexOf host.slots)

/-- No two rows are placed at different slots of one coordinate. -/
def PlacedApart (T : PyText) (host : LaneHost) (record : Json) : Prop :=
  Set.InjOn host.coordAt (placedSlots T host record)

/-- The roots advertised for one resident coordinate are the same. -/
def RootsAgree (T : PyText) (host : LaneHost) (record : Json) : Prop :=
  ∀ sr, slotRoots record = some sr → ∀ e ∈ sr.entries, ∀ e' ∈ sr.entries, ∀ slot,
    residentSlot T host e.1 = some slot → residentSlot T host e'.1 = some slot →
      e.2.toStr T = e'.2.toStr T

/-! ## A rollback -/

/-- A fold whose rows write no coordinate through two slots restores what it rolls back. -/
theorem rollback_of_placedApart (hapart : PlacedApart E.toPyText host record)
    {cow : CowSlots host} {world : ω}
    (hafter : ((applyAccepted E bounded (.cow host) regate record).after
      (Journal.start s.1, s.2)) = (cow, world)) : cow.rollback host.coordAt = s.1 := by
  have hwrites := @applyAccepted_writes host _ ω E bounded (.cow host) regate record
    (Journal.start s.1, s.2)
  rw [hafter] at hwrites
  exact Journal.rollback_of_writes hapart hwrites.journal

theorem fold_raised (hapart : PlacedApart E.toPyText host record) {e : PyErr}
    (h : foldAcceptedChecked E bounded regate record s = .error e s') : s'.1 = s.1 := by
  unfold foldAcceptedChecked at h
  cases hrun : applyAccepted E bounded (.cow host) regate record (Journal.start s.1, s.2) with
  | error e' s'' =>
    rw [hrun] at h
    cases h
    exact rollback_of_placedApart hapart (by rw [PyM.after, hrun])
  | ok applied s'' =>
    rw [hrun] at h
    dsimp only at h
    split at h
    · cases h
    · split at h <;> cases h

theorem fold_lineage (hapart : PlacedApart E.toPyText host record)
    (h : foldAcceptedChecked E bounded regate record s = .ok .lineage s') : s'.1 = s.1 := by
  unfold foldAcceptedChecked at h
  cases hrun : applyAccepted E bounded (.cow host) regate record (Journal.start s.1, s.2) with
  | error e' s'' =>
    rw [hrun] at h
    cases h
  | ok applied s'' =>
    rw [hrun] at h
    dsimp only at h
    split at h
    · cases h
    · split at h
      · cases h
      · cases h
        exact rollback_of_placedApart hapart (by rw [PyM.after, hrun])

/-- A host with no coordinate twice places every record apart. -/
theorem placedApart_of_nodup {T : PyText} (h : host.slots.Nodup) (record : Json) :
    PlacedApart T host record := by
  rintro i ⟨rows, -, item, -, hi⟩ j ⟨rows', -, item', -, hj⟩ heq
  have hi := placed_lt hi
  have hj := placed_lt hj
  unfold LaneHost.coordAt at heq
  rw [List.getD_eq_getElem _ _ hi, List.getD_eq_getElem _ _ hj] at heq
  exact (List.Nodup.getElem_inj_iff h).mp heq

/-! ## The roots compared -/

/-- The resident entries of `slot_roots`, by slot. -/
def residentEntries (T : PyText) (host : LaneHost) (sr : Dict String Json) : List (ℕ × Json) :=
  sr.entries.filterMap fun e => (residentSlot T host e.1).map fun slot => (slot, e.2)

theorem mem_residentEntries {T : PyText} {sr : Dict String Json} {slot : ℕ} {want : Json} :
    (slot, want) ∈ residentEntries T host sr
      ↔ ∃ key, (key, want) ∈ sr.entries ∧ residentSlot T host key = some slot := by
  unfold residentEntries
  rw [List.mem_filterMap]
  constructor
  · rintro ⟨⟨key, want'⟩, he, hmap⟩
    obtain ⟨slot', hslot, heq⟩ := Option.map_eq_some_iff.mp hmap
    cases heq
    exact ⟨key, he, hslot⟩
  · rintro ⟨key, he, hslot⟩
    exact ⟨(key, want), he, by rw [hslot]; rfl⟩

/-- What is compared is the dictionary of the resident entries: a later one replaces an earlier. -/
theorem advertised_eq (T : PyText) (sr : Dict String Json) :
    advertised T host sr = Dict.ofList (residentEntries T host sr) := by
  unfold Dict.ofList residentEntries
  rw [List.foldl_filterMap]
  unfold advertised residentSlot
  congr 1
  funext adv e
  cases (advertisedCoord T e.1).bind (indexOf host.slots) <;> rfl

theorem of_advertised {T : PyText} {sr : Dict String Json} {slot : ℕ} {want : Json}
    (h : (advertised T host sr).get? slot = some want) :
    ∃ key, (key, want) ∈ sr.entries ∧ residentSlot T host key = some slot := by
  rw [advertised_eq, Dict.get?_ofList] at h
  exact mem_residentEntries.mp (List.mem_reverse.mp (Dict.mem_of_lookup h))

theorem advertised_of_mem {T : PyText} {sr : Dict String Json} {key : String} {want : Json}
    {slot : ℕ} (he : (key, want) ∈ sr.entries) (hslot : residentSlot T host key = some slot) :
    ∃ want', (advertised T host sr).get? slot = some want' := by
  rw [← Option.ne_none_iff_exists', advertised_eq, Dict.get?_ofList, Ne,
    Dict.lookup_eq_none_iff, not_not, List.map_reverse, List.mem_reverse]
  exact List.mem_map.mpr ⟨(slot, want), mem_residentEntries.mpr ⟨key, he, hslot⟩, rfl⟩

/-- What the check of a record with slot roots comes to. -/
theorem replicaRootOk_slotRoots {w : Weights host} {folded : List ℕ} {sr : Dict String Json}
    (hsr : slotRoots record = some sr) :
    replicaRootOk E w record folded = true ↔
      (∀ slot want, (advertised E.toPyText host sr).get? slot = some want →
        slotRoot E w slot = want.toStr E.toPyText)
      ∧ ∀ slot ∈ folded, ∃ want, (advertised E.toPyText host sr).get? slot = some want := by
  unfold replicaRootOk
  rw [hsr]
  dsimp only
  rw [Bool.and_eq_true, List.all_eq_true, List.all_eq_true]
  refine and_congr ⟨fun h slot want hwant => ?_, fun h e he => ?_⟩
    (forall₂_congr fun slot _ => Dict.contains_iff)
  · exact of_decide_eq_true (h (slot, want) (Dict.mem_entries_iff.mpr hwant))
  · exact decide_eq_true (h e.1 e.2 (Dict.mem_entries_iff.mp he))

/-- A slot's root is that of its coordinate. -/
theorem slotRoot_congr {w : Weights host} {i j : ℕ} (h : host.coordAt i = host.coordAt j) :
    slotRoot E w i = slotRoot E w j := by
  unfold slotRoot LaneHost.readSlot
  rw [h]

/-! ## All or nothing -/

/-- **All or nothing**: a fold that raises or is off-lineage leaves every slot; one that is folded
with slot roots changes advertised coordinates only, and leaves every root that is advertised. -/
structure AllOrNothing (E : MinerEnv) (bounded : BoundedLane ω) (regate : Regate host ω)
    (record : Json) (s : Weights host × ω) : Prop where
  raised : ∀ e s', foldAcceptedChecked E bounded regate record s = .error e s' → s'.1 = s.1
  lineage : ∀ s', foldAcceptedChecked E bounded regate record s = .ok .lineage s' → s'.1 = s.1
  changed : ∀ s' sr, foldAcceptedChecked E bounded regate record s = .ok .ok s' →
    slotRoots record = some sr → ∀ slot < host.slots.length,
      host.readSlot s'.1 slot ≠ host.readSlot s.1 slot →
        ∃ key want, (key, want) ∈ sr.entries
          ∧ advertisedCoord E.toPyText key = some (host.coordAt slot)
          ∧ slotRoot E s'.1 slot = want.toStr E.toPyText
  landed : ∀ s' sr, foldAcceptedChecked E bounded regate record s = .ok .ok s' →
    slotRoots record = some sr → ∀ key want, (key, want) ∈ sr.entries →
      ∀ slot, residentSlot E.toPyText host key = some slot →
        slotRoot E s'.1 slot = want.toStr E.toPyText

/-- What a folded record has passed. -/
theorem fold_ok (h : foldAcceptedChecked E bounded regate record s = .ok .ok s') :
    ∃ folded : List ℕ, replicaRootOk E s'.1 record folded = true
      ∧ ∀ c, s'.1 c ≠ s.1 c → ∃ slot ∈ folded, host.coordAt slot = c := by
  unfold foldAcceptedChecked at h
  cases hrun : applyAccepted E bounded (.cow host) regate record (Journal.start s.1, s.2) with
  | error e' s'' =>
    rw [hrun] at h
    cases h
  | ok applied s'' =>
    rw [hrun] at h
    dsimp only at h
    split at h
    · cases h
    · next hrejected =>
      split at h
      · next hroot =>
        cases h
        refine ⟨applied.foldedSlots, hroot, fun c hc => ?_⟩
        have hwrites := applyAccepted_folded hrun (not_not.mp hrejected)
        exact Journal.changed_of_writes hwrites.journal hc
      · cases h

theorem residentSlot_coord {T : PyText} {key : String} {slot : ℕ}
    (h : residentSlot T host key = some slot) :
    advertisedCoord T key = some (host.coordAt slot) := by
  obtain ⟨c, hc, hslot⟩ := Option.bind_eq_some_iff.mp h
  rw [hc, (coordAt_of_indexOf hslot).2]

theorem fold_changed (h : foldAcceptedChecked E bounded regate record s = .ok .ok s')
    {sr : Dict String Json} (hsr : slotRoots record = some sr) {slot : ℕ}
    (hchanged : host.readSlot s'.1 slot ≠ host.readSlot s.1 slot) :
    ∃ key want, (key, want) ∈ sr.entries
      ∧ advertisedCoord E.toPyText key = some (host.coordAt slot)
      ∧ slotRoot E s'.1 slot = want.toStr E.toPyText := by
  obtain ⟨folded, hroot, hfolded⟩ := fold_ok h
  obtain ⟨hroots, hcovered⟩ := (replicaRootOk_slotRoots hsr).mp hroot
  have hcoord : s'.1 (host.coordAt slot) ≠ s.1 (host.coordAt slot) :=
    fun heq => hchanged (congrArg SlotState.params heq)
  obtain ⟨slot', hslot', heq⟩ := hfolded _ hcoord
  obtain ⟨want, hwant⟩ := hcovered slot' hslot'
  obtain ⟨key, he, hres⟩ := of_advertised hwant
  refine ⟨key, want, he, ?_, ?_⟩
  · rw [residentSlot_coord hres, heq]
  · rw [← slotRoot_congr heq]
    exact hroots slot' want hwant

theorem fold_landed (h : foldAcceptedChecked E bounded regate record s = .ok .ok s')
    (hagree : RootsAgree E.toPyText host record) {sr : Dict String Json}
    (hsr : slotRoots record = some sr) {key : String} {want : Json}
    (he : (key, want) ∈ sr.entries) {slot : ℕ}
    (hslot : residentSlot E.toPyText host key = some slot) :
    slotRoot E s'.1 slot = want.toStr E.toPyText := by
  obtain ⟨folded, hroot, -⟩ := fold_ok h
  obtain ⟨hroots, -⟩ := (replicaRootOk_slotRoots hsr).mp hroot
  obtain ⟨want', hwant'⟩ := advertised_of_mem he hslot
  obtain ⟨key', he', hslot'⟩ := of_advertised hwant'
  rw [hroots slot want' hwant']
  exact hagree sr hsr _ he' _ he slot hslot' hslot

def oneIndex : LaneHost := ⟨[(1, 0)], none, .exact, false⟩

def oneRow : Json :=
  .obj [("accepted", .arr [deltaRow 0 1]), ("slot_roots", .obj [("1_0", .str "root")])]

section Twice

def twoIndices : LaneHost := ⟨[(1, 0), (1, 0)], none, .exact, false⟩

def twoRows : Json :=
  .obj [("accepted", .arr [deltaRow 0 1, deltaRow 1 1]), ("model_root", .str "another")]

/-- The weight of the coordinate after an off-lineage fold. -/
def weightAfterLineage (record : Json) : Option (List PyFloat) :=
  match foldAcceptedChecked .ideal (oneDelta ∅ []) (noRegate twoIndices) record
      (zeroWeights twoIndices) with
  | .ok .lineage s' => ((s'.1 (1, 0)).params.get? "w").map Tensor.data
  | _ => none

theorem weightAfterLineage_twoRows : weightAfterLineage twoRows = some [.fin 1] := by
  decide +kernel

end Twice

end NeuraHash
