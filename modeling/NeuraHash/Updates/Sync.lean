import NeuraHash.Systems.History
import NeuraHash.Updates.Release

/-!
# The sync of a launcher (`sync_from_manifest`)

A sync fetches the best verified manifest at or above the replay floor, lets `check_and_update`
apply its code, stores the new floor with the declared gate, and then uses its configuration. A
manifest is *adopted* when its code, its configuration or its gate is used.

The floor is stored after the check, so a sync that re-execs stores nothing. `syncs_never_roll_back`
says that a run whose steps all leave the floor behind never adopts an older manifest, and that a
sync left without one reports the gate of the last one; `replay_after_reexec` is the run in which a
re-exec forgets it.
-/

namespace NeuraHash

open Py Systems

namespace SelfUpdate

open PyM UpdateEnv Manifest

/-- What becomes of the call of the re-exec. -/
inductive ReexecCall where
  /-- The process is replaced. -/
  | replaces
  /-- The call raises. -/
  | fails
  | returns
  deriving DecidableEq

/-- One call of `sync_from_manifest`, and the outside it meets. -/
structure Sync where
  world : World
  pubkey : String
  enabled : Bool
  startup : Bool
  rateLimitS : ℤ
  now : ℚ
  environ : Dict String String
  reexec : ReexecCall

/-- `SyncResult`. -/
structure SyncResult where
  update : Option UpdateResult := none
  fetch : Option ManifestFetch := none
  manifest : Option Json := none
  configApplied : List String := []
  configIgnored : List String := []
  publishBlock : Option String := none
  localVersion : Option String := none

/-- How a sync ends. -/
inductive SyncEnd where
  | returned (r : SyncResult)
  | replaced

/-- The state file, and the manifests adopted so far. -/
structure Node where
  file : Option Json
  adopted : List Json

section

variable (U : UpdateEnv)

/-- The replay floor of a state file. -/
def floorOf (file : Option Json) : ℤ :=
  match (((loadState file).getD "manifest_floor_ts" .null).orElse (.int 0)).toInt U.toPyText with
  | .ok n => n
  | .error _ => 0

/-- The gate of a state file. -/
def rememberedGate (file : Option Json) : Json := (loadState file).getD "min_client_version" .null

/-- `publish_block_reason` of the gate alone. -/
def rememberedBlock (file : Option Json) (localVersion : Option String) : Option String :=
  publishBlockReason U (.obj [("min_client_version", rememberedGate file)]) localVersion

namespace Sync

variable (x : Sync)

/-- The local version; `None` when it cannot be read. -/
def localVersion : Option String := (readLocalVersion U x.world).toOption

def fetch (file : Option Json) : ManifestFetch :=
  fetchBestManifest U x.world x.pubkey (floorOf U file)

/-- The check a sync makes of its manifest. -/
def check (m : Json) : Check :=
  ⟨x.pubkey, x.enabled, x.rateLimitS, x.now, !x.startup, m⟩

/-- The steps after a check that came back. -/
def adopt (floor : ℤ) (fetched : ManifestFetch) (m : Json) (upd : UpdateResult) : PyM Client SyncEnd :=
  saveState x.world [("manifest_floor_ts", .int (max floor (publishedTs U m))),
      ("min_client_version", get m "min_client_version")] >>= fun _ =>
    let a := applyConfig U m x.environ
    pure (.returned
      { update := some { upd with fetch := some fetched }, fetch := some fetched, manifest := some m,
        configApplied := a.applied, configIgnored := a.ignored,
        publishBlock := publishBlockReason U m (x.localVersion U), localVersion := x.localVersion U })

/-- A git checkout was called: the manifest's code was used. -/
def usedCode (trace : List UpdateEvent) : Bool :=
  trace.any fun e => match e with
    | .git args _ => args.head? == some "checkout"
    | _ => false

/-- The part of a sync that has a manifest. -/
def withManifest (file : Option Json) (m : Json) : PyM Client SyncEnd :=
  attempt (checkAndUpdate U x.world (x.check m)) >>= fun outcome => match outcome with
    | .error _ => pure (.returned {})
    | .ok (.returned r) => x.adopt U (floorOf U file) (x.fetch U file) m r
    | .ok (.reexec r) => match x.reexec with
      | .replaces => pure .replaced
      | .fails => pure (.returned {})
      | .returns => x.adopt U (floorOf U file) (x.fetch U file) m r

/-- What the code of `m` and the end of the sync adopt. -/
def adopts (m : Json) (trace : List UpdateEvent) : SyncEnd → List Json
  | .replaced => if usedCode trace then [m] else []
  | .returned r => if usedCode trace || r.manifest.isSome then [m] else []

/-- `sync_from_manifest`. -/
def run (n : Node) (x : Sync) : SyncEnd × Node :=
  if !x.enabled then (.returned { localVersion := x.localVersion U }, n)
  else match (x.fetch U n.file).manifest with
    | none => (.returned
        { fetch := some (x.fetch U n.file),
          publishBlock := rememberedBlock U n.file (x.localVersion U),
          localVersion := x.localVersion U }, n)
    | some m => match x.withManifest U n.file m ⟨n.file, []⟩ with
      | .ok e c => (e, ⟨c.file, n.adopted ++ adopts m c.trace e⟩)
      | .error _ c => (.returned {}, ⟨c.file, n.adopted⟩)

end Sync

end

/-! ## What a sync leaves in the state file -/

variable {U : UpdateEnv} {n : Node} {x : Sync} {m : Json}

/-- The floor is read back as it was stored. -/
theorem floorOf_stored {file : Option Json} {k : ℤ}
    (h : (loadState file).get? "manifest_floor_ts" = some (.int k)) : floorOf U file = k := by
  unfold floorOf
  rw [Dict.getD, h, Option.getD_some]
  by_cases hk : k = 0
  · subst hk
    rfl
  · have htruthy : (Json.int k).truthy = true := by simpa [Json.truthy] using hk
    rw [Json.orElse, if_pos htruthy]
    rfl

/-- The floor and the gate are what they were. -/
structure Kept (U : UpdateEnv) (file file' : Option Json) : Prop where
  floor : floorOf U file' = floorOf U file
  gate : rememberedGate file' = rememberedGate file

theorem kept_of_follows {s s' : Client} {evs : List UpdateEvent}
    (hw : ∀ t, x.world.failedWrite t = none) (h : Follows x.world s s' evs) :
    Kept U s.file s'.file := by
  have hfloor := h.file hw "manifest_floor_ts" (by decide)
  have hgate := h.file hw "min_client_version" (by decide)
  refine ⟨?_, ?_⟩
  · unfold floorOf
    rw [Dict.getD, Dict.getD, hfloor]
  · unfold rememberedGate
    rw [Dict.getD, Dict.getD, hgate]

/-- The last steps of a sync store the floor and the gate, and adopt the manifest. -/
theorem adopt_run (hw : ∀ t, x.world.failedWrite t = none) (floor : ℤ) (fetched : ManifestFetch)
    (m : Json) (upd : UpdateResult) (c : Client) :
    ∃ r c', x.adopt U floor fetched m upd c = .ok (.returned r) c' ∧ r.manifest = some m ∧
      floorOf U c'.file = max floor (publishedTs U m) ∧
      rememberedGate c'.file = get m "min_client_version" := by
  have hsave : saveState x.world [("manifest_floor_ts", .int (max floor (publishedTs U m))),
      ("min_client_version", get m "min_client_version")] c
      = .ok () ⟨some (.obj (((loadState c.file).set "manifest_floor_ts"
          (.int (max floor (publishedTs U m)))).set "min_client_version"
          (get m "min_client_version")).entries), c.trace ++ [.saved true]⟩ := by
    unfold saveState
    rw [hw]
    rfl
  refine ⟨_, _, PyM.bind_run_ok hsave, rfl, floorOf_stored ?_, ?_⟩
  · rw [get?_loadState_entries, Dict.get?_set, if_neg (by decide), Dict.get?_set, if_pos rfl]
  · show (loadState _).getD "min_client_version" .null = _
    rw [Dict.getD, get?_loadState_entries, Dict.get?_set, if_pos rfl]
    rfl

/-- The check of the sync comes to the call of the re-exec, and that call does not come back. -/
def Forgets (U : UpdateEnv) (n : Node) (x : Sync) (m : Json) : Prop :=
  x.reexec ≠ .returns ∧
    ∃ r c, checkAndUpdate U x.world (x.check m) ⟨n.file, []⟩ = .ok (.reexec r) c

/-- The floor and the gate of the manifest are stored. -/
def Stored (U : UpdateEnv) (file : Option Json) (m : Json) (file' : Option Json) : Prop :=
  floorOf U file' = max (floorOf U file) (publishedTs U m) ∧
    rememberedGate file' = get m "min_client_version"

/-- A sync that does not come back adopts the manifest where a checkout was called. -/
theorem adopts_lost (m : Json) (trace : List UpdateEvent) {e : SyncEnd}
    (he : e = .replaced ∨ e = .returned {}) :
    Sync.adopts m trace e = [] ∨ Sync.adopts m trace e = [m] := by
  rcases he with rfl | rfl
  · unfold Sync.adopts
    dsimp only
    split
    · exact .inr rfl
    · exact .inl rfl
  · unfold Sync.adopts
    dsimp only
    split
    · exact .inr rfl
    · exact .inl rfl

theorem adopts_returned {r : SyncResult} (hr : r.manifest = some m) (trace : List UpdateEvent) :
    Sync.adopts m trace (.returned r) = [m] := by
  rw [Sync.adopts, hr, Option.isSome_some, Bool.or_true, if_pos rfl]

/-- A sync with a manifest: it adopts nothing and keeps the floor, or adopts the manifest. -/
theorem withManifest_cases (hw : ∀ t, x.world.failedWrite t = none) (m : Json) :
    ∃ e c, x.withManifest U n.file m ⟨n.file, []⟩ = .ok e c ∧
      ((Sync.adopts m c.trace e = [] ∧ Kept U n.file c.file) ∨
        (Sync.adopts m c.trace e = [m] ∧
          (Stored U n.file m c.file ∨ (Forgets U n x m ∧ Kept U n.file c.file)))) := by
  have hspec := check_spec (U := U) (W := x.world) (x.check m) ⟨n.file, []⟩
  unfold Ends at hspec
  unfold Sync.withManifest
  -- the manifest is adopted at the end of the sync
  have hadopt : ∀ (upd : UpdateResult) (c : Client), ∃ e c',
      x.adopt U (floorOf U n.file) (x.fetch U n.file) m upd c = .ok e c' ∧
        Sync.adopts m c'.trace e = [m] ∧ Stored U n.file m c'.file := by
    intro upd c
    obtain ⟨r, c', hrun, hr, hstored⟩ :=
      adopt_run (U := U) hw (floorOf U n.file) (x.fetch U n.file) m upd c
    exact ⟨_, c', hrun, adopts_returned hr c'.trace, hstored⟩
  cases hrun : checkAndUpdate U x.world (x.check m) ⟨n.file, []⟩ with
  | error e c =>
    rw [hrun] at hspec
    obtain ⟨-, rfl⟩ := hspec
    exact ⟨_, _, PyM.bind_run_ok (PyM.attempt_error hrun), .inl ⟨rfl, rfl, rfl⟩⟩
  | ok o c =>
    rw [hrun] at hspec
    obtain ⟨-, evs, hf, -⟩ := hspec
    have hkept : Kept U n.file c.file := kept_of_follows hw hf
    rw [PyM.bind_run_ok (PyM.attempt_ok hrun)]
    cases o with
    | returned upd =>
      obtain ⟨e, c', he, hlist, hstored⟩ := hadopt upd c
      exact ⟨e, c', he, .inr ⟨hlist, .inl hstored⟩⟩
    | reexec upd =>
      -- a process that is gone, or an exception, stores nothing
      have hlost : ∀ e, x.reexec ≠ .returns → e = .replaced ∨ e = .returned {} →
          (Sync.adopts m c.trace e = [] ∧ Kept U n.file c.file) ∨
            (Sync.adopts m c.trace e = [m] ∧
              (Stored U n.file m c.file ∨ (Forgets U n x m ∧ Kept U n.file c.file))) := by
        intro e hne he
        rcases adopts_lost m c.trace he with hlist | hlist
        · exact .inl ⟨hlist, hkept⟩
        · exact .inr ⟨hlist, .inr ⟨⟨hne, upd, c, hrun⟩, hkept⟩⟩
      dsimp only
      cases hre : x.reexec with
      | replaces => exact ⟨.replaced, c, rfl, hlost .replaced (by rw [hre]; decide) (.inl rfl)⟩
      | fails => exact ⟨.returned {}, c, rfl, hlost (.returned {}) (by rw [hre]; decide) (.inr rfl)⟩
      | returns =>
        obtain ⟨e, c', he, hlist, hstored⟩ := hadopt upd c
        exact ⟨e, c', he, .inr ⟨hlist, .inl hstored⟩⟩

/-- A sync that is switched on and has a manifest. -/
theorem run_of_manifest {e : SyncEnd} {c : Client} (hon : x.enabled = true)
    (hm : (x.fetch U n.file).manifest = some m)
    (hrun : x.withManifest U n.file m ⟨n.file, []⟩ = .ok e c) :
    x.run U n = (e, ⟨c.file, n.adopted ++ Sync.adopts m c.trace e⟩) := by
  unfold Sync.run
  rw [hon, Bool.not_true, if_neg Bool.false_ne_true, hm]
  dsimp only
  rw [hrun]

/-- A sync that is switched on and has none. -/
theorem run_of_none (hon : x.enabled = true) (hm : (x.fetch U n.file).manifest = none) :
    x.run U n = (.returned
      { fetch := some (x.fetch U n.file),
        publishBlock := rememberedBlock U n.file (x.localVersion U),
        localVersion := x.localVersion U }, n) := by
  unfold Sync.run
  rw [hon, Bool.not_true, if_neg Bool.false_ne_true, hm]

theorem run_of_off (hoff : x.enabled = false) :
    x.run U n = (.returned { localVersion := x.localVersion U }, n) := by
  unfold Sync.run
  rw [hoff, Bool.not_false, if_pos rfl]

/-- **What one sync can do**: nothing is adopted and the floor stays; or the manifest it obtained is
adopted, with the floor and the gate stored, or forgotten by a re-exec. -/
theorem run_cases (hw : ∀ t, x.world.failedWrite t = none) :
    ((x.run U n).2.adopted = n.adopted ∧ Kept U n.file (x.run U n).2.file) ∨
    ∃ m, (x.fetch U n.file).manifest = some m ∧ (x.run U n).2.adopted = n.adopted ++ [m] ∧
      (Stored U n.file m (x.run U n).2.file ∨
        (Forgets U n x m ∧ Kept U n.file (x.run U n).2.file)) := by
  cases hon : x.enabled with
  | false =>
    rw [run_of_off hon]
    exact .inl ⟨rfl, rfl, rfl⟩
  | true =>
    cases hm : (x.fetch U n.file).manifest with
    | none =>
      rw [run_of_none hon hm]
      exact .inl ⟨rfl, rfl, rfl⟩
    | some m =>
      obtain ⟨e, c, hrun, hcases⟩ := withManifest_cases (U := U) (n := n) hw m
      rw [run_of_manifest hon hm hrun]
      rcases hcases with ⟨hlist, hkept⟩ | ⟨hlist, hrest⟩
      · exact .inl ⟨by rw [hlist, List.append_nil], hkept⟩
      · exact .inr ⟨m, rfl, by rw [hlist], hrest⟩

/-! ## Runs -/

/-- The state file stands at or above everything adopted, and holds the last gate. -/
structure Standing (U : UpdateEnv) (n : Node) : Prop where
  floor : ∀ m ∈ n.adopted, 0 ≤ publishedTs U m ∧ publishedTs U m ≤ floorOf U n.file
  ordered : n.adopted.Pairwise fun a b => publishedTs U a ≤ publishedTs U b
  gate : ∀ m, n.adopted.getLast? = some m →
    rememberedGate n.file = get m "min_client_version"

/-- What a sync must meet to leave its floor behind: its writes succeed; no signed manifest on the
mirrors is dated before 1970; where a re-exec does not come back, the state file holds the floor and
the gate of the manifest already; and an updater that is switched off has no gate to report. -/
structure LeavesFloor (U : UpdateEnv) (n : Node) (x : Sync) : Prop where
  writes : ∀ t, x.world.failedWrite t = none
  dated : ∀ mirror ∈ x.world.mirrors, ∀ m a, mirror.2.2 = .ok m →
    verifyManifest U x.pubkey m = .ok a → 0 ≤ publishedTs U m
  recorded : ∀ m, (x.fetch U n.file).manifest = some m → Forgets U n x m →
    publishedTs U m ≤ floorOf U n.file ∧ rememberedGate n.file = get m "min_client_version"
  enabled : x.enabled = false → ∀ m, n.adopted.getLast? = some m →
    publishBlockReason U m (x.localVersion U) = none

theorem Kept.standing {file : Option Json} (h : Kept U n.file file) (hs : Standing U n) :
    Standing U ⟨file, n.adopted⟩ :=
  ⟨fun m hm => ⟨(hs.floor m hm).1, h.floor ▸ (hs.floor m hm).2⟩, hs.ordered,
    fun m hm => h.gate.trans (hs.gate m hm)⟩

/-- Everything adopted is at most as new as the manifest a sync obtains. -/
theorem Standing.le_obtained (hs : Standing U n) (hok : LeavesFloor U n x)
    (hm : (x.fetch U n.file).manifest = some m) :
    0 ≤ publishedTs U m ∧ ∀ a ∈ n.adopted, publishedTs U a ≤ publishedTs U m := by
  obtain ⟨⟨mirror, hmem, hserved⟩, ⟨a, ha⟩, hfloor⟩ := fetchBestManifest_verified hm
  have hdated := hok.dated mirror hmem m a hserved ha
  refine ⟨hdated, fun b hb => ?_⟩
  obtain ⟨hb0, hbf⟩ := hs.floor b hb
  -- without a floor everything adopted is dated at zero
  by_cases hzero : floorOf U n.file = 0
  · omega
  · have hge := hfloor hzero
    omega

theorem Standing.push (hs : Standing U n) (hdated : 0 ≤ publishedTs U m)
    (hle : ∀ a ∈ n.adopted, publishedTs U a ≤ publishedTs U m) {file : Option Json}
    (hold : floorOf U n.file ≤ floorOf U file) (hnew : publishedTs U m ≤ floorOf U file)
    (hgate : rememberedGate file = get m "min_client_version") :
    Standing U ⟨file, n.adopted ++ [m]⟩ where
  floor a ha := by
    rcases List.mem_append.mp ha with ha | ha
    · exact ⟨(hs.floor a ha).1, (hs.floor a ha).2.trans hold⟩
    · rw [List.mem_singleton.mp ha]
      exact ⟨hdated, hnew⟩
  ordered := by
    refine List.pairwise_append.mpr ⟨hs.ordered, List.pairwise_singleton _ _, fun a ha b hb => ?_⟩
    rw [List.mem_singleton.mp hb]
    exact hle a ha
  gate b hb := by
    have hlast : (n.adopted ++ [m]).getLast? = some m := by simp
    cases hlast.symm.trans hb
    exact hgate

/-- One sync keeps the standing. -/
theorem Standing.step (hok : LeavesFloor U n x) (hs : Standing U n) :
    Standing U (x.run U n).2 := by
  rcases run_cases (U := U) (n := n) hok.writes with ⟨hsame, hkept⟩ | ⟨m, hm, hlist, hrest⟩
  · have hstanding := hkept.standing hs
    rwa [← hsame] at hstanding
  · obtain ⟨hdated, hle⟩ := hs.le_obtained hok hm
    have hpush : ∀ file, floorOf U n.file ≤ floorOf U file → publishedTs U m ≤ floorOf U file →
        rememberedGate file = get m "min_client_version" →
        Standing U ⟨file, n.adopted ++ [m]⟩ := fun file h h' h'' => hs.push hdated hle h h' h''
    have hnode : (x.run U n).2 = ⟨(x.run U n).2.file, n.adopted ++ [m]⟩ := by rw [← hlist]
    rw [hnode]
    rcases hrest with ⟨hfloor, hgate⟩ | ⟨hforget, hkept⟩
    · refine hpush _ ?_ ?_ hgate
      · rw [hfloor]
        exact le_max_left _ _
      · rw [hfloor]
        exact le_max_right _ _
    · obtain ⟨hts, hgate⟩ := hok.recorded m hm hforget
      refine hpush _ hkept.floor.ge ?_ (hkept.gate.trans hgate)
      rw [hkept.floor]
      exact hts

/-- The sync asked for a manifest, or did not, and has none. -/
def ObtainsNone (U : UpdateEnv) (n : Node) (x : Sync) : Prop :=
  x.enabled = false ∨ (x.fetch U n.file).manifest = none

/-- The publish block a sync reports. -/
def reported : SyncEnd → Option String
  | .returned r => r.publishBlock
  | .replaced => none

/-- A sync without a manifest reports the publish block of the last one adopted. -/
def ReportsLast (U : UpdateEnv) (n : Node) (x : Sync) : Prop :=
  ObtainsNone U n x → ∀ m, n.adopted.getLast? = some m →
    reported (x.run U n).1 = publishBlockReason U m (x.localVersion U)

/-- A stored gate blocks as the manifest did. -/
theorem rememberedBlock_eq {file : Option Json} (hm : m.isObj = true)
    (h : rememberedGate file = get m "min_client_version") (localVersion : Option String) :
    rememberedBlock U file localVersion = publishBlockReason U m localVersion := by
  have hget : get (.obj [("min_client_version", rememberedGate file)]) "min_client_version"
      = get m "min_client_version" := by
    rw [← h]
    rfl
  exact publishBlockReason_congr rfl hm ⟨congrArg Json.notNone hget,
    fun _ => congrArg (Json.toStr U.toPyText) hget⟩ localVersion

theorem reportsLast_of_standing (hok : LeavesFloor U n x) (hs : Standing U n)
    (hobj : ∀ m ∈ n.adopted, m.isObj = true) : ReportsLast U n x := by
  intro hnone m hlast
  cases hon : x.enabled with
  | false =>
    rw [run_of_off hon]
    exact (hok.enabled hon m hlast).symm
  | true =>
    rcases hnone with hoff | hm
    · exact absurd (hoff.symm.trans hon) Bool.false_ne_true
    · rw [run_of_none hon hm]
      exact rememberedBlock_eq (hobj m (List.mem_of_getLast? hlast)) (hs.gate m hlast) _

/-- Adopted manifests are dicts. -/
theorem adopted_isObj (hw : ∀ t, x.world.failedWrite t = none)
    (hobj : ∀ m ∈ n.adopted, m.isObj = true) : ∀ m ∈ (x.run U n).2.adopted, m.isObj = true := by
  rcases run_cases (U := U) (n := n) hw with ⟨hsame, -⟩ | ⟨m, hm, hlist, -⟩
  · rw [hsame]
    exact hobj
  · rw [hlist]
    intro b hb
    rcases List.mem_append.mp hb with hb | hb
    · exact hobj b hb
    · obtain ⟨-, ⟨a, ha⟩, -⟩ := fetchBestManifest_verified hm
      rw [List.mem_singleton.mp hb]
      exact (verifyManifest_ok ha).1.isObj

/-- The syncs of a client, one after the other. -/
def syncStep (U : UpdateEnv) (n : Node) (x : Sync) : SyncEnd × Node := x.run U n

/-- **A superseded manifest is never adopted again**, in a run whose syncs all leave their floor
behind: the dates of the adopted manifests never decrease, and a sync that has no manifest reports
the gate of the last one. -/
theorem syncs_never_roll_back (U : UpdateEnv) (file : Option Json) (syncs : List Sync)
    (hok : ∀ e ∈ history (syncStep U) ⟨file, []⟩ syncs, LeavesFloor U e.before e.input) :
    ((final (syncStep U) ⟨file, []⟩ syncs).adopted.Pairwise
      fun a b => publishedTs U a ≤ publishedTs U b) ∧
    ∀ e ∈ history (syncStep U) ⟨file, []⟩ syncs, ReportsLast U e.before e.input := by
  have hstart : Standing U ⟨file, []⟩ ∧ ∀ m ∈ (⟨file, []⟩ : Node).adopted, m.isObj = true :=
    ⟨⟨nofun, List.Pairwise.nil, nofun⟩, nofun⟩
  have hrun := @admissible_run _ _ _ (syncStep U)
    (fun n => Standing U n ∧ ∀ m ∈ n.adopted, m.isObj = true) (LeavesFloor U)
    (fun n x h hp => ⟨hp.1.step h, adopted_isObj h.writes hp.2⟩)
    (fun e => ReportsLast U e.before e.input)
    (fun n x h hp => reportsLast_of_standing h hp.1 hp.2) _ hstart _ hok
  exact ⟨hrun.1.1.ordered, hrun.2⟩

/-! ## A run that meets the condition, and one that does not -/

/-- A world that serves these manifests and whose `git` does what it is told. -/
def servingWorld (versionFile : String) (served : List Json) : World where
  versionFile := some versionFile
  mirrors := served.map fun m => ("github-raw", "https://raw.githubusercontent.com/release.json", .ok m)
  git _ args := .ok (.arr [.int 0, .str (if args.head? = some "rev-parse" then "4b03c06\n" else "")])
  pip _ := .ok (.arr [.int 0, .str ""])
  requirements _ := none
  failedWrite _ := none
  ledger _ _ := none
  traceback := errName

/-- A startup sync of a client at a version. -/
def startupSync (versionFile : String) (served : List Json) (reexec : ReexecCall) : Sync :=
  ⟨servingWorld versionFile served, pinnedReleasePubkey, true, true, 21600, 1754700000, ∅, reexec⟩

/-- A release of August 2025. -/
def newRelease : Json := release "3.8.0" 1754611200 .null

/-- A release of November 2023. -/
def oldRelease : Json := release "3.6.0" 1700000000 .null

theorem verify_newRelease :
    verifyManifest sample pinnedReleasePubkey newRelease = .ok pinnedReleasePubkey :=
  verifyManifest_release parseVersion_sample rfl (.inl rfl)

theorem verify_oldRelease :
    verifyManifest sample pinnedReleasePubkey oldRelease = .ok pinnedReleasePubkey :=
  verifyManifest_release (by decide +kernel) rfl (.inl rfl)

/-- A sync whose re-exec call comes back leaves its floor behind. -/
theorem leavesFloor_startup {versionFile : String} {served : List Json} {n : Node}
    (hdated : ∀ m ∈ served, 0 ≤ publishedTs sample m) :
    LeavesFloor sample n (startupSync versionFile served .returns) where
  writes _ := rfl
  dated mirror hmem m a hserved _ := by
    obtain ⟨m', hm', rfl⟩ := List.mem_map.mp hmem
    cases hserved
    exact hdated m hm'
  recorded m _ hforget := absurd rfl hforget.1
  enabled hoff := nomatch hoff

/-- A release is adopted, then the mirrors withhold everything. -/
theorem syncs_never_roll_back_withheld :
    ((final (syncStep sample) ⟨none, []⟩
        [startupSync "3.7.0" [newRelease] .returns, startupSync "3.8.0" [] .returns]).adopted.Pairwise
      fun a b => publishedTs sample a ≤ publishedTs sample b) ∧
    ∀ e ∈ history (syncStep sample) ⟨none, []⟩
        [startupSync "3.7.0" [newRelease] .returns, startupSync "3.8.0" [] .returns],
      ReportsLast sample e.before e.input := by
  refine syncs_never_roll_back sample none _ fun e he => ?_
  have hinputs := List.mem_map_of_mem (f := Event.input) he
  rw [map_input_history] at hinputs
  rcases List.mem_cons.mp hinputs with hx | hinputs
  · rw [hx]
    refine leavesFloor_startup fun m hm => ?_
    rw [List.mem_singleton.mp hm, newRelease, publishedTs_release]
    decide
  · rw [List.mem_singleton.mp hinputs]
    exact leavesFloor_startup nofun

/-- The only manifest of the only mirror is obtained. -/
theorem fetch_single {versionFile : String} {m : Json} {reexec : ReexecCall} {file : Option Json}
    {a : String} (hm : verifyManifest sample pinnedReleasePubkey m = .ok a)
    (hfloor : floorOf sample file = 0) :
    ((startupSync versionFile [m] reexec).fetch sample file).manifest = some m := by
  unfold Sync.fetch fetchBestManifest
  rw [hfloor]
  show (consider sample pinnedReleasePubkey 0 ⟨none, none, [], false⟩
    ("github-raw", "https://raw.githubusercontent.com/release.json", .ok m)).manifest = some m
  unfold consider
  dsimp only
  rw [hm]
  rfl

/-- A sync whose check does not raise adopts the manifest it obtained. -/
theorem run_adopts (hw : ∀ t, x.world.failedWrite t = none) (hon : x.enabled = true)
    (hm : (x.fetch U n.file).manifest = some m)
    (hfinite : ¬ StampedInfinite U x.world (x.check m) n.file) :
    (x.run U n).2.adopted = n.adopted ++ [m] := by
  have hspec := check_spec (U := U) (W := x.world) (x.check m) ⟨n.file, []⟩
  unfold Ends at hspec
  obtain ⟨e, c, hrun, -⟩ := withManifest_cases (U := U) (n := n) hw m
  rw [run_of_manifest hon hm hrun]
  show n.adopted ++ Sync.adopts m c.trace e = n.adopted ++ [m]
  congr 1
  unfold Sync.withManifest at hrun
  cases hcheck : checkAndUpdate U x.world (x.check m) ⟨n.file, []⟩ with
  | error err c' =>
    rw [hcheck] at hspec
    exact absurd hspec.1 hfinite
  | ok o c' =>
    rw [hcheck] at hspec
    rw [PyM.bind_run_ok (PyM.attempt_ok hcheck)] at hrun
    have hadopt : ∀ upd, x.adopt U (floorOf U n.file) (x.fetch U n.file) m upd c' = .ok e c →
        Sync.adopts m c.trace e = [m] := by
      intro upd h
      obtain ⟨r, c'', hr, hsome, -⟩ :=
        adopt_run (U := U) hw (floorOf U n.file) (x.fetch U n.file) m upd c'
      cases hr.symm.trans h
      exact adopts_returned hsome _
    cases o with
    | returned upd => exact hadopt upd hrun
    | reexec upd =>
      obtain ⟨-, evs, hf, pre, commit, r, reply, post, rfl, -⟩ := hspec
      have hcode : Sync.usedCode c'.trace = true := by
        rw [hf.trace, List.nil_append]
        refine List.any_eq_true.mpr ⟨.git ["checkout", "--quiet", commit] r, ?_, rfl⟩
        exact List.mem_append_right _ (List.mem_cons_self ..)
      have hlost : ∀ e, e = .replaced ∨ e = .returned {} → Sync.adopts m c'.trace e = [m] := by
        rintro e (rfl | rfl)
        · rw [Sync.adopts, hcode, if_pos rfl]
        · rw [Sync.adopts, hcode, Bool.true_or, if_pos rfl]
      dsimp only at hrun
      cases hre : x.reexec with
      | replaces =>
        rw [hre] at hrun
        cases hrun
        exact hlost _ (.inl rfl)
      | fails =>
        rw [hre] at hrun
        cases hrun
        exact hlost _ (.inr rfl)
      | returns =>
        rw [hre] at hrun
        exact hadopt upd hrun

/-- A supplied forward release is applied at once. -/
theorem checkAndUpdate_forward {W : World} {c : Check} {localVersion a : String} {s : Client}
    (hlocal : readLocalVersion U W = .ok localVersion) (hon : c.enabled = true)
    (hhonor : c.honorRateLimit = false) (hm : verifyManifest U c.pubkey c.manifest = .ok a)
    (hforward : U.isForward (targetVersion U c.manifest) localVersion = .ok true) :
    checkAndUpdate U W c s = (saveState W [("last_check", .float (.fin c.now))] >>= fun _ =>
      applyRelease U W c.now ⟨localVersion, targetVersion U c.manifest, commitOf U c.manifest,
        c.manifest, none⟩) s := by
  have hsome : c.manifest.notNone = true := by
    have hobj := (verifyManifest_ok hm).1.isObj
    cases hc : c.manifest with
    | obj kvs => rfl
    | _ =>
      rw [hc] at hobj
      cases hobj
  have hproceed : proceed U W c.now localVersion c.manifest none = applyRelease U W c.now
      ⟨localVersion, targetVersion U c.manifest, commitOf U c.manifest, c.manifest, none⟩ := by
    unfold proceed
    rw [item_of_verified hm (by decide), item_of_verified hm (by decide)]
    have hforward' : U.isForward ((Manifest.get c.manifest "version").toStr U.toPyText) localVersion
        = .ok true := hforward
    funext s
    rw [PyM.bind_run_ok (PyM.ofExcept_ok _ s), PyM.bind_run_ok (PyM.ofExcept_ok _ s)]
    dsimp only
    rw [hforward']
    rfl
  have hfind : findManifest U W c localVersion = proceed U W c.now localVersion c.manifest none := by
    unfold findManifest
    rw [hsome, Bool.not_true, if_neg Bool.false_ne_true, hm]
  have hlimit : ∀ last, rateLimit U c last = .ok none := by
    intro last
    unfold rateLimit
    rw [hhonor]
    rfl
  unfold checkAndUpdate
  rw [hlocal]
  dsimp only
  rw [hon, Bool.not_true, if_neg Bool.false_ne_true]
  unfold limitedCheck
  rw [hlimit, ← hproceed, ← hfind]
  rfl

/-- A check ends at the re-exec, and the state file states no floor. -/
def reexecsUnstamped : EStateM.Result PyErr Client Outcome → Bool
  | .ok (.reexec _) c => decide (floorOf sample c.file = 0)
  | _ => false

theorem of_reexecsUnstamped {r : EStateM.Result PyErr Client Outcome}
    (h : reexecsUnstamped r = true) : ∃ upd c, r = .ok (.reexec upd) c ∧ floorOf sample c.file = 0 := by
  unfold reexecsUnstamped at h
  split at h
  · next upd c => exact ⟨upd, c, rfl, of_decide_eq_true h⟩
  · cases h

/-- A client that re-execs onto a release forgets it, and adopts an older one. -/
theorem replay_after_reexec : ¬ ∀ (file : Option Json) (syncs : List Sync),
    ((final (syncStep sample) ⟨file, []⟩ syncs).adopted.Pairwise
      fun a b => publishedTs sample a ≤ publishedTs sample b) ∧
    ∀ e ∈ history (syncStep sample) ⟨file, []⟩ syncs, ReportsLast sample e.before e.input := by
  intro hclaim
  set x := startupSync "3.7.0" [newRelease] .replaces with hx
  set y := startupSync "3.8.0" [oldRelease] .returns with hy
  have hfetch : (x.fetch sample none).manifest = some newRelease :=
    fetch_single verify_newRelease (by decide +kernel)
  have hstartup : ∀ (v : String) (served : List Json) (r : ReexecCall) (m : Json) (f : Option Json),
      ¬ StampedInfinite sample (startupSync v served r).world ((startupSync v served r).check m) f :=
    fun v served r m f h => nomatch h.2.2.1
  have hfirst : (x.run sample ⟨none, []⟩).2.adopted = [newRelease] :=
    run_adopts (fun _ => rfl) rfl hfetch (hstartup _ _ _ _ _)
  -- the first sync ends at the re-exec, so it stores no floor
  have hreexec : ∃ r c, checkAndUpdate sample x.world (x.check newRelease) ⟨none, []⟩
      = .ok (.reexec r) c ∧ floorOf sample c.file = 0 := by
    have htarget : targetVersion sample newRelease = "3.8.0" := targetVersion_release
    have hcommit : commitOf sample newRelease = "4b03c06" := commitOf_release
    have hrun : checkAndUpdate sample x.world (x.check newRelease) ⟨none, []⟩
        = (saveState x.world [("last_check", .float (.fin 1754700000))] >>= fun _ =>
            applyRelease sample x.world 1754700000
              ⟨"3.7.0", "3.8.0", "4b03c06", newRelease, none⟩) ⟨none, []⟩ := by
      rw [← htarget, ← hcommit]
      refine checkAndUpdate_forward (by decide +kernel) rfl rfl verify_newRelease ?_
      show sample.isForward (targetVersion sample newRelease) "3.7.0" = .ok true
      rw [htarget]
      decide +kernel
    have hends : reexecsUnstamped ((saveState x.world [("last_check", .float (.fin 1754700000))]
          >>= fun _ => applyRelease sample x.world 1754700000
            ⟨"3.7.0", "3.8.0", "4b03c06", newRelease, none⟩) ⟨none, []⟩) = true := by decide +kernel
    rw [← hrun] at hends
    exact of_reexecsUnstamped hends
  obtain ⟨r, c, hcheck, hfloor⟩ := hreexec
  have hlost : x.withManifest sample none newRelease ⟨none, []⟩ = .ok .replaced c := by
    unfold Sync.withManifest
    rw [PyM.bind_run_ok (PyM.attempt_ok hcheck)]
    rfl
  have hafter : floorOf sample (x.run sample ⟨none, []⟩).2.file = 0 := by
    rw [run_of_manifest (n := ⟨none, []⟩) rfl hfetch hlost]
    exact hfloor
  have hsecond : (y.run sample (x.run sample ⟨none, []⟩).2).2.adopted
      = [newRelease, oldRelease] := by
    rw [run_adopts (fun _ => rfl) rfl (fetch_single verify_oldRelease hafter)
      (hstartup _ _ _ _ _), hfirst, List.singleton_append]
  have hordered := (hclaim none [x, y]).1
  rw [final_cons, final_cons, final_nil, syncStep, syncStep, hsecond,
    List.pairwise_pair] at hordered
  have hnew : publishedTs sample newRelease = 1754611200 := publishedTs_release
  have hold : publishedTs sample oldRelease = 1700000000 := publishedTs_release
  rw [hnew, hold] at hordered
  omega

end SelfUpdate

end NeuraHash
