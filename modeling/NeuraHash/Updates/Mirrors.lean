import NeuraHash.Systems.FirstMax
import NeuraHash.Updates.Release

/-!
# The best manifest of the mirrors (`fetch_best_manifest`)

`fetch_best_manifest` asks every mirror and keeps, of the manifests that verify and are not below
the replay floor, the first one of the highest version. A floor of 0 is no floor.

`fetch_best_wins` says when a manifest is found, that its version is the highest, and when the order
of the mirrors shows: exactly when two accepted manifests of the highest version have different
signed bytes.
-/

namespace NeuraHash

open Py

namespace SelfUpdate

open UpdateEnv Manifest

section Mirrors

variable (U : UpdateEnv) (pubkey : String) (floor : ℤ)

/-- The manifest verifies and is not older than the floor. -/
def Accepts (m : Json) : Prop :=
  (verifyManifest U pubkey m).isOk = true ∧ (floor = 0 ∨ floor ≤ publishedTs U m)

instance (m : Json) : Decidable (Accepts U pubkey floor m) := by
  unfold Accepts
  infer_instance

/-- The manifest a mirror contributes. -/
def accepted (mirror : String × String × Reply) : Option Json :=
  match mirror.2.2 with
  | .ok m => if Accepts U pubkey floor m then some m else none
  | .error _ => none

/-- The version of a manifest as it is compared. -/
def versionOf (m : Json) : List ℤ := (U.parseVersion (targetVersion U m)).toOption.getD []

/-- A mirror serves the manifest, and it is accepted. -/
def Served (W : World) (m : Json) : Prop :=
  ∃ mirror ∈ W.mirrors, mirror.2.2 = .ok m ∧ Accepts U pubkey floor m

end Mirrors

variable {U : UpdateEnv} {W : World} {pubkey : String} {floor : ℤ}

theorem accepted_eq_some {mirror : String × String × Reply} {m : Json} :
    accepted U pubkey floor mirror = some m ↔
      mirror.2.2 = .ok m ∧ Accepts U pubkey floor m := by
  unfold accepted
  cases mirror.2.2 with
  | error e => simp
  | ok m' =>
    dsimp only
    constructor
    · intro h
      split at h
      · next hacc =>
        cases h
        exact ⟨rfl, hacc⟩
      · cases h
    · rintro ⟨heq, hacc⟩
      cases heq
      rw [if_pos hacc]

theorem served_iff {m : Json} :
    Served U pubkey floor W m ↔ m ∈ W.mirrors.filterMap (accepted U pubkey floor) := by
  simp only [Served, List.mem_filterMap, accepted_eq_some]

/-- The version of a verified manifest parses. -/
theorem parseVersion_of_accepts {m : Json} (h : Accepts U pubkey floor m) :
    U.parseVersion (targetVersion U m) = .ok (versionOf U m) := by
  cases hverify : verifyManifest U pubkey m with
  | error r =>
    have hok := h.1
    rw [hverify] at hok
    cases hok
  | ok a =>
    have hversion := (verifyManifest_ok hverify).1.version
    unfold versionOf targetVersion
    cases hparse : U.parseVersion ((get m "version").toStr U.toPyText) with
    | error e =>
      rw [hparse] at hversion
      cases hversion
    | ok v => rfl

/-- Between two accepted manifests the comparison never raises. -/
theorem better_eq {m : Json} {best : Option Json} (hm : Accepts U pubkey floor m)
    (hbest : ∀ b, best = some b → Accepts U pubkey floor b) :
    better U best m
      = .ok (best.elim true fun b => decide (versionOf U b < versionOf U m)) := by
  cases best with
  | none => rfl
  | some b =>
    show U.isForward (targetVersion U m) (targetVersion U b) = _
    unfold isForward
    rw [parseVersion_of_accepts hm, parseVersion_of_accepts (hbest b rfl)]
    rfl

/-- **One mirror.** -/
theorem consider_best {f : ManifestFetch} {mirror : String × String × Reply}
    (hbest : ∀ b, f.manifest = some b → Accepts U pubkey floor b) :
    (consider U pubkey floor f mirror).manifest
      = match accepted U pubkey floor mirror with
        | none => f.manifest
        | some m => if f.manifest.elim true fun b => decide (versionOf U b < versionOf U m)
          then some m else f.manifest := by
  unfold consider accepted
  cases hreply : mirror.2.2 with
  | error e => rfl
  | ok m =>
    dsimp only
    cases hverify : verifyManifest U pubkey m with
    | error r =>
      have hrefused : ¬ Accepts U pubkey floor m := by
        intro h
        have hok := h.1
        rw [hverify] at hok
        cases hok
      rw [if_neg hrefused]
      rfl
    | ok a =>
      dsimp only
      unfold considerVerified
      by_cases hfloor : floor ≠ 0 ∧ publishedTs U m < floor
      · have hrefused : ¬ Accepts U pubkey floor m := by
          intro h
          have hor := h.2
          omega
        rw [if_pos hfloor, if_neg hrefused]
        rfl
      · have hacc : Accepts U pubkey floor m := by
          refine ⟨by rw [hverify]; rfl, ?_⟩
          omega
        rw [if_neg hfloor, if_pos hacc, better_eq hacc hbest]
        dsimp only
        split
        · rfl
        · rfl

/-- A mirror is noted whatever it answers. -/
theorem consider_tried (f : ManifestFetch) (mirror : String × String × Reply) :
    (consider U pubkey floor f mirror).tried.map (fun t => (t.1, t.2.1))
      = f.tried.map (fun t => (t.1, t.2.1)) ++ [(mirror.1, mirror.2.1)] := by
  unfold consider
  split
  · simp [ManifestFetch.note]
  · split
    · simp [ManifestFetch.note]
    · unfold considerVerified
      split
      · simp [ManifestFetch.note]
      · split
        · simp [ManifestFetch.note]
        · dsimp only
          split <;> simp [ManifestFetch.note]

/-- **The scan finds the first highest version.** -/
theorem fetchBest_eq_firstMax :
    (fetchBestManifest U W pubkey floor).manifest
      = FirstMax.firstMax (versionOf U) (W.mirrors.filterMap (accepted U pubkey floor)) := by
  unfold fetchBestManifest
  induction W.mirrors using List.reverseRecOn with
  | nil => rfl
  | append_singleton mirrors mirror ih =>
    rw [List.foldl_append, List.foldl_cons, List.foldl_nil, List.filterMap_append]
    have hbest : ∀ b, (mirrors.foldl (consider U pubkey floor) ⟨none, none, [], false⟩).manifest
        = some b → Accepts U pubkey floor b := by
      intro b hb
      rw [ih] at hb
      obtain ⟨d, -, hd⟩ := List.mem_filterMap.mp (FirstMax.isMax_of_firstMax hb).1
      exact (accepted_eq_some.mp hd).2
    rw [consider_best hbest, ih]
    cases hacc : accepted U pubkey floor mirror with
    | none => simp [hacc]
    | some m =>
      simp only [List.filterMap_cons_some hacc, List.filterMap_nil, FirstMax.firstMax_concat]
      cases FirstMax.firstMax (versionOf U) (mirrors.filterMap (accepted U pubkey floor)) with
      | none => rfl
      | some b => simp

theorem fetchBest_tried :
    (fetchBestManifest U W pubkey floor).tried.map (fun t => (t.1, t.2.1))
      = W.mirrors.map fun mirror => (mirror.1, mirror.2.1) := by
  unfold fetchBestManifest
  induction W.mirrors using List.reverseRecOn with
  | nil => rfl
  | append_singleton mirrors mirror ih =>
    rw [List.foldl_append, List.foldl_cons, List.foldl_nil, consider_tried, ih, List.map_append]
    rfl

/-- A served manifest no other one exceeds in its version. -/
def Highest (U : UpdateEnv) (pubkey : String) (floor : ℤ) (W : World) (m : Json) : Prop :=
  Served U pubkey floor W m ∧ ∀ m', Served U pubkey floor W m' → versionOf U m' ≤ versionOf U m

theorem highest_iff {m : Json} : Highest U pubkey floor W m ↔
    FirstMax.IsMax (versionOf U) (W.mirrors.filterMap (accepted U pubkey floor)) m := by
  unfold Highest FirstMax.IsMax
  simp only [served_iff]

/-- **The best manifest of the mirrors.** Every mirror is asked and noted; a manifest is found iff
one is served that is accepted; its version is the highest one and the same for every order of the
mirrors; its signed bytes are the same for every order iff the accepted manifests of the highest
version agree on them. -/
theorem fetch_best_wins (U : UpdateEnv) (W : World) (pubkey : String) (floor : ℤ) :
    (fetchBestManifest U W pubkey floor).tried.map (fun t => (t.1, t.2.1))
        = W.mirrors.map (fun mirror => (mirror.1, mirror.2.1))
      ∧ ((fetchBestManifest U W pubkey floor).manifest.isSome = true ↔
          ∃ m, Served U pubkey floor W m)
      ∧ (∀ m, (fetchBestManifest U W pubkey floor).manifest = some m →
          Highest U pubkey floor W m
          ∧ U.parseVersion (targetVersion U m) = .ok (versionOf U m)
          ∧ ∀ m', Served U pubkey floor W m' →
              U.parseVersion (targetVersion U m') = .ok (versionOf U m'))
      ∧ (∀ W' : World, W'.mirrors.Perm W.mirrors →
          (fetchBestManifest U W' pubkey floor).manifest.map (versionOf U)
            = (fetchBestManifest U W pubkey floor).manifest.map (versionOf U))
      ∧ ((∀ W' : World, W'.mirrors.Perm W.mirrors →
            (fetchBestManifest U W' pubkey floor).manifest.map (canonicalManifestBytes U)
              = (fetchBestManifest U W pubkey floor).manifest.map (canonicalManifestBytes U))
          ↔ ∀ m m', Highest U pubkey floor W m → Highest U pubkey floor W m' →
              canonicalManifestBytes U m = canonicalManifestBytes U m') := by
  simp only [fetchBest_eq_firstMax, highest_iff]
  refine ⟨fetchBest_tried, ?_, fun m hm => ⟨FirstMax.isMax_of_firstMax hm, ?_, ?_⟩, ?_, ?_⟩
  · rw [FirstMax.firstMax_isSome_iff]
    exact exists_congr fun m => served_iff.symm
  · obtain ⟨mirror, -, -, hacc⟩ := served_iff.mpr (FirstMax.isMax_of_firstMax hm).1
    exact parseVersion_of_accepts hacc
  · rintro m' ⟨mirror, -, -, hacc⟩
    exact parseVersion_of_accepts hacc
  · intro W' hperm
    exact FirstMax.firstMax_key_perm (hperm.filterMap _)
  · rw [← FirstMax.firstMax_map_perm_iff]
    constructor
    · intro h mirrors hperm
      exact h { W with mirrors := mirrors } hperm
    · intro h W' hperm
      exact h W'.mirrors hperm

/-! ## Two releases of one version -/

/-- Two mirrors serve two signed releases of one version; the first one wins. -/
def twoReleases : World :=
  { deadWorld with
    mirrors := [("a", "https://a", .ok (release "3.8.0" 1754611200 .null)),
      ("b", "https://b", .ok (release "3.8.0" 1754697600 .null))] }

/-- The order of two mirrors shows in the signed bytes, and without a floor a manifest dated before
the epoch is found. -/
theorem mirror_order_shows :
    (¬ ∀ W' : World, W'.mirrors.Perm twoReleases.mirrors →
        (fetchBestManifest sample W' pinnedReleasePubkey 0).manifest.map
            (canonicalManifestBytes sample)
          = (fetchBestManifest sample twoReleases pinnedReleasePubkey 0).manifest.map
            (canonicalManifestBytes sample))
      ∧ (fetchBestManifest sample
            { deadWorld with mirrors := [("a", "https://a", .ok (release "3.8.0" (-1) .null))] }
            pinnedReleasePubkey 0).manifest = some (release "3.8.0" (-1) .null)
      ∧ publishedTs sample (release "3.8.0" (-1) .null) < 0 := by
  have hacc : ∀ ts, Accepts sample pinnedReleasePubkey 0 (release "3.8.0" ts .null) := fun ts =>
    ⟨by rw [verifyManifest_release parseVersion_sample rfl (.inl rfl)]; rfl, .inl rfl⟩
  have hpick : ∀ name url ts, accepted sample pinnedReleasePubkey 0
      (name, url, .ok (release "3.8.0" ts .null)) = some (release "3.8.0" ts .null) :=
    fun name url ts => accepted_eq_some.mpr ⟨rfl, hacc ts⟩
  have hversion : ∀ ts, versionOf sample (release "3.8.0" ts .null)
      = (sample.parseVersion "3.8.0").toOption.getD [] := fun ts => by
    rw [versionOf, targetVersion_release]
  refine ⟨fun hclaim => ?_, ?_, ?_⟩
  · have hswap := hclaim { deadWorld with mirrors := twoReleases.mirrors.reverse }
      (List.reverse_perm _)
    simp only [fetchBest_eq_firstMax, twoReleases, List.reverse_cons, List.reverse_nil,
      List.nil_append, List.cons_append, List.filterMap_cons_some (hpick _ _ _),
      List.filterMap_nil] at hswap
    rw [FirstMax.firstMax_cons_of_isMax ⟨List.mem_cons_self, by simp [hversion]⟩,
      FirstMax.firstMax_cons_of_isMax ⟨List.mem_cons_self, by simp [hversion]⟩] at hswap
    have hbytes : ∀ ts, canonicalManifestBytes sample (release "3.8.0" ts .null)
        = .ok (plainBytes "3.8.0" ts) := fun ts => canonical_withGate rfl _
    have heq : canonicalManifestBytes sample (release "3.8.0" 1754697600 .null)
        = canonicalManifestBytes sample (release "3.8.0" 1754611200 .null) :=
      Option.some.inj hswap
    -- equal signed bytes carry one date
    obtain ⟨ts, hts, hts'⟩ := (signed_agree (heq.trans (hbytes _)) (hbytes _)).published
    have hdate := publishedTs_of_toInt hts
    rw [publishedTs_release] at hdate
    have hdate' := publishedTs_of_toInt hts'
    rw [publishedTs_release] at hdate'
    omega
  · rw [fetchBest_eq_firstMax]
    simp only [List.filterMap_cons_some (hpick _ _ _), List.filterMap_nil, FirstMax.firstMax_singleton]
  · rw [publishedTs_release]
    decide

end SelfUpdate

end NeuraHash
