import NeuraHash.Merge.Contributions
import NeuraHash.Systems.Preferred

/-!
# The replicated registry (`neurahash/diloco_merge.py`)

Several stores are polled and their records merged by `_dedup_prefer_signed`, which is the choice of
`Preferred.preferred`: one record for each cid, the first signed one where there is one
(`dedup_eq_preferred`). So records that were merged before are merged to the same
(`merge_order_robust`).

A cid that is a list or an object is no key of a dict, and a manifest that is no object has no
items: `poll_isolates_iff` says when a poll of one store returns.
-/

namespace NeuraHash

open Py

/-- `merge_contrib_records(*record_lists)`. -/
def mergeContribRecords (recordLists : List (List ContribRecord)) :
    Except PyErr (List ContribRecord) :=
  dedupPreferSigned recordLists.flatten

/-- `registry_posture()`. -/
inductive RegistryPosture where
  | off | audit | enforce
  deriving DecidableEq

/-- `poll_contrib_records`; `primary` and `replicas` are the stores of `registry_store_urls`. -/
def pollContribRecords (P : Platform) (posture : RegistryPosture) (requireSig : Bool)
    (primary : ContribStore) (replicas : List ContribStore) :
    Except PyErr (List ContribRecord) := do
  let primaryRecs ← pollOneStore P primary requireSig
  if replicas.isEmpty || posture == .off then return primaryRecs
  let replicaRecs ← replicas.mapM fun get => pollOneStore P get requireSig
  let merged ← mergeContribRecords (primaryRecs :: replicaRecs)
  if posture == .audit then return primaryRecs
  return merged

/-! ## Cids as keys -/

/-- A scalar as a key of a dict: numbers by value. -/
inductive CidKey where
  | null
  | text (s : String)
  | num (x : PyFloat)
  deriving DecidableEq

/-- A NaN is equal to no key. -/
def numKey : PyFloat → Option CidKey
  | .nan => none
  | x => some (.num x)

/-- The key of a cid; a list or an object has none. -/
def cidKey : Json → Option CidKey
  | .null => some .null
  | .str s => some (.text s)
  | .bool b => numKey (.fin (if b then 1 else 0))
  | .int n => numKey (.fin n)
  | .float x => numKey x
  | .arr _ | .obj _ => none

/-- Two records have one cid. -/
def sameCid (r r' : ContribRecord) : Bool :=
  match cidKey (r.field "delta_cid"), cidKey (r'.field "delta_cid") with
  | some k, some k' => k == k'
  | _, _ => false

theorem sameCid_iff {r r' : ContribRecord} : sameCid r r' = true ↔
    ∃ k, cidKey (r.field "delta_cid") = some k ∧ cidKey (r'.field "delta_cid") = some k := by
  unfold sameCid
  cases cidKey (r.field "delta_cid") with
  | none => simp
  | some k =>
    cases cidKey (r'.field "delta_cid") with
    | none => simp
    | some k' =>
      simp only [Option.some.injEq, exists_eq_left', beq_iff_eq]
      exact eq_comm

theorem partialEquiv_sameCid : Preferred.PartialEquiv sameCid where
  symm h := by
    obtain ⟨k, ha, hb⟩ := sameCid_iff.mp h
    exact sameCid_iff.mpr ⟨k, hb, ha⟩
  trans h h' := by
    obtain ⟨k, ha, hb⟩ := sameCid_iff.mp h
    obtain ⟨k', hb', hc⟩ := sameCid_iff.mp h'
    rw [hb] at hb'
    exact sameCid_iff.mpr ⟨k, ha, hb' ▸ hc⟩

theorem numKey_eq_some {x : PyFloat} {k : CidKey} :
    numKey x = some k ↔ x ≠ .nan ∧ k = .num x := by
  cases x <;> simp [numKey, eq_comm]

theorem eq_iff_numKey (x y : PyFloat) :
    PyFloat.eq x y = true ↔ ∃ k, numKey x = some k ∧ numKey y = some k := by
  have heq : PyFloat.eq x y = true ↔ x ≠ .nan ∧ x = y := by
    cases x <;> simp [PyFloat.eq]
  rw [heq]
  constructor
  · rintro ⟨hx, rfl⟩
    exact ⟨.num x, numKey_eq_some.mpr ⟨hx, rfl⟩, numKey_eq_some.mpr ⟨hx, rfl⟩⟩
  · rintro ⟨k, hx, hy⟩
    obtain ⟨hnan, rfl⟩ := numKey_eq_some.mp hx
    exact ⟨hnan, CidKey.num.inj (numKey_eq_some.mp hy).2⟩

/-- A scalar is null, a text or a number. -/
theorem scalar_cases {j : Json} (h : j.isContainer = false) :
    j = .null ∨ (∃ s, j = .str s) ∨ ∃ x, j.number? = some x := by
  cases j with
  | null => exact .inl rfl
  | str s => exact .inr (.inl ⟨s, rfl⟩)
  | arr xs => cases h
  | obj kvs => cases h
  | _ => exact .inr (.inr ⟨_, rfl⟩)

/-- A number is compared, and a key, by its value. -/
theorem number_key {j : Json} {x : PyFloat} (h : j.number? = some x) :
    cidKey j = numKey x ∧ (j.pyEq .null = false ∧ Json.null.pyEq j = false) ∧
    (∀ s, j.pyEq (.str s) = false ∧ (Json.str s).pyEq j = false) ∧
    ∀ b y, b.number? = some y → j.pyEq b = PyFloat.eq x y := by
  cases j with
  | null => cases h
  | str s => cases h
  | arr xs => cases h
  | obj kvs => cases h
  | _ =>
    cases h
    refine ⟨rfl, ⟨rfl, rfl⟩, fun s => ⟨rfl, rfl⟩, fun b y hb => ?_⟩
    cases b <;> cases hb <;> rfl

/-- Scalars are equal when they are one key. -/
theorem pyEq_iff_key {a b : Json} (ha : a.isContainer = false) (hb : b.isContainer = false) :
    a.pyEq b = true ↔ ∃ k, cidKey a = some k ∧ cidKey b = some k := by
  have hno : ∀ (x : PyFloat) (k : CidKey), (∀ y, k ≠ .num y) → numKey x ≠ some k :=
    fun x k hk hx => hk x (numKey_eq_some.mp hx).2
  rcases scalar_cases ha with rfl | ⟨s, rfl⟩ | ⟨x, hx⟩
  · rcases scalar_cases hb with rfl | ⟨t, rfl⟩ | ⟨y, hy⟩
    · exact iff_of_true rfl ⟨.null, rfl, rfl⟩
    · exact iff_of_false nofun fun ⟨k, hk, hk'⟩ => nomatch hk.trans hk'.symm
    · obtain ⟨hkey, ⟨-, hnull⟩, -⟩ := number_key hy
      rw [hkey, hnull]
      exact iff_of_false nofun fun ⟨k, hk, hk'⟩ => hno y .null nofun (hk'.trans hk.symm)
  · rcases scalar_cases hb with rfl | ⟨t, rfl⟩ | ⟨y, hy⟩
    · exact iff_of_false nofun fun ⟨k, hk, hk'⟩ => nomatch hk.trans hk'.symm
    · rw [Json.pyEq_str_right]
      constructor
      · intro heq
        cases heq
        exact ⟨.text _, rfl, rfl⟩
      · rintro ⟨k, hk, hk'⟩
        cases hk.trans hk'.symm
        rfl
    · obtain ⟨hkey, -, htext, -⟩ := number_key hy
      rw [hkey, (htext s).2]
      exact iff_of_false nofun fun ⟨k, hk, hk'⟩ => hno y (.text s) nofun (hk'.trans hk.symm)
  · obtain ⟨hkey, ⟨hnull, -⟩, htext, hnumber⟩ := number_key hx
    rw [hkey]
    rcases scalar_cases hb with rfl | ⟨t, rfl⟩ | ⟨y, hy⟩
    · rw [hnull]
      exact iff_of_false nofun fun ⟨k, hk, hk'⟩ => hno x .null nofun (hk.trans hk'.symm)
    · rw [(htext t).1]
      exact iff_of_false nofun fun ⟨k, hk, hk'⟩ => hno x (.text t) nofun (hk.trans hk'.symm)
    · rw [hnumber b y hy, (number_key hy).1]
      exact eq_iff_numKey x y

/-! ## The choice of the loop -/

/-- One record for each cid: the first signed one, or the first one. -/
def preferSigned (records : List ContribRecord) : List ContribRecord :=
  Preferred.preferred sameCid ContribRecord.sigOk records

/-- The cid of every record can be a key of a dict. -/
def Hashable (records : List ContribRecord) : Prop :=
  ∀ rec ∈ records, (rec.field "delta_cid").isContainer = false

/-- The slots of the loop: the cid of the first record, and the record that stands for it. -/
def slotsOf (records : List ContribRecord) : List (Json × ContribRecord) :=
  (Preferred.firstSeen sameCid records).map fun r =>
    (r.field "delta_cid", Preferred.best sameCid ContribRecord.sigOk records r)

theorem sameCid_eq_pyEq {r r' : ContribRecord} (hr : (r.field "delta_cid").isContainer = false)
    (hr' : (r'.field "delta_cid").isContainer = false) :
    (r.field "delta_cid").pyEq (r'.field "delta_cid") = sameCid r r' := by
  rw [Bool.eq_iff_iff, pyEq_iff_key hr hr', sameCid_iff]

/-- **One record of the loop** chooses as `preferSigned` does. -/
theorem dedupStep_slots {records : List ContribRecord} {rec : ContribRecord}
    (h : Hashable (records ++ [rec])) :
    dedupStep (slotsOf records) rec = .ok (slotsOf (records ++ [rec])) := by
  have hrec : (rec.field "delta_cid").isContainer = false := h rec (by simp)
  have hkey : ∀ r ∈ Preferred.firstSeen sameCid records,
      (r.field "delta_cid").pyEq (rec.field "delta_cid") = sameCid r rec := fun r hr =>
    sameCid_eq_pyEq (h r (List.mem_append_left _ (Preferred.firstSeen_subset records r hr))) hrec
  unfold dedupStep
  dsimp only
  rw [if_neg (by simp [hrec])]
  cases hany : records.any (sameCid · rec) with
  | false =>
    have hnone : ((slotsOf records).find? fun slot => slot.1.pyEq (rec.field "delta_cid"))
        = none := by
      apply List.find?_eq_none.mpr
      intro slot hslot hsame
      obtain ⟨r, hr, rfl⟩ := List.mem_map.mp hslot
      rw [hkey r hr] at hsame
      exact List.any_eq_false.mp hany r (Preferred.firstSeen_subset records r hr) hsame
    rw [hnone]
    dsimp only
    rw [slotsOf, slotsOf, Preferred.firstSeen_concat, hany, if_neg Bool.false_ne_true,
      List.map_append, List.map_cons, List.map_nil,
      Preferred.best_concat_new partialEquiv_sameCid hany]
    congr 2
    apply List.map_congr_left
    intro r hr
    have hmem := Preferred.firstSeen_subset records r hr
    have hother : sameCid r rec = false :=
      Bool.eq_false_iff.mpr (List.any_eq_false.mp hany r hmem)
    rw [Preferred.best_concat partialEquiv_sameCid rec hmem, hother, Bool.false_and,
      if_neg Bool.false_ne_true]
  | true =>
    have hslots : slotsOf (records ++ [rec]) = (Preferred.firstSeen sameCid records).map fun r =>
        (r.field "delta_cid",
          Preferred.best sameCid ContribRecord.sigOk (records ++ [rec]) r) := by
      rw [slotsOf, Preferred.firstSeen_concat, hany, if_pos rfl]
    cases hfind : (slotsOf records).find? fun slot => slot.1.pyEq (rec.field "delta_cid") with
    | none =>
      exfalso
      rw [← Preferred.any_firstSeen partialEquiv_sameCid] at hany
      obtain ⟨r, hr, hsame⟩ := List.any_eq_true.mp hany
      have hno := List.find?_eq_none.mp hfind _ (List.mem_map_of_mem hr)
      exact hno ((hkey r hr).trans hsame)
    | some slot =>
      dsimp only
      obtain ⟨r₀, hr₀, rfl⟩ := List.mem_map.mp (List.mem_of_find?_eq_some hfind)
      have hfound := List.find?_some hfind
      have hsame₀ : sameCid r₀ rec = true := (hkey r₀ hr₀).symm.trans hfound
      -- the slot of the cid is the only one of its class
      have honly : ∀ r ∈ Preferred.firstSeen sameCid records, sameCid r rec = true → r = r₀ :=
        fun r hr hsame => Preferred.firstSeen_unique partialEquiv_sameCid hr hr₀ hsame hsame₀
      have hbest : ∀ r ∈ Preferred.firstSeen sameCid records,
          Preferred.best sameCid ContribRecord.sigOk (records ++ [rec]) r
            = if sameCid r rec && (rec.sigOk
                && !(Preferred.best sameCid ContribRecord.sigOk records r).sigOk)
              then rec else Preferred.best sameCid ContribRecord.sigOk records r :=
        fun r hr => Preferred.best_concat partialEquiv_sameCid rec
          (Preferred.firstSeen_subset records r hr)
      rw [hslots]
      split
      · next hdisplaces =>
        rw [slotsOf, List.map_map]
        congr 1
        apply List.map_congr_left
        intro r hr
        rw [hbest r hr]
        dsimp only [Function.comp]
        rw [hkey r hr]
        cases hsame : sameCid r rec with
        | false => rfl
        | true =>
          rw [honly r hr hsame, hdisplaces]
          rfl
      · next hkept =>
        rw [slotsOf]
        congr 1
        apply List.map_congr_left
        intro r hr
        rw [hbest r hr]
        cases hsame : sameCid r rec with
        | false => rfl
        | true =>
          rw [honly r hr hsame, Bool.eq_false_iff.mpr hkept]
          rfl

theorem foldlM_slots {before records : List ContribRecord} (h : Hashable (before ++ records)) :
    records.foldlM dedupStep (slotsOf before) = .ok (slotsOf (before ++ records)) := by
  induction records generalizing before with
  | nil =>
    rw [List.append_nil]
    rfl
  | cons rec records ih =>
    have hsplit : before ++ rec :: records = before ++ [rec] ++ records := by simp
    rw [hsplit] at h ⊢
    have hfirst : Hashable (before ++ [rec]) := fun r hr => h r (List.mem_append_left _ hr)
    rw [List.foldlM_cons, dedupStep_slots hfirst, ok_bind]
    exact ih h

/-- **The dedup is the choice of the first signed record of each cid.** -/
theorem dedup_eq_preferred {records : List ContribRecord} (h : Hashable records) :
    dedupPreferSigned records = .ok (preferSigned records) := by
  have hrun := @foldlM_slots [] records h
  unfold dedupPreferSigned
  rw [show ([] : List (Json × ContribRecord)) = slotsOf [] from rfl, hrun, ok_bind, slotsOf,
    List.map_map]
  rfl

/-- Without such cids the dedup raises. -/
theorem dedup_ok_iff {records : List ContribRecord} :
    (∃ out, dedupPreferSigned records = .ok out) ↔ Hashable records := by
  constructor
  · rintro ⟨out, hout⟩
    obtain ⟨chosen, hrun, -⟩ := bind_eq_ok.mp hout
    exact foldlM_dedupStep_ok.mp ⟨chosen, hrun⟩
  · exact fun h => ⟨_, dedup_eq_preferred h⟩

/-! ## Merging -/

/-- What a merge is to return: one record for each cid, in the order the cids appear in, the
first signed record of the cid over all stores, or the first one; so no record that is not signed
stands where a signed one was. -/
structure MergedRight (recordLists : List (List ContribRecord)) (out : List ContribRecord) :
    Prop where
  one : out.Pairwise fun r r' => sameCid r r' = false
  every : ∀ rec ∈ recordLists.flatten, ∃ r ∈ out, Preferred.Alike sameCid r rec
  first : out = (Preferred.firstSeen sameCid recordLists.flatten).map fun r =>
    (recordLists.flatten.find? fun r' => sameCid r r' && r'.sigOk).getD r
  signed : ∀ r ∈ out, ∀ rec ∈ recordLists.flatten, sameCid r rec = true → rec.sigOk = true →
    r.sigOk = true

theorem mergedRight (recordLists : List (List ContribRecord)) :
    MergedRight recordLists (preferSigned recordLists.flatten) where
  one := Preferred.preferred_pairwise partialEquiv_sameCid _
  every rec hrec := by
    obtain ⟨r, hr, halike⟩ := Preferred.exists_firstSeen partialEquiv_sameCid hrec
    refine ⟨_, List.mem_map_of_mem hr, ?_⟩
    exact (Preferred.alike_best _ r).symm_trans partialEquiv_sameCid halike
  first := rfl
  signed _ hr _ hrec hsame hsig :=
    Preferred.good_of_preferred partialEquiv_sameCid hr hrec hsame hsig

theorem hashable_flatten {recordLists : List (List ContribRecord)}
    (h : ∀ records ∈ recordLists, Hashable records) : Hashable recordLists.flatten := by
  intro rec hrec
  obtain ⟨records, hrecords, hrec⟩ := List.mem_flatten.mp hrec
  exact h records hrecords rec hrec

theorem hashable_preferSigned {records : List ContribRecord} (h : Hashable records) :
    Hashable (preferSigned records) :=
  fun rec hrec => h rec (Preferred.preferred_subset records rec hrec)

theorem mapM_dedup {recordLists : List (List ContribRecord)}
    (h : ∀ records ∈ recordLists, Hashable records) :
    recordLists.mapM dedupPreferSigned = .ok (recordLists.map preferSigned) := by
  induction recordLists with
  | nil => rfl
  | cons records recordLists ih =>
    rw [List.mapM_cons, dedup_eq_preferred (h records List.mem_cons_self), ok_bind,
      ih fun l hl => h l (List.mem_cons_of_mem _ hl), ok_bind]
    rfl

/-- What a poll of a store returns has cids that are keys. -/
theorem hashable_of_poll {P : Platform} {get : ContribStore} {requireSig : Bool}
    {out : List ContribRecord} (h : pollOneStore P get requireSig = .ok out) : Hashable out := by
  unfold pollOneStore at h
  cases hman : get "/manifest" with
  | none =>
    rw [hman] at h
    cases h
    exact fun rec hrec => absurd hrec List.not_mem_nil
  | some man =>
    rw [hman] at h
    obtain ⟨items, -, hdedup⟩ := bind_eq_ok.mp h
    intro rec hrec
    exact dedup_ok_iff.mp ⟨out, hdedup⟩ rec (mem_records_of_dedup hdedup hrec)

/-- **The merge is order-robust and lossless**, also over records that were merged before; the
records of a store have the cids it asks for. -/
theorem merge_order_robust :
    (∀ recordLists, (∀ records ∈ recordLists, Hashable records) →
      ∃ out, mergeContribRecords recordLists = .ok out ∧ MergedRight recordLists out ∧
        ∃ merged, recordLists.mapM dedupPreferSigned = .ok merged ∧
          mergeContribRecords merged = .ok out) ∧
    ∀ P get requireSig out, pollOneStore P get requireSig = .ok out → Hashable out := by
  refine ⟨fun recordLists h => ?_, fun P get requireSig out => hashable_of_poll⟩
  refine ⟨_, dedup_eq_preferred (hashable_flatten h), mergedRight recordLists, _, mapM_dedup h, ?_⟩
  have hmerged : ∀ records ∈ recordLists.map preferSigned, Hashable records := by
    intro records hrecords
    obtain ⟨l, hl, rfl⟩ := List.mem_map.mp hrecords
    exact hashable_preferSigned (h l hl)
  unfold mergeContribRecords
  rw [dedup_eq_preferred (hashable_flatten hmerged)]
  exact congrArg Except.ok (Preferred.preferred_join partialEquiv_sameCid recordLists)

/-- When the registry is enforced, a poll returns the merged records of all stores. -/
theorem pollContribRecords_enforce {P : Platform} {requireSig : Bool} {primary : ContribStore}
    {replicas : List ContribStore} {polled : List (List ContribRecord)}
    (hreplicas : replicas ≠ [])
    (hpolled : (primary :: replicas).mapM (fun get => pollOneStore P get requireSig) = .ok polled) :
    pollContribRecords P .enforce requireSig primary replicas
      = .ok (preferSigned polled.flatten) := by
  rw [List.mapM_cons] at hpolled
  obtain ⟨primaryRecs, hprimary, hpolled⟩ := bind_eq_ok.mp hpolled
  obtain ⟨replicaRecs, hreplicaRecs, hpolled⟩ := bind_eq_ok.mp hpolled
  have hlists : polled = primaryRecs :: replicaRecs := (Except.ok.inj hpolled).symm
  have hall : ∀ records ∈ polled, Hashable records := by
    rw [hlists]
    intro records hrecords
    rcases List.mem_cons.mp hrecords with rfl | hrecords
    · exact hashable_of_poll hprimary
    · have hpolls := forall₂_of_mapM hreplicaRecs
      obtain ⟨i, hi, rfl⟩ := List.getElem_of_mem hrecords
      exact hashable_of_poll (hpolls.get (hpolls.length_eq ▸ hi) hi)
  have hopen : (replicas.isEmpty || RegistryPosture.enforce == .off) = false := by
    rw [List.isEmpty_eq_false_iff.mpr hreplicas]
    rfl
  unfold pollContribRecords
  rw [hprimary, ok_bind, hopen, hreplicaRecs]
  show (mergeContribRecords (primaryRecs :: replicaRecs) >>= fun merged => _) = _
  rw [mergeContribRecords, ← hlists, dedup_eq_preferred (hashable_flatten hall), ok_bind]
  rfl

/-! ## A poll of one store -/

/-- The entries of a manifest that is an object. -/
def contribEntries (get : ContribStore) : List (String × Json) :=
  match get "/manifest" with
  | some (.obj kvs) => (Json.dictOf kvs).entries
  | _ => []

/-- An entry under a `contrib-` name whose record the store serves. -/
def ServesRecord (get : ContribStore) (entry : String × Json) (rec : ContribRecord) : Prop :=
  "contrib-".toList <+: entry.1.toList ∧ ∃ sha kvs, entry.2.item "sha256" = .ok (.str sha) ∧
    get ("/o/" ++ sha) = some (.obj kvs) ∧ rec = Json.dictOf kvs

/-- The signature check lets the record through. -/
def PassesSig (P : Platform) (requireSig : Bool) (entry : String × Json) (rec : ContribRecord) :
    Prop :=
  requireSig = true → (markRecord P entry.1 rec).sigOk = true

variable {P : Platform} {get : ContribStore} {requireSig : Bool}

theorem verifyEntry_iff {entry : String × Json} {marked : ContribRecord} :
    verifyEntry P get requireSig entry = some marked ↔
      ∃ rec, ServesRecord get entry rec ∧ (rec.field "delta_cid").truthy = true ∧
        PassesSig P requireSig entry rec ∧ marked = markRecord P entry.1 rec := by
  constructor
  · intro h
    unfold verifyEntry at h
    split at h
    · next hstarts =>
      split at h
      · next sha hsha =>
        split at h
        · next kvs hget =>
          split at h
          · next htruthy =>
            dsimp only at h
            split at h
            · cases h
            · next hpass =>
              refine ⟨_, ⟨hstarts, sha, kvs, hsha, hget, rfl⟩, htruthy, fun hrequire => ?_,
                (Option.some.inj h).symm⟩
              rw [hrequire, Bool.true_and, Bool.not_eq_true', Bool.not_eq_false] at hpass
              exact hpass
          · cases h
        · cases h
      · cases h
    · cases h
  · rintro ⟨rec, ⟨hstarts, sha, kvs, hsha, hget, rfl⟩, htruthy, hpass, rfl⟩
    apply verifyEntry_read hstarts hsha hget htruthy
    cases hrequire : requireSig with
    | false => rfl
    | true => rw [hpass hrequire, Bool.not_true, Bool.and_false]

/-- **A poll of a store is to return** with the winner of every cid that a well-formed record
carries, one with a text for its cid that the signature check lets through. -/
def PollIsolates (P : Platform) (get : ContribStore) (requireSig : Bool) : Prop :=
  ∃ out, pollOneStore P get requireSig = .ok out ∧
    ∀ entry ∈ contribEntries get, ∀ rec s, ServesRecord get entry rec →
      rec.field "delta_cid" = .str s → s ≠ "" → PassesSig P requireSig entry rec →
      ∃ w ∈ out, winner s ((contribEntries get).filterMap (verifyEntry P get requireSig)) = some w

/-- When it does: the manifest is an object, or empty, and no record that is let through has a list
or an object for its cid. -/
structure PollReads (P : Platform) (get : ContribStore) (requireSig : Bool) : Prop where
  manifest : ∀ man, get "/manifest" = some man → man.truthy = true → man.isObj = true
  cids : ∀ entry ∈ contribEntries get, ∀ rec, ServesRecord get entry rec →
    PassesSig P requireSig entry rec →
    (rec.field "delta_cid").truthy = true → (rec.field "delta_cid").isContainer = false

theorem pollOneStore_of_reads (h : PollReads P get requireSig) :
    pollOneStore P get requireSig
      = dedupPreferSigned ((contribEntries get).filterMap (verifyEntry P get requireSig)) := by
  unfold pollOneStore contribEntries
  cases hman : get "/manifest" with
  | none => rfl
  | some man =>
    dsimp only
    unfold manifestItems
    cases htruthy : man.truthy with
    | true =>
      have hobj := h.manifest man hman htruthy
      cases man with
      | obj kvs => rfl
      | _ => cases hobj
    | false =>
      cases man with
      | obj kvs =>
        have hnil : kvs = [] := by
          cases kvs with
          | nil => rfl
          | cons p kvs => cases htruthy
        rw [hnil]
        rfl
      | _ => rfl

theorem hasCid_of_winner {s : String} {records : List ContribRecord} {w : ContribRecord}
    (h : winner s records = some w) : HasCid s w = true := by
  rcases Option.or_eq_some_iff.mp h with hsigned | ⟨-, hfirst⟩
  · have hboth := List.find?_some hsigned
    exact (Bool.and_eq_true_iff.mp hboth).1
  · exact List.find?_some hfirst

/-- **A malformed record hides the others exactly when its cid is no key**, or the manifest is no
object. -/
theorem poll_isolates_iff (P : Platform) (get : ContribStore) (requireSig : Bool) :
    PollIsolates P get requireSig ↔ PollReads P get requireSig := by
  constructor
  · rintro ⟨out, hout, -⟩
    have hman : ∀ man, get "/manifest" = some man → man.truthy = true → ∃ kvs, man = .obj kvs ∧
        ∃ chosen, ((Json.dictOf kvs).entries.filterMap (verifyEntry P get requireSig)).foldlM
          dedupStep [] = .ok chosen := by
      intro man hman htruthy
      unfold pollOneStore at hout
      rw [hman] at hout
      obtain ⟨items, hitems, hdedup⟩ := bind_eq_ok.mp hout
      obtain ⟨chosen, hrun, -⟩ := bind_eq_ok.mp hdedup
      unfold manifestItems at hitems
      rw [if_pos htruthy] at hitems
      cases man with
      | obj kvs =>
        cases hitems
        exact ⟨kvs, rfl, chosen, hrun⟩
      | _ => cases hitems
    refine ⟨fun man hget htruthy => ?_, fun entry hentry rec hserves hpass htruthy => ?_⟩
    · obtain ⟨kvs, rfl, -⟩ := hman man hget htruthy
      rfl
    · unfold contribEntries at hentry
      split at hentry
      · next kvs hget =>
        have hne : (Json.obj kvs).truthy = true := by
          cases kvs with
          | nil => cases hentry
          | cons p kvs => rfl
        obtain ⟨kvs', heq, chosen, hrun⟩ := hman _ hget hne
        cases heq
        have hverify := verifyEntry_iff.mpr ⟨rec, hserves, htruthy, hpass, rfl⟩
        have hcid := foldlM_dedupStep_ok.mp ⟨chosen, hrun⟩ _
          (List.mem_filterMap.mpr ⟨entry, hentry, hverify⟩)
        rwa [cid_markRecord] at hcid
      · cases hentry
  · intro h
    have hhashable : Hashable ((contribEntries get).filterMap (verifyEntry P get requireSig)) := by
      intro marked hmarked
      obtain ⟨entry, hentry, hverify⟩ := List.mem_filterMap.mp hmarked
      obtain ⟨rec, hserves, htruthy, hpass, rfl⟩ := verifyEntry_iff.mp hverify
      rw [cid_markRecord]
      exact h.cids entry hentry rec hserves hpass htruthy
    obtain ⟨out, hout⟩ := dedup_ok_iff.mpr hhashable
    refine ⟨out, (pollOneStore_of_reads h).trans hout, ?_⟩
    intro entry hentry rec s hserves hcid hne hpass
    have htruthy : (rec.field "delta_cid").truthy = true := by
      rw [hcid]
      simp [Json.truthy, hne]
    have hverify := verifyEntry_iff.mpr ⟨rec, hserves, htruthy, hpass, rfl⟩
    have hmem := List.mem_filterMap.mpr ⟨entry, hentry, hverify⟩
    have hhas : HasCid s (markRecord P entry.1 rec) = true :=
      hasCid_iff.mpr ((cid_markRecord P entry.1 rec).trans hcid)
    cases hwinner : winner s ((contribEntries get).filterMap (verifyEntry P get requireSig)) with
    | none =>
      have hnone := (Option.or_eq_none_iff.mp hwinner).2
      exact absurd hhas (List.find?_eq_none.mp hnone _ hmem)
    | some w =>
      refine ⟨w, (mem_dedup_iff hout ?_).mpr hwinner, rfl⟩
      exact hasCid_of_winner hwinner

/-! ## A store with a malformed record -/

namespace Contributions

/-- A store with a record whose cid is a list, and a record in order. -/
def listCidStore : ContribStore := fun path =>
  if path = "/manifest" then
    some (.obj [("contrib-mallory", .obj [("sha256", .str "m")]),
      ("contrib-alice", .obj [("sha256", .str "a")])])
  else if path = "/o/m" then some (.obj [("delta_cid", .arr [.str "bafy"])])
  else if path = "/o/a" then some (.obj [("delta_cid", .str "bafy")])
  else none

/-- A record with a cid and a mark. -/
def marked (cid : String) (sigOk : Bool) (name : String) : ContribRecord :=
  Json.dictOf [("delta_cid", .str cid), ("sig_ok", .bool sigOk), ("name", .str name)]

end Contributions

/-- An unsigned record on one store and a signed one of the same cid on another. -/
theorem merge_order_robust_squatter :
    ∃ out, mergeContribRecords [[Contributions.marked "bafy" false "contrib-mallory"],
        [Contributions.marked "bafy" true "contrib-alice"]] = .ok out ∧
      MergedRight [[Contributions.marked "bafy" false "contrib-mallory"],
        [Contributions.marked "bafy" true "contrib-alice"]] out ∧
      ∃ merged, [[Contributions.marked "bafy" false "contrib-mallory"],
        [Contributions.marked "bafy" true "contrib-alice"]].mapM dedupPreferSigned = .ok merged ∧
        mergeContribRecords merged = .ok out :=
  merge_order_robust.1 _ (by unfold Hashable; decide)

/-- **A record whose cid is a list hides the others.** -/
theorem list_cid_hides_others :
    ¬ ∀ P get requireSig, PollIsolates P get requireSig := by
  intro hall
  obtain ⟨out, hout, -⟩ := hall Contributions.sample Contributions.listCidStore false
  have hraises :
      (pollOneStore Contributions.sample Contributions.listCidStore false).isOk = false := by
    decide +kernel
  rw [hout] at hraises
  cases hraises

end NeuraHash
