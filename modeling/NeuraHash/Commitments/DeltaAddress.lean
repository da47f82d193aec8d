import NeuraHash.Committee.Attestation
import NeuraHash.Systems.Framing

/-!
# The addresses of a delta (`neurahash/worker_core.py`, `tools/diloco_contributor.py`)

A worker signs `trunk_delta_hash` of the delta it submits; a lane keeps a shard's delta under
`_shard_cid`. Both are digests over the entries written one after the other in key order: the key, for
the first also the element type and the shape, and the bytes of the array. No length and no separator
is written.

`content_addresses_bind_iff` says which deltas the addresses tell apart: those of one layout, and those
whose entries spell different bytes.
-/

namespace NeuraHash.DeltaAddress

open Py Systems

/-! ## Deltas -/

structure Dtype where
  /-- `str(dtype)`. -/
  text : String
  itemsize : ℕ

/-- An `ndarray` with its entries in row-major order, as bytes. -/
structure RawArray where
  dtype : Dtype
  shape : List ℕ
  data : Bytes
  length_data : data.length = dtype.itemsize * shape.prod

/-- Dictionaries are equal: they have the same keys and the same values. -/
def Same {α : Type} (d d' : Dict String α) : Prop := ∀ k, d.get? k = d'.get? k

theorem sortedItems_eq_filterMap {α : Type} (d : Dict String α) :
    d.sortedItems = (sortedSet d.keys).filterMap fun k => (d.get? k).map fun v => (k, v) := by
  rw [← Dict.map_fst_sortedItems, List.filterMap_map]
  have hread : ∀ e ∈ d.sortedItems,
      ((fun k => (d.get? k).map fun v => (k, v)) ∘ Prod.fst) e = some e := by
    intro e he
    show (d.get? e.1).map (fun v => (e.1, v)) = some e
    rw [Dict.mem_sortedItems.mp he]
    rfl
  rw [List.filterMap_congr hread, List.filterMap_some]

theorem same_iff {α : Type} {d d' : Dict String α} : Same d d' ↔ d.sortedItems = d'.sortedItems := by
  constructor
  · intro h
    have hkeys : sortedSet d.keys = sortedSet d'.keys := by
      refine sortedSet_congr fun k => ?_
      rw [Dict.mem_keys_iff, Dict.mem_keys_iff, h k]
    rw [sortedItems_eq_filterMap, sortedItems_eq_filterMap, hkeys]
    exact List.filterMap_congr fun k _ => by rw [h k]
  · intro h k
    apply Option.ext
    intro v
    rw [← Dict.mem_sortedItems, ← Dict.mem_sortedItems, h]

/-! ## The hash of a trunk delta -/

/-- What one entry adds to the digest. -/
def entryText (e : String × RawArray) : Bytes :=
  utf8 e.1 ++ utf8 e.2.dtype.text ++ utf8 (shapeText (if e.2.shape = [] then [1] else e.2.shape))
    ++ e.2.data

def trunkDeltaHash (P : Platform) (td : Dict String RawArray) : String :=
  P.sha256 (td.sortedItems.flatMap entryText)

/-- `work_commit_payload(address, round_id, beacon, delta_hash)`. -/
def workCommitPayload (T : PyText) (address : String) (round : ℤ) (beacon deltaHash : String) : Bytes :=
  utf8 (Json.dumps T [] (.obj [("w", .str "neurahash-trunk"), ("addr", .str address),
    ("round", .int round), ("beacon", .str beacon), ("delta", .str deltaHash)]))

/-- The key, the element type and the shape of an entry. -/
def entryLayout (e : String × RawArray) : String × Dtype × List ℕ := (e.1, e.2.dtype, e.2.shape)

theorem entry_framing : Framing entryLayout id entryText where
  length_eq {e e'} h := by
    injection h with hkey h
    injection h with hdtype hshape
    unfold entryText
    simp only [List.length_append, e.2.length_data, e'.2.length_data, hkey, hdtype, hshape]
  content_eq {e e'} h htext := by
    injection h with hkey h
    injection h with hdtype hshape
    unfold entryText at htext
    rw [hkey, hdtype, hshape] at htext
    have hdata := List.append_cancel_left htext
    obtain ⟨key, dtype, shape, data, hlen⟩ := e
    obtain ⟨key', dtype', shape', data', hlen'⟩ := e'
    dsimp only at hkey hdtype hshape hdata
    subst hkey hdtype hshape hdata
    rfl
  layout_eq h := congrArg entryLayout h

/-! ## The address of a shard's delta -/

/-- Casting to `float16` and back. -/
structure HalfCast (F : Type) where
  toHalf : F → UInt16
  /-- `.astype(np.float64)` of a `float16`. -/
  ofHalf : UInt16 → F
  toHalf_ofHalf : ∀ h, toHalf (ofHalf h) = h

/-- The bytes of a `float16`, lowest first. -/
def halfBytes (h : UInt16) : Bytes := [UInt8.ofNat (h.toNat % 256), UInt8.ofNat (h.toNat / 256)]

theorem halfBytes_injective : Function.Injective halfBytes := by
  intro h h' heq
  unfold halfBytes at heq
  injection heq with hlow heq
  injection heq with hhigh
  have hlow' := congrArg UInt8.toNat hlow
  have hhigh' := congrArg UInt8.toNat hhigh
  have hlt := h.toNat_lt
  have hlt' := h'.toNat_lt
  rw [UInt8.toNat_ofNat', UInt8.toNat_ofNat'] at hlow' hhigh'
  apply UInt16.toNat_inj.mp
  omega

section shard

variable {F : Type} (P : Platform) (H : HalfCast F)

/-- An array with another element type. -/
def castArray {G : Type} (f : F → G) (t : Tensor F) : Tensor G where
  shape := t.shape
  data := t.data.map f
  length_data := by rw [List.length_map, t.length_data]

/-- `_shard_fp16_roundtrip(delta)`. -/
def shardFp16Roundtrip (delta : Dict String (Tensor F)) : Dict String (Tensor F) :=
  delta.mapWithKey fun _ t => castArray (fun x => H.ofHalf (H.toHalf x)) t

/-- What one entry adds to the digest. -/
def shardText (e : String × Tensor F) : Bytes :=
  utf8 e.1 ++ e.2.data.flatMap fun x => halfBytes (H.toHalf x)

/-- `_shard_cid(delta)`. -/
def shardCid (delta : Dict String (Tensor F)) : String :=
  P.sha256 (delta.sortedItems.flatMap (shardText H))

/-- The key and the shape of an entry. -/
def shardLayout (e : String × Tensor F) : String × List ℕ := (e.1, e.2.shape)

/-- The key, the shape and the `float16` values of an entry. -/
def shardContent (e : String × Tensor F) : String × Tensor UInt16 := (e.1, castArray H.toHalf e.2)

variable {H}

theorem length_halves (data : List F) :
    (data.flatMap fun x => halfBytes (H.toHalf x)).length = 2 * data.length := by
  induction data with
  | nil => rfl
  | cons x data ih =>
    rw [List.flatMap_cons, List.length_append, ih, List.length_cons]
    show 2 + 2 * data.length = _
    omega

theorem halves_injective {data data' : List F}
    (h : (data.flatMap fun x => halfBytes (H.toHalf x))
      = data'.flatMap fun x => halfBytes (H.toHalf x)) :
    data.map H.toHalf = data'.map H.toHalf := by
  induction data generalizing data' with
  | nil =>
    cases data' with
    | nil => rfl
    | cons x' data' => cases h
  | cons x data ih =>
    cases data' with
    | nil => cases h
    | cons x' data' =>
      rw [List.flatMap_cons, List.flatMap_cons] at h
      obtain ⟨hfirst, hrest⟩ := List.append_inj h rfl
      rw [List.map_cons, List.map_cons, halfBytes_injective hfirst, ih hrest]

theorem shard_framing : Framing shardLayout (shardContent H) (shardText H) where
  length_eq {e e'} h := by
    injection h with hkey hshape
    unfold shardText
    simp only [List.length_append, length_halves, e.2.length_data, e'.2.length_data, hkey, hshape]
  content_eq {e e'} h htext := by
    injection h with hkey hshape
    unfold shardText at htext
    rw [hkey] at htext
    have hdata := halves_injective (List.append_cancel_left htext)
    unfold shardContent
    rw [hkey]
    exact congrArg _ (Tensor.ext_data hshape hdata)
  layout_eq {e e'} h := by
    injection h with hkey hcast
    have hshape := congrArg Tensor.shape hcast
    exact Prod.ext hkey hshape

/-! ## The lane -/

/-- The deltas kept under their addresses. -/
abbrev Store (F : Type) := Dict String (Dict String (Tensor F))

variable (H)

def put (store : Store F) (delta : Dict String (Tensor F)) : Store F :=
  store.set (shardCid P H delta) (shardFp16Roundtrip H delta)

def get (store : Store F) (cid : String) : Except PyErr (Dict String (Tensor F)) :=
  match store.get? cid with
  | some payload => if shardCid P H payload = cid then .ok payload else .error .valueError
  | none => .error .keyError

/-- The store after some puts. -/
def lane (deltas : List (Dict String (Tensor F))) : Store F := deltas.foldl (put P H) ∅

variable {P H}

theorem sortedItems_mapWithKey {α β : Type} (f : α → β) (d : Dict String α) :
    (d.mapWithKey fun _ v => f v).sortedItems = d.sortedItems.map fun e => (e.1, f e.2) := by
  rw [sortedItems_eq_filterMap, sortedItems_eq_filterMap, List.map_filterMap, Dict.keys_mapWithKey]
  refine List.filterMap_congr fun k _ => ?_
  rw [Dict.get?_mapWithKey]
  cases d.get? k <;> rfl

/-- The keys, the shapes and the `float16` values of a delta. -/
def halfValues (H : HalfCast F) (delta : Dict String (Tensor F)) : Dict String (Tensor UInt16) :=
  delta.mapWithKey fun _ t => castArray H.toHalf t

theorem sortedItems_halfValues (delta : Dict String (Tensor F)) :
    (halfValues H delta).sortedItems = delta.sortedItems.map (shardContent H) :=
  sortedItems_mapWithKey (castArray H.toHalf) delta

/-- The round trip keeps the `float16` values. -/
theorem halfValues_roundtrip (delta : Dict String (Tensor F)) :
    halfValues H (shardFp16Roundtrip H delta) = halfValues H delta := by
  unfold halfValues shardFp16Roundtrip
  rw [Dict.mapWithKey_mapWithKey]
  refine Dict.mapWithKey_congr fun k t _ => Tensor.ext_data rfl ?_
  show ((t.data.map fun x => H.ofHalf (H.toHalf x)).map H.toHalf) = t.data.map H.toHalf
  rw [List.map_map]
  exact List.map_congr_left fun x _ => H.toHalf_ofHalf _

/-- The round trip is decided by the `float16` values. -/
theorem roundtrip_eq (delta : Dict String (Tensor F)) :
    shardFp16Roundtrip H delta = (halfValues H delta).mapWithKey fun _ t => castArray H.ofHalf t := by
  unfold halfValues shardFp16Roundtrip
  rw [Dict.mapWithKey_mapWithKey]
  refine Dict.mapWithKey_congr fun k t _ => Tensor.ext_data rfl ?_
  exact (List.map_map ..).symm

theorem text_of_content {d d' : Dict String (Tensor F)}
    (h : d.sortedItems.map (shardContent H) = d'.sortedItems.map (shardContent H)) :
    d.sortedItems.flatMap (shardText H) = d'.sortedItems.flatMap (shardText H) := by
  have htext : ∀ l : List (String × Tensor F), l.flatMap (shardText H)
      = (l.map (shardContent H)).flatMap fun c => utf8 c.1 ++ c.2.data.flatMap halfBytes := by
    intro l
    rw [List.flatMap_map]
    refine List.flatMap_congr fun e _ => ?_
    show _ = utf8 e.1 ++ (e.2.data.map H.toHalf).flatMap halfBytes
    rw [List.flatMap_map]
    rfl
  rw [htext, htext, h]

/-- A payload reproduces the address it was put under. -/
theorem shardCid_roundtrip (delta : Dict String (Tensor F)) :
    shardCid P H (shardFp16Roundtrip H delta) = shardCid P H delta :=
  congrArg P.sha256 (text_of_content (by
    rw [← sortedItems_halfValues, halfValues_roundtrip, sortedItems_halfValues]))

theorem lane_concat (deltas : List (Dict String (Tensor F))) (d : Dict String (Tensor F)) :
    lane P H (deltas ++ [d]) = put P H (lane P H deltas) d := by
  unfold lane
  rw [List.foldl_append]
  rfl

/-- **The last delta put under an address is what the lane returns.** -/
theorem get_lane (deltas : List (Dict String (Tensor F))) (cid : String) :
    get P H (lane P H deltas) cid
      = match deltas.reverse.find? fun d => shardCid P H d = cid with
        | some d => .ok (shardFp16Roundtrip H d)
        | none => .error .keyError := by
  induction deltas using List.reverseRecOn with
  | nil => rfl
  | append_singleton deltas d ih =>
    rw [lane_concat, List.reverse_append, List.reverse_singleton, List.singleton_append,
      List.find?_cons]
    unfold get put at *
    rw [Dict.get?_set]
    by_cases hd : shardCid P H d = cid
    · rw [if_pos hd]
      simp only [hd, decide_true]
      rw [shardCid_roundtrip, if_pos hd]
    · rw [if_neg hd]
      simp only [hd, decide_false]
      exact ih

end shard

/-! ## What the addresses bind -/

section binds

variable {F : Type} (P : Platform) (H : HalfCast F)

/-- The keys, element types and shapes agree. -/
def SameTrunkLayout (d d' : Dict String RawArray) : Prop :=
  d.sortedItems.map entryLayout = d'.sortedItems.map entryLayout

/-- The keys and shapes agree. -/
def SameShardLayout (d d' : Dict String (Tensor F)) : Prop :=
  d.sortedItems.map shardLayout = d'.sortedItems.map shardLayout

/-- Equal hashes are of equal deltas, and so are signed payloads. -/
structure TrunkBinds (d d' : Dict String RawArray) : Prop where
  hash : trunkDeltaHash P d = trunkDeltaHash P d' → Same d d'
  signed : ∀ a r b a' r' b', workCommitPayload P.toPyText a r b (trunkDeltaHash P d)
      = workCommitPayload P.toPyText a' r' b' (trunkDeltaHash P d') →
    a = a' ∧ r = r' ∧ b = b' ∧ Same d d'

/-- Equal addresses are of deltas with the same keys, shapes and `float16` values. -/
def ShardBinds (d d' : Dict String (Tensor F)) : Prop :=
  shardCid P H d = shardCid P H d' → Same (halfValues H d) (halfValues H d')

/-- After every one of the puts, what the lane returns under the address of a delta put so far is that
delta. -/
def LaneBinds (deltas : List (Dict String (Tensor F))) : Prop :=
  ∀ before after, deltas = before ++ after → ∀ d ∈ before, ∀ payload,
    get P H (lane P H before) (shardCid P H d) = .ok payload → Same payload (shardFp16Roundtrip H d)

variable {P H}

/-- The payload names its delta's hash. -/
theorem workCommitPayload_injective {T : PyText} {a b h a' b' h' : String} {r r' : ℤ}
    (heq : workCommitPayload T a r b h = workCommitPayload T a' r' b' h') :
    a = a' ∧ r = r' ∧ b = b' ∧ h = h' := by
  have hmembers := Json.get?_eq_of_dumps_eq T [] (utf8_injective heq)
  have haddr := hmembers "addr"
  have hround := hmembers "round"
  have hbeacon := hmembers "beacon"
  have hdelta := hmembers "delta"
  simp only [Json.get?_obj, List.reverse_cons, List.reverse_nil, List.nil_append, List.cons_append,
    Dict.lookup, String.reduceEq, ↓reduceIte, Option.map_some, Json.sortKeys, Option.some.injEq,
    Json.str.injEq, Json.int.injEq] at haddr hround hbeacon hdelta
  exact ⟨haddr, hround, hbeacon, hdelta⟩

theorem trunk_binds_iff (hP : CollisionFree P) (d d' : Dict String RawArray) :
    TrunkBinds P d d' ↔ SameTrunkLayout d d'
      ∨ d.sortedItems.flatMap entryText ≠ d'.sortedItems.flatMap entryText := by
  have hbinds := entry_framing.binds_iff d.sortedItems d'.sortedItems
  rw [List.map_id, List.map_id, ← same_iff] at hbinds
  refine Iff.trans ?_ hbinds
  constructor
  · intro h htext
    exact h.hash (congrArg P.sha256 htext)
  · intro h
    have hhash : trunkDeltaHash P d = trunkDeltaHash P d' → Same d d' := fun heq => h (hP heq)
    refine ⟨hhash, fun a r b a' r' b' heq => ?_⟩
    obtain ⟨ha, hr, hb, hdelta⟩ := workCommitPayload_injective heq
    exact ⟨ha, hr, hb, hhash hdelta⟩

theorem shard_binds_iff (hP : CollisionFree P) (d d' : Dict String (Tensor F)) :
    ShardBinds P H d d' ↔ SameShardLayout d d'
      ∨ d.sortedItems.flatMap (shardText H) ≠ d'.sortedItems.flatMap (shardText H) := by
  have hbinds := (shard_framing (H := H)).binds_iff d.sortedItems d'.sortedItems
  refine Iff.trans ?_ hbinds
  unfold ShardBinds
  rw [same_iff, sortedItems_halfValues, sortedItems_halfValues]
  exact ⟨fun h htext => h (congrArg P.sha256 htext), fun h heq => h (hP heq)⟩

/-- Deltas with the same values have the same round trip. -/
theorem same_roundtrip {d d' : Dict String (Tensor F)} (h : Same (halfValues H d) (halfValues H d')) :
    Same (shardFp16Roundtrip H d) (shardFp16Roundtrip H d') := by
  intro k
  rw [roundtrip_eq, roundtrip_eq, Dict.get?_mapWithKey, Dict.get?_mapWithKey, h k]

theorem same_of_roundtrip {d d' : Dict String (Tensor F)}
    (h : Same (shardFp16Roundtrip H d) (shardFp16Roundtrip H d')) :
    Same (halfValues H d) (halfValues H d') := by
  intro k
  rw [← halfValues_roundtrip d, ← halfValues_roundtrip d']
  unfold halfValues
  rw [Dict.get?_mapWithKey, Dict.get?_mapWithKey, h k]

/-- A delta put last is what the lane returns under its address. -/
theorem LaneBinds.same {deltas a b : List (Dict String (Tensor F))} {x y : Dict String (Tensor F)}
    (h : LaneBinds P H deltas) (hdeltas : deltas = a ++ x :: b) (hy : y ∈ a)
    (hcid : shardCid P H x = shardCid P H y) : Same (halfValues H x) (halfValues H y) := by
  apply same_of_roundtrip
  refine h (a ++ [x]) b (by rw [hdeltas, List.append_cons]) y (List.mem_append_left _ hy) _ ?_
  rw [get_lane, List.reverse_append, List.reverse_singleton, List.singleton_append,
    List.find?_cons_of_pos (by simpa using hcid)]

theorem lane_binds_iff (deltas : List (Dict String (Tensor F))) :
    LaneBinds P H deltas ↔ ∀ d ∈ deltas, ∀ d' ∈ deltas, ShardBinds P H d d' := by
  constructor
  · intro h d hd d' hd' hcid
    obtain ⟨a, b, hsplit⟩ := List.append_of_mem hd
    rw [hsplit, List.mem_append, List.mem_cons] at hd'
    rcases hd' with hbefore | rfl | hafter
    · exact h.same hsplit hbefore hcid
    · exact fun _ => rfl
    · -- the other one was put later
      obtain ⟨b', b'', rfl⟩ := List.append_of_mem hafter
      have hsplit' : deltas = (a ++ d :: b') ++ d' :: b'' := by
        rw [hsplit, List.append_assoc, List.cons_append]
      have hsame := h.same hsplit' (by simp) hcid.symm
      exact fun k => (hsame k).symm
  · rintro h before after rfl d hd payload hget
    rw [get_lane] at hget
    split at hget
    · rename_i d' hfind
      cases hget
      have hmem : d' ∈ before := List.mem_reverse.mp (List.mem_of_find?_eq_some hfind)
      have hcid : shardCid P H d' = shardCid P H d := by simpa using List.find?_some hfind
      exact same_roundtrip (h d' (List.mem_append_left _ hmem) d (List.mem_append_left _ hd) hcid)
    · cases hget

/-- **What the addresses of a delta bind.** -/
theorem content_addresses_bind_iff (hP : CollisionFree P) (H : HalfCast F) :
    (∀ d d', TrunkBinds P d d' ↔ SameTrunkLayout d d'
      ∨ d.sortedItems.flatMap entryText ≠ d'.sortedItems.flatMap entryText)
    ∧ (∀ d d', ShardBinds P H d d' ↔ SameShardLayout d d'
      ∨ d.sortedItems.flatMap (shardText H) ≠ d'.sortedItems.flatMap (shardText H))
    ∧ ∀ deltas, LaneBinds P H deltas ↔ ∀ d ∈ deltas, ∀ d' ∈ deltas, SameShardLayout d d'
      ∨ d.sortedItems.flatMap (shardText H) ≠ d'.sortedItems.flatMap (shardText H) := by
  refine ⟨trunk_binds_iff hP, shard_binds_iff hP, fun deltas => ?_⟩
  rw [lane_binds_iff]
  exact forall₂_congr fun d _ => forall₂_congr fun d' _ => shard_binds_iff hP d d'

end binds

/-! ## Deltas with one address -/

/-- An array of bytes. -/
def byteArray (shape : List ℕ) (data : Bytes) (h : data.length = shape.prod) : RawArray :=
  ⟨⟨"uint8", 1⟩, shape, data, by rw [h, Nat.one_mul]⟩

/-- The cast of what is a `float16` already. -/
def halfCast : HalfCast UInt16 := ⟨id, id, fun _ => rfl⟩

/-- A row or a column of two zeros. -/
def zeros (shape : List ℕ) (h : shape.prod = 2) : Tensor UInt16 := ⟨shape, [0, 0], h.symm⟩

theorem content_addresses_collide :
    let empty := byteArray [0] [] rfl
    let two := Dict.ofList [("a", empty), ("b", empty)]
    let one := Dict.ofList [("auint8(0,)b", empty)]
    let row := Dict.ofList [("w", zeros [2] rfl)]
    let column := Dict.ofList [("w", zeros [2, 1] rfl)]
    (trunkDeltaHash Platform.ideal two = trunkDeltaHash Platform.ideal one ∧ ¬ Same two one)
      ∧ (shardCid Platform.ideal halfCast row = shardCid Platform.ideal halfCast column
        ∧ ¬ Same (halfValues halfCast row) (halfValues halfCast column))
      ∧ ¬ LaneBinds Platform.ideal halfCast [row, column] := by
  intro empty two one row column
  have hrows : shardCid Platform.ideal halfCast row = shardCid Platform.ideal halfCast column := by
    decide +kernel
  have hshapes : ¬ Same (halfValues halfCast row) (halfValues halfCast column) := by
    intro h
    have hshape := congrArg (Option.map Tensor.shape) (h "w")
    exact absurd hshape (by decide +kernel)
  refine ⟨⟨by decide +kernel, fun h => ?_⟩, ⟨hrows, hshapes⟩, fun h => ?_⟩
  · exact absurd (congrArg Option.isSome (h "a")) (by decide +kernel)
  · exact hshapes (lane_binds_iff _ |>.mp h row (by simp) column (by simp) hrows)

theorem content_addresses_bind_row :
    LaneBinds Platform.ideal halfCast [Dict.ofList [("w", zeros [2] rfl)]] :=
  ((content_addresses_bind_iff Platform.ideal_collisionFree halfCast).2.2 _).mpr fun d hd d' hd' => by
    rw [List.mem_singleton.mp hd, List.mem_singleton.mp hd']
    exact Or.inl rfl

end NeuraHash.DeltaAddress
