import NeuraHash.Codec.Delta
import NeuraHash.Platform

/-!
# Decoding a compressed delta

Every array of the archive is found under its name, and the manifest is read as it was written.
So `decompressDelta` gives each tensor its shape, the multiples at the kept indices and zero
elsewhere, and what it gives and the residual sum to the tensor (`delta_round_trip_iff`).
-/

namespace NeuraHash

open Py NpFloat32

/-! ## The arrays of the archive -/

section archive

variable {T : PyText} {topkFraction : PyFloat} {bits : ℤ} {parts : List TensorParts}

theorem arrayName_injective {c d : Char} {i j : ℕ}
    (h : arrayName (String.ofList [c]) i = arrayName (String.ofList [d]) j) : c = d ∧ i = j := by
  have hchars := congrArg String.toList h
  unfold arrayName at hchars
  rw [String.toList_append, String.toList_append, String.toList_ofList, String.toList_ofList] at hchars
  obtain ⟨hletter, hnumber⟩ := List.cons.inj hchars
  exact ⟨hletter, Nat.repr_injective (String.toList_injective hnumber)⟩

/-- The names of the arrays of one tensor. -/
def tensorNames (i : ℕ) : List String := [arrayName "g" i, arrayName "v" i]

theorem g_ne_v (i j : ℕ) : arrayName "g" i ≠ arrayName "v" j := fun h =>
  absurd (arrayName_injective (c := 'g') (d := 'v') h).1 (by decide)

theorem tensorNames_disjoint {i j : ℕ} (h : i ≠ j) : List.Disjoint (tensorNames i) (tensorNames j) := by
  intro name hi hj
  unfold tensorNames at hi hj
  rw [List.mem_pair] at hi hj
  rcases hi with rfl | rfl <;> rcases hj with hj | hj
  · exact h (arrayName_injective (c := 'g') (d := 'g') hj).2
  · exact g_ne_v i j hj
  · exact g_ne_v j i hj.symm
  · exact h (arrayName_injective (c := 'v') (d := 'v') hj).2

/-- A name of an array of a tensor starts with one of two letters. -/
theorem tensorName_ne {i : ℕ} {name : String} (rest : String) (h : name ∈ tensorNames i) :
    name ≠ String.ofList ('_' :: rest.toList) := by
  intro heq
  have hhead := congrArg (fun s => s.toList.head?) heq
  unfold tensorNames at h
  rw [List.mem_pair] at h
  rcases h with rfl | rfl
  all_goals
    simp [arrayName] at hhead

/-- The members of the archive, in their order. -/
def archiveEntries (T : PyText) (topkFraction : PyFloat) (bits : ℤ) (parts : List TensorParts) :
    List (String × NpzArray) :=
  parts.zipIdx.flatMap (fun p => [(arrayName "g" p.2, p.1.gaps), (arrayName "v" p.2, p.1.values)])
    ++ [("_scales", .floats (parts.map fun p => ofFloat p.scale)),
      ("__manifest__", .ints .uint8 ((manifestBytes T
        (manifestOf topkFraction bits (parts.map TensorParts.info))).map fun b => (b.toNat : ℤ)))]

theorem archiveEntries_fst : (archiveEntries T topkFraction bits parts).map Prod.fst
    = (List.range parts.length).flatMap tensorNames ++ ["_scales", "__manifest__"] := by
  unfold archiveEntries
  rw [List.map_append, List.map_flatMap]
  have hrange : parts.zipIdx.map Prod.snd = List.range parts.length := by
    rw [List.zipIdx_map_snd, List.range_eq_range']
  rw [← hrange, List.flatMap_map]
  rfl

/-- No two arrays have one name. -/
theorem nodup_archiveEntries : ((archiveEntries T topkFraction bits parts).map Prod.fst).Nodup := by
  rw [archiveEntries_fst]
  refine List.nodup_append.mpr ⟨List.nodup_flatMap.mpr ⟨fun i _ => ?_, ?_⟩, by decide, ?_⟩
  · exact List.nodup_cons.mpr ⟨fun h => g_ne_v i i (List.mem_singleton.mp h), List.nodup_singleton _⟩
  · exact List.nodup_range.imp fun h => tensorNames_disjoint h
  · intro a ha b hb hab
    subst hab
    obtain ⟨i, -, hi⟩ := List.mem_flatMap.mp ha
    rw [List.mem_pair] at hb
    rcases hb with rfl | rfl
    · exact tensorName_ne "scales" hi rfl
    · exact tensorName_ne "_manifest__" hi rfl

/-- **An array is found under its name.** -/
theorem arrayAt_archiveOf {name : String} {x : NpzArray}
    (h : (name, x) ∈ archiveEntries T topkFraction bits parts) :
    arrayAt (archiveOf T topkFraction bits parts) name = .ok x := by
  have hget : (archiveOf T topkFraction bits parts).get? name = some x := by
    rw [← Dict.mem_entries_iff]
    exact (Dict.entries_ofList nodup_archiveEntries).symm ▸ h
  unfold arrayAt
  rw [hget]

variable {i : ℕ} {p : TensorParts}

theorem arrayAt_gaps (h : parts[i]? = some p) :
    arrayAt (archiveOf T topkFraction bits parts) (arrayName "g" i) = .ok p.gaps := by
  refine arrayAt_archiveOf (List.mem_append_left _ (List.mem_flatMap.mpr ⟨(p, i), ?_, by simp⟩))
  exact List.mk_mem_zipIdx_iff_getElem?.mpr h

theorem arrayAt_values (h : parts[i]? = some p) :
    arrayAt (archiveOf T topkFraction bits parts) (arrayName "v" i) = .ok p.values := by
  refine arrayAt_archiveOf (List.mem_append_left _ (List.mem_flatMap.mpr ⟨(p, i), ?_, by simp⟩))
  exact List.mk_mem_zipIdx_iff_getElem?.mpr h

theorem arrayAt_scales : arrayAt (archiveOf T topkFraction bits parts) "_scales"
    = .ok (.floats (parts.map fun p => ofFloat p.scale)) :=
  arrayAt_archiveOf (List.mem_append_right _ (by simp))

theorem scaleAt_scales (h : parts[i]? = some p) :
    scaleAt (.floats (parts.map fun p => ofFloat p.scale)) i = .ok (ofFloat p.scale) := by
  unfold scaleAt NpzArray.toFloats
  dsimp only
  rw [List.getElem?_map, h]
  rfl

/-! ## The manifest -/

theorem tobytes_bytes (b : Bytes) :
    (NpzArray.ints .uint8 (b.map fun x => (x.toNat : ℤ))).tobytes = b := by
  unfold NpzArray.tobytes
  dsimp only
  rw [List.flatMap_map]
  refine (List.flatMap_congr fun x _ => ?_).trans (List.flatMap_singleton' b)
  have hx : x.toNat < 256 := x.toNat_lt
  have hbyte : ((x.toNat : ℤ) % 2 ^ 32 / 256 ^ 0 % 256).toNat = x.toNat := by
    rw [pow_zero, Int.ediv_one, Int.emod_eq_of_lt (by omega) (by omega),
      Int.emod_eq_of_lt (by omega) (by omega), Int.toNat_natCast]
  show [((x.toNat : ℤ) % 2 ^ 32 / 256 ^ 0 % 256).toNat.toUInt8] = [x]
  rw [hbyte]
  simp

/-- **The manifest is read as it was written.** -/
theorem deltaManifest_archiveOf : deltaManifest T (archiveOf T topkFraction bits parts)
    = .ok (manifestOf topkFraction bits (parts.map TensorParts.info)) := by
  have hmanifest : arrayAt (archiveOf T topkFraction bits parts) "__manifest__" = .ok _ :=
    arrayAt_archiveOf (List.mem_append_right _ (List.mem_cons_of_mem _ List.mem_cons_self))
  have hblank : ∀ c ∈ [' '], Json.isBlank c = true := fun c hc => by
    rw [List.mem_singleton.mp hc]
    rfl
  unfold deltaManifest
  rw [hmanifest, ok_bind, tobytes_bytes]
  unfold manifestBytes
  rw [decodeUtf8_utf8]
  exact Json.loads_render T hblank _

theorem manifest_magic (infos : List Json) :
    (manifestOf topkFraction bits infos).getD "magic" .null = .ok (.str "NHQ8") := by
  unfold manifestOf
  split <;> rfl

theorem manifest_version (infos : List Json) :
    (manifestOf topkFraction bits infos).getD "version" (.int 0)
      = .ok (.int (if bits = 4 then 2 else 1)) := by
  unfold manifestOf
  split <;> rfl

theorem manifest_bits (infos : List Json) :
    (manifestOf topkFraction bits infos).getD "bits" (.int 8)
      = .ok (.int (if bits = 4 then 4 else 8)) := by
  unfold manifestOf
  split <;> rfl

theorem manifest_tensors (infos : List Json) :
    (manifestOf topkFraction bits infos).item "tensors" = .ok (.arr infos) := by
  unfold manifestOf
  split <;> rfl

end archive

/-! ## One tensor -/

section tensor

variable {T : PyText} {topkFraction : PyFloat} {bits : ℤ} {parts : List TensorParts}
  {name : String} {t : Tensor NpFloat32} {z : Quantized} {p : TensorParts} {recon : List NpFloat32}

/-- The entry of the manifest. -/
def infoOf (name : String) (shape : List ℕ) (nnz : ℕ) : Json :=
  .obj [("name", .str name), ("shape", .arr (shape.map fun d : ℕ => .int d)), ("nnz", .int nnz)]

theorem dimsOf_shape (shape : List ℕ) : dimsOf (.arr (shape.map fun d : ℕ => .int d)) = .ok shape := by
  have hdim : ∀ d : ℕ, (if (0 : ℤ) ≤ d then .ok (d : ℤ).toNat else .error .valueError)
      = (.ok d : Except PyErr ℕ) := fun d => by
    rw [if_pos (Int.natCast_nonneg d), Int.toNat_natCast]
  unfold dimsOf
  rw [show (Json.arr (shape.map fun d : ℕ => .int d)).toList = .ok (shape.map fun d : ℕ => .int d) from rfl,
    ok_bind]
  induction shape with
  | nil => rfl
  | cons d shape ih =>
    rw [List.map_cons, List.mapM_cons, ih]
    exact congrArg (· >>= fun n => .ok (n :: shape)) (hdim d)

/-- What is stored of a tensor. -/
structure Coded (bits : ℤ) (name : String) (t : Tensor NpFloat32) (z : Quantized)
    (recon : List NpFloat32) (p : TensorParts) : Prop where
  keptIn : KeptIn t.data.length z
  small : ∀ i ∈ z.idx, i < 2 ^ 31
  gaps_eq : p.gaps = .ints (gapType (gapsOf z.idx)) (gapsOf z.idx)
  values_eq : p.values = if bits = 8 then .ints .int8 z.q else .ints .uint8 (packInt4 z.q)
  scale_eq : p.scale = z.scale
  info_eq : p.info = infoOf name t.shape z.idx.length
  recon_at : Assigned (zeros t.data.length) z.idx (z.q.map (dequantized z.scale)) recon
  residual_shape : p.residual.shape = t.shape
  residual_data : p.residual.data = List.zipWith (· - ·) t.data recon

theorem le_getLast {idx : List ℕ} (h : idx.Pairwise (· < ·)) {b : ℕ}
    (hlast : idx.getLast?.any (fun i => decide (b ≤ i)) ≠ true) : ∀ i ∈ idx, i < b := by
  intro i hi
  have hne := List.ne_nil_of_mem hi
  have hlt : ¬ b ≤ idx.getLast hne := by
    intro hge
    rw [List.getLast?_eq_getLast_of_ne_nil hne] at hlast
    exact hlast (decide_eq_true hge)
  have hle : i ≤ idx.getLast hne := by
    rcases List.mem_iff_getElem.mp hi with ⟨j, hj, rfl⟩
    rw [List.getLast_eq_getElem]
    rcases Nat.lt_or_ge j (idx.length - 1) with hlt' | hge'
    · exact (List.pairwise_iff_getElem.mp h j (idx.length - 1) hj (by omega) hlt').le
    · have heq : j = idx.length - 1 := by omega
      simp only [heq, Nat.le_refl]
  omega

theorem coded_of_run {nanByte : BitVec 8} {chunk : ℕ} (hchunk : 1 ≤ chunk)
    (h : compressTensor nanByte chunk topkFraction bits name t = .ok p) :
    ∃ z recon, quantizeTopk (onInt8Grid nanByte) chunk t.contiguous.data topkFraction bits = .ok z ∧
      Coded bits name t.contiguous z recon p := by
  unfold compressTensor at h
  obtain ⟨z, hrun, h⟩ := bind_eq_ok.mp h
  have hkept := keptIn_of_run hchunk hrun
  by_cases hlast : (z.idx.getLast?.any fun i => decide (2 ^ 31 ≤ i)) = true
  · rw [if_pos hlast] at h
    cases h
  rw [if_neg hlast] at h
  have hsmall := le_getLast hkept.ascending hlast
  obtain ⟨recon, hassign, hat⟩ := exists_assigned (zeros t.contiguous.data.length)
    (z.q.map (dequantized z.scale))
    (hkept.ascending.imp fun h => Nat.ne_of_lt h)
    (by rw [zeros, List.length_replicate]; exact hkept.inside)
    (by rw [List.length_map]; exact hkept.length_q)
  have hlen : recon.length = t.contiguous.data.length := by
    rw [hat.length_eq, zeros, List.length_replicate]
  dsimp only at h
  rw [hassign, ok_bind, dif_pos hlen] at h
  cases h
  exact ⟨z, recon, hrun, hkept, hsmall,
    congrArg (NpzArray.ints _) (wrap_gaps hkept.ascending hsmall), rfl, rfl, rfl, hat, rfl, rfl⟩

/-- The multiples as they are read back. -/
def storedMultiples (bits : ℤ) (z : Quantized) : List ℤ :=
  if bits = 8 then z.q else unpackInt4 (packInt4 z.q) z.idx.length

theorem length_storedMultiples (h : z.q.length = z.idx.length) :
    (storedMultiples bits z).length = z.idx.length := by
  unfold storedMultiples
  split
  · exact h
  · have := two_mul_length_packInt4 z.q
    rw [length_unpackInt4]
    omega

theorem mem_unpackInt4 {packed : List ℤ} {nnz q : ℤ} (h : q ∈ unpackInt4 packed nnz) :
    -7 ≤ q ∧ q ≤ 8 := by
  unfold unpackInt4 upTo at h
  obtain ⟨x, hx, rfl⟩ := List.mem_map.mp h
  obtain ⟨byte, -, hx⟩ := List.mem_flatMap.mp (List.mem_of_mem_take hx)
  rw [List.mem_pair] at hx
  omega

/-- **The multiples are read back**, or they are all of zero. -/
theorem map_storedMultiples {nanByte : BitVec 8} {a : List NpFloat32}
    (hfinite : ∀ x ∈ a, x.isFinite = true) (hbits : bits = 4 ∨ bits = 8)
    (hrun : QuantizedAs (onInt8Grid nanByte) a bits z) (hkept : KeptIn a.length z) :
    (storedMultiples bits z).map (dequantized z.scale) = z.q.map (dequantized z.scale) := by
  unfold storedMultiples
  rcases hbits with rfl | rfl
  · rw [if_neg (by decide), ← hkept.length_q]
    rcases nibble_of_quantizedAs hfinite hrun with hsmall | ⟨hscale, hsmall⟩
    · rw [unpackInt4_packInt4 hsmall]
    · have hleft : (unpackInt4 (packInt4 z.q) z.q.length).map (dequantized z.scale)
          = List.replicate z.q.length (ofRat 0) := by
        refine List.eq_replicate_iff.mpr ⟨?_, fun x hx => ?_⟩
        · have := two_mul_length_packInt4 z.q
          rw [List.length_map, length_unpackInt4]
          omega
        · obtain ⟨q, hq, rfl⟩ := List.mem_map.mp hx
          have := mem_unpackInt4 hq
          exact dequantized_of_zero hscale (by omega)
      have hright : z.q.map (dequantized z.scale) = List.replicate z.q.length (ofRat 0) := by
        refine List.eq_replicate_iff.mpr ⟨List.length_map _, fun x hx => ?_⟩
        obtain ⟨q, hq, rfl⟩ := List.mem_map.mp hx
        exact dequantized_of_zero hscale (hsmall q hq)
      rw [hleft, hright]
  · rw [if_pos rfl]

variable {i : ℕ}

variable (T topkFraction) in
/-- **The kept entries are read back**, at their indices. -/
theorem exists_keptEntries (hbits : bits = 4 ∨ bits = 8) (hcoded : Coded bits name t z recon p)
    (hpart : parts[i]? = some p) :
    ∃ flat, keptEntries (archiveOf T topkFraction bits parts)
        (.floats (parts.map fun p => ofFloat p.scale)) bits i z.idx.length t.data.length = .ok flat ∧
      Assigned (zeros t.data.length) z.idx ((storedMultiples bits z).map (dequantized z.scale)) flat := by
  have hlength : (storedMultiples bits z).length = z.idx.length :=
    length_storedMultiples hcoded.keptIn.length_q
  unfold keptEntries
  split
  · next hnone =>
    have hidx : z.idx = [] := List.length_eq_zero_iff.mp (by exact_mod_cast hnone)
    have hq : storedMultiples bits z = [] := List.length_eq_zero_iff.mp (by rw [hlength, hidx]; rfl)
    refine ⟨_, rfl, ?_⟩
    rw [hidx, hq]
    exact assigned_nil
  · obtain ⟨flat, hassign, hat⟩ := exists_assigned (zeros t.data.length)
      ((storedMultiples bits z).map (dequantized z.scale))
      (hcoded.keptIn.ascending.imp fun h => Nat.ne_of_lt h)
      (by rw [zeros, List.length_replicate]; exact hcoded.keptIn.inside)
      (by rw [List.length_map]; exact hlength)
    refine ⟨flat, ?_, hat⟩
    rw [arrayAt_gaps hpart, ok_bind, arrayAt_values hpart, ok_bind, scaleAt_scales hpart, ok_bind,
      hcoded.gaps_eq, hcoded.values_eq, hcoded.scale_eq]
    have hvalues : (if bits = 8 then
          (if bits = 8 then NpzArray.ints .int8 z.q else .ints .uint8 (packInt4 z.q)).toFloats
        else (NpzArray.ints .int8 (unpackInt4
          (if bits = 8 then NpzArray.ints .int8 z.q else .ints .uint8 (packInt4 z.q)).toInts
            z.idx.length)).toFloats)
        = (storedMultiples bits z).map fun n : ℤ => ofRat n := by
      unfold storedMultiples
      rcases hbits with rfl | rfl <;> rfl
    rw [hvalues, List.map_map]
    exact (congrArg (fun ns => assignAt _ ns _) (runningSums_gapsOf z.idx)).trans hassign

theorem item_info (name : String) (shape : List ℕ) (nnz : ℕ) :
    (infoOf name shape nnz).item "name" = .ok (.str name) ∧
      (infoOf name shape nnz).item "shape" = .ok (.arr (shape.map fun d : ℕ => .int d)) ∧
      (infoOf name shape nnz).item "nnz" = .ok (.int nnz) := ⟨rfl, rfl, rfl⟩

variable (T topkFraction) in
/-- **A tensor is decoded** under its name and with its shape. -/
theorem exists_decompressTensor (hbits : bits = 4 ∨ bits = 8)
    (hcoded : Coded bits name t z recon p) (hpart : parts[i]? = some p) :
    ∃ d, decompressTensor T (archiveOf T topkFraction bits parts)
        (.floats (parts.map fun p => ofFloat p.scale)) bits i p.info = .ok (.str name, d) ∧
      d.shape = t.shape ∧ Assigned (zeros t.data.length) z.idx
        ((storedMultiples bits z).map (dequantized z.scale)) d.data := by
  obtain ⟨flat, hentries, hat⟩ := exists_keptEntries T topkFraction hbits
    hcoded hpart
  obtain ⟨hname, hshape, hnnz⟩ := item_info name t.shape z.idx.length
  have hlen : flat.length = t.shape.prod := by
    rw [hat.length_eq, zeros, List.length_replicate, t.length_data]
  refine ⟨⟨t.shape, flat, hlen⟩, ?_, rfl, hat⟩
  unfold decompressTensor
  rw [hcoded.info_eq, hname, ok_bind, hshape, ok_bind, dimsOf_shape, ok_bind, hnnz, ok_bind,
    show Json.toInt T (.int z.idx.length) = .ok (z.idx.length : ℤ) from rfl, ok_bind,
    show keptEntries _ _ _ _ _ t.shape.prod = .ok flat from t.length_data ▸ hentries, ok_bind]
  rw [dif_pos hlen]
  rfl

end tensor

/-! ## All tensors -/

section run

variable {Payload : Type} {T : PyText} {F : Npz Payload} {nanByte : BitVec 8} {chunk : ℕ}
  {delta : Dict String (Tensor NpFloat32)} {topkFraction : PyFloat} {returnResidual : Bool} {bits : ℤ}
  {payload : Payload} {residual : Option (Dict String (Tensor NpFloat32))}

/-- What `compress_delta` has done when it returns. -/
theorem parts_of_run (h : compressDelta T F nanByte chunk delta topkFraction returnResidual bits
      = .ok (payload, residual)) :
    (bits = 4 ∨ bits = 8) ∧ ∃ parts,
      List.Forall₂ (fun e p => compressTensor nanByte chunk topkFraction bits e.1 e.2 = .ok p)
        delta.entries parts ∧
      payload = F.savezCompressed (archiveOf T topkFraction bits parts) ∧
      residual = if returnResidual then
        some (Dict.ofList (delta.keys.zip (parts.map TensorParts.residual))) else none := by
  unfold compressDelta at h
  by_cases hbits : bits ≠ 4 ∧ bits ≠ 8
  · rw [if_pos hbits] at h
    cases h
  rw [if_neg hbits] at h
  obtain ⟨parts, hparts, h⟩ := bind_eq_ok.mp h
  cases h
  exact ⟨by omega, parts, forall₂_of_mapM hparts, rfl, rfl⟩

/-- What `decompress_delta` gives of a tensor: its shape, the multiples at the kept indices, and zero
elsewhere. -/
structure Decoded (t : Tensor NpFloat32) (z : Quantized) (d : Tensor NpFloat32) : Prop where
  shape_eq : d.shape = t.shape
  at_index : ∀ (j i : ℕ) (q : ℤ), z.idx[j]? = some i → z.q[j]? = some q →
    d.data[i]? = some (dequantized z.scale q)
  elsewhere : ∀ i : ℕ, i < t.data.length → i ∉ z.idx → d.data[i]? = some zero32

theorem Assigned.unique {flat values r r' : List NpFloat32} {idx : List ℕ}
    (h : Assigned flat idx values r) (h' : Assigned flat idx values r') : r = r' := by
  refine List.ext_getElem? fun i => ?_
  by_cases hi : i ∈ idx
  · obtain ⟨j, hj, rfl⟩ := List.mem_iff_getElem.mp hi
    rw [h.at_index j hj, h'.at_index j hj]
  · rw [h.elsewhere i hi, h'.elsewhere i hi]

theorem decoded_of_assigned {t d : Tensor NpFloat32} {z : Quantized} (hshape : d.shape = t.shape)
    (h : Assigned (zeros t.data.length) z.idx (z.q.map (dequantized z.scale)) d.data) :
    Decoded t z d where
  shape_eq := hshape
  at_index := by
    intro j i q hj hq
    obtain ⟨hlt, rfl⟩ := List.getElem?_eq_some_iff.mp hj
    rw [h.at_index j hlt, List.getElem?_map, hq]
    rfl
  elsewhere := by
    intro i hi hmem
    rw [h.elsewhere i hmem, zeros, List.getElem?_replicate, if_pos hi]

/-- Items at one place of related lists are related. -/
theorem related_at {α β : Type} {R : α → β → Prop} {l : List α} {l' : List β}
    (h : List.Forall₂ R l l') {i : ℕ} {a : α} {b : β} (ha : l[i]? = some a) (hb : l'[i]? = some b) :
    R a b := by
  refine List.forall₂_zip h (List.mem_iff_getElem?.mpr ⟨i, ?_⟩)
  exact List.getElem?_zip_eq_some.mpr ⟨ha, hb⟩

variable (T topkFraction) in
/-- What the loop of `decompress_delta` collects. -/
theorem exists_outs (hbits : bits = 4 ∨ bits = 8) {parts : List TensorParts}
    (entries : List (String × Tensor NpFloat32)) (hlen : entries.length = parts.length)
    (hcoded : ∀ (i : ℕ) e p, entries[i]? = some e → parts[i]? = some p →
      ∃ z recon, Coded bits e.1 e.2 z recon p) :
    ∃ outs : List (Key × Tensor NpFloat32),
      (parts.map TensorParts.info).zipIdx.mapM (fun p => decompressTensor T
        (archiveOf T topkFraction bits parts) (.floats (parts.map fun p => ofFloat p.scale)) bits
        p.2 p.1) = .ok outs ∧
      outs.length = entries.length ∧
      ∀ (i : ℕ) e p o z recon, entries[i]? = some e → parts[i]? = some p → outs[i]? = some o →
        Coded bits e.1 e.2 z recon p → o.1 = .str e.1 ∧ o.2.shape = e.2.shape ∧
          Assigned (zeros e.2.data.length) z.idx
            ((storedMultiples bits z).map (dequantized z.scale)) o.2.data := by
  have hinfos : ∀ (i : ℕ) p, parts[i]? = some p →
      (parts.map TensorParts.info).zipIdx[i]? = some (p.info, i) := by
    intro i p hp
    rw [List.getElem?_zipIdx, List.getElem?_map, hp]
    exact congrArg some (Prod.ext rfl (Nat.zero_add i))
  obtain ⟨outs, houts⟩ := (exists_mapM_eq_ok (f := fun p : Json × ℕ => decompressTensor T
      (archiveOf T topkFraction bits parts) (.floats (parts.map fun p => ofFloat p.scale)) bits p.2 p.1)
      (l := (parts.map TensorParts.info).zipIdx)).mpr fun x hx => by
    obtain ⟨i, hi⟩ := List.mem_iff_getElem?.mp hx
    have hlt := (List.getElem?_eq_some_iff.mp hi).1
    rw [List.length_zipIdx, List.length_map] at hlt
    have hpart : parts[i]? = some parts[i] := List.getElem?_eq_getElem hlt
    have hentry : entries[i]? = some entries[i] := List.getElem?_eq_getElem (hlen ▸ hlt)
    obtain ⟨z, recon, hcoded⟩ := hcoded i _ _ hentry hpart
    obtain ⟨d, hrun, -, -⟩ := exists_decompressTensor T topkFraction hbits
      hcoded hpart
    rw [hinfos i _ hpart] at hi
    rw [← Option.some.inj hi]
    exact ⟨_, hrun⟩
  have hsteps := forall₂_of_mapM houts
  refine ⟨outs, houts, ?_, fun i e p o z recon _ hp ho hcoded => ?_⟩
  · rw [← hsteps.length_eq, List.length_zipIdx, List.length_map, hlen]
  · obtain ⟨d, hrun, hshape, hat⟩ := exists_decompressTensor T topkFraction
      hbits hcoded hp
    have hstep := related_at hsteps (hinfos i p hp) ho
    obtain rfl := Except.ok.inj (hrun.symm.trans hstep)
    exact ⟨rfl, hshape, hat⟩

/-- **The payload is decoded**, whatever the shapes and the entries. -/
theorem decompress_of_run (hF : F.Faithful) (hchunk : 1 ≤ chunk)
    (h : compressDelta T F nanByte chunk delta topkFraction returnResidual bits
      = .ok (payload, residual)) :
    ∃ out, decompressDelta T F payload = .ok out ∧ out.keys = delta.keys.map Key.str ∧
      (∀ left, residual = some left → left.keys = delta.keys) ∧
      ∀ name t, delta.get? name = some t → ∃ d z recon p, out.get? (.str name) = some d ∧
        quantizeTopk (onInt8Grid nanByte) chunk t.contiguous.data topkFraction bits = .ok z ∧
        Coded bits name t.contiguous z recon p ∧ d.shape = t.contiguous.shape ∧
        Assigned (zeros t.contiguous.data.length) z.idx
          ((storedMultiples bits z).map (dequantized z.scale)) d.data ∧
        ∀ left, residual = some left → left.get? name = some p.residual := by
  obtain ⟨hbits, parts, hparts, rfl, rfl⟩ := parts_of_run h
  have hlen : delta.entries.length = parts.length := hparts.length_eq
  have hpartAt : ∀ (i : ℕ) e, delta.entries[i]? = some e → ∃ p, parts[i]? = some p := by
    intro i e he
    have hlt := (List.getElem?_eq_some_iff.mp he).1
    exact ⟨_, List.getElem?_eq_getElem (hlen ▸ hlt)⟩
  -- what is decoded, tensor by tensor
  obtain ⟨outs, houts, hcount, hout⟩ := exists_outs T topkFraction hbits
    (delta.entries.map fun e => (e.1, e.2.contiguous)) (by rw [List.length_map, hlen])
    fun i e p he hp => by
      rw [List.getElem?_map] at he
      obtain ⟨e', he', rfl⟩ := Option.map_eq_some_iff.mp he
      obtain ⟨z, recon, -, hcoded⟩ := coded_of_run hchunk (related_at hparts he' hp)
      exact ⟨z, recon, hcoded⟩
  rw [List.length_map] at hcount
  have hcontiguous : ∀ (i : ℕ) e, delta.entries[i]? = some e →
      (delta.entries.map fun e => (e.1, e.2.contiguous))[i]? = some (e.1, e.2.contiguous) := by
    intro i e he
    rw [List.getElem?_map, he]
    rfl
  have hkeys : outs.map Prod.fst = delta.keys.map Key.str := by
    refine List.ext_getElem? fun i => ?_
    unfold Dict.keys
    rw [List.map_map, List.getElem?_map, List.getElem?_map]
    rcases Nat.lt_or_ge i delta.entries.length with hlt | hge
    · have he : delta.entries[i]? = some delta.entries[i] := List.getElem?_eq_getElem hlt
      have ho : outs[i]? = some outs[i] := List.getElem?_eq_getElem (hcount ▸ hlt)
      obtain ⟨p, hp⟩ := hpartAt i _ he
      obtain ⟨z, recon, -, hcoded⟩ := coded_of_run hchunk (related_at hparts he hp)
      rw [ho, he]
      exact congrArg some (hout i _ p _ z recon (hcontiguous i _ he) hp ho hcoded).1
    · rw [List.getElem?_eq_none (hcount ▸ hge), List.getElem?_eq_none hge]
      rfl
  have hnodup : (outs.map Prod.fst).Nodup := by
    rw [hkeys]
    exact delta.nodup.map fun _ _ => Key.str.inj
  have hentries := Dict.entries_ofList hnodup
  have hzip : (delta.keys.zip (parts.map TensorParts.residual)).map Prod.fst = delta.keys :=
    List.map_fst_zip (by rw [Dict.keys, List.length_map, List.length_map, hlen])
  have hleft : (Dict.ofList (delta.keys.zip (parts.map TensorParts.residual))).entries
      = delta.keys.zip (parts.map TensorParts.residual) :=
    Dict.entries_ofList (hzip.symm ▸ delta.nodup)
  refine ⟨Dict.ofList outs, ?_, ?_, fun left hres => ?_, fun name t ht => ?_⟩
  · unfold decompressDelta
    rw [hF, ok_bind, deltaManifest_archiveOf, ok_bind, manifest_magic, ok_bind,
      if_neg (by rw [Json.pyEq_str_right]; exact not_not_intro rfl), manifest_version, ok_bind]
    have hversion : Json.toInt T (.int (if bits = 4 then 2 else 1)) = .ok (if bits = 4 then 2 else 1) :=
      rfl
    have hwidth : Json.toInt T (.int (if bits = 4 then 4 else 8)) = .ok bits := by
      rcases hbits with rfl | rfl <;> rfl
    rw [hversion, ok_bind, if_neg (by split <;> decide), manifest_bits, ok_bind, hwidth, ok_bind,
      if_neg (by omega), arrayAt_scales, ok_bind, manifest_tensors, ok_bind,
      show (Json.arr (parts.map TensorParts.info)).toList = .ok (parts.map TensorParts.info) from rfl,
      ok_bind, houts]
    rfl
  · unfold Dict.keys
    rw [hentries, hkeys]
    rfl
  · split at hres
    · cases hres
      exact (congrArg (List.map Prod.fst) hleft).trans hzip
    · cases hres
  · obtain ⟨i, hi⟩ := List.mem_iff_getElem?.mp (Dict.mem_entries_iff.mpr ht)
    obtain ⟨p, hp⟩ := hpartAt i _ hi
    obtain ⟨z, recon, hrun, hcoded⟩ := coded_of_run hchunk (related_at hparts hi hp)
    have hlt := (List.getElem?_eq_some_iff.mp hi).1
    have ho : outs[i]? = some outs[i] := List.getElem?_eq_getElem (hcount ▸ hlt)
    obtain ⟨hname, hshape, hat⟩ := hout i _ p _ z recon
      (hcontiguous i _ hi) hp ho hcoded
    refine ⟨outs[i].2, z, recon, p, ?_, hrun, hcoded, hshape, hat, fun left hres => ?_⟩
    · rw [← Dict.mem_entries_iff, hentries]
      exact List.mem_iff_getElem?.mpr ⟨i, ho.trans (congrArg some (Prod.ext hname rfl))⟩
    · split at hres
      · cases hres
        rw [← Dict.mem_entries_iff, hleft]
        refine List.mem_iff_getElem?.mpr ⟨i, List.getElem?_zip_eq_some.mpr ⟨?_, ?_⟩⟩
        · rw [Dict.keys, List.getElem?_map, hi]
          rfl
        · rw [List.getElem?_map, hp]
          rfl
      · cases hres

/-- The payload decodes to what was sent, and what the payload leaves out is in the residual. -/
def RoundTrips (decoded : Except PyErr (Dict Key (Tensor NpFloat32)))
    (quantized : Tensor NpFloat32 → Except PyErr Quantized)
    (delta : Dict String (Tensor NpFloat32)) (residual : Option (Dict String (Tensor NpFloat32))) :
    Prop :=
  ∃ out, decoded = .ok out ∧ out.keys = delta.keys.map Key.str ∧
    (∀ name t, delta.get? name = some t →
      ∃ d z, out.get? (.str name) = some d ∧ quantized t = .ok z ∧ Decoded t z d) ∧
    ∀ left, residual = some left → left.keys = delta.keys ∧
      ∀ name t, delta.get? name = some t → ∃ d r, out.get? (.str name) = some d ∧
        left.get? name = some r ∧ r.shape = t.shape ∧ ∀ i < t.data.length,
          (d.data.getD i zero32).toFloat + (r.data.getD i zero32).toFloat
            = (t.data.getD i zero32).toFloat

theorem residual_getD {a recon : List NpFloat32} (hlen : recon.length = a.length) {i : ℕ}
    (hi : i < a.length) : (List.zipWith (· - ·) a recon).getD i zero32
      = a.getD i zero32 - recon.getD i zero32 := by
  have hzip : (List.zipWith (· - ·) a recon)[i]? = some (a[i] - recon.get ⟨i, hlen ▸ hi⟩) := by
    rw [List.getElem?_zipWith, List.getElem?_eq_getElem hi, List.getElem?_eq_getElem (hlen ▸ hi)]
    rfl
  rw [List.getD_eq_getElem?_getD, hzip, List.getD_eq_getElem _ _ hi,
    List.getD_eq_getElem _ _ (hlen ▸ hi)]
  rfl

/-- What is decoded of a tensor, and when the residual is the rest of it. -/
theorem decoded_and_rest {name : String} {t d : Tensor NpFloat32} {z : Quantized}
    {recon : List NpFloat32} {p : TensorParts} (hfinite : ∀ x ∈ t.data, x.isFinite = true)
    (hchunk : 1 ≤ chunk)
    (hrun : quantizeTopk (onInt8Grid nanByte) chunk t.data topkFraction bits = .ok z)
    (hcoded : Coded bits name t z recon p) (hshape : d.shape = t.shape)
    (hat : Assigned (zeros t.data.length) z.idx
      ((storedMultiples bits z).map (dequantized z.scale)) d.data) :
    Decoded t z d ∧
      ((∀ i < t.data.length, (d.data.getD i zero32).toFloat + (p.residual.data.getD i zero32).toFloat
          = (t.data.getD i zero32).toFloat) ↔
        (bits = 8 → ∀ x ∈ t.data, x.magnitude ≠ largest)) := by
  obtain ⟨hbits, hquantized⟩ := quantizedAs_of_run hchunk hfinite hrun
  rw [map_storedMultiples hfinite hbits hquantized hcoded.keptIn] at hat
  have hdata : d.data = recon := hat.unique hcoded.recon_at
  have hlen : recon.length = t.data.length := by
    rw [hcoded.recon_at.length_eq, zeros, List.length_replicate]
  refine ⟨decoded_of_assigned hshape hat, ?_⟩
  rw [← sumsTo_iff hfinite hquantized hcoded.keptIn hcoded.recon_at, hdata, hcoded.residual_data]
  refine forall_congr' fun i => imp_congr_right fun hi => ?_
  have hcomm : Std.Commutative (fun x y : PyFloat => x + y) := inferInstance
  rw [residual_getD hlen hi, hcomm.comm (recon.getD i zero32).toFloat]
  rfl

section finite

variable (hF : F.Faithful) (hchunk : 1 ≤ chunk)
  (hshape : ∀ name t, delta.get? name = some t → t.shape ≠ [])
  (hfinite : ∀ name t, delta.get? name = some t → ∀ x ∈ t.data, x.isFinite = true)
  (h : compressDelta T F nanByte chunk delta topkFraction returnResidual bits
    = .ok (payload, residual))

include hF hchunk hshape hfinite h

theorem tensors_of_run : ∃ out, decompressDelta T F payload = .ok out ∧
    out.keys = delta.keys.map Key.str ∧ (∀ left, residual = some left → left.keys = delta.keys) ∧
    ∀ name t, delta.get? name = some t → ∃ d z r, out.get? (.str name) = some d ∧
      quantizeTopk (onInt8Grid nanByte) chunk t.data topkFraction bits = .ok z ∧ Decoded t z d ∧
      (∀ left, residual = some left → left.get? name = some r) ∧ r.shape = t.shape ∧
      ((∀ i < t.data.length, (d.data.getD i zero32).toFloat + (r.data.getD i zero32).toFloat
          = (t.data.getD i zero32).toFloat) ↔
        (bits = 8 → ∀ x ∈ t.data, x.magnitude ≠ largest)) := by
  obtain ⟨out, hout, hkeys, hleft, htensors⟩ := decompress_of_run hF hchunk h
  refine ⟨out, hout, hkeys, hleft, fun name t ht => ?_⟩
  obtain ⟨d, z, recon, p, hget, hrun, hcoded, hd, hat, hrest⟩ := htensors name t ht
  rw [Tensor.contiguous_of_ne_nil (hshape name t ht)] at hrun hcoded hd hat
  obtain ⟨hdecoded, hexact⟩ := decoded_and_rest (hfinite name t ht) hchunk hrun hcoded hd hat
  exact ⟨d, z, p.residual, hget, hrun, hdecoded, hrest, hcoded.residual_shape, hexact⟩

/-- A residual that is exact leaves the largest number out. -/
theorem ne_largest_of_roundTrips (hreturn : returnResidual = true)
    (hround : RoundTrips (decompressDelta T F payload)
      (fun t => quantizeTopk (onInt8Grid nanByte) chunk t.data topkFraction bits) delta residual)
    (hbits : bits = 8) {name : String} {t : Tensor NpFloat32} (ht : delta.get? name = some t) :
    ∀ x ∈ t.data, x.magnitude ≠ largest := by
  obtain ⟨-, parts, -, -, hresidual⟩ := parts_of_run h
  obtain ⟨out, hout, -, -, htensor⟩ := tensors_of_run hF hchunk hshape hfinite h
  obtain ⟨out', hout', -, -, hrest⟩ := hround
  obtain rfl := Except.ok.inj (hout.symm.trans hout')
  rw [if_pos hreturn] at hresidual
  obtain ⟨d, z, r, hget, -, -, hr, -, hexact⟩ := htensor name t ht
  obtain ⟨d', r', hget', hr', -, hsum⟩ := (hrest _ hresidual).2 name t ht
  obtain rfl := Option.some.inj (hget.symm.trans hget')
  obtain rfl := Option.some.inj ((hr _ hresidual).symm.trans hr')
  exact hexact.mp hsum hbits

/-- **Decoding inverts encoding**, and the residual is exact unless it is asked for with eight bits a
value and an entry is the largest number there is. -/
theorem delta_round_trip_iff :
    RoundTrips (decompressDelta T F payload)
        (fun t => quantizeTopk (onInt8Grid nanByte) chunk t.data topkFraction bits) delta residual ↔
      (returnResidual = true → bits = 8 →
        ∀ name t, delta.get? name = some t → ∀ x ∈ t.data, x.magnitude ≠ largest) := by
  constructor
  · intro hround hreturn hbits name t ht
    exact ne_largest_of_roundTrips hF hchunk hshape hfinite h hreturn hround hbits ht
  · intro hcondition
    obtain ⟨-, parts, -, -, hresidual⟩ := parts_of_run h
    obtain ⟨out, hout, hkeys, hleft, htensor⟩ := tensors_of_run hF hchunk hshape hfinite h
    refine ⟨out, hout, hkeys, fun name t ht => ?_, fun left hres => ⟨hleft left hres, fun name t ht => ?_⟩⟩
    · obtain ⟨d, z, -, hget, hrun, hdecoded, -⟩ := htensor name t ht
      exact ⟨d, z, hget, hrun, hdecoded⟩
    · obtain ⟨d, z, r, hget, -, -, hr, hd, hexact⟩ := htensor name t ht
      have hreturn : returnResidual = true := by
        by_contra hno
        rw [if_neg hno, hres] at hresidual
        cases hresidual
      exact ⟨d, r, hget, hr left hres, hd, hexact.mpr fun hbits =>
        hcondition hreturn hbits name t ht⟩

end finite

end run

/-! ## A delta of one tensor -/

/-- An archive that is kept as it is. -/
def plainNpz : Npz (Dict String NpzArray) := ⟨id, .ok⟩

/-- A vector under the name `w`. -/
def oneTensor (xs : List NpFloat32) : Dict String (Tensor NpFloat32) :=
  Dict.ofList [("w", ⟨[xs.length], xs, (List.prod_singleton).symm⟩)]

theorem get?_oneTensor {xs : List NpFloat32} {name : String} {t : Tensor NpFloat32}
    (h : (oneTensor xs).get? name = some t) : t.shape = [xs.length] ∧ t.data = xs := by
  have hmem := Dict.mem_entries_iff.mpr h
  obtain ⟨-, rfl⟩ := Prod.mk.inj (List.mem_singleton.mp hmem)
  exact ⟨rfl, rfl⟩

theorem exists_run {α β : Type} {x : Except PyErr (α × β)} (h : x.isOk = true) :
    ∃ a b, x = .ok (a, b) := by
  cases x with
  | ok p => exact ⟨p.1, p.2, rfl⟩
  | error e => cases h

/-- One and zero: what is decoded and the residual sum to them. -/
theorem delta_round_trip_one : ∃ payload residual,
    compressDelta Platform.ideal.toPyText plainNpz 0 1 (oneTensor [⟨0x3F800000#32⟩, ⟨0⟩]) (.fin 1) true 8
      = .ok (payload, residual) ∧
    RoundTrips (decompressDelta Platform.ideal.toPyText plainNpz payload)
      (fun t => quantizeTopk (onInt8Grid 0) 1 t.data (.fin 1) 8)
      (oneTensor [⟨0x3F800000#32⟩, ⟨0⟩]) residual := by
  obtain ⟨payload, residual, hrun⟩ := exists_run
    (x := compressDelta Platform.ideal.toPyText plainNpz 0 1 (oneTensor [⟨0x3F800000#32⟩, ⟨0⟩]) (.fin 1)
      true 8) (by decide +kernel)
  refine ⟨payload, residual, hrun, (delta_round_trip_iff (fun _ => rfl) (by decide) ?_ ?_ hrun).mpr ?_⟩
  · intro name t ht
    rw [(get?_oneTensor ht).1]
    exact List.cons_ne_nil _ _
  · intro name t ht
    rw [(get?_oneTensor ht).2]
    decide +kernel
  · intro _ _ name t ht
    rw [(get?_oneTensor ht).2]
    decide +kernel

/-- The largest number: 127 times the step of the grid is infinite. -/
theorem delta_round_trip_largest : ∃ payload residual,
    compressDelta Platform.ideal.toPyText plainNpz 0 1 (oneTensor [⟨0x7F7FFFFF#32⟩]) (.fin 1) true 8
      = .ok (payload, residual) ∧
    ¬ RoundTrips (decompressDelta Platform.ideal.toPyText plainNpz payload)
      (fun t => quantizeTopk (onInt8Grid 0) 1 t.data (.fin 1) 8) (oneTensor [⟨0x7F7FFFFF#32⟩])
      residual := by
  obtain ⟨payload, residual, hrun⟩ := exists_run
    (x := compressDelta Platform.ideal.toPyText plainNpz 0 1 (oneTensor [⟨0x7F7FFFFF#32⟩]) (.fin 1)
      true 8) (by decide +kernel)
  refine ⟨payload, residual, hrun, fun hround => ?_⟩
  have htensor : (oneTensor [⟨0x7F7FFFFF#32⟩]).get? "w" = some ⟨[1], [⟨0x7F7FFFFF#32⟩], rfl⟩ := rfl
  refine ne_largest_of_roundTrips (fun _ => rfl) (by decide) ?_ ?_ hrun rfl hround rfl htensor
    ⟨0x7F7FFFFF#32⟩ (by decide) (by decide)
  · intro name t ht
    rw [(get?_oneTensor ht).1]
    exact List.cons_ne_nil _ _
  · intro name t ht
    rw [(get?_oneTensor ht).2]
    decide +kernel

end NeuraHash
