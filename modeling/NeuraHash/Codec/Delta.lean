import NeuraHash.Codec.TopK
import NeuraHash.Codec.Grid
import NeuraHash.Python.JsonRead
import NeuraHash.Python.Tensor

/-!
# Compressed deltas (`neurahash/delta_codec.py`)

`compressDelta` stores of each tensor the gaps between the kept indices and their multiples, one
byte a value or two values a byte, and for all tensors their scales and a manifest.
`decompressDelta` is its inverse on the kept entries, and the residual is the rest
(`decompress_compress`).

The archive that holds the arrays is a parameter, and so is the byte that the machine makes of a
`nan`.
-/

namespace NeuraHash

open Py NpFloat32

/-! ## Two values a byte -/

/-- One byte: `((hi << 4) | lo).astype(np.uint8)`, in 16 bits. -/
def packPair (hi lo : ℤ) : ℤ :=
  (((BitVec.ofInt 16 hi <<< 4) ||| BitVec.ofInt 16 lo).setWidth 8).toNat

/-- The bytes of the even and the odd positions. -/
def packPairs : List ℤ → List ℤ
  | hi :: lo :: b => packPair hi lo :: packPairs b
  | _ => []

/-- `_pack_int4(q)`. -/
def packInt4 (q : List ℤ) : List ℤ :=
  let b := q.map (· + 7)
  packPairs (if b.length % 2 = 1 then b ++ [0] else b)

/-- `out[:nnz]`. -/
def upTo (out : List ℤ) (nnz : ℤ) : List ℤ :=
  out.take (if 0 ≤ nnz then nnz.toNat else (out.length + nnz).toNat)

/-- `_unpack_int4(packed, nnz)`. -/
def unpackInt4 (packed : List ℤ) (nnz : ℤ) : List ℤ :=
  (upTo (packed.flatMap fun p => [p % 256 / 16, p % 256 % 16]) nnz).map (· - 7)

/-! ## The archive -/

/-- The integer types of the stored arrays. -/
inductive NpInt where
  | uint8
  | uint16
  | uint32
  | int8
  deriving DecidableEq

/-- `.astype` of an integer. -/
def NpInt.wrap : NpInt → ℤ → ℤ
  | uint8, n => n % 2 ^ 8
  | uint16, n => n % 2 ^ 16
  | uint32, n => n % 2 ^ 32
  | int8, n => (n + 2 ^ 7) % 2 ^ 8 - 2 ^ 7

/-- A stored array. -/
inductive NpzArray where
  | ints (dtype : NpInt) (xs : List ℤ)
  | floats (xs : List NpFloat32)
  deriving DecidableEq

namespace NpzArray

/-- `.astype(np.int64)`; floats are cut off. -/
def toInts : NpzArray → List ℤ
  | ints _ xs => xs
  | floats xs => xs.map fun x =>
    match x.toFloat with
    | .fin q => if 0 ≤ q then ⌊q⌋ else ⌈q⌉
    | _ => 0

/-- `.astype(np.float32)`. -/
def toFloats : NpzArray → List NpFloat32
  | ints _ xs => xs.map fun n : ℤ => ofRat n
  | floats xs => xs

/-- `.tobytes()`: little-endian. -/
def tobytes : NpzArray → Bytes
  | ints dtype xs => xs.flatMap fun n =>
    let width := match dtype with
      | .uint8 => 1
      | .uint16 => 2
      | .uint32 => 4
      | .int8 => 1
    (List.range width).map fun i => (n % 2 ^ 32 / 256 ^ i % 256).toNat.toUInt8
  | floats xs => xs.flatMap fun x =>
    (List.range 4).map fun i => (x.bits.toNat / 256 ^ i).toUInt8

end NpzArray

/-- `np.savez_compressed` into a buffer, and `np.load` of it. -/
structure Npz (Payload : Type) where
  savezCompressed : Dict String NpzArray → Payload
  load : Payload → Except PyErr (Dict String NpzArray)

/-- What was saved is loaded. -/
def Npz.Faithful {Payload : Type} (F : Npz Payload) : Prop :=
  ∀ arrays, F.load (F.savezCompressed arrays) = .ok arrays

/-! ## Entries by their index -/

/-- The values for `n` places: a single one is repeated. -/
def spreadTo (n : ℕ) : List NpFloat32 → Except PyErr (List NpFloat32)
  | [v] => .ok (List.replicate n v)
  | vs => if vs.length = n then .ok vs else .error .valueError

/-- `flat[idx] = values`; an index may count from the end. -/
def assignAt (flat : List NpFloat32) (idx : List ℤ) (values : List NpFloat32) :
    Except PyErr (List NpFloat32) := do
  let values ← spreadTo idx.length values
  (idx.zip values).foldlM (fun flat p =>
    if -(flat.length : ℤ) ≤ p.1 ∧ p.1 < (flat.length : ℤ) then
      .ok (flat.set (p.1 % (flat.length : ℤ)).toNat p.2)
    else .error (.raised "IndexError")) flat

/-- The zero of a fresh array. -/
def zero32 : NpFloat32 := ⟨0⟩

/-- `np.zeros(n, dtype=np.float32)`. -/
def zeros (n : ℕ) : List NpFloat32 := List.replicate n zero32

/-! ## Compression -/

/-- `np.diff(idx, prepend=0)`. -/
def gapsOf (idx : List ℕ) : List ℤ :=
  List.zipWith (fun a b : ℕ => (b : ℤ) - a) (0 :: idx) idx

/-- The narrowest type that holds the gaps. -/
def gapType (gaps : List ℤ) : NpInt := if gaps.all (· < 2 ^ 16) then .uint16 else .uint32

/-- What `compress_delta` makes of one tensor. -/
structure TensorParts where
  gaps : NpzArray
  values : NpzArray
  scale : PyFloat
  info : Json
  residual : Tensor NpFloat32

/-- The part of `delta` that is not stored: `(a.reshape(-1) - recon).reshape(a.shape)`. -/
def residualOf (a : Tensor NpFloat32) (recon : List NpFloat32) (h : recon.length = a.data.length) :
    Tensor NpFloat32 where
  shape := a.shape
  data := List.zipWith (· - ·) a.data recon
  length_data := by rw [List.length_zipWith, h, Nat.min_self, a.length_data]

/-- The body of the loop of `compress_delta`. -/
def compressTensor (nanByte : BitVec 8) (chunk : ℕ) (topkFraction : PyFloat) (bits : ℤ)
    (name : String) (t : Tensor NpFloat32) : Except PyErr TensorParts := do
  let a := t.contiguous
  let z ← quantizeTopk (onInt8Grid nanByte) chunk a.data topkFraction bits
  if z.idx.getLast?.any (fun i => 2 ^ 31 ≤ i) then throw .valueError
  let gaps := gapsOf z.idx
  let recon ← assignAt (zeros a.data.length) (z.idx.map Nat.cast)
    (z.q.map (dequantized z.scale))
  if h : recon.length = a.data.length then
    return {
      gaps := .ints (gapType gaps) (gaps.map (gapType gaps).wrap)
      values := if bits = 8 then .ints .int8 z.q else .ints .uint8 (packInt4 z.q)
      scale := z.scale
      info := .obj [("name", .str name), ("shape", .arr (a.shape.map fun d : ℕ => .int d)),
        ("nnz", .int z.idx.length)]
      residual := residualOf a recon h }
  else throw .valueError

/-- The name of an array of the `i`-th tensor. -/
def arrayName (letter : String) (i : ℕ) : String := letter ++ i.repr

/-- The manifest. -/
def manifestOf (topkFraction : PyFloat) (bits : ℤ) (infos : List Json) : Json :=
  .obj ([("magic", .str "NHQ8"), ("version", .int (if bits = 4 then 2 else 1)),
    ("topk", .float topkFraction), ("tensors", .arr infos)]
      ++ if bits = 4 then [("bits", .int 4)] else [])

/-- `json.dumps(manifest).encode("utf-8")`. -/
def manifestBytes (T : PyText) (manifest : Json) : Bytes :=
  utf8 (String.ofList (manifest.render T [' ']))

/-- The arrays of the archive. -/
def archiveOf (T : PyText) (topkFraction : PyFloat) (bits : ℤ) (parts : List TensorParts) :
    Dict String NpzArray :=
  Dict.ofList (parts.zipIdx.flatMap (fun p =>
      [(arrayName "g" p.2, p.1.gaps), (arrayName "v" p.2, p.1.values)])
    ++ [("_scales", .floats (parts.map fun p => ofFloat p.scale)),
      ("__manifest__", .ints .uint8 ((manifestBytes T
        (manifestOf topkFraction bits (parts.map TensorParts.info))).map fun b => (b.toNat : ℤ)))])

/-- `compress_delta(delta, topk_fraction, return_residual=return_residual, bits=bits)`: the payload,
and the residual when it is asked for. -/
def compressDelta {Payload : Type} (T : PyText) (F : Npz Payload) (nanByte : BitVec 8) (chunk : ℕ)
    (delta : Dict String (Tensor NpFloat32)) (topkFraction : PyFloat) (returnResidual : Bool)
    (bits : ℤ) : Except PyErr (Payload × Option (Dict String (Tensor NpFloat32))) := do
  if bits ≠ 4 ∧ bits ≠ 8 then throw .valueError
  let parts ← delta.entries.mapM fun e => compressTensor nanByte chunk topkFraction bits e.1 e.2
  let payload := F.savezCompressed (archiveOf T topkFraction bits parts)
  return (payload, if returnResidual then
    some (Dict.ofList (delta.keys.zip (parts.map TensorParts.residual))) else none)

/-! ## Decompression -/

/-- `z[name]`. -/
def arrayAt (z : Dict String NpzArray) (name : String) : Except PyErr NpzArray :=
  match z.get? name with
  | some x => .ok x
  | none => .error .keyError

/-- `tuple(meta["shape"])`, of dimensions an array can have. -/
def dimsOf (j : Json) : Except PyErr (List ℕ) := do
  let ds ← j.toList
  ds.mapM fun d => match d with
    | .int n => if 0 ≤ n then .ok n.toNat else .error .valueError
    | _ => .error .typeError

/-- `np.cumsum`. -/
def runningSums (xs : List ℤ) : List ℤ := (xs.scanl (· + ·) 0).tail

/-- `np.float32(scales[i])`. -/
def scaleAt (scales : NpzArray) (i : ℕ) : Except PyErr NpFloat32 :=
  match scales.toFloats[i]? with
  | some s => .ok s
  | none => .error (.raised "IndexError")

/-- `flat` in the loop of `decompress_delta`: the kept entries of a tensor of `n`. -/
def keptEntries (z : Dict String NpzArray) (scales : NpzArray) (bits : ℤ) (i : ℕ) (nnz : ℤ) (n : ℕ) :
    Except PyErr (List NpFloat32) :=
  if nnz = 0 then .ok (zeros n)
  else do
    let gaps ← arrayAt z (arrayName "g" i)
    let values ← arrayAt z (arrayName "v" i)
    let q := if bits = 8 then values.toFloats
      else (NpzArray.ints .int8 (unpackInt4 values.toInts nnz)).toFloats
    let scale ← scaleAt scales i
    assignAt (zeros n) (runningSums gaps.toInts) (q.map (· * scale))

/-- The body of the loop of `decompress_delta`. -/
def decompressTensor (T : PyText) (z : Dict String NpzArray) (scales : NpzArray) (bits : ℤ) (i : ℕ)
    (info : Json) : Except PyErr (Key × Tensor NpFloat32) := do
  let name ← info.item "name"
  let shape ← dimsOf (← info.item "shape")
  let nnz ← (← info.item "nnz").toInt T
  let flat ← keptEntries z scales bits i nnz shape.prod
  if h : flat.length = shape.prod then
    let key ← Key.ofJson name
    return (key, ⟨shape, flat, h⟩)
  else throw .valueError

/-- `json.loads(z[_MANIFEST_KEY].tobytes().decode("utf-8"))`. -/
def deltaManifest (T : PyText) (z : Dict String NpzArray) : Except PyErr Json := do
  let mbytes ← arrayAt z "__manifest__"
  match decodeUtf8 mbytes.tobytes with
  | some text => Json.loads T text
  | none => .error .valueError

/-- `decompress_delta(payload)`. -/
def decompressDelta {Payload : Type} (T : PyText) (F : Npz Payload) (payload : Payload) :
    Except PyErr (Dict Key (Tensor NpFloat32)) := do
  let z ← F.load payload
  let manifest ← deltaManifest T z
  if ¬ (← manifest.getD "magic" .null).pyEq (.str "NHQ8") then throw .valueError
  let version ← (← manifest.getD "version" (.int 0)).toInt T
  if version ≠ 1 ∧ version ≠ 2 then throw .valueError
  let bits ← (← manifest.getD "bits" (.int 8)).toInt T
  if bits ≠ 4 ∧ bits ≠ 8 then throw .valueError
  let scales ← arrayAt z "_scales"
  let infos ← (← manifest.item "tensors").toList
  let out ← infos.zipIdx.mapM fun p => decompressTensor T z scales bits p.2 p.1
  return Dict.ofList out

/-! ## Gaps -/

theorem scanl_gaps (idx : List ℕ) (p : ℕ) :
    ((List.zipWith (fun a b : ℕ => (b : ℤ) - a) (p :: idx) idx).scanl (· + ·) (p : ℤ)).tail
      = idx.map Nat.cast := by
  induction idx generalizing p with
  | nil => rfl
  | cons i idx ih =>
    have hstep : (p : ℤ) + ((i : ℤ) - p) = i := by omega
    have htail := ih i
    cases hscan : (List.zipWith (fun a b : ℕ => (b : ℤ) - a) (i :: idx) idx).scanl (· + ·) (i : ℤ)
      with
    | nil => exact absurd hscan (by simp)
    | cons x xs =>
      have hhead : x = i := by
        have := congrArg List.head? hscan
        simpa using this.symm
      rw [hscan] at htail
      rw [List.zipWith_cons_cons, List.scanl_cons, hstep, hscan, List.map_cons, hhead]
      exact congrArg (List.cons (i : ℤ)) htail

/-- **The running sums of the gaps are the indices.** -/
theorem runningSums_gapsOf (idx : List ℕ) : runningSums (gapsOf idx) = idx.map Nat.cast :=
  scanl_gaps idx 0

theorem mem_gaps {idx : List ℕ} {p : ℕ} (hsorted : (p :: idx).Pairwise (· ≤ ·)) {bound : ℕ}
    (hbound : ∀ i ∈ idx, i < bound) {g : ℤ}
    (hg : g ∈ List.zipWith (fun a b : ℕ => (b : ℤ) - a) (p :: idx) idx) : 0 ≤ g ∧ g < bound := by
  induction idx generalizing p with
  | nil => cases hg
  | cons i idx ih =>
    rw [List.pairwise_cons] at hsorted
    rw [List.zipWith_cons_cons, List.mem_cons] at hg
    rcases hg with rfl | hg
    · have hle := hsorted.1 i List.mem_cons_self
      have hlt := hbound i List.mem_cons_self
      omega
    · exact ih hsorted.2 (fun j hj => hbound j (List.mem_cons_of_mem i hj)) hg

/-- The stored gaps are the gaps. -/
theorem wrap_gaps {idx : List ℕ} (hsorted : idx.Pairwise (· < ·)) (hlast : ∀ i ∈ idx, i < 2 ^ 31) :
    (gapsOf idx).map (gapType (gapsOf idx)).wrap = gapsOf idx := by
  have hmem : ∀ g ∈ gapsOf idx, 0 ≤ g ∧ g < (2 ^ 31 : ℕ) := fun g hg =>
    mem_gaps (List.pairwise_cons.mpr ⟨fun i _ => Nat.zero_le i, hsorted.imp Nat.le_of_lt⟩) hlast hg
  refine (List.map_congr_left fun g hg => ?_).trans (List.map_id _)
  obtain ⟨hnonneg, hlt⟩ := hmem g hg
  unfold gapType
  split
  · next hsmall =>
    have hg16 := of_decide_eq_true (List.all_eq_true.mp hsmall g hg)
    exact Int.emod_eq_of_lt hnonneg hg16
  · exact Int.emod_eq_of_lt hnonneg (by omega)

/-! ## Packed values -/

theorem packPair_eq : ∀ hi < 15, ∀ lo < 15, packPair (hi : ℕ) (lo : ℕ) = ((hi * 16 + lo : ℕ) : ℤ) := by
  decide

theorem length_unpackInt4 (packed : List ℤ) (nnz : ℕ) :
    (unpackInt4 packed nnz).length = min nnz (2 * packed.length) := by
  unfold unpackInt4 upTo
  rw [List.length_map, List.length_take, if_pos (Int.natCast_nonneg nnz), Int.toNat_natCast,
    List.length_flatMap]
  simp [Nat.mul_comm]

/-- The values of a list of pairs. -/
theorem unpack_packPairs {b : List ℤ} (heven : b.length % 2 = 0) (hb : ∀ x ∈ b, 0 ≤ x ∧ x < 15) :
    ((packPairs b).flatMap fun p => [p % 256 / 16, p % 256 % 16]) = b := by
  match b with
  | [] => rfl
  | [x] => exact absurd heven (by simp)
  | hi :: lo :: b =>
    obtain ⟨hhi, hlo, hrest⟩ : (0 ≤ hi ∧ hi < 15) ∧ (0 ≤ lo ∧ lo < 15) ∧ ∀ x ∈ b, 0 ≤ x ∧ x < 15 :=
      ⟨hb hi (by simp), hb lo (by simp), fun x hx => hb x (by simp [hx])⟩
    have hpair := packPair_eq hi.toNat (by omega) lo.toNat (by omega)
    rw [Int.toNat_of_nonneg hhi.1, Int.toNat_of_nonneg hlo.1] at hpair
    have ih := unpack_packPairs (b := b) (by simp only [List.length_cons] at heven; omega) hrest
    rw [packPairs, List.flatMap_cons, ih, hpair]
    simp only [List.cons_append, List.nil_append, List.cons.injEq, and_true]
    omega

theorem length_packPairs (b : List ℤ) : (packPairs b).length = b.length / 2 := by
  match b with
  | [] => rfl
  | [x] => simp [packPairs]
  | hi :: lo :: b =>
    rw [packPairs, List.length_cons, length_packPairs b, List.length_cons, List.length_cons]
    omega

theorem two_mul_length_packInt4 (q : List ℤ) : q.length ≤ 2 * (packInt4 q).length := by
  unfold packInt4
  dsimp only
  rw [length_packPairs]
  split
  · rw [List.length_append, List.length_map, List.length_singleton]
    omega
  · rw [List.length_map] at *
    omega

/-- **Packed values are unpacked**, also an odd number of them. -/
theorem unpackInt4_packInt4 {q : List ℤ} (hq : ∀ x ∈ q, -7 ≤ x ∧ x ≤ 7) :
    unpackInt4 (packInt4 q) q.length = q := by
  have hbias : ∀ x ∈ q.map (· + 7), 0 ≤ x ∧ x < 15 := by
    intro x hx
    obtain ⟨y, hy, rfl⟩ := List.mem_map.mp hx
    have := hq y hy
    omega
  have hcancel : (q.map (· + 7)).map (· - 7) = q := by
    rw [List.map_map]
    exact (List.map_congr_left fun x _ => Int.add_sub_cancel x 7).trans (List.map_id q)
  have htake : ∀ pad : List ℤ, upTo (q.map (· + 7) ++ pad) q.length = q.map (· + 7) := by
    intro pad
    unfold upTo
    rw [if_pos (Int.natCast_nonneg _), Int.toNat_natCast]
    exact List.take_left' (List.length_map _)
  unfold unpackInt4 packInt4
  dsimp only
  split
  · next hodd =>
    rw [unpack_packPairs (by rw [List.length_append, List.length_singleton]; omega) ?_, htake, hcancel]
    intro x hx
    rcases List.mem_append.mp hx with hx | hx
    · exact hbias x hx
    · rw [List.mem_singleton.mp hx]
      decide
  · next heven =>
    have hnil := htake []
    rw [List.append_nil] at hnil
    rw [unpack_packPairs (by omega) hbias, hnil, hcancel]

/-! ## Assignment -/

section assign

variable {flat : List NpFloat32} {idx : List ℕ} {values : List NpFloat32}

/-- `flat'` is `flat` with the values at the indices. -/
structure Assigned (flat : List NpFloat32) (idx : List ℕ) (values flat' : List NpFloat32) : Prop where
  length_eq : flat'.length = flat.length
  at_index : ∀ j (hj : j < idx.length), flat'[idx[j]]? = values[j]?
  elsewhere : ∀ i, i ∉ idx → flat'[i]? = flat[i]?

theorem assigned_nil : Assigned flat [] [] flat :=
  ⟨rfl, fun j hj => absurd hj (Nat.not_lt_zero j), fun _ _ => rfl⟩

theorem Assigned.cons {i : ℕ} {v : NpFloat32} {flat' : List NpFloat32} (hi : i < flat.length)
    (hfresh : i ∉ idx) (h : Assigned (flat.set i v) idx values flat') :
    Assigned flat (i :: idx) (v :: values) flat' := by
  refine ⟨h.length_eq.trans (List.length_set ..), ?_, ?_⟩
  · intro j hj
    cases j with
    | zero =>
      rw [List.getElem_cons_zero, List.getElem?_cons_zero, h.elsewhere i hfresh,
        List.getElem?_set_self hi]
    | succ j =>
      rw [List.getElem_cons_succ, List.getElem?_cons_succ]
      exact h.at_index j (Nat.lt_of_succ_lt_succ hj)
  · intro k hk
    rw [List.mem_cons, not_or] at hk
    rw [h.elsewhere k hk.2, List.getElem?_set_ne (Ne.symm hk.1)]

theorem spreadTo_of_length {n : ℕ} (h : values.length = n) : spreadTo n values = .ok values := by
  unfold spreadTo
  split
  · next v =>
    rw [← h]
    rfl
  · exact if_pos h

variable (flat values) in
/-- **Assignment at different indices within the array.** -/
theorem exists_assigned (hnodup : idx.Nodup) (hidx : ∀ i ∈ idx, i < flat.length)
    (hlen : values.length = idx.length) :
    ∃ flat', assignAt flat (idx.map Nat.cast) values = .ok flat' ∧
      Assigned flat idx values flat' := by
  unfold assignAt
  rw [List.length_map, spreadTo_of_length hlen, ok_bind]
  induction idx generalizing flat values with
  | nil =>
    obtain rfl := List.length_eq_zero_iff.mp hlen
    exact ⟨flat, rfl, assigned_nil⟩
  | cons i idx ih =>
    cases values with
    | nil => cases hlen
    | cons v values =>
      rw [List.nodup_cons] at hnodup
      have hi := hidx i List.mem_cons_self
      have hposition : ((i : ℤ) % (flat.length : ℤ)).toNat = i := by
        rw [Int.emod_eq_of_lt (by omega) (by omega), Int.toNat_natCast]
      obtain ⟨flat', hrun, hassigned⟩ := @ih (flat.set i v) values hnodup.2
        (fun k hk => by
          rw [List.length_set]
          exact hidx k (List.mem_cons_of_mem i hk))
        (Nat.succ.inj hlen)
      refine ⟨flat', ?_, hassigned.cons hi hnodup.1⟩
      rw [List.map_cons, List.zip_cons_cons, List.foldlM_cons, if_pos (by omega), ok_bind, hposition]
      exact hrun

end assign

/-! ## What is kept of a tensor -/

section kept

variable {nanByte : BitVec 8} {a : List NpFloat32} {bits : ℤ} {z : Quantized}

/-- The kept entries of a tensor of `n` and their multiples fit together. -/
structure KeptIn (n : ℕ) (z : Quantized) : Prop where
  ascending : z.idx.Pairwise (· < ·)
  inside : ∀ i ∈ z.idx, i < n
  length_q : z.q.length = z.idx.length

/-- The number of steps of the grid on either side. -/
def qmaxOf (bits : ℤ) : ℕ := if bits = 8 then 127 else 7

theorem qmaxOf_cases (bits : ℤ) : qmaxOf bits = 127 ∨ qmaxOf bits = 7 := by
  unfold qmaxOf
  split
  · exact .inl rfl
  · exact .inr rfl

/-- The entries at the kept indices. -/
theorem filterMap_getElem {idx : List ℕ} (h : ∀ i ∈ idx, i < a.length) :
    (idx.filterMap (a[·]?)) = idx.map (fun i => a.getD i zero32) := by
  rw [← List.filterMap_eq_map]
  refine List.filterMap_congr fun i hi => ?_
  rw [List.getElem?_eq_getElem (h i hi)]
  show _ = some (a.getD i zero32)
  rw [List.getD_eq_getElem _ _ (h i hi)]

theorem finite_kept (hfinite : ∀ x ∈ a, x.isFinite = true) (idx : List ℕ) :
    ∀ v ∈ idx.filterMap (a[·]?), v.isFinite = true := by
  intro v hv
  obtain ⟨i, -, hi⟩ := List.mem_filterMap.mp hv
  exact hfinite v (List.mem_of_getElem? hi)

theorem scale_eq {vals : List NpFloat32} (hfinite : ∀ v ∈ vals, v.isFinite = true) (bits : ℤ) :
    maxAbs vals / .fin (if bits = 8 then (127 : ℤ) else (7 : ℤ) : ℤ)
      = scaleOf (maxMagnitude vals) (qmaxOf bits) := by
  rw [maxAbs_eq hfinite]
  unfold scaleOf qmaxOf
  split <;> norm_num

theorem qmax_eq (bits : ℤ) : (if bits = 8 then (127 : ℤ) else (7 : ℤ)) = (qmaxOf bits : ℕ) := by
  unfold qmaxOf
  split <;> rfl

/-- The largest of finite entries can be written and is not too large. -/
theorem fits_maxMagnitude {vals : List NpFloat32} (hne : vals ≠ [])
    (hfinite : ∀ v ∈ vals, v.isFinite = true) :
    Py.Fits (maxMagnitude vals) ∧ maxMagnitude vals < tooLarge := by
  obtain ⟨v, hv, heq⟩ := exists_maxMagnitude hne
  rw [← heq]
  exact ⟨fits_magnitude v, magnitude_lt (hfinite v hv)⟩

theorem onInt8Grid_mem {v : NpFloat32} {M qmax : ℕ} (hv : v.isFinite = true) (hqmax : 0 < qmax)
    (hsmall : qmax < 2 ^ 20) (hfits : Py.Fits M) (hM : M < tooLarge)
    (hstep : roundUnits (M / qmax) ≠ 0) :
    -(qmax : ℤ) ≤ onInt8Grid nanByte qmax (scaleOf M qmax) v ∧
      onInt8Grid nanByte qmax (scaleOf M qmax) v ≤ qmax := by
  have hle : gridNumber qmax v.magnitude (roundUnits (M / qmax)) ≤ qmax := Nat.min_le_left _ _
  rw [onInt8Grid_eq nanByte hv hqmax hsmall hfits hM hstep]
  unfold signedInt
  split <;> omega

/-- What `quantize_topk` returns fits together, whatever the entries. -/
theorem keptIn_of_run {onGrid : ℤ → PyFloat → NpFloat32 → ℤ} {chunk : ℕ} (hchunk : 1 ≤ chunk)
    {topkFraction : PyFloat} (hrun : quantizeTopk onGrid chunk a topkFraction bits = .ok z) :
    KeptIn a.length z := by
  unfold quantizeTopk at hrun
  by_cases hbits : bits ≠ 4 ∧ bits ≠ 8
  · rw [if_pos hbits] at hrun
    cases hrun
  rw [if_neg hbits] at hrun
  by_cases hempty : a.length = 0
  · rw [if_pos hempty] at hrun
    cases hrun
    exact ⟨.nil, fun i hi => absurd hi List.not_mem_nil, rfl⟩
  rw [if_neg hempty] at hrun
  obtain ⟨k, hcount, hrun⟩ := bind_eq_ok.mp hrun
  obtain ⟨hascending, hinside⟩ := keptIndices_spec hchunk (keptCount_bounds hempty hcount).1 (a := a)
  dsimp only at hrun
  split at hrun
  · cases hrun
    exact ⟨hascending, hinside, List.length_replicate⟩
  · cases hrun
    refine ⟨hascending, hinside, ?_⟩
    rw [List.length_map, filterMap_getElem hinside, List.length_map]

/-- Every multiple of a step of zero is zero. -/
theorem dequantized_of_zero {scale : PyFloat} (hscale : (ofFloat scale).toFloat = .fin 0) {q : ℤ}
    (hq : q.natAbs < 2 ^ 24) : dequantized scale q = ofRat 0 := by
  have hint := toFloat_ofRat_signedInt (decide (q < 0)) hq
  rw [signedInt_natAbs] at hint
  show ofFloat ((ofRat q).toFloat * (ofFloat scale).toFloat) = _
  rw [hint, hscale, PyFloat.fin_mul, mul_zero]
  rfl

/-- Four bits hold a multiple, unless all multiples are of zero. -/
theorem nibble_of_quantizedAs (hfinite : ∀ x ∈ a, x.isFinite = true)
    (h : QuantizedAs (onInt8Grid nanByte) a 4 z) :
    (∀ q ∈ z.q, -7 ≤ q ∧ q ≤ 7) ∨
      ((ofFloat z.scale).toFloat = .fin 0 ∧ ∀ q ∈ z.q, q.natAbs < 2 ^ 24) := by
  cases h with
  | empty _ => exact .inl fun q hq => absurd hq List.not_mem_nil
  | zero k idx hk hkept hzero =>
    refine .inl fun q hq => ?_
    rw [List.eq_of_mem_replicate hq]
    decide
  | grid k idx hk hkept hzero =>
    have hvals := finite_kept hfinite idx
    have hseven : qmaxOf 4 = 7 := rfl
    rw [scale_eq hvals, qmax_eq, hseven]
    by_cases hne : idx.filterMap (a[·]?) = []
    · rw [hne]
      exact .inl fun q hq => absurd hq List.not_mem_nil
    · obtain ⟨hfits, hM⟩ := fits_maxMagnitude hne hvals
      by_cases hstep : roundUnits ((maxMagnitude (idx.filterMap (a[·]?)) : ℚ) / (7 : ℕ)) = 0
      · refine .inr ⟨?_, fun q hq => ?_⟩
        · rw [toFloat_scaleOf (by decide) hfits hM, hstep, signed_zero]
        · obtain ⟨v, -, rfl⟩ := List.mem_map.mp hq
          exact natAbs_onInt8Grid_lt (by decide) _
      · refine .inl fun q hq => ?_
        obtain ⟨v, hv, rfl⟩ := List.mem_map.mp hq
        exact onInt8Grid_mem (hvals v hv) (by decide) (by decide) hfits hM hstep

theorem zero32_toFloat : zero32.toFloat = .fin 0 := by decide +kernel

theorem dequantized_zero : (dequantized (.fin 1) 0).toFloat = .fin 0 := by decide +kernel

/-- An entry is the sum of what is decoded and what is left. -/
def SumsTo (x r : NpFloat32) : Prop := (x - r).toFloat + r.toFloat = x.toFloat

theorem sumsTo_zero {x r : NpFloat32} (hx : x.isFinite = true) (hr : r.toFloat = .fin 0) :
    SumsTo x r := by
  unfold SumsTo
  rw [toFloat_sub_zero hx hr, hr, toFloat_eq hx, PyFloat.fin_add, add_zero]

theorem le_largest_of_finite {x : NpFloat32} (hx : x.isFinite = true) : x.magnitude ≤ largest := by
  rcases le_or_eq_largest (fits_magnitude x) (magnitude_lt hx) with hle | heq
  · exact hle.trans (by decide)
  · exact heq.le

variable {recon : List NpFloat32}

/-- What is decoded at an index. -/
theorem Assigned.getD_index {flat values : List NpFloat32} {idx : List ℕ}
    (h : Assigned flat idx values recon) (hlen : values.length = idx.length) {i : ℕ} (hi : i ∈ idx) :
    ∃ j, ∃ hj : j < idx.length, idx[j] = i ∧ values[j]? = some (recon.getD i zero32) := by
  obtain ⟨j, hj, rfl⟩ := List.mem_iff_getElem.mp hi
  have hvalue : values[j]? = some (values.get ⟨j, hlen.symm ▸ hj⟩) :=
    List.getElem?_eq_getElem _
  refine ⟨j, hj, rfl, ?_⟩
  rw [List.getD_eq_getElem?_getD, h.at_index j hj, hvalue]
  rfl

theorem Assigned.getD_zero {n : ℕ} {values : List NpFloat32} {idx : List ℕ}
    (h : Assigned (zeros n) idx values recon) {i : ℕ} (hi : i ∉ idx) :
    recon.getD i zero32 = zero32 := by
  rw [List.getD_eq_getElem?_getD, h.elsewhere i hi, zeros, List.getElem?_replicate]
  split <;> rfl

/-- **The residual is exact**, unless a tensor on the grid of eight bits holds the largest number
there is. -/
theorem sumsTo_iff (hfinite : ∀ x ∈ a, x.isFinite = true)
    (h : QuantizedAs (onInt8Grid nanByte) a bits z) (hkeptIn : KeptIn a.length z)
    (hrecon : Assigned (zeros a.length) z.idx (z.q.map (dequantized z.scale)) recon) :
    (∀ i, i < a.length → SumsTo (a.getD i zero32) (recon.getD i zero32)) ↔
      (bits = 8 → ∀ x ∈ a, x.magnitude ≠ largest) := by
  have hentry : ∀ i, i < a.length → (a.getD i zero32).isFinite = true := by
    intro i hi
    rw [List.getD_eq_getElem _ _ hi]
    exact hfinite _ (List.getElem_mem hi)
  have hlen : (z.q.map (dequantized z.scale)).length = z.idx.length := by
    rw [List.length_map]
    exact hkeptIn.length_q
  cases h with
  | empty hempty =>
    subst hempty
    exact iff_of_true (fun i hi => absurd hi (Nat.not_lt_zero i))
      fun _ x hx => absurd hx List.not_mem_nil
  | zero k idx hk hkept hzero =>
    have hvals := finite_kept hfinite idx
    have hnone : maxMagnitude (idx.filterMap (a[·]?)) = 0 := by
      rw [maxAbs_eq hvals] at hzero
      have heq : PyFloat.fin ((maxMagnitude (idx.filterMap (a[·]?)) : ℚ) / 2 ^ 149) = .fin 0 :=
        of_decide_eq_true hzero
      rw [PyFloat.fin.injEq, div_eq_zero_iff] at heq
      rcases heq with heq | heq
      · exact_mod_cast heq
      · exact absurd heq (by positivity)
    refine iff_of_true (fun i hi => ?_) fun _ x hx hlargest => ?_
    · by_cases hmem : i ∈ idx
      · obtain ⟨j, hj, -, hvalue⟩ := hrecon.getD_index hlen hmem
        refine sumsTo_zero (hentry i hi) ?_
        rw [List.getElem?_map, List.getElem?_replicate, if_pos hj] at hvalue
        rw [← Option.some.inj hvalue]
        exact dequantized_zero
      · rw [hrecon.getD_zero hmem]
        exact sumsTo_zero (hentry i hi) zero32_toFloat
    · obtain ⟨i, hi, hlt, hall⟩ := hkept.exists_largest hfinite hk.1 hk.2
      have hle : a[i].magnitude ≤ maxMagnitude (idx.filterMap (a[·]?)) :=
        le_maxMagnitude (List.mem_filterMap.mpr ⟨i, hi, List.getElem?_eq_getElem hlt⟩)
      have := hall x hx
      rw [hlargest] at this
      have hpos : 0 < largest := by decide
      omega
  | grid k idx hk hkept hzero =>
    have hvals := finite_kept hfinite idx
    obtain ⟨i₀, hi₀, hlt₀, hall⟩ := hkept.exists_largest hfinite hk.1 hk.2
    have hmem₀ : a[i₀] ∈ idx.filterMap (a[·]?) :=
      List.mem_filterMap.mpr ⟨i₀, hi₀, List.getElem?_eq_getElem hlt₀⟩
    have hne : idx.filterMap (a[·]?) ≠ [] := List.ne_nil_of_mem hmem₀
    have hentries := rest_add_dequantized_all_iff nanByte (qmaxOf_cases bits) hvals
      (fun v hv => le_maxMagnitude hv) (exists_maxMagnitude hne)
    set M := maxMagnitude (idx.filterMap (a[·]?)) with hM
    -- the decoded value of a kept entry
    have hvalue : ∀ i ∈ idx, recon.getD i zero32 = dequantized (scaleOf M (qmaxOf bits))
        (onInt8Grid nanByte (qmaxOf bits : ℕ) (scaleOf M (qmaxOf bits)) (a.getD i zero32)) := by
      intro i hi
      obtain ⟨j, hj, rfl, hget⟩ := hrecon.getD_index hlen hi
      dsimp only at hget
      rw [scale_eq hvals, qmax_eq, ← hM, filterMap_getElem hkept.lt, List.getElem?_map,
        List.getElem?_map, List.getElem?_map, List.getElem?_eq_getElem hj] at hget
      exact (Option.some.inj hget).symm
    have hkeptOnly : (∀ i, i < a.length → SumsTo (a.getD i zero32) (recon.getD i zero32)) ↔
        ∀ v ∈ idx.filterMap (a[·]?), SumsTo v (dequantized (scaleOf M (qmaxOf bits))
          (onInt8Grid nanByte (qmaxOf bits : ℕ) (scaleOf M (qmaxOf bits)) v)) := by
      constructor
      · intro hsums v hv
        obtain ⟨i, hi, hget⟩ := List.mem_filterMap.mp hv
        have hlt := hkept.lt i hi
        have hv' : a.getD i zero32 = v := by
          rw [List.getD_eq_getElem?_getD, hget]
          rfl
        have := hsums i hlt
        rwa [hvalue i hi, hv'] at this
      · intro hsums i hi
        by_cases hmem : i ∈ idx
        · rw [hvalue i hmem]
          refine hsums _ (List.mem_filterMap.mpr ⟨i, hmem, ?_⟩)
          rw [List.getElem?_eq_getElem hi, List.getD_eq_getElem _ _ hi]
        · rw [hrecon.getD_zero hmem]
          exact sumsTo_zero (hentry i hi) zero32_toFloat
    rw [hkeptOnly]
    refine hentries.trans ?_
    have hbits : qmaxOf bits = 127 ↔ bits = 8 := by
      unfold qmaxOf
      split
      · next h => exact iff_of_true rfl h
      · next h => exact iff_of_false (by decide) h
    rw [hbits]
    refine imp_congr_right fun _ => ?_
    constructor
    · intro hM' x hx hlargest
      have h₁ := hall x hx
      have h₂ := le_maxMagnitude hmem₀
      obtain ⟨v, hv, hvM⟩ := exists_maxMagnitude hne
      have h₃ := le_largest_of_finite (hvals v hv)
      omega
    · intro hnone hM'
      obtain ⟨v, hv, hvM⟩ := exists_maxMagnitude hne
      obtain ⟨i, -, hget⟩ := List.mem_filterMap.mp hv
      exact hnone v (List.mem_of_getElem? hget) (by omega)

end kept

end NeuraHash
