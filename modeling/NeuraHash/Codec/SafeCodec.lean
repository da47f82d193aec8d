import NeuraHash.Transport.Wire
import NeuraHash.Python.JsonRead

/-!
# The safe codec (`neurahash/safe_codec.py`)

`Obj` is what the codec carries: scalars, lists, tuples, dicts with text keys, arrays and models.
`encodeMsg` prints the JSON metadata and appends the buffers of the arrays; `decodeMsg` reads both.
`openNode` is what `_dec` does at one node of the metadata before it goes to the nodes inside
(`Node.children`), and `dec` is `_dec`: its count is what is left of the nesting depth.

Limits that the environment sets, what shapes an array can have, and the keyed digest are
parameters.
-/

namespace NeuraHash.SafeCodec

open Py

/-! ## Values -/

inductive Scalar where
  | none
  | bool (b : Bool)
  | int (n : ℤ)
  | float (x : PyFloat)
  | str (s : String)
  deriving DecidableEq

/-- The attributes of a model that are sent; a `bool` is the number it equals. -/
structure Hyper where
  C : ℤ
  Demb : ℤ
  H : ℤ
  Do : ℤ
  E : ℤ
  deriving DecidableEq

inductive Obj where
  | scalar (s : Scalar)
  | list (xs : List Obj)
  | tuple (xs : List Obj)
  | dict (kvs : List (String × Obj))
  | array (a : NdArray)
  /-- A `MoELM` with what its attribute `p` holds. -/
  | moelm (hp : Hyper) (p : Obj)

def Scalar.toJson : Scalar → Json
  | none => .null
  | bool b => .bool b
  | int n => .int n
  | float x => .float x
  | str s => .str s

mutual

/-- The value `json.loads` has read. -/
def ofJson : Json → Obj
  | .null => .scalar .none
  | .bool b => .scalar (.bool b)
  | .int n => .scalar (.int n)
  | .float x => .scalar (.float x)
  | .str s => .scalar (.str s)
  | .arr xs => .list (ofJsonItems xs)
  | .obj kvs => .dict (Dict.ofList (ofJsonMembers kvs)).entries

def ofJsonItems : List Json → List Obj
  | [] => []
  | x :: xs => ofJson x :: ofJsonItems xs

def ofJsonMembers : List (String × Json) → List (String × Obj)
  | [] => []
  | (k, v) :: kvs => (k, ofJson v) :: ofJsonMembers kvs

end

/-! ## Numbers in a frame -/

/-- `struct.pack` of an unsigned number of `width` bytes, most significant first. -/
def pack (width n : ℕ) : Except PyErr Bytes :=
  if n < 256 ^ width then
    .ok ((List.range width).map fun i => (n / 256 ^ (width - 1 - i)).toUInt8)
  else .error (.raised "struct.error")

/-- `struct.unpack` of it. -/
def unpack (b : Bytes) : ℕ := b.foldl (fun n x => n * 256 + x.toNat) 0

/-! ## Encoding -/

/-- `_ALLOWED_DTYPES`, with the bytes of an element. -/
def itemsize : String → Option ℕ
  | "float64" => some 8
  | "float32" => some 4
  | "float16" => some 2
  | "int64" => some 8
  | "int32" => some 4
  | "int16" => some 2
  | "int8" => some 1
  | "uint8" => some 1
  | "bool" => some 1
  | _ => none

/-- `np.ascontiguousarray` gives an array of no dimension one. -/
def contiguousShape (shape : List ℕ) : List ℕ := if shape = [] then [1] else shape

/-- An array in the metadata, with the place of its buffer. -/
def arrayNode (place : ℕ) (shape : List ℕ) (dtype : String) : Json :=
  .obj [("$nd", .int place), ("shape", .arr (shape.map fun d : ℕ => .int d)), ("dtype", .str dtype)]

mutual

/-- `_enc(o, buffers)`: the metadata, and the buffers with those of `o`. -/
def enc : Obj → List Bytes → Except PyErr (Json × List Bytes)
  | .array a, buffers =>
    match itemsize a.dtype with
    | none => .error .valueError
    | some _ =>
      .ok (arrayNode buffers.length (contiguousShape a.shape) a.dtype, buffers ++ [a.data])
  | .moelm hp p, buffers => do
    let (j, buffers) ← encParams p buffers
    return (.obj [("$moelm", .obj [("hp", .obj [("C", .int hp.C), ("Demb", .int hp.Demb),
      ("H", .int hp.H), ("Do", .int hp.Do), ("E", .int hp.E)]), ("p", j)])], buffers)
  | .dict kvs, buffers => do
    let (ms, buffers) ← encMembers kvs buffers
    return (.obj [("$d", .obj ms)], buffers)
  | .tuple xs, buffers => do
    let (js, buffers) ← encItems xs buffers
    return (.obj [("$t", .arr js)], buffers)
  | .list xs, buffers => do
    let (js, buffers) ← encItems xs buffers
    return (.obj [("$l", .arr js)], buffers)
  | .scalar s, buffers => .ok (.obj [("$v", s.toJson)], buffers)

/-- `_enc({k: v for k, v in o.p.items()}, buffers)`. -/
def encParams : Obj → List Bytes → Except PyErr (Json × List Bytes)
  | .dict kvs, buffers => do
    let (ms, buffers) ← encMembers kvs buffers
    return (.obj [("$d", .obj ms)], buffers)
  | _, _ => .error .attributeError

def encItems : List Obj → List Bytes → Except PyErr (List Json × List Bytes)
  | [], buffers => .ok ([], buffers)
  | x :: xs, buffers => do
    let (j, buffers) ← enc x buffers
    let (js, buffers) ← encItems xs buffers
    return (j :: js, buffers)

def encMembers : List (String × Obj) → List Bytes →
    Except PyErr (List (String × Json) × List Bytes)
  | [], buffers => .ok ([], buffers)
  | (k, v) :: kvs, buffers => do
    let (j, buffers) ← enc v buffers
    let (ms, buffers) ← encMembers kvs buffers
    return ((k, j) :: ms, buffers)

end

/-- The part of a frame for the buffers. -/
def packBuffers : List Bytes → Except PyErr Bytes
  | [] => .ok []
  | b :: bs => do
    let n ← pack 8 b.length
    let rest ← packBuffers bs
    return n ++ b ++ rest

/-- `hmac.new(key, frame, hashlib.sha256).digest()`. -/
structure Hmac where
  digest : Bytes → Bytes → Bytes
  length_digest : ∀ key frame, (digest key frame).length = 32

/-- The digest in front of a frame. -/
def Hmac.sign (H : Hmac) : Option Bytes → Bytes → Bytes
  | some key, frame => H.digest key frame ++ frame
  | none, frame => frame

/-- `encode_msg(obj, key)`. -/
def encodeMsg (T : PyText) (H : Hmac) (o : Obj) (key : Option Bytes) : Except PyErr Bytes := do
  let (j, buffers) ← enc o []
  let metaBytes := utf8 (String.ofList (j.render T [' ']))
  let n ← pack 4 metaBytes.length
  let rest ← packBuffers buffers
  return H.sign key (n ++ metaBytes ++ rest)

/-! ## Decoding one node -/

/-- `_MAX_NODES`, `_MAX_ELEMS` and `_MAX_PARAMS`, and the shapes an array can have. -/
structure Limits where
  maxNodes : ℕ
  maxElems : ℕ
  maxParams : ℕ
  canShape : List ℕ → Bool

/-- `_MAX_DEPTH`. -/
def maxDepth : ℕ := 64

/-- `budget`: what has been counted. -/
structure Budget where
  nodes : ℕ
  elems : ℕ

/-- What is at a node of the metadata, with the metadata inside. -/
inductive Node where
  | value (j : Json)
  | array (a : NdArray)
  | dict (kvs : List (String × Json))
  | tuple (xs : List Json)
  | list (xs : List Json)
  | moelm (hp : Hyper) (p : Json)

def isBool : Json → Bool
  | .bool _ => true
  | _ => false

/-- A dimension: `isinstance(d, int)` and not negative. -/
def dim? : Json → Option ℕ
  | .int n => if 0 ≤ n then some n.toNat else none
  | .bool b => some (if b then 1 else 0)
  | _ => none

/-- The place of a buffer: `isinstance(idx, int)` and `0 <= idx < len(buffers)`. -/
def buffer? (buffers : List Bytes) : Json → Option Bytes
  | .int n => if 0 ≤ n then buffers[n.toNat]? else none
  | .bool b => buffers[if b then 1 else 0]?
  | _ => none

/-- An array as its node describes it, with the dimensions as they are written; `none` raises
`ValueError`. -/
def described? (buffers : List Bytes) (dtype : String) (shape idx : Json) :
    Option (NdArray × List Json) := do
  let width ← itemsize dtype
  let .arr ds := shape | none
  let buf ← buffer? buffers idx
  let dims ← ds.mapM dim?
  if buf.length % width = 0 ∧ dims.prod = buf.length / width then
    some (⟨dtype, dims, buf⟩, ds)
  else none

/-- `arr.reshape(shape)`: `numpy` takes no `bool` for a dimension. -/
def reshape (lim : Limits) (a : NdArray) (ds : List Json) : Except PyErr NdArray :=
  if ds.any isBool then .error .typeError
  else if lim.canShape a.shape then .ok a
  else .error .valueError

/-- The branch for `$nd`. -/
def openArray (lim : Limits) (buffers : List Bytes) (node : Dict String Json) (b : Budget) :
    Except PyErr (Node × Budget) :=
  match node.getD "dtype" .null with
  | .str dtype =>
    match described? buffers dtype (node.getD "shape" .null) (node.getD "$nd" .null) with
    | none => .error .valueError
    | some (a, ds) =>
      let b : Budget := { b with elems := b.elems + a.shape.prod }
      if lim.maxElems < b.elems then .error .valueError
      else do
        let a ← reshape lim a ds
        return (.array a, b)
  -- a list or a dict has no hash
  | .arr _ | .obj _ => .error .typeError
  | _ => .error .valueError

/-- `hp[f]`, after `hp.get(f)` is found to be an integer in range. -/
def hyper (hp : Json) (f : String) : Except PyErr ℤ := do
  let x ← hp.getD f .null
  match x with
  | .int n => if 1 ≤ n ∧ n ≤ 100000 then .ok n else .error .valueError
  | .bool b => if b then .ok 1 else .error .valueError
  | _ => .error .valueError

/-- `V`, the length of the vocabulary of `model.py`. -/
def vocab : ℤ := 43

/-- `_moelm_param_estimate(hp)`. -/
def moelmParamEstimate (hp : Hyper) : ℤ :=
  let Din := hp.C * hp.Demb
  vocab * hp.Demb + Din * hp.E + hp.E * (Din * hp.H + hp.H + hp.H * hp.Do + hp.Do) + hp.Do * vocab

/-- The constructor of `MoELM`: its arrays have these dimensions, `C` only in a product. -/
def construct (hp : Json) : Except PyErr Unit :=
  if ["Demb", "H", "Do", "E"].any (fun f => (hp.get? f).any isBool) then .error .typeError
  else .ok ()

/-- The hyperparameters, each in range, of a model that is not too large. -/
def readHypers (lim : Limits) (hp : Json) : Except PyErr Hyper := do
  let C ← hyper hp "C"
  let Demb ← hyper hp "Demb"
  let H ← hyper hp "H"
  let Do ← hyper hp "Do"
  let E ← hyper hp "E"
  if moelmParamEstimate ⟨C, Demb, H, Do, E⟩ ≤ lim.maxParams then .ok ⟨C, Demb, H, Do, E⟩
  else .error .valueError

/-- The branch for `$moelm`. -/
def openMoelm (lim : Limits) (x : Json) : Except PyErr (Hyper × Json) := do
  let hp ← x.item "hp"
  let h ← readHypers lim hp
  construct hp
  let p ← x.item "p"
  return (h, p)

/-- The branch for `$d`, with `.items()` of what is there. -/
def openDict (x : Json) (b : Budget) : Except PyErr (Node × Budget) :=
  match x with
  | .obj kvs => .ok (.dict (Json.dictOf kvs).entries, b)
  | _ => .error .attributeError

/-- The branches of `_dec` for the tags, in their order. -/
def openTagged (lim : Limits) (buffers : List Bytes) (node : Dict String Json) (b : Budget) :
    Except PyErr (Node × Budget) :=
  if let some v := node.get? "$v" then .ok (.value v, b)
  else if node.contains "$nd" then openArray lim buffers node b
  else if let some x := node.get? "$d" then openDict x b
  else if let some x := node.get? "$t" then do
    let xs ← x.toList
    return (.tuple xs, b)
  else if let some x := node.get? "$l" then do
    let xs ← x.toList
    return (.list xs, b)
  else if let some x := node.get? "$moelm" then do
    let (hp, p) ← openMoelm lim x
    return (.moelm hp p, b)
  else .error .valueError

/-- What `_dec` does at a node before it goes to the nodes inside. -/
def openNode (lim : Limits) (buffers : List Bytes) (j : Json) (b : Budget) :
    Except PyErr (Node × Budget) :=
  let b : Budget := { b with nodes := b.nodes + 1 }
  if lim.maxNodes < b.nodes then .error .valueError
  else match j with
    | .obj kvs =>
      if kvs = [] then .error .valueError else openTagged lim buffers (Json.dictOf kvs) b
    | _ => .error .valueError

/-! ## Decoding -/

/-- A list of nodes, from the left. -/
def decAll (f : Json → Budget → Except PyErr (Obj × Budget)) :
    List Json → Budget → Except PyErr (List Obj × Budget)
  | [], b => .ok ([], b)
  | j :: js, b => do
    let (o, b) ← f j b
    let (os, b) ← decAll f js b
    return (o :: os, b)

/-- `_dec(node, buffers, depth, budget)`, with `depth` counted down. -/
def dec (lim : Limits) (buffers : List Bytes) : ℕ → Json → Budget → Except PyErr (Obj × Budget)
  | 0, _, _ => .error .valueError
  | left + 1, j, b => do
    let (n, b) ← openNode lim buffers j b
    match n with
    | .value v => return (ofJson v, b)
    | .array a => return (.array a, b)
    | .dict kvs =>
      let (os, b) ← decAll (dec lim buffers left) (kvs.map Prod.snd) b
      return (.dict ((kvs.map Prod.fst).zip os), b)
    | .tuple xs =>
      let (os, b) ← decAll (dec lim buffers left) xs b
      return (.tuple os, b)
    | .list xs =>
      let (os, b) ← decAll (dec lim buffers left) xs b
      return (.list os, b)
    | .moelm hp p =>
      let (o, b) ← dec lim buffers left p b
      return (.moelm hp o, b)

/-- The buffers of a frame; fewer than eight bytes at the end are left. -/
def readBuffers (rest : Bytes) : Except PyErr (List Bytes) :=
  if h : 8 ≤ rest.length then
    let n := unpack (rest.take 8)
    if rest.length - 8 < n then .error .valueError
    else do
      let bs ← readBuffers ((rest.drop 8).drop n)
      return (rest.drop 8).take n :: bs
  else .ok []
termination_by rest.length
decreasing_by
  rw [List.length_drop, List.length_drop]
  omega

/-- The frame without its digest, which has to be the right one when a key is set. -/
def authenticate (H : Hmac) (data : Bytes) : Option Bytes → Except PyErr Bytes
  | none => .ok data
  | some key =>
    if data.length < 32 then .error .valueError
    else if data.take 32 = H.digest key (data.drop 32) then .ok (data.drop 32)
    else .error .valueError

/-- The metadata and the buffers of a frame. -/
def openFrame (T : PyText) (data : Bytes) : Except PyErr (Json × List Bytes) := do
  if data.length < 4 then throw .valueError
  let metaLen := unpack (data.take 4)
  if data.length - 4 < metaLen then throw .valueError
  let j ← match decodeUtf8 ((data.drop 4).take metaLen) with
    | some text => Json.loads T text
    | none => .error .valueError
  let buffers ← readBuffers ((data.drop 4).drop metaLen)
  return (j, buffers)

/-- `decode_msg(data, key)`. -/
def decodeMsg (T : PyText) (H : Hmac) (lim : Limits) (data : Bytes) (key : Option Bytes) :
    Except PyErr Obj := do
  let data ← authenticate H data key
  let (j, buffers) ← openFrame T data
  let (o, _) ← dec lim buffers (maxDepth + 1) j ⟨0, 0⟩
  return o

/-! ## The tags -/

/-- An array that is described and within the budget. -/
theorem openArray_described {lim : Limits} {buffers : List Bytes} {node : Dict String Json} {b : Budget}
    {dtype : String} {a : NdArray} {ds : List Json} (hdtype : node.getD "dtype" .null = .str dtype)
    (hdescribed : described? buffers dtype (node.getD "shape" .null) (node.getD "$nd" .null)
      = some (a, ds)) (helems : b.elems + a.shape.prod ≤ lim.maxElems) :
    openArray lim buffers node b = do
      let a' ← reshape lim a ds
      return (.array a', { b with elems := b.elems + a.shape.prod }) := by
  unfold openArray
  rw [hdtype]
  dsimp only
  rw [hdescribed]
  exact if_neg (not_lt.mpr helems)

section tags

variable {lim : Limits} {buffers : List Bytes} {node : Dict String Json} {b : Budget} {x : Json}

theorem openTagged_value (hv : node.get? "$v" = some x) :
    openTagged lim buffers node b = .ok (.value x, b) := by
  unfold openTagged
  rw [hv]

variable (hv : node.get? "$v" = none)

include hv

theorem openTagged_array (hnd : node.contains "$nd" = true) :
    openTagged lim buffers node b = openArray lim buffers node b := by
  unfold openTagged
  rw [hv]
  exact if_pos hnd

variable (hnd : node.contains "$nd" = false)

include hnd

theorem openTagged_dict (hd : node.get? "$d" = some x) :
    openTagged lim buffers node b = openDict x b := by
  unfold openTagged
  rw [hv, hnd, hd]
  rfl

variable (hd : node.get? "$d" = none)

include hd

theorem openTagged_tuple (ht : node.get? "$t" = some x) :
    openTagged lim buffers node b = do
      let xs ← x.toList
      return (.tuple xs, b) := by
  unfold openTagged
  rw [hv, hnd, hd, ht]
  rfl

variable (ht : node.get? "$t" = none)

include ht

theorem openTagged_list (hl : node.get? "$l" = some x) :
    openTagged lim buffers node b = do
      let xs ← x.toList
      return (.list xs, b) := by
  unfold openTagged
  rw [hv, hnd, hd, ht, hl]
  rfl

variable (hl : node.get? "$l" = none)

include hl

theorem openTagged_moelm (hm : node.get? "$moelm" = some x) :
    openTagged lim buffers node b = do
      let (hp, p) ← openMoelm lim x
      return (.moelm hp p, b) := by
  unfold openTagged
  rw [hv, hnd, hd, ht, hl, hm]
  rfl

theorem openTagged_unknown (hm : node.get? "$moelm" = none) :
    openTagged lim buffers node b = .error .valueError := by
  unfold openTagged
  rw [hv, hnd, hd, ht, hl, hm]
  rfl

end tags

/-! ## The size of a value -/

namespace Obj

mutual

/-- The entries, elements and scalars, and the value itself. -/
def nodes : Obj → ℕ
  | scalar _ => 1
  | array _ => 1
  | list xs => nodesItems xs + 1
  | tuple xs => nodesItems xs + 1
  | dict kvs => nodesMembers kvs + 1
  | moelm _ p => nodes p + 1

def nodesItems : List Obj → ℕ
  | [] => 0
  | x :: xs => nodes x + nodesItems xs

def nodesMembers : List (String × Obj) → ℕ
  | [] => 0
  | (_, v) :: kvs => nodes v + nodesMembers kvs

end

mutual

/-- How deep the value is nested. -/
def height : Obj → ℕ
  | scalar _ => 1
  | array _ => 1
  | list xs => heightItems xs + 1
  | tuple xs => heightItems xs + 1
  | dict kvs => heightMembers kvs + 1
  | moelm _ p => height p + 1

def heightItems : List Obj → ℕ
  | [] => 0
  | x :: xs => max (height x) (heightItems xs)

def heightMembers : List (String × Obj) → ℕ
  | [] => 0
  | (_, v) :: kvs => max (height v) (heightMembers kvs)

end

mutual

/-- The elements of the arrays inside. -/
def elems : Obj → ℕ
  | scalar _ => 0
  | array a => a.shape.prod
  | list xs => elemsItems xs
  | tuple xs => elemsItems xs
  | dict kvs => elemsMembers kvs
  | moelm _ p => elems p

def elemsItems : List Obj → ℕ
  | [] => 0
  | x :: xs => elems x + elemsItems xs

def elemsMembers : List (String × Obj) → ℕ
  | [] => 0
  | (_, v) :: kvs => elems v + elemsMembers kvs

end

/-! The members of a dict count as its values do. -/

theorem nodesMembers_eq (kvs : List (String × Obj)) :
    nodesMembers kvs = nodesItems (kvs.map Prod.snd) := by
  induction kvs with
  | nil => rfl
  | cons e kvs ih => rw [nodesMembers, ih, List.map_cons, nodesItems]

theorem heightMembers_eq (kvs : List (String × Obj)) :
    heightMembers kvs = heightItems (kvs.map Prod.snd) := by
  induction kvs with
  | nil => rfl
  | cons e kvs ih => rw [heightMembers, ih, List.map_cons, heightItems]

theorem elemsMembers_eq (kvs : List (String × Obj)) :
    elemsMembers kvs = elemsItems (kvs.map Prod.snd) := by
  induction kvs with
  | nil => rfl
  | cons e kvs ih => rw [elemsMembers, ih, List.map_cons, elemsItems]

theorem height_le_of_mem {x : Obj} {xs : List Obj} (h : x ∈ xs) : height x ≤ heightItems xs := by
  induction xs with
  | nil => cases h
  | cons y xs ih =>
    rw [heightItems]
    rcases List.mem_cons.mp h with rfl | h
    · exact Nat.le_max_left _ _
    · exact (ih h).trans (Nat.le_max_right _ _)

theorem heightItems_le {xs : List Obj} {n : ℕ} (h : ∀ x ∈ xs, height x ≤ n) : heightItems xs ≤ n := by
  induction xs with
  | nil => exact Nat.zero_le n
  | cons x xs ih =>
    rw [heightItems]
    exact Nat.max_le.mpr ⟨h x List.mem_cons_self, ih fun y hy => h y (List.mem_cons_of_mem x hy)⟩

end Obj

end NeuraHash.SafeCodec
