import NeuraHash.Codec.SafeCodec
import NeuraHash.Platform

/-!
# Sending a value through the safe codec

The metadata of a value names the buffers by their places, so what it is read with is any list of
buffers that has them there (`dec_enc`).
-/

namespace NeuraHash.SafeCodec

open Py

/-! ## Numbers -/

/-- The bytes of a number. -/
def digits (width n : ℕ) : Bytes := (List.range width).map fun i => (n / 256 ^ (width - 1 - i)).toUInt8

theorem digits_succ (width n : ℕ) : digits (width + 1) n = digits width (n / 256) ++ [n.toUInt8] := by
  unfold digits
  rw [List.range_succ, List.map_append]
  congr 1
  · refine List.map_congr_left fun i hi => ?_
    have hlt := List.mem_range.mp hi
    rw [Nat.div_div_eq_div_mul, ← Nat.pow_succ', show width + 1 - 1 - i = (width - 1 - i).succ by omega]
  · simp

theorem foldl_digits (width n acc : ℕ) :
    (digits width n).foldl (fun n x => n * 256 + x.toNat) acc = acc * 256 ^ width + n % 256 ^ width := by
  induction width generalizing n with
  | zero => simp [digits, Nat.mod_one]
  | succ width ih =>
    rw [digits_succ, List.foldl_append, ih]
    have hbyte : (n.toUInt8).toNat = n % 256 := by simp
    have hsplit : n % 256 ^ (width + 1) = n % 256 + 256 * (n / 256 % 256 ^ width) := by
      rw [Nat.pow_succ', Nat.mod_mul]
    show (acc * 256 ^ width + n / 256 % 256 ^ width) * 256 + (n.toUInt8).toNat = _
    rw [hbyte, hsplit, Nat.pow_succ]
    ring

/-- **A packed number is read back.** -/
theorem unpack_pack {width n : ℕ} {b : Bytes} (h : pack width n = .ok b) :
    b.length = width ∧ unpack b = n := by
  unfold pack at h
  split at h
  · next hlt =>
    cases h
    refine ⟨by rw [List.length_map, List.length_range], ?_⟩
    refine (foldl_digits width n 0).trans ?_
    rw [Nat.zero_mul, Nat.zero_add, Nat.mod_eq_of_lt hlt]
  · cases h

theorem pack_isOk {width n : ℕ} : (∃ b, pack width n = .ok b) ↔ n < 256 ^ width := by
  unfold pack
  split
  · next h => exact iff_of_true ⟨_, rfl⟩ h
  · next h => exact iff_of_false (fun ⟨b, hb⟩ => by cases hb) h

/-! ## Buffers -/

/-- **The buffers are read back.** -/
theorem readBuffers_packed {bs : List Bytes} {r : Bytes} (h : packBuffers bs = .ok r) :
    readBuffers r = .ok bs := by
  induction bs generalizing r with
  | nil =>
    cases h
    rw [readBuffers]
    rfl
  | cons b bs ih =>
    rw [packBuffers] at h
    obtain ⟨n, hn, h⟩ := bind_eq_ok.mp h
    obtain ⟨rest, hrest, h⟩ := bind_eq_ok.mp h
    cases h
    obtain ⟨hlen, hvalue⟩ := unpack_pack hn
    have htake : (n ++ b ++ rest).take 8 = n := by
      rw [List.append_assoc]
      exact List.take_left' hlen
    have hdrop : (n ++ b ++ rest).drop 8 = b ++ rest := by
      rw [List.append_assoc]
      exact List.drop_left' hlen
    have hlong : 8 ≤ (n ++ b ++ rest).length := by
      rw [List.length_append, List.length_append]
      omega
    have hfits : ¬ (n ++ b ++ rest).length - 8 < b.length := by
      rw [List.length_append, List.length_append]
      omega
    rw [readBuffers, dif_pos hlong, htake, hvalue, if_neg hfits, hdrop, List.drop_left, List.take_left,
      ih hrest]
    rfl

/-! ## Arrays -/

section array

variable {lim : Limits} {buffers : List Bytes} {a : NdArray}

/-- An array that the codec takes: `width` bytes an element, as many as the shape counts, and no more
than an array can have. -/
structure Encodable (lim : Limits) (a : NdArray) : Prop where
  counted : ∃ width, itemsize a.dtype = some width ∧ a.data.length = a.shape.prod * width
  inMemory : a.data.length < 2 ^ 63
  canShape : lim.canShape (contiguousShape a.shape) = true

theorem prod_contiguousShape (shape : List ℕ) : (contiguousShape shape).prod = shape.prod := by
  unfold contiguousShape
  split
  · next h => rw [h]; rfl
  · rfl

theorem itemsize_pos {dtype : String} {width : ℕ} (h : itemsize dtype = some width) : 0 < width := by
  unfold itemsize at h
  split at h
  all_goals
    cases h
    try omega

theorem dim?_natCast (d : ℕ) : dim? (.int d) = some d := by
  show (if (0 : ℤ) ≤ d then some (d : ℤ).toNat else none) = some d
  rw [if_pos (Int.natCast_nonneg d), Int.toNat_natCast]

theorem buffer?_natCast (place : ℕ) : buffer? buffers (.int place) = buffers[place]? := by
  show (if (0 : ℤ) ≤ place then buffers[(place : ℤ).toNat]? else none) = _
  rw [if_pos (Int.natCast_nonneg place), Int.toNat_natCast]

theorem mapM_dim? (shape : List ℕ) : (shape.map fun d : ℕ => Json.int d).mapM dim? = some shape := by
  induction shape with
  | nil => rfl
  | cons d shape ih =>
    rw [List.map_cons, List.mapM_cons, ih, dim?_natCast]
    rfl

theorem described?_arrayNode (h : Encodable lim a) {place : ℕ} (hplace : buffers[place]? = some a.data) :
    described? buffers a.dtype (.arr ((contiguousShape a.shape).map fun d : ℕ => .int d)) (.int place)
      = some (⟨a.dtype, contiguousShape a.shape, a.data⟩,
        (contiguousShape a.shape).map fun d : ℕ => .int d) := by
  obtain ⟨width, hwidth, hlen⟩ := h.counted
  have hpos := itemsize_pos hwidth
  have hbuffer : buffer? buffers (.int place) = some a.data := (buffer?_natCast place).trans hplace
  have hcount : a.data.length % width = 0 ∧
      (contiguousShape a.shape).prod = a.data.length / width := by
    rw [hlen, prod_contiguousShape, Nat.mul_mod_left, Nat.mul_div_cancel _ hpos]
    exact ⟨rfl, rfl⟩
  unfold described?
  rw [hwidth]
  simp only [Option.bind_eq_bind, Option.bind_some, hbuffer, mapM_dim?]
  exact if_pos hcount

/-- **An array is read from its node.** -/
theorem openNode_arrayNode (h : Encodable lim a) {place : ℕ} (hplace : buffers[place]? = some a.data)
    {b : Budget} (hnodes : b.nodes + 1 ≤ lim.maxNodes)
    (helems : b.elems + a.shape.prod ≤ lim.maxElems) :
    openNode lim buffers (arrayNode place (contiguousShape a.shape) a.dtype) b
      = .ok (.array ⟨a.dtype, contiguousShape a.shape, a.data⟩,
        ⟨b.nodes + 1, b.elems + a.shape.prod⟩) := by
  have hints : ((contiguousShape a.shape).map fun d : ℕ => Json.int d).any isBool = false := by
    rw [List.any_eq_false]
    intro x hx
    obtain ⟨d, -, rfl⟩ := List.mem_map.mp hx
    exact Bool.false_ne_true
  unfold openNode arrayNode
  dsimp only
  rw [if_neg (by omega), if_neg (List.cons_ne_nil _ _), openTagged_array rfl rfl]
  refine (openArray_described rfl (described?_arrayNode h hplace) ?_).trans ?_
  · rwa [prod_contiguousShape]
  · unfold reshape
    rw [hints, if_neg Bool.false_ne_true, if_pos h.canShape, prod_contiguousShape]
    rfl

end array

/-! ## Values -/

/-- The values that come back: scalars, lists, tuples, dicts, and arrays of at least one dimension. -/
inductive Sendable (lim : Limits) : Obj → Prop where
  | scalar (s : Scalar) : Sendable lim (.scalar s)
  | list (xs : List Obj) (h : ∀ x ∈ xs, Sendable lim x) : Sendable lim (.list xs)
  | tuple (xs : List Obj) (h : ∀ x ∈ xs, Sendable lim x) : Sendable lim (.tuple xs)
  | dict (kvs : List (String × Obj)) (hkeys : (kvs.map Prod.fst).Nodup)
      (h : ∀ x ∈ kvs.map Prod.snd, Sendable lim x) : Sendable lim (.dict kvs)
  | array (a : NdArray) (hshape : a.shape ≠ []) (h : Encodable lim a) : Sendable lim (.array a)

section values

variable {lim : Limits}

/-- What is written of `o` is read as `o`, with the buffers at the places they were written to. -/
def Reads (lim : Limits) (left : ℕ) (o : Obj) : Prop :=
  ∀ buffers, ∃ j new, enc o buffers = .ok (j, buffers ++ new) ∧ (∀ x ∈ new, x.length < 2 ^ 63) ∧
    ∀ later (b : Budget), b.nodes + o.nodes ≤ lim.maxNodes → b.elems + o.elems ≤ lim.maxElems →
      dec lim (buffers ++ new ++ later) left j b = .ok (o, ⟨b.nodes + o.nodes, b.elems + o.elems⟩)

/-- The same for a list of values. -/
def ReadsItems (lim : Limits) (left : ℕ) (xs : List Obj) : Prop :=
  ∀ buffers, ∃ js new, encItems xs buffers = .ok (js, buffers ++ new) ∧
    (∀ x ∈ new, x.length < 2 ^ 63) ∧ js.length = xs.length ∧ ∀ later (b : Budget), b.nodes + Obj.nodesItems xs ≤ lim.maxNodes →
      b.elems + Obj.elemsItems xs ≤ lim.maxElems →
        decAll (dec lim (buffers ++ new ++ later) left) js b
          = .ok (xs, ⟨b.nodes + Obj.nodesItems xs, b.elems + Obj.elemsItems xs⟩)

theorem readsItems {left : ℕ} {xs : List Obj} (h : ∀ x ∈ xs, Reads lim left x) :
    ReadsItems lim left xs := by
  induction xs with
  | nil =>
    intro buffers
    refine ⟨[], [], ?_, fun x hx => absurd hx List.not_mem_nil, rfl, fun later b _ _ => rfl⟩
    rw [List.append_nil]
    rfl
  | cons x xs ih =>
    intro buffers
    obtain ⟨j, new, henc, hnew, hdec⟩ := h x List.mem_cons_self buffers
    obtain ⟨js, new', hencs, hnew', hlen, hdecs⟩ :=
      ih (fun y hy => h y (List.mem_cons_of_mem x hy)) (buffers ++ new)
    refine ⟨j :: js, new ++ new', ?_, List.forall_mem_append.mpr ⟨hnew, hnew'⟩,
      congrArg Nat.succ hlen, fun later b hnodes helems => ?_⟩
    · rw [encItems, henc, ok_bind]
      dsimp only
      rw [hencs, List.append_assoc]
      rfl
    · rw [Obj.nodesItems] at hnodes ⊢
      rw [Obj.elemsItems] at helems ⊢
      have hfirst := hdec (new' ++ later) b (by omega) (by omega)
      have hrest := hdecs later ⟨b.nodes + x.nodes, b.elems + x.elems⟩ (by dsimp only; omega)
        (by dsimp only; omega)
      have hbuffers : buffers ++ (new ++ new') ++ later = buffers ++ new ++ (new' ++ later) := by
        simp only [List.append_assoc]
      rw [← List.append_assoc (buffers ++ new)] at hfirst
      rw [hbuffers, ← List.append_assoc (buffers ++ new), decAll, hfirst, ok_bind]
      dsimp only
      rw [hrest, ok_bind, Nat.add_assoc, Nat.add_assoc]
      rfl

/-- The values inside a node, which is counted before them. -/
theorem ReadsItems.inside {left : ℕ} {xs : List Obj} (h : ReadsItems lim left xs)
    (buffers : List Bytes) :
    ∃ js new, encItems xs buffers = .ok (js, buffers ++ new) ∧ (∀ x ∈ new, x.length < 2 ^ 63) ∧
      js.length = xs.length ∧ ∀ later (b : Budget), b.nodes + (Obj.nodesItems xs + 1) ≤ lim.maxNodes →
        b.elems + Obj.elemsItems xs ≤ lim.maxElems →
          decAll (dec lim (buffers ++ new ++ later) left) js ⟨b.nodes + 1, b.elems⟩
            = .ok (xs, ⟨b.nodes + (Obj.nodesItems xs + 1), b.elems + Obj.elemsItems xs⟩) := by
  obtain ⟨js, new, henc, hnew, hlen, hdec⟩ := h buffers
  refine ⟨js, new, henc, hnew, hlen, fun later b hnodes helems => ?_⟩
  have hrun := hdec later ⟨b.nodes + 1, b.elems⟩ (by show b.nodes + 1 + _ ≤ _; omega) helems
  rw [hrun, Nat.add_assoc b.nodes, Nat.add_comm 1]

/-- The members of a dict are written as its values are, each under its key. -/
theorem encMembers_eq (kvs : List (String × Obj)) (buffers : List Bytes) :
    encMembers kvs buffers = do
      let (js, buffers) ← encItems (kvs.map Prod.snd) buffers
      return ((kvs.map Prod.fst).zip js, buffers) := by
  induction kvs generalizing buffers with
  | nil => rfl
  | cons e kvs ih =>
    rw [encMembers, List.map_cons, encItems]
    cases henc : enc e.2 buffers with
    | error err => rfl
    | ok r =>
      rw [ok_bind, ok_bind]
      dsimp only
      rw [ih]
      cases encItems (kvs.map Prod.snd) r.2 with
      | error err => rfl
      | ok r' => rfl

theorem openNode_tagged {buffers : List Bytes} {kvs : List (String × Json)} (hne : kvs ≠ [])
    {b : Budget} (hnodes : b.nodes + 1 ≤ lim.maxNodes) :
    openNode lim buffers (.obj kvs) b
      = openTagged lim buffers (Json.dictOf kvs) ⟨b.nodes + 1, b.elems⟩ := by
  unfold openNode
  dsimp only
  rw [if_neg (by omega), if_neg hne]

theorem ofJson_toJson (s : Scalar) : ofJson s.toJson = .scalar s := by
  cases s <;> rfl

/-- **Every value is read as it was written**, when it is nested no deeper than the count allows. -/
theorem reads (left : ℕ) {o : Obj} (h : Sendable lim o) (hheight : o.height ≤ left) :
    Reads lim left o := by
  induction left generalizing o with
  | zero =>
    cases h
    all_goals
      rw [Obj.height] at hheight
      omega
  | succ left ih =>
    have hitems : ∀ {xs : List Obj}, (∀ x ∈ xs, Sendable lim x) → Obj.heightItems xs + 1 ≤ left + 1 →
        ReadsItems lim left xs := fun hxs hle =>
      readsItems fun x hx => ih (hxs x hx) ((Obj.height_le_of_mem hx).trans (Nat.le_of_succ_le_succ hle))
    intro buffers
    cases h with
    | scalar s =>
      refine ⟨_, [], by rw [List.append_nil]; rfl, fun x hx => absurd hx List.not_mem_nil,
        fun later b hnodes _ => ?_⟩
      rw [Obj.nodes] at hnodes
      rw [dec, openNode_tagged (List.cons_ne_nil _ _) hnodes, openTagged_value rfl, ok_bind]
      dsimp only
      rw [ofJson_toJson]
      rfl
    | list xs hxs =>
      rw [Obj.height] at hheight
      obtain ⟨js, new, henc, hnew, -, hdec⟩ := (hitems hxs hheight).inside buffers
      refine ⟨.obj [("$l", .arr js)], new, ?_, hnew, fun later b hnodes helems => ?_⟩
      · rw [enc, henc]
        rfl
      · rw [Obj.nodes] at hnodes ⊢
        rw [Obj.elems] at helems ⊢
        rw [dec, openNode_tagged (List.cons_ne_nil _ _) (by omega), openTagged_list rfl rfl rfl rfl rfl]
        rw [show (Json.arr js).toList = .ok js from rfl, ok_bind]
        dsimp only [pure, Except.pure]
        rw [ok_bind]
        dsimp only
        rw [hdec later b hnodes helems]
        rfl
    | tuple xs hxs =>
      rw [Obj.height] at hheight
      obtain ⟨js, new, henc, hnew, -, hdec⟩ := (hitems hxs hheight).inside buffers
      refine ⟨.obj [("$t", .arr js)], new, ?_, hnew, fun later b hnodes helems => ?_⟩
      · rw [enc, henc]
        rfl
      · rw [Obj.nodes] at hnodes ⊢
        rw [Obj.elems] at helems ⊢
        rw [dec, openNode_tagged (List.cons_ne_nil _ _) (by omega), openTagged_tuple rfl rfl rfl rfl]
        rw [show (Json.arr js).toList = .ok js from rfl, ok_bind]
        dsimp only [pure, Except.pure]
        rw [ok_bind]
        dsimp only
        rw [hdec later b hnodes helems]
        rfl
    | dict kvs hkeys hvs =>
      rw [Obj.height, Obj.heightMembers_eq] at hheight
      obtain ⟨js, new, henc, hnew, hlen, hdec⟩ := (hitems hvs hheight).inside buffers
      rw [List.length_map] at hlen
      have hfst : ((kvs.map Prod.fst).zip js).map Prod.fst = kvs.map Prod.fst :=
        List.map_fst_zip (by rw [List.length_map, hlen])
      have hsnd : ((kvs.map Prod.fst).zip js).map Prod.snd = js :=
        List.map_snd_zip (by rw [List.length_map, hlen])
      have hentries : (Json.dictOf ((kvs.map Prod.fst).zip js)).entries = (kvs.map Prod.fst).zip js :=
        Dict.entries_ofList (hfst.symm ▸ hkeys)
      refine ⟨.obj [("$d", .obj ((kvs.map Prod.fst).zip js))], new, ?_, hnew,
        fun later b hnodes helems => ?_⟩
      · rw [enc, encMembers_eq, henc]
        rfl
      · rw [Obj.nodes, Obj.nodesMembers_eq] at hnodes ⊢
        rw [Obj.elems, Obj.elemsMembers_eq] at helems ⊢
        rw [dec, openNode_tagged (List.cons_ne_nil _ _) (by omega), openTagged_dict rfl rfl rfl]
        unfold openDict
        dsimp only
        rw [ok_bind]
        dsimp only
        rw [hentries, hsnd, hfst, hdec later b hnodes helems]
        exact congrArg (fun ps => Except.ok (Obj.dict ps, _)) (List.zip_of_prod rfl rfl).symm
    | array a hshape ha =>
      have hsame : contiguousShape a.shape = a.shape := if_neg hshape
      obtain ⟨width, hwidth, -⟩ := ha.counted
      refine ⟨arrayNode buffers.length a.shape a.dtype, [a.data], ?_,
        fun x hx => List.mem_singleton.mp hx ▸ ha.inMemory, fun later b hnodes helems => ?_⟩
      · rw [enc, hwidth]
        dsimp only
        rw [hsame]
      · have hplace : (buffers ++ [a.data] ++ later)[buffers.length]? = some a.data := by
          rw [List.append_assoc, List.getElem?_append_right (Nat.le_refl _), Nat.sub_self]
          rfl
        have hopen := openNode_arrayNode ha hplace hnodes helems
        rw [hsame] at hopen
        rw [dec, hopen]
        rfl

end values

/-! ## Frames -/

section frames

variable {T : PyText} {H : Hmac} {lim : Limits} {o : Obj} {key : Option Bytes} {frame : Bytes}

/-- A signed frame is let through. -/
theorem authenticate_sign (H : Hmac) (key : Option Bytes) (frame : Bytes) :
    authenticate H (H.sign key frame) key = .ok frame := by
  cases key with
  | none => rfl
  | some k =>
    have hlen := H.length_digest k frame
    have hdrop : (H.digest k frame ++ frame).drop 32 = frame := List.drop_left' hlen
    have htake : (H.digest k frame ++ frame).take 32 = H.digest k frame := List.take_left' hlen
    unfold authenticate Hmac.sign
    dsimp only
    rw [hdrop, htake, if_neg (by rw [List.length_append]; omega), if_pos rfl]

/-- **A frame is opened to the metadata and the buffers it was made of.** -/
theorem openFrame_packed {j : Json} {buffers : List Bytes} {n rest : Bytes}
    (hn : pack 4 (utf8 (String.ofList (j.render T [' ']))).length = .ok n)
    (hrest : packBuffers buffers = .ok rest) :
    openFrame T (n ++ utf8 (String.ofList (j.render T [' '])) ++ rest) = .ok (j, buffers) := by
  obtain ⟨hlen, hvalue⟩ := unpack_pack hn
  set text := utf8 (String.ofList (j.render T [' '])) with htext
  have htake : (n ++ text ++ rest).take 4 = n := by
    rw [List.append_assoc]
    exact List.take_left' hlen
  have hdrop : (n ++ text ++ rest).drop 4 = text ++ rest := by
    rw [List.append_assoc]
    exact List.drop_left' hlen
  have hblank : ∀ c ∈ [' '], Json.isBlank c = true := fun c hc => by
    rw [List.mem_singleton.mp hc]
    rfl
  have hlong : (n ++ text ++ rest).length = 4 + text.length + rest.length := by
    rw [List.length_append, List.length_append, hlen]
  unfold openFrame
  rw [if_neg (by omega), htake, hvalue, if_neg (by omega), hdrop, List.take_left, List.drop_left,
    htext, decodeUtf8_utf8]
  dsimp only
  rw [Json.loads_render T hblank, readBuffers_packed hrest]
  rfl

variable (lim) in
theorem decodeMsg_of_encodeMsg (h : encodeMsg T H o key = .ok frame) :
    ∃ j buffers, enc o [] = .ok (j, buffers) ∧ decodeMsg T H lim frame key = do
      let (o, _) ← dec lim buffers (maxDepth + 1) j ⟨0, 0⟩
      return o := by
  unfold encodeMsg at h
  obtain ⟨⟨j, buffers⟩, henc, h⟩ := bind_eq_ok.mp h
  obtain ⟨n, hn, h⟩ := bind_eq_ok.mp h
  obtain ⟨rest, hrest, h⟩ := bind_eq_ok.mp h
  cases h
  refine ⟨j, buffers, henc, ?_⟩
  unfold decodeMsg
  rw [authenticate_sign, ok_bind, openFrame_packed hn hrest]
  rfl

/-- **What is encoded is decoded**, within the limits. -/
theorem decodeMsg_encodeMsg (hsend : Sendable lim o) (hheight : o.height ≤ maxDepth + 1)
    (hnodes : o.nodes ≤ lim.maxNodes) (helems : o.elems ≤ lim.maxElems)
    (h : encodeMsg T H o key = .ok frame) : decodeMsg T H lim frame key = .ok o := by
  obtain ⟨j, buffers, henc, hdecode⟩ := decodeMsg_of_encodeMsg lim h
  obtain ⟨j', new, henc', -, hdec⟩ := reads (maxDepth + 1) hsend hheight []
  obtain ⟨rfl, rfl⟩ := Prod.mk.inj (Except.ok.inj (henc.symm.trans henc'))
  have hrun := hdec [] ⟨0, 0⟩ (by rwa [Nat.zero_add]) (by rwa [Nat.zero_add])
  rw [List.append_nil, List.nil_append] at hrun
  rw [hdecode, hrun]
  rfl

theorem packBuffers_isOk {bs : List Bytes} (h : ∀ b ∈ bs, b.length < 2 ^ 63) :
    ∃ r, packBuffers bs = .ok r := by
  induction bs with
  | nil => exact ⟨[], rfl⟩
  | cons b bs ih =>
    have hlen := h b List.mem_cons_self
    obtain ⟨n, hn⟩ := pack_isOk.mpr (show b.length < 256 ^ 8 by omega)
    obtain ⟨rest, hrest⟩ := ih fun x hx => h x (List.mem_cons_of_mem b hx)
    exact ⟨n ++ b ++ rest, by rw [packBuffers, hn, ok_bind, hrest, ok_bind]; rfl⟩

/-- The metadata of a value is shorter than the four bytes in front of it can say. -/
def MetaFits (T : PyText) (o : Obj) : Prop :=
  ∀ j buffers, enc o [] = .ok (j, buffers) →
    (utf8 (String.ofList (j.render T [' ']))).length < 2 ^ 32

theorem exists_encodeMsg (T : PyText) (H : Hmac) (key : Option Bytes) (hsend : Sendable lim o)
    (hheight : o.height ≤ maxDepth + 1) (hfits : MetaFits T o) :
    ∃ frame, encodeMsg T H o key = .ok frame := by
  obtain ⟨j, new, henc, hnew, -⟩ := reads (maxDepth + 1) hsend hheight []
  obtain ⟨n, hn⟩ := pack_isOk.mpr (show _ < 256 ^ 4 from hfits j _ henc)
  obtain ⟨rest, hrest⟩ := packBuffers_isOk hnew
  unfold encodeMsg
  rw [henc, ok_bind]
  dsimp only
  rw [hn, ok_bind, List.nil_append, hrest, ok_bind]
  exact ⟨_, rfl⟩

/-! ## Authenticated frames -/

/-- Nobody makes a digest under the key but the sender: what can be presented and has the digest of
its frame in front is a frame that was sent. -/
structure Unforgeable (T : PyText) (H : Hmac) (key : Bytes) (sent seen : Set Bytes) : Prop where
  encoded : ∀ frame ∈ sent, ∃ o, encodeMsg T H o none = .ok frame
  digests : ∀ data ∈ seen, ∀ frame, data = H.digest key frame ++ frame → frame ∈ sent

/-- A frame that is let through has the digest of its rest in front. -/
theorem eq_sign_of_authenticate {data : Bytes} {k : Bytes}
    (h : authenticate H data (some k) = .ok frame) : data = H.digest k frame ++ frame := by
  unfold authenticate at h
  dsimp only at h
  split at h
  · cases h
  · split at h
    · next heq =>
      cases h
      rw [← heq, List.take_append_drop]
    · cases h

theorem encodeMsg_sign (h : encodeMsg T H o none = .ok frame) (k : Bytes) :
    encodeMsg T H o (some k) = .ok (H.digest k frame ++ frame) := by
  unfold encodeMsg at h ⊢
  obtain ⟨⟨j, buffers⟩, henc, h⟩ := bind_eq_ok.mp h
  obtain ⟨n, hn, h⟩ := bind_eq_ok.mp h
  obtain ⟨rest, hrest, h⟩ := bind_eq_ok.mp h
  cases h
  rw [henc, ok_bind]
  dsimp only
  rw [hn, ok_bind, hrest, ok_bind]
  rfl

/-- Digests of zeros. -/
def zeroHmac : Hmac := ⟨fun _ _ => List.replicate 32 0, fun _ _ => List.length_replicate⟩

def fiveNodes : Limits := ⟨5, 1, 1, fun _ => true⟩

/-- `{"a": (None, [])}`. -/
def smallDict : Obj := .dict [("a", .tuple [.scalar .none, .list []])]

theorem smallDict_sendable : Sendable fiveNodes smallDict := by
  refine .dict _ (List.nodup_singleton "a") fun x hx => ?_
  rw [List.mem_singleton.mp hx]
  refine .tuple _ fun y hy => ?_
  rcases List.mem_pair.mp hy with rfl | rfl
  · exact .scalar .none
  · exact .list [] fun z hz => absurd hz List.not_mem_nil

theorem length_le_utf8 (cs : List Char) : cs.length ≤ (utf8 (String.ofList cs)).length := by
  rw [utf8_eq_flatMap, String.toList_ofList]
  induction cs with
  | nil => exact Nat.zero_le _
  | cons c cs ih =>
    have hpos := Char.utf8Size_pos c
    rw [List.flatMap_cons, List.length_append, String.length_utf8EncodeChar, List.length_cons]
    omega

theorem length_le_metadata (T : PyText) (s : String) :
    s.toList.length ≤ (utf8 (String.ofList ((Json.obj [("$v", .str s)]).render T [' ']))).length := by
  have hbody := Json.length_le_escapeBody s.toList
  refine le_trans ?_ (length_le_utf8 _)
  rw [Json.render, Json.renderMembers, Json.render]
  simp only [Json.closeString, List.length_cons, List.length_append]
  omega

end frames

end NeuraHash.SafeCodec
