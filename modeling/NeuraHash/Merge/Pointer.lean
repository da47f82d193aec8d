import NeuraHash.Python.JsonRead
import NeuraHash.Platform

/-!
# The lane's pointer (`sd_pointer_encode`, `sd_pointer_decode`)

The coordinator publishes one pointer. Version 2 has the event and a round for each slot, and repeats
the event and the root under the names of version 1, so that one decoder reads both.

What the encoder writes comes back. For any other JSON value the decoder is meant to return or to
raise `ValueError`, the one exception its reader catches: `sd_pointer_iff` says for which values that
is so. A field that `int` or `dict` refuses for its type raises something else.
-/

namespace NeuraHash

open Py

/-! ## Errors other than `ValueError` -/

/-- The code raises something else than `ValueError`. -/
def Escapes {α : Type} (x : Except PyErr α) : Prop := ∃ e, x = .error e ∧ e ≠ .valueError

section Escapes

variable {α β : Type}

@[simp] theorem not_escapes_ok (a : α) : ¬ Escapes (.ok a : Except PyErr α) :=
  fun ⟨_, h, _⟩ => by cases h

@[simp] theorem escapes_error {e : PyErr} : Escapes (.error e : Except PyErr α) ↔ e ≠ .valueError :=
  ⟨fun ⟨_, h, hne⟩ => by cases h; exact hne, fun hne => ⟨e, rfl, hne⟩⟩

theorem escapes_bind {x : Except PyErr α} {f : α → Except PyErr β} :
    Escapes (x >>= f) ↔ Escapes x ∨ ∃ a, x = .ok a ∧ Escapes (f a) := by
  cases x with
  | ok a => simp
  | error e => simp

theorem returns_or_valueError {x : Except PyErr α} :
    ((∃ a, x = .ok a) ∨ x = .error .valueError) ↔ ¬ Escapes x := by
  cases x with
  | ok a => simp
  | error e => simp

/-- A list with a bad item that only good ones precede. -/
def FirstFault (good bad : α → Prop) (l : List α) : Prop :=
  ∃ front a rest, l = front ++ a :: rest ∧ (∀ b ∈ front, good b) ∧ bad a

theorem firstFault_cons {good bad : α → Prop} {a : α} {l : List α} :
    FirstFault good bad (a :: l) ↔ bad a ∨ good a ∧ FirstFault good bad l := by
  constructor
  · rintro ⟨front, b, rest, heq, hfront, hb⟩
    cases front with
    | nil =>
      cases heq
      exact .inl hb
    | cons c front =>
      cases heq
      exact .inr ⟨hfront _ List.mem_cons_self, front, b, rest, rfl,
        fun d hd => hfront d (List.mem_cons_of_mem _ hd), hb⟩
  · rintro (ha | ⟨ha, front, b, rest, rfl, hfront, hb⟩)
    · exact ⟨[], a, l, rfl, fun _ h => (by cases h), ha⟩
    · refine ⟨a :: front, b, rest, rfl, fun d hd => ?_, hb⟩
      rcases List.mem_cons.mp hd with rfl | hd
      · exact ha
      · exact hfront d hd

/-- A traversal raises what its first failing step raises. -/
theorem escapes_mapM {f : α → Except PyErr β} {l : List α} :
    Escapes (l.mapM f) ↔ FirstFault (fun a => ∃ b, f a = .ok b) (fun a => Escapes (f a)) l := by
  induction l with
  | nil =>
    refine iff_of_false (not_escapes_ok _) ?_
    rintro ⟨front, a, rest, heq, -⟩
    cases front <;> cases heq
  | cons a l ih =>
    rw [List.mapM_cons, firstFault_cons, escapes_bind]
    refine or_congr Iff.rfl ⟨?_, ?_⟩
    · rintro ⟨b, hb, htail⟩
      rcases escapes_bind.mp htail with htail | ⟨bs, -, hpure⟩
      · exact ⟨⟨b, hb⟩, ih.mp htail⟩
      · exact absurd hpure (not_escapes_ok _)
    · rintro ⟨⟨b, hb⟩, htail⟩
      exact ⟨b, hb, escapes_bind.mpr (.inl (ih.mpr htail))⟩

end Escapes

/-! ## The codec -/

/-- `sd_pointer_encode(event, slot_rounds, model_root, done, published_at)`. -/
def sdPointerEncode (event : ℤ) (slotRounds : Dict String ℤ) (modelRoot : Json) (done : Bool)
    (publishedAt : Option ℤ) : Json :=
  .obj ([("v", .int 2), ("event", .int event),
    ("rounds", .obj (slotRounds.entries.map fun p => (p.1, .int p.2))),
    ("model_root", modelRoot), ("done", .bool done), ("round", .int event),
    ("state_cid", modelRoot)] ++ publishedAt.toList.map fun at' => ("published_at", .int at'))

/-- What the decoder returns; `slotRounds` is `none` for a pointer of version 1. -/
structure SdPointer where
  v : ℕ
  event : ℤ
  slotRounds : Option (Dict Key ℤ)
  modelRoot : Json
  done : Bool
  publishedAt : Option ℤ

variable (T : PyText)

/-- An item of the argument of `dict(...)`: two items, the first hashable. -/
def dictPair (x : Json) : Except PyErr (Key × Json) := do
  match ← x.toList with
  | [k, v] => return (← Key.ofJson k, v)
  | _ => .error .valueError

/-- The pairs `dict(j)` inserts. -/
def dictPairs : Json → Except PyErr (List (Key × Json))
  | .obj kvs => .ok ((Json.dictOf kvs).entries.map fun p => (.str p.1, p.2))
  | .arr xs => xs.mapM dictPair
  | .str s => if s = "" then .ok [] else .error .valueError
  | _ => .error .typeError

/-- `int(v)` of a value of the map, with its key. -/
def slotRound (p : Key × Json) : Except PyErr (Key × ℤ) := do
  return (p.1, ← p.2.toInt T)

/-- `{k: int(v) for k, v in dict(j).items()}`. -/
def readRounds (j : Json) : Except PyErr (Dict Key ℤ) := do
  let pairs ← dictPairs j
  return Dict.ofList (← (Dict.ofList pairs).entries.mapM (slotRound T))

/-- `_sd_ptr_with_stamp(out, obj)`. -/
def withStamp (obj : Json) (out : SdPointer) : Except PyErr SdPointer :=
  match obj.get? "published_at" with
  | none | some .null => .ok out
  | some raw => match raw.toInt T with
    | .ok n => .ok { out with publishedAt := some n }
    | .error .typeError | .error .valueError => .ok out
    | .error e => .error e

/-- `bool(obj.get("done", False))`. -/
def doneFlag (obj : Json) : Bool := ((obj.get? "done").getD (.bool false)).truthy

/-- The version of a pointer is 2. -/
def isV2 (obj : Json) : Bool := ((obj.get? "v").getD .null).pyEq (.int 2)

/-- `sd_pointer_decode(obj)`. -/
def sdPointerDecode (obj : Json) : Except PyErr SdPointer :=
  if !obj.isObj then .error .valueError
  else if isV2 obj then
    match obj.get? "event", obj.get? "rounds", obj.get? "model_root" with
    | some event, some rounds, some root => do
      let n ← event.toInt T
      let slots ← readRounds T rounds
      withStamp T obj ⟨2, n, some slots, root, doneFlag obj, none⟩
    | _, _, _ => .error .valueError
  else
    match obj.get? "round", obj.get? "state_cid" with
    | some round, some root => do
      let n ← round.toInt T
      withStamp T obj ⟨1, n, none, root, doneFlag obj, none⟩
    | _, _ => .error .valueError

/-! ## What makes the decoder raise something else -/

/-- `int(j)` returns. -/
def Converts (j : Json) : Prop := ∃ n, j.toInt T = .ok n

/-- `int(j)` raises something else than `ValueError`: no number and no text, or infinite. -/
def Unconvertible : Json → Prop
  | .null | .arr _ | .obj _ => True
  | .float x => x = .inf ∨ x = .negInf
  | _ => False

/-- Not to be iterated: `None` or a number. -/
def NoIterable : Json → Prop
  | .str _ | .arr _ | .obj _ => False
  | _ => True

/-- An item that is a pair for `dict`. -/
def IsPair (x : Json) : Prop := ∃ p, dictPair x = .ok p

/-- An item of the wrong type for `dict`: no iterable, or a pair whose key is a list or a dict. -/
def NoPair (x : Json) : Prop :=
  NoIterable x ∨ ∃ k v, x = .arr [k, v] ∧ ((∃ xs, k = .arr xs) ∨ ∃ kvs, k = .obj kvs)

/-- `dict(j)` raises something else than `ValueError`. -/
def NoDict (j : Json) : Prop := NoIterable j ∨ ∃ xs, j = .arr xs ∧ FirstFault IsPair NoPair xs

/-- The rounds are no dict, or one whose first value that is no number is not even a text. -/
def RoundsFault (j : Json) : Prop :=
  NoDict j ∨ ∃ pairs, dictPairs j = .ok pairs ∧
    FirstFault (fun p : Key × Json => Converts T p.2) (fun p => Unconvertible p.2)
      (Dict.ofList pairs).entries

/-- An infinite stamp. -/
def StampFault (obj : Json) : Prop :=
  obj.get? "published_at" = some (.float .inf) ∨ obj.get? "published_at" = some (.float .negInf)

/-- A pointer with all its required fields, the first that cannot be read of the wrong type. -/
def PointerFault (obj : Json) : Prop :=
  if isV2 obj then
    ∃ event rounds root, obj.get? "event" = some event ∧ obj.get? "rounds" = some rounds ∧
      obj.get? "model_root" = some root ∧
      (Unconvertible event ∨ Converts T event ∧
        (RoundsFault T rounds ∨ (∃ slots, readRounds T rounds = .ok slots) ∧ StampFault obj))
  else
    ∃ round root, obj.get? "round" = some round ∧ obj.get? "state_cid" = some root ∧
      (Unconvertible round ∨ Converts T round ∧ StampFault obj)

variable {T}

theorem escapes_toInt {j : Json} : Escapes (j.toInt T) ↔ Unconvertible j := by
  cases j with
  | float x => cases x <;> simp [Json.toInt, Unconvertible]
  | str s =>
    simp only [Json.toInt, Unconvertible]
    cases T.parseInt s <;> simp
  | _ => simp [Json.toInt, Unconvertible]

theorem escapes_toList {x : Json} : Escapes x.toList ↔ NoIterable x := by
  cases x <;> simp [Json.toList, NoIterable]

theorem escapes_key {k : Json} :
    Escapes (Key.ofJson k) ↔ (∃ xs, k = .arr xs) ∨ ∃ kvs, k = .obj kvs := by
  cases k <;> simp [Key.ofJson, Json.number?]

/-- The items of a text or of a dict are texts. -/
theorem str_of_toList {x : Json} {items : List Json} (h : x.toList = .ok items) :
    x = .arr items ∨ ∀ k ∈ items, ∃ s, k = .str s := by
  cases x with
  | arr xs =>
    cases h
    exact .inl rfl
  | str s =>
    cases h
    refine .inr fun k hk => ?_
    obtain ⟨c, -, rfl⟩ := List.mem_map.mp hk
    exact ⟨_, rfl⟩
  | obj kvs =>
    cases h
    refine .inr fun k hk => ?_
    obtain ⟨s, -, rfl⟩ := List.mem_map.mp hk
    exact ⟨_, rfl⟩
  | _ => cases h

theorem escapes_dictPair {x : Json} : Escapes (dictPair x) ↔ NoPair x := by
  unfold dictPair NoPair
  rw [escapes_bind, escapes_toList]
  refine or_congr Iff.rfl ⟨?_, ?_⟩
  · rintro ⟨items, hitems, hfault⟩
    match items, hfault with
    | [k, v], hfault =>
      dsimp only at hfault
      rcases escapes_bind.mp hfault with hkey | ⟨key, -, hpure⟩
      · rcases str_of_toList hitems with rfl | htexts
        · exact ⟨k, v, rfl, escapes_key.mp hkey⟩
        · obtain ⟨s, rfl⟩ := htexts k List.mem_cons_self
          exact absurd hkey (not_escapes_ok _)
      · exact absurd hpure (not_escapes_ok _)
    | [], hfault => exact absurd rfl (escapes_error.mp hfault)
    | [_], hfault => exact absurd rfl (escapes_error.mp hfault)
    | _ :: _ :: _ :: _, hfault => exact absurd rfl (escapes_error.mp hfault)
  · rintro ⟨k, v, rfl, hk⟩
    exact ⟨[k, v], rfl, escapes_bind.mpr (.inl (escapes_key.mpr hk))⟩

theorem escapes_dictPairs {j : Json} : Escapes (dictPairs j) ↔ NoDict j := by
  unfold NoDict
  cases j with
  | arr xs =>
    show Escapes (xs.mapM dictPair) ↔ _
    rw [escapes_mapM]
    simp only [NoIterable, Json.arr.injEq, exists_eq_left', false_or, escapes_dictPair]
    rfl
  | str s =>
    simp only [dictPairs, NoIterable]
    split <;> simp
  | _ => simp [dictPairs, NoIterable]

theorem escapes_slotRound {p : Key × Json} :
    Escapes (slotRound T p) ↔ Unconvertible p.2 := by
  unfold slotRound
  rw [escapes_bind, escapes_toInt]
  refine or_iff_left ?_
  rintro ⟨n, -, hpure⟩
  exact not_escapes_ok _ hpure

theorem slotRound_ok {p : Key × Json} : (∃ r, slotRound T p = .ok r) ↔ Converts T p.2 := by
  unfold slotRound Converts
  cases p.2.toInt T with
  | ok n => exact iff_of_true ⟨_, rfl⟩ ⟨n, rfl⟩
  | error e => exact iff_of_false (fun ⟨_, h⟩ => by cases h) fun ⟨_, h⟩ => by cases h

theorem escapes_readRounds {j : Json} : Escapes (readRounds T j) ↔ RoundsFault T j := by
  unfold readRounds RoundsFault
  rw [escapes_bind, escapes_dictPairs]
  refine or_congr Iff.rfl (exists_congr fun pairs => and_congr_right fun _ => ?_)
  rw [escapes_bind, escapes_mapM]
  simp only [slotRound_ok, escapes_slotRound]
  refine or_iff_left ?_
  rintro ⟨items, -, hpure⟩
  exact not_escapes_ok _ hpure

theorem escapes_withStamp {obj : Json} {out : SdPointer} :
    Escapes (withStamp T obj out) ↔ StampFault obj := by
  unfold withStamp StampFault
  cases hget : obj.get? "published_at" with
  | none => simp
  | some raw => cases raw with
    | float x => cases x <;> simp [Json.toInt]
    | str s =>
      simp only [Json.toInt]
      cases T.parseInt s <;> simp
    | _ => simp [Json.toInt]

theorem escapes_decode {obj : Json} : Escapes (sdPointerDecode T obj) ↔ PointerFault T obj := by
  unfold sdPointerDecode PointerFault
  by_cases hobj : obj.isObj = true
  · have hnot : (!obj.isObj) = false := by rw [hobj]; rfl
    rw [hnot, if_neg Bool.false_ne_true]
    by_cases hv : isV2 obj = true
    · rw [if_pos hv, if_pos hv]
      split
      · next event rounds root hevent hrounds hroot =>
        rw [escapes_bind, escapes_toInt]
        constructor
        · rintro (hfault | ⟨n, hn, hlater⟩)
          · exact ⟨event, rounds, root, hevent, hrounds, hroot, .inl hfault⟩
          · refine ⟨event, rounds, root, hevent, hrounds, hroot, .inr ⟨⟨n, hn⟩, ?_⟩⟩
            rcases escapes_bind.mp hlater with hslots | ⟨slots, hslots, hstamp⟩
            · exact .inl (escapes_readRounds.mp hslots)
            · exact .inr ⟨⟨slots, hslots⟩, escapes_withStamp.mp hstamp⟩
        · rintro ⟨event', rounds', root', hevent', hrounds', -, hfault⟩
          rw [hevent] at hevent'
          rw [hrounds] at hrounds'
          cases hevent'
          cases hrounds'
          rcases hfault with hfault | ⟨⟨n, hn⟩, hlater⟩
          · exact .inl hfault
          · refine .inr ⟨n, hn, escapes_bind.mpr ?_⟩
            rcases hlater with hslots | ⟨⟨slots, hslots⟩, hstamp⟩
            · exact .inl (escapes_readRounds.mpr hslots)
            · exact .inr ⟨slots, hslots, escapes_withStamp.mpr hstamp⟩
      · next hmissing =>
        refine iff_of_false (by simp) ?_
        rintro ⟨event, rounds, root, hevent, hrounds, hroot, -⟩
        exact hmissing event rounds root hevent hrounds hroot
    · rw [if_neg hv, if_neg hv]
      split
      · next round root hround hroot =>
        rw [escapes_bind, escapes_toInt]
        constructor
        · rintro (hfault | ⟨n, hn, hstamp⟩)
          · exact ⟨round, root, hround, hroot, .inl hfault⟩
          · exact ⟨round, root, hround, hroot, .inr ⟨⟨n, hn⟩, escapes_withStamp.mp hstamp⟩⟩
        · rintro ⟨round', root', hround', -, hfault⟩
          rw [hround] at hround'
          cases hround'
          rcases hfault with hfault | ⟨⟨n, hn⟩, hstamp⟩
          · exact .inl hfault
          · exact .inr ⟨n, hn, escapes_withStamp.mpr hstamp⟩
      · next hmissing =>
        refine iff_of_false (by simp) ?_
        rintro ⟨round, root, hround, hroot, -⟩
        exact hmissing round root hround hroot
  · have hno : ∀ k, obj.get? k = none := fun k => by
      cases obj with
      | obj kvs => exact absurd rfl hobj
      | _ => rfl
    have hnot : (!obj.isObj) = true := by simpa using hobj
    rw [if_pos hnot]
    refine iff_of_false (by simp) ?_
    simp [hno]

/-! ## The round trip -/

/-- A map of rounds as the decoder returns it. -/
def keyedRounds (slotRounds : Dict String ℤ) : Dict Key ℤ :=
  Dict.ofList (slotRounds.entries.map fun p => (.str p.1, p.2))

/-- The stamp of a pointer; an unusable one is `none`. -/
def stampOf (T : PyText) (obj : Json) : Option ℤ :=
  (obj.get? "published_at").bind fun raw => (raw.toInt T).toOption

theorem withStamp_ok {obj : Json} {out dec : SdPointer} (hout : out.publishedAt = none)
    (h : withStamp T obj out = .ok dec) : dec = { out with publishedAt := stampOf T obj } := by
  have hsame : out = { out with publishedAt := none } := by rw [← hout]
  unfold withStamp at h
  unfold stampOf
  cases hget : obj.get? "published_at" with
  | none =>
    rw [hget] at h
    cases h
    exact hsame
  | some raw =>
    rw [hget] at h
    cases raw with
    | null =>
      cases h
      exact hsame
    | _ =>
      dsimp only at h
      split at h
      · next n hn =>
        cases h
        rw [Option.bind_some, hn]
        rfl
      · next hn =>
        cases h
        rw [Option.bind_some, hn]
        exact hsame
      · next hn =>
        cases h
        rw [Option.bind_some, hn]
        exact hsame
      · cases h

theorem decode_stamp {obj : Json} {dec : SdPointer} (h : sdPointerDecode T obj = .ok dec) :
    dec.publishedAt = stampOf T obj := by
  unfold sdPointerDecode at h
  split at h
  · cases h
  · split at h
    · split at h
      · obtain ⟨n, -, h⟩ := bind_eq_ok.mp h
        obtain ⟨slots, -, h⟩ := bind_eq_ok.mp h
        rw [withStamp_ok rfl h]
      · cases h
    · split at h
      · obtain ⟨n, -, h⟩ := bind_eq_ok.mp h
        rw [withStamp_ok rfl h]
      · cases h

theorem readRounds_encoded (slotRounds : Dict String ℤ) :
    readRounds T (.obj (slotRounds.entries.map fun p => (p.1, .int p.2)))
      = .ok (keyedRounds slotRounds) := by
  have hnodup : ((slotRounds.entries.map fun p => (p.1, Json.int p.2)).map Prod.fst).Nodup := by
    rw [List.map_map]
    exact slotRounds.nodup
  have hpairs : dictPairs (.obj (slotRounds.entries.map fun p => (p.1, .int p.2)))
      = .ok (slotRounds.entries.map fun p => (Key.str p.1, Json.int p.2)) := by
    show Except.ok ((Dict.ofList _).entries.map _) = _
    rw [Dict.entries_ofList hnodup, List.map_map]
    rfl
  have hkeys : ((slotRounds.entries.map fun p => (Key.str p.1, Json.int p.2)).map Prod.fst).Nodup := by
    rw [List.map_map]
    have hstr : slotRounds.entries.map (Prod.fst ∘ fun p => (Key.str p.1, Json.int p.2))
        = (slotRounds.entries.map Prod.fst).map Key.str := by
      rw [List.map_map]
      rfl
    rw [hstr]
    exact slotRounds.nodup.map fun _ _ h => Key.str.inj h
  have hvalues : ∀ l : List (String × ℤ),
      (l.map fun p => (Key.str p.1, Json.int p.2)).mapM (slotRound T)
        = .ok (l.map fun p => (Key.str p.1, p.2)) := by
    intro l
    induction l with
    | nil => rfl
    | cons p l ih =>
      rw [List.map_cons, List.mapM_cons, ih]
      rfl
  unfold readRounds
  rw [hpairs, ok_bind, Dict.entries_ofList hkeys, hvalues]
  rfl

/-- The members of an encoded pointer. -/
theorem get?_encoded (event : ℤ) (slotRounds : Dict String ℤ) (modelRoot : Json) (done : Bool)
    (publishedAt : Option ℤ) :
    let wire := sdPointerEncode event slotRounds modelRoot done publishedAt
    wire.get? "v" = some (.int 2) ∧ wire.get? "event" = some (.int event) ∧
      wire.get? "rounds" = some (.obj (slotRounds.entries.map fun p => (p.1, .int p.2))) ∧
      wire.get? "model_root" = some modelRoot ∧ wire.get? "done" = some (.bool done) ∧
      wire.get? "round" = some (.int event) ∧ wire.get? "state_cid" = some modelRoot ∧
      wire.get? "published_at" = publishedAt.map .int := by
  unfold sdPointerEncode
  cases publishedAt <;> simp [Json.get?_obj, Dict.lookup]

theorem decode_encode (event : ℤ) (slotRounds : Dict String ℤ) (modelRoot : Json) (done : Bool)
    (publishedAt : Option ℤ) :
    sdPointerDecode T (sdPointerEncode event slotRounds modelRoot done publishedAt)
      = .ok ⟨2, event, some (keyedRounds slotRounds), modelRoot, done, publishedAt⟩ := by
  obtain ⟨hv, hevent, hrounds, hroot, hdone, -, -, hstamp⟩ :=
    get?_encoded event slotRounds modelRoot done publishedAt
  have hv2 : isV2 (sdPointerEncode event slotRounds modelRoot done publishedAt) = true := by
    unfold isV2
    rw [hv]
    decide +kernel
  have hflag : doneFlag (sdPointerEncode event slotRounds modelRoot done publishedAt) = done := by
    unfold doneFlag
    rw [hdone]
    rfl
  unfold sdPointerDecode
  rw [if_neg (by simp [sdPointerEncode, Json.isObj]), if_pos hv2, hevent, hrounds, hroot]
  dsimp only
  rw [Json.toInt_int, ok_bind, readRounds_encoded, ok_bind, hflag]
  unfold withStamp
  rw [hstamp]
  cases publishedAt <;> rfl

end NeuraHash
