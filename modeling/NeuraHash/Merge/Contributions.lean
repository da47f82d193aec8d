import NeuraHash.Platform
import NeuraHash.Python.MemberOrder

/-!
# Signed contribution records (`neurahash/contrib_message.py`, `neurahash/diloco_merge.py`)

`publish_delta` signs a text of five fields, a line each, and puts the record on a content store.
`_poll_one_store` reads the records a manifest lists, recovers each signer over the text rebuilt from
the record's own fields, and keeps one record for each cid, a signed one before an unsigned one.

The text does not determine the fields: a number and its numeral print alike, and a field may hold
line breaks. `contributions_bound_iff` says which records of a store are bound by their signature,
and which published records a poll brings back.
-/

namespace NeuraHash

open Py

/-- The signed fields of a record. -/
structure ContribFields where
  deltaCid : Json
  baseRound : Json
  contributor : Json
  valBefore : Json
  valAfter : Json

namespace ContribFields

/-- The fields in the order they are signed in. -/
def toList (r : ContribFields) : List Json :=
  [r.deltaCid, r.baseRound, r.contributor, r.valBefore, r.valAfter]

end ContribFields

/-- `CONTRIB_SIG_VERSION`. -/
def contribSigVersion : String := "neurahash-diloco-contrib-v1"

/-- The text of `contrib_canonical_message`. -/
def contribText (T : PyText) (r : ContribFields) : String :=
  contribSigVersion ++ "\n"
    ++ r.deltaCid.toStr T ++ "\n"
    ++ r.baseRound.toStr T ++ "\n"
    ++ r.contributor.toStr T ++ "\n"
    ++ r.valBefore.toStr T ++ "\n"
    ++ r.valAfter.toStr T

def contribCanonicalMessage (T : PyText) (r : ContribFields) : Bytes := utf8 (contribText T r)

/-! ## What the text determines -/

/-- The kind of a JSON value. -/
inductive JsonKind where
  | null | bool | int | float | str | arr | obj
  deriving DecidableEq

def JsonKind.of : Json → JsonKind
  | .null => null
  | .bool _ => bool
  | .int _ => int
  | .float _ => float
  | .str _ => str
  | .arr _ => arr
  | .obj _ => obj

/-- The line breaks of a field, as it is printed. -/
def lineBreaks (T : PyText) (j : Json) : ℕ := (j.toStr T).toList.count '\n'

/-- Two values of one kind that print over as many lines. -/
structure SameShape (T : PyText) (a b : Json) : Prop where
  kind : JsonKind.of a = JsonKind.of b
  lines : lineBreaks T a = lineBreaks T b

/-- One JSON value, the members of an object in one order. -/
def SameValue (a b : Json) : Prop := a.readOrder = b.readOrder

/-- Texts before a line break with as many line breaks inside are split at it alike. -/
theorem append_newline_inj {a b x y : List Char} (hcount : a.count '\n' = b.count '\n')
    (h : a ++ '\n' :: x = b ++ '\n' :: y) : a = b ∧ x = y := by
  induction a generalizing b with
  | nil =>
    cases b with
    | nil => exact ⟨rfl, (List.cons.inj h).2⟩
    | cons c b =>
      have hc : '\n' = c := (List.cons.inj h).1
      rw [← hc, List.count_nil, List.count_cons_self] at hcount
      omega
  | cons c a ih =>
    cases b with
    | nil =>
      have hc : c = '\n' := (List.cons.inj h).1
      rw [hc, List.count_nil, List.count_cons_self] at hcount
      omega
    | cons d b =>
      obtain ⟨rfl, htail⟩ := List.cons.inj h
      have htailCount : a.count '\n' = b.count '\n' := by
        by_cases hc : c = '\n'
        · rw [hc, List.count_cons_self, List.count_cons_self] at hcount
          omega
        · rwa [List.count_cons_of_ne hc, List.count_cons_of_ne hc] at hcount
      obtain ⟨rfl, hxy⟩ := ih htailCount htail
      exact ⟨rfl, hxy⟩

/-- The text of a finite float is no word. -/
theorem reprFloat_ne_word (T : PyText) (q : ℚ) {s : String} {c : Char} (hc : c ∈ s.toList)
    (hword : numericChar c = false) : T.reprFloat q ≠ s := by
  rintro rfl
  rw [T.reprFloat_numeric q c hc] at hword
  cases hword

theorem float_toStr_injective {T : PyText} {x y : PyFloat}
    (h : (Json.float x).toStr T = (Json.float y).toStr T) : x = y := by
  have hinf : ∀ q, T.reprFloat q ≠ "inf" :=
    fun q => reprFloat_ne_word T q (by decide : 'i' ∈ "inf".toList) rfl
  have hnegInf : ∀ q, T.reprFloat q ≠ "-inf" :=
    fun q => reprFloat_ne_word T q (by decide : 'i' ∈ "-inf".toList) rfl
  have hnan : ∀ q, T.reprFloat q ≠ "nan" :=
    fun q => reprFloat_ne_word T q (by decide : 'n' ∈ "nan".toList) rfl
  cases x with
  | fin a =>
    cases y with
    | fin b => rw [T.reprFloat_injective h]
    | inf => exact absurd h (hinf a)
    | negInf => exact absurd h (hnegInf a)
    | nan => exact absurd h (hnan a)
  | inf =>
    cases y with
    | fin b => exact absurd h.symm (hinf b)
    | inf => rfl
    | negInf => exact absurd h (by simp [Json.toStr])
    | nan => exact absurd h (by simp [Json.toStr])
  | negInf =>
    cases y with
    | fin b => exact absurd h.symm (hnegInf b)
    | inf => exact absurd h (by simp [Json.toStr])
    | negInf => rfl
    | nan => exact absurd h (by simp [Json.toStr])
  | nan =>
    cases y with
    | fin b => exact absurd h.symm (hnan b)
    | inf => exact absurd h (by simp [Json.toStr])
    | negInf => exact absurd h (by simp [Json.toStr])
    | nan => rfl

/-- A value of a known kind is determined by its text. -/
theorem sameValue_of_toStr {T : PyText} (hT : Json.FaithfulStr T) {a b : Json}
    (hkind : JsonKind.of a = JsonKind.of b) (h : a.toStr T = b.toStr T) : SameValue a b := by
  cases a with
  | null => cases b with
    | null => rfl
    | _ => cases hkind
  | bool x => cases b with
    | bool y =>
      cases x <;> cases y
      · rfl
      · exact absurd h (by simp [Json.toStr])
      · exact absurd h (by simp [Json.toStr])
      · rfl
    | _ => cases hkind
  | int n => cases b with
    | int m => rw [Json.int_repr_injective h]; rfl
    | _ => cases hkind
  | float x => cases b with
    | float y => rw [float_toStr_injective h]; rfl
    | _ => cases hkind
  | str s => cases b with
    | str t => rw [show s = t from h]; rfl
    | _ => cases hkind
  | arr xs => cases b with
    | arr ys => exact (hT _ _ rfl rfl).mp h
    | _ => cases hkind
  | obj kvs => cases b with
    | obj kvs' => exact (hT _ _ rfl rfl).mp h
    | _ => cases hkind

theorem isContainer_congr {a b : Json} (h : SameValue a b) : a.isContainer = b.isContainer := by
  have hread : ∀ j : Json, j.readOrder.isContainer = j.isContainer := fun j => by
    cases j <;> simp [Json.readOrder, Json.isContainer]
  rw [← hread a, h, hread b]

theorem toStr_congr {T : PyText} (hT : Json.FaithfulStr T) {a b : Json} (h : SameValue a b) :
    a.toStr T = b.toStr T := by
  have hkind : a.isContainer = b.isContainer := isContainer_congr h
  cases hb : b.isContainer with
  | true =>
    rw [hb] at hkind
    rw [Json.toStr_of_container T hkind, Json.toStr_of_container T hb]
    exact (hT a b hkind hb).mpr h
  | false =>
    rw [hb] at hkind
    have hab : a = b := by
      rw [← Json.readOrder_of_scalar hkind, ← Json.readOrder_of_scalar hb]
      exact h
    rw [hab]

theorem kind_congr {a b : Json} (h : SameValue a b) : JsonKind.of a = JsonKind.of b := by
  have hkind : ∀ j : Json, JsonKind.of j.readOrder = JsonKind.of j := fun j => by
    cases j <;> simp [Json.readOrder, JsonKind.of]
  rw [← hkind a, h, hkind b]

theorem sameShape_of_sameValue {T : PyText} (hT : Json.FaithfulStr T) {a b : Json}
    (h : SameValue a b) : SameShape T a b :=
  ⟨kind_congr h, by rw [lineBreaks, toStr_congr hT h, lineBreaks]⟩

/-- Two records agree in their signed fields. -/
def ContribFields.Agree (r r' : ContribFields) : Prop := List.Forall₂ SameValue r.toList r'.toList

/-- Two records have, field by field, one kind and as many line breaks. -/
def ContribFields.Alike (T : PyText) (r r' : ContribFields) : Prop :=
  List.Forall₂ (SameShape T) r.toList r'.toList

theorem contribText_congr {T : PyText} (hT : Json.FaithfulStr T) {r r' : ContribFields}
    (h : r.Agree r') : contribText T r = contribText T r' := by
  unfold ContribFields.Agree ContribFields.toList at h
  simp only [List.forall₂_cons, List.forall₂_nil_left_iff, and_true] at h
  obtain ⟨hcid, hround, hname, hbefore, hafter⟩ := h
  unfold contribText
  rw [toStr_congr hT hcid, toStr_congr hT hround, toStr_congr hT hname, toStr_congr hT hbefore,
    toStr_congr hT hafter]

/-- **Records of one text agree when they are alike.** -/
theorem agree_of_alike {T : PyText} (hT : Json.FaithfulStr T) {r r' : ContribFields}
    (htext : contribText T r = contribText T r') (h : r.Alike T r') : r.Agree r' := by
  unfold ContribFields.Alike ContribFields.toList at h
  simp only [List.forall₂_cons, List.forall₂_nil_left_iff, and_true] at h
  obtain ⟨hcid, hround, hname, hbefore, hafter⟩ := h
  have hchars := congrArg String.toList htext
  simp only [contribText, String.toList_append, List.append_assoc] at hchars
  -- the version line is the same, and each field ends at the line break its shape tells
  have hrest := List.append_cancel_left hchars
  obtain ⟨hcidText, hrest⟩ := append_newline_inj hcid.lines (List.cons.inj hrest).2
  obtain ⟨hroundText, hrest⟩ := append_newline_inj hround.lines hrest
  obtain ⟨hnameText, hrest⟩ := append_newline_inj hname.lines hrest
  obtain ⟨hbeforeText, hafterText⟩ := append_newline_inj hbefore.lines hrest
  unfold ContribFields.Agree ContribFields.toList
  simp only [List.forall₂_cons, List.forall₂_nil_left_iff, and_true]
  exact ⟨sameValue_of_toStr hT hcid.kind (String.toList_injective hcidText),
    sameValue_of_toStr hT hround.kind (String.toList_injective hroundText),
    sameValue_of_toStr hT hname.kind (String.toList_injective hnameText),
    sameValue_of_toStr hT hbefore.kind (String.toList_injective hbeforeText),
    sameValue_of_toStr hT hafter.kind (String.toList_injective hafterText)⟩

theorem alike_of_agree {T : PyText} (hT : Json.FaithfulStr T) {r r' : ContribFields}
    (h : r.Agree r') : r.Alike T r' :=
  List.Forall₂.imp (fun _ _ => sameShape_of_sameValue hT) h

/-! ## Polling a store -/

/-- A record as the poll holds it. -/
abbrev ContribRecord := Dict String Json

namespace ContribRecord

/-- `rec.get(k)`. -/
def field (rec : ContribRecord) (k : String) : Json := (rec.get? k).getD .null

def signedFields (rec : ContribRecord) : ContribFields :=
  ⟨rec.field "delta_cid", rec.field "base_round", rec.field "contributor", rec.field "val_before",
    rec.field "val_after"⟩

/-- `rec.get("sig_ok")` of a record the poll marked. -/
def sigOk (rec : ContribRecord) : Bool := (rec.field "sig_ok").truthy

end ContribRecord

/-- `_recover_contrib_signer(rec)`. -/
def recoverContribSigner (P : Platform) (rec : ContribRecord) : Option String :=
  let sig := rec.field "sig"
  if sig.truthy then
    recoverBytes P (contribCanonicalMessage P.toPyText rec.signedFields) sig
  else none

/-- What a content store answers on a path, as `json.loads` reads it; `none` raises. -/
abbrev ContribStore := String → Option Json

/-- The name and the two marks the poll writes over a record's own. -/
def markRecord (P : Platform) (name : String) (rec : ContribRecord) : ContribRecord :=
  let named : ContribRecord := rec.set "name" (.str name)
  let declared := named.field "address"
  let recovered := recoverContribSigner P named
  let sigOk := match recovered with
    | some a => declared.notNone && P.lower a == P.lower (declared.toStr P.toPyText)
    | none => false
  let address := match recovered with
    | some a => .str a
    | none => .null
  (named.set "sig_ok" (.bool sigOk)).set "address" address

/-- One entry of the manifest: a record that is read, is an object, has a cid and, where signatures
are required, a good one. -/
def verifyEntry (P : Platform) (get : ContribStore) (requireSig : Bool) (entry : String × Json) :
    Option ContribRecord :=
  if "contrib-".toList <+: entry.1.toList then
    match entry.2.item "sha256" with
    | .ok (.str sha) =>
      match get ("/o/" ++ sha) with
      | some (.obj kvs) =>
        if (ContribRecord.field (Json.dictOf kvs) "delta_cid").truthy then
          let marked := markRecord P entry.1 (Json.dictOf kvs)
          if requireSig && !marked.sigOk then none else some marked
        else none
      | _ => none
    | _ => none
  else none

/-- One record of `_dedup_prefer_signed`: the slots so far, each a cid with its present winner. -/
def dedupStep (chosen : List (Json × ContribRecord)) (rec : ContribRecord) :
    Except PyErr (List (Json × ContribRecord)) :=
  let cid := rec.field "delta_cid"
  if cid.isContainer then .error .typeError
  else
    match chosen.find? (fun slot => slot.1.pyEq cid) with
    | none => .ok (chosen ++ [(cid, rec)])
    | some slot =>
      if rec.sigOk && !slot.2.sigOk then
        .ok (chosen.map fun s => if s.1.pyEq cid then (s.1, rec) else s)
      else .ok chosen

def dedupPreferSigned (records : List ContribRecord) : Except PyErr (List ContribRecord) := do
  let chosen ← records.foldlM dedupStep []
  return chosen.map Prod.snd

/-- `(man or {}).items()`. -/
def manifestItems (man : Json) : Except PyErr (List (String × Json)) :=
  if man.truthy then
    match man with
    | .obj kvs => .ok (Json.dictOf kvs).entries
    | _ => .error .attributeError
  else .ok []

/-- `_poll_one_store`; `requireSig` is `NEURAHASH_DILOCO_REQUIRE_SIG`. -/
def pollOneStore (P : Platform) (get : ContribStore) (requireSig : Bool) :
    Except PyErr (List ContribRecord) :=
  match get "/manifest" with
  | none => .ok []
  | some man => do
    let items ← manifestItems man
    dedupPreferSigned (items.filterMap (verifyEntry P get requireSig))

/-! ## Publishing a record -/

/-- The arguments of `publish_delta` that reach the record, with the cid the delta was pinned under. -/
structure PublishCall where
  cid : String
  contributor : String
  baseRound : Json
  valBefore : Json
  valAfter : Json
  corpusSha : Option Json
  steps : Option Json

/-- One PUT to a store: the object's key, its body and the name it is listed under. -/
structure ContribPut where
  key : String
  body : String
  name : String

/-- `json.dumps(j)`. -/
def jsonBody (T : PyText) (j : Json) : String := String.ofList (Json.render T [' '] j)

/-- The members of an optional field. -/
def optionalField (k : String) : Option Json → List (String × Json)
  | none => []
  | some v => [(k, v)]

/-- The record `publish_delta` writes with the account of an address. -/
def signedRecord (P : Platform) (account : String) (call : PublishCall) (baseRound : ℤ)
    (corpusSha steps : Option Json) : List (String × Json) :=
  let msg := contribCanonicalMessage P.toPyText
    ⟨.str call.cid, .int baseRound, .str call.contributor, call.valBefore, call.valAfter⟩
  [("contributor", .str call.contributor), ("delta_cid", .str call.cid),
    ("base_round", .int baseRound), ("val_before", call.valBefore), ("val_after", call.valAfter)]
    ++ optionalField "corpus_sha" corpusSha ++ optionalField "steps" steps
    ++ [("address", .str account), ("sig", .str (signBytes P account msg))]

/-- `publish_delta` with a wallet key, up to the PUTs. -/
def publishDelta (P : Platform) (account : String) (call : PublishCall) :
    Except PyErr ContribPut := do
  let baseRound ← call.baseRound.toInt P.toPyText
  let corpusSha := call.corpusSha.map fun sha => Json.str (sha.toStr P.toPyText)
  let steps ← call.steps.mapM fun n => (n.toInt P.toPyText).map Json.int
  let body := jsonBody P.toPyText (.obj (signedRecord P account call baseRound corpusSha steps))
  return ⟨P.sha256 (utf8 body), body, "contrib-" ++ call.contributor⟩

/-! ## What a poll marks -/

variable {P : Platform} {get : ContribStore} {requireSig : Bool}

namespace ContribRecord

@[simp] theorem field_set_self (rec : ContribRecord) (k : String) (v : Json) :
    field (rec.set k v) k = v := by
  simp [field]

theorem field_set_of_ne (rec : ContribRecord) {k k' : String} (v : Json) (h : k ≠ k') :
    field (rec.set k v) k' = field rec k' := by
  rw [field, Dict.get?_set_of_ne rec v h, field]

/-- None of the names the poll writes is a signed field or the signature. -/
theorem signedFields_set (rec : ContribRecord) {k : String} (v : Json)
    (h : k ∈ ["name", "sig_ok", "address"]) :
    signedFields (rec.set k v) = signedFields rec ∧ field (rec.set k v) "sig" = field rec "sig" := by
  have hk : k = "name" ∨ k = "sig_ok" ∨ k = "address" := by simpa using h
  unfold signedFields
  rcases hk with rfl | rfl | rfl
  all_goals
    simp [field_set_of_ne]

end ContribRecord

theorem recoverContribSigner_named (P : Platform) (rec : ContribRecord) (v : Json) :
    recoverContribSigner P (rec.set "name" v) = recoverContribSigner P rec := by
  obtain ⟨hfields, hsig⟩ := ContribRecord.signedFields_set rec v (k := "name") (by simp)
  unfold recoverContribSigner
  rw [hfields, hsig]

theorem signedFields_markRecord (P : Platform) (name : String) (rec : ContribRecord) :
    (markRecord P name rec).signedFields = rec.signedFields := by
  unfold markRecord
  dsimp only
  rw [(ContribRecord.signedFields_set _ _ (by simp)).1,
    (ContribRecord.signedFields_set _ _ (by simp)).1,
    (ContribRecord.signedFields_set _ _ (by simp)).1]

theorem cid_markRecord (P : Platform) (name : String) (rec : ContribRecord) :
    (markRecord P name rec).field "delta_cid" = rec.field "delta_cid" :=
  congrArg ContribFields.deltaCid (signedFields_markRecord P name rec)

@[simp] theorem name_markRecord (P : Platform) (name : String) (rec : ContribRecord) :
    (markRecord P name rec).field "name" = .str name := by
  unfold markRecord
  dsimp only
  rw [ContribRecord.field_set_of_ne _ _ (by decide), ContribRecord.field_set_of_ne _ _ (by decide),
    ContribRecord.field_set_self]

/-- A good mark: a signer was recovered, and it is the declared one. -/
theorem sigOk_markRecord {P : Platform} {name : String} {rec : ContribRecord} :
    (markRecord P name rec).sigOk = true ↔ ∃ a, recoverContribSigner P rec = some a
      ∧ (rec.field "address").notNone = true
      ∧ P.lower a = P.lower ((rec.field "address").toStr P.toPyText) := by
  have hdeclared : ContribRecord.field (rec.set "name" (.str name)) "address"
      = rec.field "address" := ContribRecord.field_set_of_ne rec _ (by decide)
  unfold ContribRecord.sigOk markRecord
  dsimp only
  rw [ContribRecord.field_set_of_ne _ _ (by decide), ContribRecord.field_set_self,
    recoverContribSigner_named, hdeclared]
  cases recoverContribSigner P rec with
  | none => simp [Json.truthy]
  | some a => simp [Json.truthy]

theorem address_markRecord {P : Platform} {name : String} {rec : ContribRecord} {a : String}
    (h : recoverContribSigner P rec = some a) :
    (markRecord P name rec).field "address" = .str a := by
  unfold markRecord
  dsimp only
  rw [ContribRecord.field_set_self, recoverContribSigner_named, h]

/-- What the poll verified of an entry: a record the store answered with, marked. -/
theorem verifyEntry_eq_some {entry : String × Json} {rec : ContribRecord}
    (h : verifyEntry P get requireSig entry = some rec) :
    ∃ path kvs, get path = some (.obj kvs) ∧ rec = markRecord P entry.1 (Json.dictOf kvs) := by
  unfold verifyEntry at h
  split at h
  · split at h
    · next sha _ =>
      split at h
      · next kvs hget =>
        split at h
        · dsimp only at h
          split at h
          · cases h
          · exact ⟨_, kvs, hget, (Option.some.inj h).symm⟩
        · cases h
      · cases h
    · cases h
  · cases h

/-- An entry whose record is read and kept. -/
theorem verifyEntry_read {name sha : String} {info : Json} {kvs : List (String × Json)}
    (hstarts : "contrib-".toList <+: name.toList) (hinfo : info.item "sha256" = .ok (.str sha))
    (hget : get ("/o/" ++ sha) = some (.obj kvs))
    (htruthy : (ContribRecord.field (Json.dictOf kvs) "delta_cid").truthy = true)
    (hkept : (requireSig && !(markRecord P name (Json.dictOf kvs)).sigOk) = false) :
    verifyEntry P get requireSig (name, info) = some (markRecord P name (Json.dictOf kvs)) := by
  unfold verifyEntry
  dsimp only
  rw [if_pos hstarts, hinfo]
  dsimp only
  rw [hget]
  dsimp only
  rw [if_pos htruthy, hkept]
  rfl

/-! ## One record for each cid -/

/-- The record's cid is a text. -/
def HasCid (s : String) (rec : ContribRecord) : Bool := (rec.field "delta_cid").pyEq (.str s)

theorem hasCid_iff {s : String} {rec : ContribRecord} :
    HasCid s rec = true ↔ rec.field "delta_cid" = .str s :=
  Json.pyEq_str_right

theorem pyEq_str_left {s : String} {j : Json} : (Json.str s).pyEq j = true ↔ j = .str s := by
  cases j with
  | str t =>
    simp only [Json.pyEq, beq_iff_eq, Json.str.injEq]
    exact eq_comm
  | _ => simp [Json.pyEq, Json.number?]

/-- The winner of a cid: the first record with a good signature, else the first record. -/
def winner (s : String) (records : List ContribRecord) : Option ContribRecord :=
  (records.find? fun r => HasCid s r && r.sigOk).or (records.find? (HasCid s))

/-- What the slots hold after some records. -/
structure Slots (records : List ContribRecord) (chosen : List (Json × ContribRecord)) : Prop where
  from_records : ∀ slot ∈ chosen, slot.2 ∈ records
  keyed : ∀ slot ∈ chosen, ∀ s, HasCid s slot.2 = true → slot.1.pyEq (.str s) = true
  winners : ∀ s, (chosen.filter fun slot => slot.1.pyEq (.str s)).map Prod.snd
    = (winner s records).toList

theorem slots_nil : Slots [] [] :=
  ⟨by simp, by simp, fun s => by simp [winner]⟩

theorem winner_append_of_not {s : String} {records : List ContribRecord} {rec : ContribRecord}
    (h : HasCid s rec = false) : winner s (records ++ [rec]) = winner s records := by
  simp [winner, List.find?_append, h]

/-- A winner with a good signature is the first such record. -/
theorem winner_eq_of_signed {s : String} {records : List ContribRecord} {rec : ContribRecord}
    (h : winner s records = some rec) (hsig : rec.sigOk = true) :
    records.find? (fun r => HasCid s r && r.sigOk) = some rec := by
  unfold winner at h
  cases hfind : records.find? (fun r => HasCid s r && r.sigOk) with
  | some r =>
    rw [hfind, Option.some_or] at h
    exact h
  | none =>
    rw [hfind, Option.none_or] at h
    have hcid : HasCid s rec = true := List.find?_some h
    have hno := List.find?_eq_none.mp hfind rec (List.mem_of_find?_eq_some h)
    rw [hcid, hsig] at hno
    exact absurd rfl hno

theorem winner_append_signed {s : String} {records : List ContribRecord} {rec cur : ContribRecord}
    (hcid : HasCid s rec = true) (hsig : rec.sigOk = true) (hcur : winner s records = some cur)
    (hunsigned : cur.sigOk = false) : winner s (records ++ [rec]) = some rec := by
  have hnone : records.find? (fun r => HasCid s r && r.sigOk) = none := by
    by_contra hsome
    obtain ⟨r, hr⟩ := Option.ne_none_iff_exists'.mp hsome
    rw [winner, hr, Option.some_or] at hcur
    have hrsig := List.find?_some hr
    rw [Option.some.inj hcur, hunsigned, Bool.and_false] at hrsig
    cases hrsig
  rw [winner, List.find?_append, hnone]
  simp [hcid, hsig]

theorem winner_append_kept {s : String} {records : List ContribRecord} {rec cur : ContribRecord}
    (hcur : winner s records = some cur) (hkept : (rec.sigOk && !cur.sigOk) = false) :
    winner s (records ++ [rec]) = some cur := by
  cases hsig : cur.sigOk with
  | true =>
    have hfind := winner_eq_of_signed hcur hsig
    rw [winner, List.find?_append, hfind]
    rfl
  | false =>
    rw [hsig, Bool.not_false, Bool.and_true] at hkept
    have hnew : (records ++ [rec]).find? (fun r => HasCid s r && r.sigOk)
        = records.find? (fun r => HasCid s r && r.sigOk) := by
      rw [List.find?_append]
      simp [hkept]
    cases hfind : records.find? (fun r => HasCid s r && r.sigOk) with
    | some r =>
      rw [winner, hfind, Option.some_or] at hcur
      rw [winner, hnew, hfind, Option.some_or]
      exact hcur
    | none =>
      rw [winner, hfind, Option.none_or] at hcur
      rw [winner, hnew, hfind, Option.none_or, List.find?_append, hcur]
      rfl

theorem winner_append_none {s : String} {records : List ContribRecord} {rec : ContribRecord}
    (hcid : HasCid s rec = true) (hnone : winner s records = none) :
    winner s (records ++ [rec]) = some rec := by
  unfold winner at hnone
  obtain ⟨hsigned, hany⟩ := Option.or_eq_none_iff.mp hnone
  rw [winner, List.find?_append, List.find?_append, hsigned, hany]
  cases hsig : rec.sigOk <;> simp [hcid, hsig]

/-- The slot a text cid is found in is its only one, and holds its winner. -/
theorem Slots.found {records : List ContribRecord} {chosen : List (Json × ContribRecord)}
    (h : Slots records chosen) {s : String} {slot : Json × ContribRecord}
    (hfind : chosen.find? (fun slot => slot.1.pyEq (.str s)) = some slot) :
    winner s records = some slot.2
      ∧ chosen.filter (fun slot => slot.1.pyEq (.str s)) = [slot] := by
  have hwinners := h.winners s
  rw [← List.head?_filter] at hfind
  cases hw : winner s records with
  | none =>
    rw [hw, Option.toList_none, List.map_eq_nil_iff] at hwinners
    rw [hwinners] at hfind
    cases hfind
  | some w =>
    rw [hw, Option.toList_some] at hwinners
    obtain ⟨x, hx, hxw⟩ := List.map_eq_singleton_iff.mp hwinners
    rw [hx] at hfind ⊢
    rw [← Option.some.inj hfind]
    exact ⟨congrArg some hxw.symm, rfl⟩

/-- **One more record keeps the slots.** -/
theorem slots_step {records : List ContribRecord} {chosen chosen' : List (Json × ContribRecord)}
    {rec : ContribRecord} (h : Slots records chosen) (hstep : dedupStep chosen rec = .ok chosen') :
    Slots (records ++ [rec]) chosen' := by
  unfold dedupStep at hstep
  dsimp only at hstep
  split at hstep
  · cases hstep
  split at hstep
  · next hfind =>
    -- a new cid opens a slot
    rw [← Except.ok.inj hstep]
    refine ⟨?_, ?_, ?_⟩
    · intro slot hslot
      rcases List.mem_append.mp hslot with hold | hnew
      · exact List.mem_append_left _ (h.from_records slot hold)
      · rw [List.mem_singleton.mp hnew]
        exact List.mem_append_right _ (List.mem_singleton.mpr rfl)
    · intro slot hslot s hs
      rcases List.mem_append.mp hslot with hold | hnew
      · exact h.keyed slot hold s hs
      · rw [List.mem_singleton.mp hnew] at hs ⊢
        exact hs
    · intro s
      rw [List.filter_append, List.map_append, h.winners s]
      cases hs : HasCid s rec with
      | false =>
        have hkey : (rec.field "delta_cid").pyEq (.str s) = false := hs
        rw [winner_append_of_not hs, List.filter_cons_of_neg (by simp [hkey])]
        simp
      | true =>
        have hcid := hasCid_iff.mp hs
        have hempty : winner s records = none := by
          have hslots := h.winners s
          rw [hcid] at hfind
          rw [List.filter_eq_nil_iff.mpr (List.find?_eq_none.mp hfind)] at hslots
          exact Option.toList_eq_nil_iff.mp hslots.symm
        have hkey : (rec.field "delta_cid").pyEq (.str s) = true := hs
        rw [winner_append_none hs hempty, hempty, List.filter_cons_of_pos (by simp [hkey])]
        rfl
  · next slot hfind =>
    split at hstep
    · next hdisplaces =>
      -- a signed record displaces the unsigned winner
      obtain ⟨hsig, hunsigned⟩ := Bool.and_eq_true_iff.mp hdisplaces
      rw [Bool.not_eq_true'] at hunsigned
      rw [← Except.ok.inj hstep]
      have hkey : ∀ p : Json × ContribRecord,
          (if p.1.pyEq (rec.field "delta_cid") then (p.1, rec) else p).1 = p.1 := by
        intro p
        split <;> rfl
      refine ⟨?_, ?_, ?_⟩
      · intro p hp
        obtain ⟨q, hq, rfl⟩ := List.mem_map.mp hp
        split
        · exact List.mem_append_right _ (List.mem_singleton.mpr rfl)
        · exact List.mem_append_left _ (h.from_records q hq)
      · intro p hp s hs
        obtain ⟨q, hq, rfl⟩ := List.mem_map.mp hp
        rw [hkey]
        by_cases hqcid : q.1.pyEq (rec.field "delta_cid") = true
        · rw [if_pos hqcid] at hs
          rwa [hasCid_iff.mp hs] at hqcid
        · rw [if_neg hqcid] at hs
          exact h.keyed q hq s hs
      · intro s
        rw [List.filter_map]
        have hsame : ((fun slot : Json × ContribRecord => slot.1.pyEq (.str s)) ∘ fun p : Json × ContribRecord =>
            if p.1.pyEq (rec.field "delta_cid") then (p.1, rec) else p)
              = fun slot => slot.1.pyEq (.str s) := by
          funext p
          exact congrArg (fun j : Json => j.pyEq (.str s)) (hkey p)
        rw [hsame]
        cases hs : HasCid s rec with
        | false =>
          -- the slots of another cid are not touched
          rw [winner_append_of_not hs, ← h.winners s, List.map_map]
          apply List.map_congr_left
          intro p hp
          have hpkey : p.1 = .str s := Json.pyEq_str_right.mp (List.mem_filter.mp hp).2
          have hother : ¬ p.1.pyEq (rec.field "delta_cid") = true := by
            rw [hpkey, pyEq_str_left, ← hasCid_iff, hs]
            exact Bool.false_ne_true
          show (if p.1.pyEq (rec.field "delta_cid") then (p.1, rec) else p).2 = p.2
          rw [if_neg hother]
        | true =>
          have hcid := hasCid_iff.mp hs
          rw [hcid] at hfind
          obtain ⟨hwinner, hfilter⟩ := h.found hfind
          rw [winner_append_signed hs hsig hwinner hunsigned, hfilter, hcid]
          have hslot : slot.1.pyEq (.str s) = true := by
            have hmem : slot ∈ chosen.filter fun slot => slot.1.pyEq (.str s) := by
              rw [hfilter]
              exact List.mem_singleton.mpr rfl
            exact (List.mem_filter.mp hmem).2
          simp [hslot]
    · next hkept =>
      rw [← Except.ok.inj hstep]
      refine ⟨fun s hs => List.mem_append_left _ (h.from_records s hs), h.keyed, ?_⟩
      intro s
      rw [h.winners s]
      cases hs : HasCid s rec with
      | false => rw [winner_append_of_not hs]
      | true =>
        rw [hasCid_iff.mp hs] at hfind
        have hwinner := (h.found hfind).1
        rw [hwinner, winner_append_kept hwinner (Bool.eq_false_iff.mpr hkept)]

theorem slots_foldlM {before records : List ContribRecord}
    {chosen chosen' : List (Json × ContribRecord)} (h : Slots before chosen)
    (hrun : records.foldlM dedupStep chosen = .ok chosen') : Slots (before ++ records) chosen' := by
  induction records generalizing before chosen with
  | nil =>
    rw [List.append_nil]
    rw [← Except.ok.inj hrun]
    exact h
  | cons rec records ih =>
    rw [List.foldlM_cons] at hrun
    obtain ⟨chosen₁, hstep, hrest⟩ := bind_eq_ok.mp hrun
    have hnext := ih (slots_step h hstep) hrest
    rwa [List.append_assoc] at hnext

/-- The cids of all records can be keys of a dict. -/
theorem foldlM_dedupStep_ok {records : List ContribRecord} {chosen : List (Json × ContribRecord)} :
    (∃ chosen', records.foldlM dedupStep chosen = .ok chosen')
      ↔ ∀ rec ∈ records, (rec.field "delta_cid").isContainer = false := by
  induction records generalizing chosen with
  | nil => exact ⟨fun _ => by simp, fun _ => ⟨chosen, rfl⟩⟩
  | cons rec records ih =>
    rw [List.foldlM_cons]
    cases hc : (rec.field "delta_cid").isContainer with
    | true =>
      have hstep : dedupStep chosen rec = .error .typeError := by
        unfold dedupStep
        exact if_pos hc
      rw [hstep, error_bind]
      simp [hc]
    | false =>
      have hstep : ∃ chosen₁, dedupStep chosen rec = .ok chosen₁ := by
        unfold dedupStep
        dsimp only
        rw [if_neg (by simp [hc])]
        split
        · exact ⟨_, rfl⟩
        · split
          · exact ⟨_, rfl⟩
          · exact ⟨_, rfl⟩
      obtain ⟨chosen₁, hstep⟩ := hstep
      rw [hstep, ok_bind, ih]
      simp [hc]

/-- What a poll of the records returns for a text cid: its winner. -/
theorem mem_dedup_iff {records out : List ContribRecord} (h : dedupPreferSigned records = .ok out)
    {s : String} {rec : ContribRecord} (hcid : HasCid s rec = true) :
    rec ∈ out ↔ winner s records = some rec := by
  obtain ⟨chosen, hrun, hout⟩ := bind_eq_ok.mp h
  rw [← Except.ok.inj hout]
  have hslots : Slots records chosen := by
    have hall := slots_foldlM slots_nil hrun
    rwa [List.nil_append] at hall
  have hwinner : winner s records = some rec
      ↔ rec ∈ (chosen.filter fun slot => slot.1.pyEq (.str s)).map Prod.snd := by
    rw [hslots.winners s, Option.mem_toList]
  rw [hwinner]
  constructor
  · intro hmem
    obtain ⟨slot, hslot, rfl⟩ := List.mem_map.mp hmem
    exact List.mem_map_of_mem (List.mem_filter.mpr ⟨hslot, hslots.keyed slot hslot s hcid⟩)
  · intro hmem
    obtain ⟨slot, hslot, rfl⟩ := List.mem_map.mp hmem
    exact List.mem_map_of_mem (List.mem_filter.mp hslot).1

theorem dedup_single {rec : ContribRecord} (h : (rec.field "delta_cid").isContainer = false) :
    dedupPreferSigned [rec] = .ok [rec] := by
  have hstep : dedupStep [] rec = .ok [(rec.field "delta_cid", rec)] := by
    unfold dedupStep
    exact if_neg (by simp [h])
  unfold dedupPreferSigned
  rw [List.foldlM_cons, hstep]
  rfl

theorem mem_records_of_dedup {records out : List ContribRecord}
    (h : dedupPreferSigned records = .ok out) {rec : ContribRecord} (hrec : rec ∈ out) :
    rec ∈ records := by
  obtain ⟨chosen, hrun, hout⟩ := bind_eq_ok.mp h
  rw [← Except.ok.inj hout] at hrec
  obtain ⟨slot, hslot, rfl⟩ := List.mem_map.mp hrec
  have hall := (slots_foldlM slots_nil hrun).from_records slot hslot
  rwa [List.nil_append] at hall

/-! ## A published record on a store -/

/-- A store that lists a PUT, between the other entries, and answers with its body. -/
structure Lists (P : Platform) (get : ContribStore) (put : ContribPut)
    (before after : List (String × Json)) : Prop where
  listed : ∃ kvs info, get "/manifest" = some (.obj kvs)
    ∧ (Json.dictOf kvs).entries = before ++ (put.name, info) :: after
    ∧ info.item "sha256" = .ok (.str put.key)
  answers : ∃ back, get ("/o/" ++ put.key) = some back ∧ jsonBody P.toPyText back = put.body

theorem publishDelta_eq_ok {account : String} {call : PublishCall} {put : ContribPut}
    (h : publishDelta P account call = .ok put) :
    ∃ baseRound corpusSha steps,
      put.body = jsonBody P.toPyText (.obj (signedRecord P account call baseRound corpusSha steps))
      ∧ put.name = "contrib-" ++ call.contributor := by
  unfold publishDelta at h
  obtain ⟨baseRound, -, h⟩ := bind_eq_ok.mp h
  obtain ⟨steps, -, h⟩ := bind_eq_ok.mp h
  rw [← Except.ok.inj h]
  exact ⟨baseRound, _, steps, rfl, rfl⟩

/-- A value that prints to a body is the value the body was printed from. -/
theorem jsonBody_injective {T : PyText} {a b : Json} (h : jsonBody T a = jsonBody T b) : a = b := by
  have hchars : Json.render T [' '] a ++ [] = Json.render T [' '] b ++ [] := by
    rw [List.append_nil, List.append_nil]
    exact String.ofList_injective h
  have hend : Json.Delimited [] := trivial
  exact (Json.render_append_inj T [' '] _ _ hend hend hchars).1

section Published

variable {keys : Set String} {account : String} {call : PublishCall} {baseRound : ℤ}
  {corpusSha steps : Option Json}

/-- The fields of a signed record. -/
theorem field_signedRecord (P : Platform) (account : String) (call : PublishCall) (baseRound : ℤ)
    (corpusSha steps : Option Json) :
    let rec' : ContribRecord := Json.dictOf (signedRecord P account call baseRound corpusSha steps)
    let fields : ContribFields :=
      ⟨.str call.cid, .int baseRound, .str call.contributor, call.valBefore, call.valAfter⟩
    rec'.signedFields = fields ∧ rec'.field "address" = .str account
      ∧ rec'.field "sig" = .str (signBytes P account (contribCanonicalMessage P.toPyText fields)) := by
  cases corpusSha <;> cases steps
  all_goals
    simp [signedRecord, optionalField, ContribRecord.signedFields, ContribRecord.field,
      Json.dictOf, Dict.get?_ofList, Dict.lookup]

/-- The signature of a published record recovers to the account. -/
theorem recover_signedRecord (hkeys : IdealSigs P keys) (haccount : account ∈ keys)
    (hsig : ∀ data, signBytes P account data ≠ "") :
    recoverContribSigner P (Json.dictOf (signedRecord P account call baseRound corpusSha steps))
      = some account := by
  obtain ⟨hfields, -, hsigField⟩ :=
    field_signedRecord P account call baseRound corpusSha steps
  unfold recoverContribSigner
  dsimp only
  rw [hsigField, hfields, if_pos (by simp [Json.truthy, hsig])]
  exact hkeys.recoverBytes_signBytes haccount _

end Published

/-- A record of the poll with a name, a good signature and the address of an account. -/
def BroughtBack (P : Platform) (get : ContribStore) (requireSig : Bool) (put : ContribPut)
    (account : String) : Prop :=
  ∃ out, pollOneStore P get requireSig = .ok out ∧ ∃ rec ∈ out,
    rec.field "name" = .str put.name ∧ rec.sigOk = true ∧ rec.field "address" = .str account

/-- When a poll brings a published record back: it has a cid, no signed record listed before it has
the same cid, and no record beside it has a cid that is no key. -/
structure Uncontested (P : Platform) (get : ContribStore) (requireSig : Bool) (call : PublishCall)
    (before after : List (String × Json)) : Prop where
  cid : call.cid ≠ ""
  first : ∀ rec ∈ before.filterMap (verifyEntry P get requireSig),
    rec.field "delta_cid" = .str call.cid → rec.sigOk = false
  hashable : ∀ rec ∈ (before ++ after).filterMap (verifyEntry P get requireSig),
    (rec.field "delta_cid").isContainer = false

theorem pollOneStore_of_listed {put : ContribPut} {before after : List (String × Json)}
    {kvs : List (String × Json)} {info : Json} (hman : get "/manifest" = some (.obj kvs))
    (hentries : (Json.dictOf kvs).entries = before ++ (put.name, info) :: after) :
    pollOneStore P get requireSig = dedupPreferSigned
      ((before ++ (put.name, info) :: after).filterMap (verifyEntry P get requireSig)) := by
  have htruthy : (Json.obj kvs).truthy = true := by
    cases kvs with
    | nil =>
      have hlen := congrArg List.length hentries
      rw [List.length_append, List.length_cons] at hlen
      change 0 = _ at hlen
      omega
    | cons p kvs => rfl
  unfold pollOneStore manifestItems
  rw [hman]
  dsimp only
  rw [if_pos htruthy, hentries, ok_bind]

theorem verifyEntry_of_lists (requireSig : Bool) {keys : Set String} (hkeys : IdealSigs P keys) {account : String}
    (haccount : account ∈ keys) (hsig : ∀ data, signBytes P account data ≠ "")
    {call : PublishCall} {baseRound : ℤ} {corpusSha steps : Option Json} {put : ContribPut}
    (hname : put.name = "contrib-" ++ call.contributor) {info : Json}
    (hinfo : info.item "sha256" = .ok (.str put.key))
    (hget : get ("/o/" ++ put.key)
      = some (.obj (signedRecord P account call baseRound corpusSha steps))) :
    let ours := markRecord P put.name
      (Json.dictOf (signedRecord P account call baseRound corpusSha steps))
    ours.field "delta_cid" = .str call.cid ∧ ours.sigOk = true
      ∧ ours.field "address" = .str account
      ∧ verifyEntry P get requireSig (put.name, info)
          = if call.cid ≠ "" then some ours else none := by
  obtain ⟨hfields, haddress, -⟩ := field_signedRecord P account call baseRound corpusSha steps
  have hrecover : recoverContribSigner P
      (Json.dictOf (signedRecord P account call baseRound corpusSha steps)) = some account :=
    recover_signedRecord hkeys haccount hsig
  have hcid : ContribRecord.field
      (Json.dictOf (signedRecord P account call baseRound corpusSha steps)) "delta_cid"
        = .str call.cid :=
    congrArg ContribFields.deltaCid hfields
  have hok : (markRecord P put.name
      (Json.dictOf (signedRecord P account call baseRound corpusSha steps))).sigOk = true := by
    rw [sigOk_markRecord]
    refine ⟨account, hrecover, ?_, ?_⟩
    · rw [haddress]
      rfl
    · rw [haddress]
      rfl
  refine ⟨(cid_markRecord P put.name _).trans hcid, hok, address_markRecord hrecover, ?_⟩
  have hstarts : "contrib-".toList <+: put.name.toList := by
    rw [hname, String.toList_append]
    exact List.prefix_append _ _
  by_cases hempty : call.cid = ""
  · rw [if_neg (not_not.mpr hempty)]
    unfold verifyEntry
    dsimp only
    rw [if_pos hstarts, hinfo]
    dsimp only
    rw [hget]
    dsimp only
    rw [hcid, hempty]
    rfl
  · rw [if_pos hempty]
    apply verifyEntry_read hstarts hinfo hget
    · rw [hcid]
      simp [Json.truthy, hempty]
    · rw [hok, Bool.not_true, Bool.and_false]

/-- The names of a manifest are different, so a record of the poll tells its entry. -/
theorem entry_of_name {entries : List (String × Json)} (hnodup : (entries.map Prod.fst).Nodup)
    {entry : String × Json} (hentry : entry ∈ entries) {rec : ContribRecord}
    (hrec : rec ∈ entries.filterMap (verifyEntry P get requireSig))
    (hname : rec.field "name" = .str entry.1) :
    verifyEntry P get requireSig entry = some rec := by
  obtain ⟨e, he, hverify⟩ := List.mem_filterMap.mp hrec
  obtain ⟨-, kvs, -, hmark⟩ := verifyEntry_eq_some hverify
  rw [hmark, name_markRecord] at hname
  have heq : e = entry := List.inj_on_of_nodup_map hnodup he hentry (Json.str.inj hname)
  rw [← heq]
  exact hverify

/-- **A published record is brought back exactly when it is uncontested.** -/
theorem broughtBack_iff {keys : Set String} (hkeys : IdealSigs P keys) {account : String}
    (haccount : account ∈ keys) (hsig : ∀ data, signBytes P account data ≠ "")
    {call : PublishCall} {put : ContribPut} (hput : publishDelta P account call = .ok put)
    {before after : List (String × Json)} (hlists : Lists P get put before after) :
    BroughtBack P get requireSig put account
      ↔ Uncontested P get requireSig call before after := by
  obtain ⟨baseRound, corpusSha, steps, hbody, hname⟩ := publishDelta_eq_ok hput
  obtain ⟨kvs, info, hman, hentries, hinfo⟩ := hlists.listed
  obtain ⟨back, hget, hback⟩ := hlists.answers
  rw [jsonBody_injective (hback.trans hbody)] at hget
  obtain ⟨hcid, hok, haddress, hverify⟩ :=
    verifyEntry_of_lists requireSig hkeys haccount hsig hname hinfo hget
  set ours := markRecord P put.name
    (Json.dictOf (signedRecord P account call baseRound corpusSha steps)) with hours
  have hnodup : ((before ++ (put.name, info) :: after).map Prod.fst).Nodup := by
    rw [← hentries]
    exact (Json.dictOf kvs).nodup
  have hhas : HasCid call.cid ours = true := hasCid_iff.mpr hcid
  unfold BroughtBack
  rw [pollOneStore_of_listed hman hentries]
  constructor
  · rintro ⟨out, hout, rec, hrec, hrecName, -, -⟩
    have hmem := mem_records_of_dedup hout hrec
    have hentry : verifyEntry P get requireSig (put.name, info) = some rec :=
      entry_of_name hnodup (by simp) hmem hrecName
    rw [hverify] at hentry
    have hne : call.cid ≠ "" := by
      intro hempty
      rw [if_neg (not_not.mpr hempty)] at hentry
      cases hentry
    rw [if_pos hne] at hentry hverify
    rw [← Option.some.inj hentry] at hrec hrecName
    have hverified : (before ++ (put.name, info) :: after).filterMap (verifyEntry P get requireSig)
        = before.filterMap (verifyEntry P get requireSig)
          ++ ours :: after.filterMap (verifyEntry P get requireSig) := by
      rw [List.filterMap_append, List.filterMap_cons_some hverify]
    rw [hverified] at hout
    have hwinner := winner_eq_of_signed ((mem_dedup_iff hout hhas).mp hrec) hok
    obtain ⟨chosen, hrun, -⟩ := bind_eq_ok.mp hout
    have hhashable := foldlM_dedupStep_ok.mp ⟨chosen, hrun⟩
    refine ⟨hne, ?_, ?_⟩
    · intro r hr hrcid
      by_contra hrsig
      -- an earlier signed record would win, and it has another name
      have hsome : ((before.filterMap (verifyEntry P get requireSig)).find?
          fun r => HasCid call.cid r && r.sigOk).isSome = true :=
        List.find?_isSome.mpr ⟨r, hr, by simp [hasCid_iff.mpr hrcid, hrsig]⟩
      obtain ⟨r', hr'⟩ := Option.isSome_iff_exists.mp hsome
      rw [List.find?_append, hr', Option.some_or] at hwinner
      have hbefore := List.mem_of_find?_eq_some hr'
      rw [Option.some.inj hwinner] at hbefore
      obtain ⟨e, he, hverifyE⟩ := List.mem_filterMap.mp hbefore
      obtain ⟨-, kvs', -, hmark⟩ := verifyEntry_eq_some hverifyE
      rw [hmark, name_markRecord] at hrecName
      rw [List.map_append, List.map_cons] at hnodup
      have hdisjoint := (List.nodup_append.mp hnodup).2.2
      exact hdisjoint e.1 (List.mem_map_of_mem he) put.name List.mem_cons_self
        (Json.str.inj hrecName)
    · intro r hr
      apply hhashable
      rw [List.filterMap_append] at hr
      rcases List.mem_append.mp hr with hb | ha
      · exact List.mem_append_left _ hb
      · exact List.mem_append_right _ (List.mem_cons_of_mem _ ha)
  · intro huncontested
    rw [if_pos huncontested.cid] at hverify
    rw [List.filterMap_append, List.filterMap_cons_some hverify]
    have hhashable : ∀ rec ∈ before.filterMap (verifyEntry P get requireSig)
        ++ ours :: after.filterMap (verifyEntry P get requireSig),
        (rec.field "delta_cid").isContainer = false := by
      intro r hr
      rcases List.mem_append.mp hr with hb | ha
      · exact huncontested.hashable r (by rw [List.filterMap_append]; exact List.mem_append_left _ hb)
      · rcases List.mem_cons.mp ha with rfl | ha
        · rw [hcid]
          rfl
        · exact huncontested.hashable r
            (by rw [List.filterMap_append]; exact List.mem_append_right _ ha)
    obtain ⟨chosen, hrun⟩ := (@foldlM_dedupStep_ok _ []).mpr hhashable
    have hout : dedupPreferSigned (before.filterMap (verifyEntry P get requireSig)
        ++ ours :: after.filterMap (verifyEntry P get requireSig)) = .ok (chosen.map Prod.snd) := by
      unfold dedupPreferSigned
      rw [hrun]
      rfl
    refine ⟨_, hout, ours, ?_, name_markRecord P put.name _, hok, haddress⟩
    rw [mem_dedup_iff hout hhas]
    have hnone : (before.filterMap (verifyEntry P get requireSig)).find?
        (fun r => HasCid call.cid r && r.sigOk) = none := by
      apply List.find?_eq_none.mpr
      intro r hr hboth
      obtain ⟨hrcid, hrsig⟩ := Bool.and_eq_true_iff.mp hboth
      rw [huncontested.first r hr (hasCid_iff.mp hrcid)] at hrsig
      cases hrsig
    rw [winner, List.find?_append, hnone, Option.none_or, List.find?_cons_of_pos (by simp [hhas, hok])]
    rfl

/-! ## What a signature binds -/

/-- Every signature on the store was made by its signer: over the text of a record it signed. -/
def GenuineSignatures (P : Platform) (get : ContribStore) (signed : String → Set ContribFields) : Prop :=
  ∀ path kvs a, get path = some (.obj kvs) →
    recoverContribSigner P (Json.dictOf kvs) = some a →
    ∃ r ∈ signed a, contribText P.toPyText r
      = contribText P.toPyText (ContribRecord.signedFields (Json.dictOf kvs))

/-- The record agrees with one the account signed. -/
def BoundTo (signed : Set ContribFields) (rec : ContribRecord) : Prop :=
  ∃ r ∈ signed, r.Agree rec.signedFields

/-- A record the account signed has the record's text, and is alike: of the same kinds, over as many
lines. -/
def SignedAlike (T : PyText) (signed : Set ContribFields) (rec : ContribRecord) : Prop :=
  ∃ r ∈ signed, contribText T r = contribText T rec.signedFields ∧ r.Alike T rec.signedFields

theorem bound_iff (hT : Json.FaithfulStr P.toPyText) (signed : Set ContribFields)
    (rec : ContribRecord) : BoundTo signed rec ↔ SignedAlike P.toPyText signed rec := by
  constructor
  · rintro ⟨r, hr, hagree⟩
    exact ⟨r, hr, contribText_congr hT hagree, alike_of_agree hT hagree⟩
  · rintro ⟨r, hr, htext, halike⟩
    exact ⟨r, hr, agree_of_alike hT htext halike⟩

/-- The signer of a record marked good signed its very text. -/
theorem signed_of_sigOk {signed : String → Set ContribFields} (hunforged : GenuineSignatures P get signed)
    {out : List ContribRecord} (hpoll : pollOneStore P get requireSig = .ok out)
    {rec : ContribRecord} (hrec : rec ∈ out) (hok : rec.sigOk = true) :
    ∃ a, rec.field "address" = .str a
      ∧ ∃ r ∈ signed a, contribText P.toPyText r = contribText P.toPyText rec.signedFields := by
  unfold pollOneStore at hpoll
  cases hman : get "/manifest" with
  | none =>
    rw [hman] at hpoll
    rw [← Except.ok.inj hpoll] at hrec
    cases hrec
  | some man =>
    rw [hman] at hpoll
    obtain ⟨items, -, hdedup⟩ := bind_eq_ok.mp hpoll
    obtain ⟨entry, -, hverify⟩ := List.mem_filterMap.mp (mem_records_of_dedup hdedup hrec)
    obtain ⟨path, kvs, hget, rfl⟩ := verifyEntry_eq_some hverify
    obtain ⟨a, hrecover, -⟩ := sigOk_markRecord.mp hok
    refine ⟨a, address_markRecord hrecover, ?_⟩
    rw [signedFields_markRecord]
    exact hunforged path kvs a hget hrecover

/-- **Contribution signatures.** A published record is brought back exactly when it is uncontested,
and a record marked good with an address is bound to one that account signed exactly when one of
its text is alike. -/
theorem contributions_bound_iff (hT : Json.FaithfulStr P.toPyText) {keys : Set String}
    (hkeys : IdealSigs P keys) (hsig : ∀ a ∈ keys, ∀ data, signBytes P a data ≠ "")
    {signed : String → Set ContribFields} (hunforged : GenuineSignatures P get signed) :
    (∀ account ∈ keys, ∀ call put before after, publishDelta P account call = .ok put →
        Lists P get put before after →
        (BroughtBack P get requireSig put account
          ↔ Uncontested P get requireSig call before after))
      ∧ ∀ out, pollOneStore P get requireSig = .ok out → ∀ rec ∈ out, rec.sigOk = true →
          ∃ a, rec.field "address" = .str a
            ∧ (∃ r ∈ signed a, contribText P.toPyText r = contribText P.toPyText rec.signedFields)
            ∧ (BoundTo (signed a) rec ↔ SignedAlike P.toPyText (signed a) rec) := by
  constructor
  · intro account haccount call put before after hput hlists
    exact broughtBack_iff hkeys haccount (hsig account haccount) hput hlists
  · intro out hpoll rec hrec hok
    obtain ⟨a, haddress, htext⟩ := signed_of_sigOk hunforged hpoll hrec hok
    exact ⟨a, haddress, htext, bound_iff hT (signed a) rec⟩

/-! ## One record on a store -/

namespace Contributions

/-- The executable platform with containers printed as `json.dumps` does. -/
def sample : Platform :=
  { Platform.ideal with
    strContainer := (Json.orderedStr Platform.ideal.toPyText).strContainer }

theorem sample_faithful : Json.FaithfulStr sample.toPyText :=
  Json.orderedStr_faithful Platform.ideal.toPyText

theorem sample_idealSigs : IdealSigs sample Platform.idealKeys :=
  ⟨Platform.ideal_idealSigs.recover_sign, Platform.ideal_idealSigs.unforgeable⟩

theorem sample_sign_ne (a : String) (data : Bytes) : signBytes sample a data ≠ "" := by
  intro h
  have hchars := congrArg String.toList h
  simp [signBytes, sample, Platform.ideal, Platform.idealSign, String.toList_append] at hchars

def sampleCall : PublishCall := ⟨"bafy", "alice", .int 1, .null, .null, none, none⟩

/-- The signed fields of the call, with the base round open to edits. -/
def sampleFields (baseRound : Json) : ContribFields :=
  ⟨.str "bafy", baseRound, .str "alice", .null, .null⟩

/-- The record of the call, with the base round open to edits. -/
def sampleRecord (baseRound : Json) : List (String × Json) :=
  [("contributor", .str "alice"), ("delta_cid", .str "bafy"), ("base_round", baseRound),
    ("val_before", .null), ("val_after", .null), ("address", .str "0xA"),
    ("sig", .str (signBytes sample "0xA"
      (contribCanonicalMessage sample.toPyText (sampleFields (.int 1)))))]

def sampleKey : String :=
  sample.sha256 (utf8 (jsonBody sample.toPyText (.obj (sampleRecord (.int 1)))))

/-- A store that lists one record under the key of the published body. -/
def sampleStore (baseRound : Json) : ContribStore := fun path =>
  if path = "/manifest" then
    some (.obj [("contrib-alice", .obj [("sha256", .str sampleKey)])])
  else if path = "/o/" ++ sampleKey then some (.obj (sampleRecord baseRound))
  else none

theorem sampleStore_manifest (baseRound : Json) :
    sampleStore baseRound "/manifest"
      = some (.obj [("contrib-alice", .obj [("sha256", .str sampleKey)])]) := if_pos rfl

theorem sampleStore_record (baseRound : Json) :
    sampleStore baseRound ("/o/" ++ sampleKey) = some (.obj (sampleRecord baseRound)) := by
  have hne : "/o/" ++ sampleKey ≠ "/manifest" := by
    intro h
    have hchars := congrArg String.toList h
    rw [String.toList_append] at hchars
    exact absurd (List.cons.inj (List.cons.inj hchars).2).1 (by decide)
  exact (if_neg hne).trans (if_pos rfl)

theorem sample_key : "0xA" ∈ Platform.idealKeys := by
  show '|' ∉ "0xA".toList
  decide

/-- A numeral in place of the round leaves the signed text as it is. -/
theorem sample_recover (baseRound : Json) (h : baseRound.toStr sample.toPyText = "1") :
    recoverContribSigner sample (Json.dictOf (sampleRecord baseRound)) = some "0xA" := by
  have hmsg : contribCanonicalMessage sample.toPyText (sampleFields baseRound)
      = contribCanonicalMessage sample.toPyText (sampleFields (.int 1)) := by
    have hone : (Json.int 1).toStr sample.toPyText = "1" := rfl
    simp only [contribCanonicalMessage, contribText, sampleFields, h, hone]
  have hsig : ContribRecord.field (Json.dictOf (sampleRecord baseRound)) "sig"
      = .str (signBytes sample "0xA"
          (contribCanonicalMessage sample.toPyText (sampleFields (.int 1)))) := rfl
  have hfields : ContribRecord.signedFields (Json.dictOf (sampleRecord baseRound))
      = sampleFields baseRound := rfl
  unfold recoverContribSigner
  dsimp only
  rw [hsig, hfields, hmsg, if_pos (by simp [Json.truthy, sample_sign_ne])]
  exact sample_idealSigs.recoverBytes_signBytes sample_key _

/-- What the account signed: the call's fields. -/
def sampleSigned (a : String) : Set ContribFields := {r | a = "0xA" ∧ r = sampleFields (.int 1)}

theorem sample_unforged (baseRound : Json) (h : baseRound.toStr sample.toPyText = "1") :
    GenuineSignatures sample (sampleStore baseRound) sampleSigned := by
  intro path kvs a hget hrecover
  unfold sampleStore at hget
  split at hget
  · -- the manifest carries no signature
    rw [← Json.obj.inj (Option.some.inj hget)] at hrecover
    cases hrecover
  · split at hget
    · rw [← Json.obj.inj (Option.some.inj hget)] at hrecover ⊢
      rw [sample_recover baseRound h] at hrecover
      refine ⟨sampleFields (.int 1), ⟨(Option.some.inj hrecover).symm, rfl⟩, ?_⟩
      have hone : (Json.int 1).toStr sample.toPyText = "1" := rfl
      show contribText _ _ = contribText _ (sampleFields baseRound)
      simp only [contribText, sampleFields, h, hone]
    · cases hget

end Contributions

/-- The published record is brought back. -/
theorem contributions_bound_sample :
    BroughtBack Contributions.sample (Contributions.sampleStore (.int 1)) false
      ⟨Contributions.sampleKey, jsonBody Contributions.sample.toPyText
        (.obj (Contributions.sampleRecord (.int 1))), "contrib-alice"⟩ "0xA" := by
  apply ((contributions_bound_iff Contributions.sample_faithful Contributions.sample_idealSigs
    (fun a _ => Contributions.sample_sign_ne a)
    (Contributions.sample_unforged (.int 1) rfl)).1 "0xA" Contributions.sample_key
      Contributions.sampleCall _ [] [] rfl ?_).mpr
  · exact ⟨by decide, by simp, by simp⟩
  · refine ⟨⟨_, _, Contributions.sampleStore_manifest _, rfl, rfl⟩, ?_⟩
    exact ⟨_, Contributions.sampleStore_record _, rfl⟩

/-- The numeral `"1"` in place of the round `1` keeps the signature good, and the account never
signed such a record. -/
theorem contribution_round_as_text :
    GenuineSignatures Contributions.sample (Contributions.sampleStore (.str "1")) Contributions.sampleSigned
      ∧ ∃ rec, pollOneStore Contributions.sample (Contributions.sampleStore (.str "1")) false
          = .ok [rec] ∧ rec.sigOk = true ∧ rec.field "address" = .str "0xA"
        ∧ rec.field "base_round" = .str "1" ∧ ¬ BoundTo (Contributions.sampleSigned "0xA") rec := by
  set rec := markRecord Contributions.sample "contrib-alice"
    (Json.dictOf (Contributions.sampleRecord (.str "1"))) with hrec
  have hrecover := Contributions.sample_recover (.str "1") rfl
  refine ⟨Contributions.sample_unforged _ rfl, rec, ?_, ?_, address_markRecord hrecover, ?_, ?_⟩
  · have hverify : verifyEntry Contributions.sample (Contributions.sampleStore (.str "1")) false
        ("contrib-alice", .obj [("sha256", .str Contributions.sampleKey)]) = some rec :=
      verifyEntry_read (by decide) rfl (Contributions.sampleStore_record _) rfl rfl
    have hitems : manifestItems (.obj [("contrib-alice",
        .obj [("sha256", .str Contributions.sampleKey)])])
          = .ok [("contrib-alice", .obj [("sha256", .str Contributions.sampleKey)])] := rfl
    unfold pollOneStore
    rw [Contributions.sampleStore_manifest]
    dsimp only
    rw [hitems, ok_bind, List.filterMap_cons_some hverify, List.filterMap_nil]
    exact dedup_single (by rw [hrec, cid_markRecord]; rfl)
  · exact sigOk_markRecord.mpr ⟨"0xA", hrecover, rfl, rfl⟩
  · have hfields := signedFields_markRecord Contributions.sample "contrib-alice"
      (Json.dictOf (Contributions.sampleRecord (.str "1")))
    exact congrArg ContribFields.baseRound hfields
  · rintro ⟨r, ⟨-, rfl⟩, hagree⟩
    rw [hrec, signedFields_markRecord] at hagree
    have hround := (List.forall₂_cons.mp (List.forall₂_cons.mp hagree).2).1
    cases hround

end NeuraHash
