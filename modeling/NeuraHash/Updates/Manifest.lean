import NeuraHash.Platform

/-!
# The release manifest (`tools/self_update.py`)

A manifest is untrusted JSON. `verifyManifest` accepts it when the signature recovers to the pinned
release address over `canonicalManifestBytes`, which are built from some of its fields: `version`
and `git_commit` as texts, `published_ts` as an integer, and three optional fields
(`min_client_version`, `config`, `files`) that are signed when their value is truthy.

`signed_agree` says what two manifests with one signed text have in common. It is what every
reader of a manifest rests on.
-/

namespace NeuraHash

open Py

/-- What the updater computes with. -/
structure UpdateEnv extends Platform where
  /-- `int("")` raises. -/
  parseInt_empty : parseInt "" = none
  /-- `str.isdigit`. -/
  isDigit : String → Bool
  /-- `repr` of a text. -/
  reprText : String → String
  /-- `str.splitlines`. -/
  splitlines : String → List String

namespace UpdateEnv

/-! ## Versions -/

/-- `s.split(sep)` at one character. -/
def splitAt (sep : Char) (s : String) : List String := (s.toList.splitOn sep).map String.ofList

/-- `int(p)` of a text. -/
def intOf (U : UpdateEnv) (p : String) : Except PyErr ℤ :=
  match U.parseInt p with
  | some n => .ok n
  | none => .error .valueError

/-- `parse_version`: the components of a dotted version. -/
def parseVersion (U : UpdateEnv) (s : String) : Except PyErr (List ℤ) :=
  let parts := splitAt '.' (U.strip s)
  if 1 ≤ parts.length ∧ parts.length ≤ 4 ∧ parts.all U.isDigit = true then parts.mapM U.intOf
  else .error .valueError

/-- `is_forward`. -/
def isForward (U : UpdateEnv) (newV curV : String) : Except PyErr Bool := do
  let new ← U.parseVersion newV
  let cur ← U.parseVersion curV
  .ok (decide (cur < new))

/-! ## Patterns -/

/-- `re.match("^[...]{lo,hi}$", s)`; `$` also matches before a final newline. -/
def matchesRun (p : Char → Bool) (lo hi : ℕ) (s : List Char) : Bool :=
  let body := if s.getLast? = some '\n' then s.dropLast else s
  decide (lo ≤ body.length) && decide (body.length ≤ hi) && body.all p

def hexChar (c : Char) : Bool := (hexNibble c).isSome

/-- `_COMMIT_RE`. -/
def commitRe (s : String) : Bool := matchesRun hexChar 7 64 s.toList

end UpdateEnv

/-! ## The signed bytes -/

namespace Manifest

open UpdateEnv

def releaseKind : String := "neurahash-miner-release"

/-- A member of the signed body that is there when the manifest's value is truthy. -/
def optional (k : String) (j v : Json) : List (String × Json) := if j.truthy then [(k, v)] else []

/-- The object that is signed. -/
def signedBody (version gitCommit : String) (publishedTs : ℤ) (minClient : String)
    (mcv config files : Json) : Json :=
  .obj ([("kind", .str releaseKind), ("version", .str version), ("git_commit", .str gitCommit),
      ("published_ts", .int publishedTs)] ++ optional "min_client_version" mcv (.str minClient) ++
    optional "config" config config ++ optional "files" files files)

/-- `canonical_manifest_bytes`. -/
def canonicalManifestBytes (U : UpdateEnv) (m : Json) : Except PyErr Bytes := do
  let version ← m.item "version"
  let gitCommit ← m.item "git_commit"
  let publishedTs ← m.item "published_ts"
  let ts ← publishedTs.toInt U.toPyText
  let mcv ← m.getD "min_client_version" .null
  let config ← m.getD "config" .null
  let files ← m.getD "files" .null
  .ok (utf8 (Json.dumps U.toPyText [] (signedBody (version.toStr U.toPyText)
    (gitCommit.toStr U.toPyText) ts (mcv.toStr U.toPyText) mcv config files)))

/-- Why a manifest is rejected. -/
inductive Rejection where
  | notObject
  | missingField (k : String)
  | noSignature
  | badCommit (j : Json)
  | badVersion
  | badConfig (j : Json)
  | badFiles (j : Json)
  | badMinClient
  | malformed
  | unrecoverable
  | wrongKey (recovered : String)

/-- `type(j).__name__`. -/
def typeName : Json → String
  | .null => "NoneType"
  | .bool _ => "bool"
  | .int _ => "int"
  | .float _ => "float"
  | .str _ => "str"
  | .arr _ => "list"
  | .obj _ => "dict"

/-- `repr(j)`. -/
def reprOf (U : UpdateEnv) : Json → String
  | .str s => U.reprText s
  | j => j.toStr U.toPyText

/-- The text of a rejection; the text of an exception that follows a colon is left out. -/
def Rejection.text (U : UpdateEnv) : Rejection → String
  | notObject => "manifest is not a JSON object"
  | missingField k => "missing field: " ++ k
  | noSignature => "missing or empty signature"
  | badCommit j => "git_commit is not a bare hex commit id: " ++ reprOf U j
  | badVersion => "version malformed: "
  | badConfig j => "config is not a JSON object: " ++ typeName j
  | badFiles j => "files is not a JSON object: " ++ typeName j
  | badMinClient => "min_client_version malformed: "
  | malformed => "manifest fields malformed: "
  | unrecoverable => "signature recovery failed: "
  | wrongKey a => "signature does not match pinned release key (recovered " ++ a ++ ")"

/-- `manifest.get(k)` of a dict. -/
def get (m : Json) (k : String) : Json := (m.get? k).getD .null

/-- The fields a manifest must carry. -/
def requiredFields : List String := ["version", "git_commit", "published_ts", "signature"]

/-- `isinstance(sig, str) and sig.strip()`. -/
def signatureGiven (U : UpdateEnv) : Json → Bool
  | .str s => U.strip s != ""
  | _ => false

/-- The checks before the signature is looked at. -/
def wellFormed (U : UpdateEnv) (m : Json) : Option Rejection :=
  if !m.isObj then some .notObject
  else match requiredFields.find? (fun k => (m.get? k).isNone) with
    | some k => some (.missingField k)
    | none =>
      if !signatureGiven U (get m "signature") then some .noSignature
      else if !commitRe ((get m "git_commit").toStr U.toPyText) then
        some (.badCommit (get m "git_commit"))
      else if !(U.parseVersion ((get m "version").toStr U.toPyText)).isOk then some .badVersion
      else if (get m "config").notNone && !(get m "config").isObj then
        some (.badConfig (get m "config"))
      else if (get m "files").notNone && !(get m "files").isObj then
        some (.badFiles (get m "files"))
      else if (get m "min_client_version").notNone &&
          !(U.parseVersion ((get m "min_client_version").toStr U.toPyText)).isOk then some .badMinClient
      else none

/-- `verify_manifest(manifest, pubkey)`: the recovered address, or the rejection. -/
def verifyManifest (U : UpdateEnv) (pubkey : String) (m : Json) : Except Rejection String :=
  match wellFormed U m with
  | some r => .error r
  | none => match canonicalManifestBytes U m with
    | .error _ => .error .malformed
    | .ok data => match recoverBytes U.toPlatform data (get m "signature") with
      | none => .error .unrecoverable
      | some recovered =>
        if U.lower recovered = U.lower pubkey then .ok recovered else .error (.wrongKey recovered)

/-! ## What acceptance gives -/

variable {U : UpdateEnv} {pubkey : String} {m m' : Json} {data : Bytes}

/-- A field that is null or an object. -/
def NullOrObj (j : Json) : Prop := j.notNone = true → j.isObj = true

/-- What the checks before the signature establish. -/
structure WellFormed (U : UpdateEnv) (m : Json) : Prop where
  isObj : m.isObj = true
  fields : ∀ k ∈ requiredFields, (m.get? k).isSome = true
  commit : commitRe ((get m "git_commit").toStr U.toPyText) = true
  version : (U.parseVersion ((get m "version").toStr U.toPyText)).isOk = true
  config : NullOrObj (get m "config")
  files : NullOrObj (get m "files")
  minClient : (get m "min_client_version").notNone = true →
    (U.parseVersion ((get m "min_client_version").toStr U.toPyText)).isOk = true

theorem wellFormed_of_none (h : wellFormed U m = none) : WellFormed U m := by
  unfold wellFormed at h
  split at h
  · cases h
  next hobj =>
  split at h
  · cases h
  next hfields =>
  split at h
  · cases h
  split at h
  · cases h
  next hcommit =>
  split at h
  · cases h
  next hversion =>
  split at h
  · cases h
  next hconfig =>
  split at h
  · cases h
  next hfiles =>
  split at h
  · cases h
  next hmin =>
  refine ⟨by simpa using hobj, fun k hk => ?_, by simpa using hcommit, by simpa using hversion,
    by simpa [NullOrObj] using hconfig, by simpa [NullOrObj] using hfiles, by simpa using hmin⟩
  have hnone := List.find?_eq_none.mp hfields k hk
  simpa [Option.isSome_iff_ne_none] using hnone

/-- An accepted manifest is well formed and its signed bytes recover to the pinned key. -/
theorem verifyManifest_ok {a : String} (h : verifyManifest U pubkey m = .ok a) :
    WellFormed U m ∧ ∃ data, canonicalManifestBytes U m = .ok data ∧
      recoverBytes U.toPlatform data (get m "signature") = some a ∧ U.lower a = U.lower pubkey := by
  unfold verifyManifest at h
  split at h
  · cases h
  next hnone =>
  split at h
  · cases h
  next data hdata =>
  split at h
  · cases h
  next recovered hrec =>
  split at h
  · next hkey =>
    cases h
    exact ⟨wellFormed_of_none hnone, data, hdata, hrec, hkey⟩
  · cases h

/-! ## Equal signed bytes -/

/-- The signed body of a manifest, read as `get` reads it. -/
def bodyOf (U : UpdateEnv) (m : Json) (ts : ℤ) : Json :=
  signedBody ((get m "version").toStr U.toPyText) ((get m "git_commit").toStr U.toPyText) ts
    ((get m "min_client_version").toStr U.toPyText) (get m "min_client_version") (get m "config")
    (get m "files")

theorem get_of_item {k : String} {v : Json} (h : m.item k = .ok v) : get m k = v := by
  rw [get, Json.item_eq_ok.mp h]
  rfl

theorem get_of_getD {k : String} {v : Json} (h : m.getD k .null = .ok v) : get m k = v := by
  cases m with
  | obj kvs => exact Except.ok.inj h
  | _ => cases h

theorem canonicalManifestBytes_ok (h : canonicalManifestBytes U m = .ok data) :
    ∃ ts, (get m "published_ts").toInt U.toPyText = .ok ts ∧
      data = utf8 (Json.dumps U.toPyText [] (bodyOf U m ts)) := by
  unfold canonicalManifestBytes at h
  obtain ⟨version, hversion, h⟩ := bind_eq_ok.mp h
  obtain ⟨gitCommit, hcommit, h⟩ := bind_eq_ok.mp h
  obtain ⟨published, hpublished, h⟩ := bind_eq_ok.mp h
  obtain ⟨ts, hts, h⟩ := bind_eq_ok.mp h
  obtain ⟨mcv, hmcv, h⟩ := bind_eq_ok.mp h
  obtain ⟨config, hconfig, h⟩ := bind_eq_ok.mp h
  obtain ⟨files, hfiles, h⟩ := bind_eq_ok.mp h
  refine ⟨ts, by rw [get_of_item hpublished, hts], ?_⟩
  rw [bodyOf, get_of_item hversion, get_of_item hcommit, get_of_getD hmcv, get_of_getD hconfig,
    get_of_getD hfiles]
  exact (Except.ok.inj h).symm

section Body

variable (version gitCommit minClient : String) (ts : ℤ) (mcv config files : Json)

/-- A search in an optional part. -/
theorem lookup_optional (k k' : String) (j v : Json) (rest : List (String × Json)) :
    Dict.lookup k' ((optional k j v).reverse ++ rest)
      = if j.truthy = true ∧ k = k' then some v else Dict.lookup k' rest := by
  unfold optional
  by_cases hj : j.truthy = true
  · simp [hj, Dict.lookup]
  · simp [hj]

theorem get?_signedBody (k : String) :
    (signedBody version gitCommit ts minClient mcv config files).get? k
      = if files.truthy = true ∧ "files" = k then some files
        else if config.truthy = true ∧ "config" = k then some config
        else if mcv.truthy = true ∧ "min_client_version" = k then some (.str minClient)
        else if "published_ts" = k then some (.int ts)
        else if "git_commit" = k then some (.str gitCommit)
        else if "version" = k then some (.str version)
        else if "kind" = k then some (.str releaseKind)
        else none := by
  rw [signedBody, Json.get?_obj, List.reverse_append, List.reverse_append, List.reverse_append,
    lookup_optional, lookup_optional, lookup_optional]
  rfl

end Body

/-- What two manifests with one signed text share. -/
structure SignedAgree (U : UpdateEnv) (m m' : Json) : Prop where
  version : (get m "version").toStr U.toPyText = (get m' "version").toStr U.toPyText
  commit : (get m "git_commit").toStr U.toPyText = (get m' "git_commit").toStr U.toPyText
  published : ∃ ts, (get m "published_ts").toInt U.toPyText = .ok ts ∧
    (get m' "published_ts").toInt U.toPyText = .ok ts
  minClient_truthy : (get m "min_client_version").truthy = (get m' "min_client_version").truthy
  minClient : (get m "min_client_version").truthy = true →
    (get m "min_client_version").toStr U.toPyText = (get m' "min_client_version").toStr U.toPyText
  config_truthy : (get m "config").truthy = (get m' "config").truthy
  config : (get m "config").truthy = true →
    Json.sortKeys (get m "config") = Json.sortKeys (get m' "config")
  files_truthy : (get m "files").truthy = (get m' "files").truthy
  files : (get m "files").truthy = true →
    Json.sortKeys (get m "files") = Json.sortKeys (get m' "files")

/-- An optional member that is signed in one is signed in the other, with the same value. -/
theorem optional_agree {b b' : Bool} {x x' : Json}
    (h : (if b = true then some x else none).map Json.sortKeys
      = (if b' = true then some x' else none).map Json.sortKeys) :
    b = b' ∧ (b = true → Json.sortKeys x = Json.sortKeys x') := by
  cases b <;> cases b' <;> simp_all

/-- **The signed bytes determine every field up to its coercion.** -/
theorem signed_agree (h : canonicalManifestBytes U m = .ok data)
    (h' : canonicalManifestBytes U m' = .ok data) : SignedAgree U m m' := by
  obtain ⟨ts, hts, hdata⟩ := canonicalManifestBytes_ok h
  obtain ⟨ts', hts', hdata'⟩ := canonicalManifestBytes_ok h'
  have htext := utf8_injective (hdata.symm.trans hdata')
  have hmember := Json.get?_eq_of_dumps_eq U.toPyText [] htext
  simp only [bodyOf, get?_signedBody] at hmember
  have hversion := hmember "version"
  have hcommit := hmember "git_commit"
  have hpublished := hmember "published_ts"
  have hmin := hmember "min_client_version"
  have hconfig := hmember "config"
  have hfiles := hmember "files"
  simp [Json.sortKeys] at hversion hcommit hpublished
  simp only [and_true, and_false, if_false, String.reduceEq] at hmin hconfig hfiles
  have hminAgree := optional_agree hmin
  have hconfigAgree := optional_agree hconfig
  have hfilesAgree := optional_agree hfiles
  subst hpublished
  exact ⟨hversion, hcommit, ⟨ts, hts, hts'⟩, hminAgree.1,
    fun ht => Json.str.inj (hminAgree.2 ht), hconfigAgree.1, hconfigAgree.2, hfilesAgree.1,
    hfilesAgree.2⟩

end Manifest

end NeuraHash
