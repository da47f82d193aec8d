import NeuraHash.Python.MemberOrder
import NeuraHash.Updates.Manifest

/-!
# What a client does with a manifest (`tools/self_update.py`)

An accepted manifest is read in five places: its version and commit drive the update,
`published_ts` is compared with the replay floor, `config` becomes defaults of the environment,
`files` names what the release ships, and `min_client_version` can block publishing.

These readers look at the raw values, the signature covers coerced ones. `acts_alike_iff` says when
that makes no difference: the two manifests must agree on `min_client_version` (a `0` is read but
not signed) and list the members of container values under `files` in one order.
-/

namespace NeuraHash

open Py

namespace UpdateEnv

variable (U : UpdateEnv)

/-! ## The validators of `config` -/

/-- The characters of a class such as `[A-Za-z0-9...]`. -/
def alnumOr (extra : String) (c : Char) : Bool := c.isAlphanum || extra.toList.contains c

/-- `_URL_RE`. -/
def urlRe (s : String) : Bool :=
  let rest := if "https://".toList.isPrefixOf s.toList then some (s.toList.drop 8)
    else if "http://".toList.isPrefixOf s.toList then some (s.toList.drop 7) else none
  rest.any (matchesRun (alnumOr "._~:/?#[]!$&'()*+,;=%-") 1 300)

/-- `_HEX_RE`. -/
def hexRe (s : String) : Bool := matchesRun hexChar 8 128 s.toList

/-- `_TAG_RE`. -/
def tagRe (s : String) : Bool :=
  match s.toList with
  | c :: rest => c.isAlphanum && matchesRun (alnumOr "._-") 0 63 rest
  | [] => false

/-- What a validator makes of a value; `none` rejects it. -/
abbrev Validator := Json → Option String

/-- A text validator: the text without the blanks around it, where it has the shape. -/
def shaped (re : String → Bool) (finish : String → String) : Validator
  | .str s => if re (U.strip s) then some (finish (U.strip s)) else none
  | _ => none

def vUrl : Validator := shaped U urlRe id
def vHex : Validator := shaped U hexRe U.lower
def vTag : Validator := shaped U tagRe id

def vBool : Validator
  | .bool b => some (if b then "1" else "0")
  | _ => none

/-- An entry of an allowlist: the key, the environment variable and the validator. -/
abbrev Allowed := String × String × Validator

/-- `CONFIG_ALLOWLIST`. -/
def configAllowlist : List Allowed :=
  [("merge_url", "NEURAHASH_DILOCO_MERGE_URL", U.vUrl),
    ("content_url", "NEURAHASH_CONTENT_URL", U.vUrl),
    ("corpus_store", "NEURAHASH_CONTENT_STORE", U.vUrl),
    ("corpus_sha", "NEURAHASH_CORPUS_SHA", U.vHex)]

/-- `PROTOCOL_ALLOWLIST`. -/
def protocolAllowlist : List Allowed :=
  [("signed_put", "NEURAHASH_SIGNED_PUT", vBool),
    ("contrib_sig_version", "NEURAHASH_CONTRIB_SIG_VERSION", U.vTag)]

/-! ## `apply_manifest_config` -/

/-- What a member of `config` asks for: a line of the report, or a variable to set. -/
inductive Setting where
  | refuse (line : String)
  | offer (name : String) (value : Option String) (label : String)

/-- One member, against its allowlist. -/
def settingOf (table : List Allowed) (label : String) (key : String) (raw : Json) : Setting :=
  match Dict.lookup key table with
  | none => .refuse (label ++ " (not on the allowlist)")
  | some (name, validator) => .offer name (validator raw) label

def protocolSetting (p : String × Json) : Setting :=
  settingOf U.protocolAllowlist ("protocol." ++ p.1) p.1 p.2

/-- The body of the loop over `config.items()`; `protocol` is a table of its own. -/
def configSettings (p : String × Json) : List Setting :=
  if p.1 = "protocol" then match p.2 with
    | .obj kvs => (Json.dictOf kvs).entries.map U.protocolSetting
    | _ => [.refuse "protocol (not a JSON object)"]
  else [settingOf U.configAllowlist p.1 p.1 p.2]

/-- The environment after the call, and its two reports. -/
structure Applied where
  env : Dict String String
  applied : List String
  ignored : List String

/-- `_one`: a variable that is set already wins. -/
def one (a : Applied) : Setting → Applied
  | .refuse line => { a with ignored := a.ignored ++ [line] }
  | .offer name value label => match value with
    | none =>
      { a with ignored := a.ignored ++ [label ++ " (value rejected by the allowlist validator)"] }
    | some val =>
      if U.strip (a.env.getD name "") ≠ "" then
        { a with ignored :=
            a.ignored ++ [label ++ " (explicit " ++ name ++ " in the environment wins)"] }
      else { a with env := a.env.set name val, applied := a.applied ++ [name ++ "=" ++ val] }

/-- `apply_manifest_config(config, environ)`. -/
def applyManifestConfig (config : Json) (env : Dict String String) : Applied :=
  match config with
  | .obj kvs => ((Json.dictOf kvs).entries.flatMap U.configSettings).foldl U.one ⟨env, [], []⟩
  | _ => ⟨env, [], ["<config> (not a JSON object)"]⟩

end UpdateEnv

namespace Manifest

open UpdateEnv

variable (U : UpdateEnv) (m : Json)

/-- `str(manifest["version"])`. -/
def targetVersion : String := (get m "version").toStr U.toPyText

/-- `str(manifest["git_commit"])`. -/
def commitOf : String := (get m "git_commit").toStr U.toPyText

/-- `int(manifest.get("published_ts") or 0)`, with 0 for what is no number. -/
def publishedTs : ℤ :=
  match ((get m "published_ts").orElse (.int 0)).toInt U.toPyText with
  | .ok n => n
  | .error _ => 0

/-- `apply_manifest_config(manifest.get("config") or {}, environ)`. -/
def applyConfig (env : Dict String String) : UpdateEnv.Applied :=
  U.applyManifestConfig ((get m "config").orElse (.obj [])) env

/-- `manifest_files(manifest)`. -/
def manifestFiles : Dict String String :=
  match get m "files" with
  | .obj kvs => (Json.dictOf kvs).mapWithKey fun _ v => v.toStr U.toPyText
  | _ => ∅

/-- What the gate says of a declared version; a version file that cannot be read is `none`. -/
def gateReason (need : String) (localVersion : Option String) : Option String :=
  match U.parseVersion need with
  | .error _ => none
  | .ok needV =>
    if localVersion.getD "" = "" then
      some ("client version unknown (no readable VERSION) but the signed network manifest "
        ++ "requires min_client_version " ++ need ++ " -- publishing refused; training "
        ++ "continues (run again to auto-update, or `git pull`)")
    else match U.parseVersion (localVersion.getD "") with
      | .error _ =>
        some ("local version " ++ U.reprText (localVersion.getD "") ++ " is unparseable but the "
          ++ "signed network manifest requires min_client_version " ++ need ++ " -- publishing "
          ++ "refused; training continues (run again to auto-update, or `git pull`)")
      | .ok haveV =>
        if haveV < needV then
          some ("client v" ++ localVersion.getD "" ++ " is below the signed network manifest's "
            ++ "min_client_version " ++ need ++ " -- publishing refused so nothing is submitted "
            ++ "that the network would reject; training continues (run again to auto-update, or "
            ++ "`git pull`)")
        else none

/-- `publish_block_reason(manifest, local_version)`. -/
def publishBlockReason (localVersion : Option String) : Option String :=
  if !m.isObj || !(get m "min_client_version").notNone then none
  else gateReason U ((get m "min_client_version").toStr U.toPyText) localVersion

end Manifest

/-! ## The order of the members of `config`

Two texts of sorted keys that agree come from configurations with the same members, so the two
loops see the same settings in some order. No two settings name one variable, so the order of the
loop does not matter to the environment, and the reports hold the same lines. -/

namespace UpdateEnv

variable {U : UpdateEnv}

/-- A validator that looks at texts, numbers and booleans only. -/
def ReadsScalars (v : Validator) : Prop := ∀ j : Json, j.isContainer = true → v j = none

theorem readsScalars_shaped (re : String → Bool) (finish : String → String) :
    ReadsScalars (shaped U re finish) := by
  intro j hj
  cases j with
  | str s => cases hj
  | _ => rfl

theorem readsScalars_config {e : Allowed} (he : e ∈ U.configAllowlist) : ReadsScalars e.2.2 := by
  simp only [configAllowlist, List.mem_cons, List.not_mem_nil, or_false] at he
  rcases he with rfl | rfl | rfl | rfl
  all_goals exact readsScalars_shaped _ _

theorem readsScalars_protocol {e : Allowed} (he : e ∈ U.protocolAllowlist) :
    ReadsScalars e.2.2 := by
  simp only [protocolAllowlist, List.mem_cons, List.not_mem_nil, or_false] at he
  rcases he with rfl | rfl
  · intro j hj
    cases j with
    | bool b => cases hj
    | _ => rfl
  · exact readsScalars_shaped _ _

/-- A rewriting of values that leaves scalars alone and containers containers. -/
structure KeepsScalars (f : Json → Json) : Prop where
  scalar : ∀ j : Json, j.isContainer = false → f j = j
  container : ∀ j : Json, (f j).isContainer = j.isContainer

theorem keepsScalars_sortKeys : KeepsScalars Json.sortKeys :=
  ⟨fun _ => Json.sortKeys_of_scalar, Json.isContainer_sortKeys⟩

theorem keepsScalars_readOrder : KeepsScalars Json.readOrder :=
  ⟨fun _ => Json.readOrder_of_scalar, fun j => by cases j <;> rfl⟩

theorem ReadsScalars.apply_keeps {v : Validator} (hv : ReadsScalars v) {f : Json → Json}
    (hf : KeepsScalars f) (j : Json) : v (f j) = v j := by
  cases hj : j.isContainer with
  | false => rw [hf.scalar j hj]
  | true => rw [hv j hj, hv (f j) ((hf.container j).trans hj)]

theorem settingOf_keeps {table : List Allowed} (ht : ∀ e ∈ table, ReadsScalars e.2.2)
    {f : Json → Json} (hf : KeepsScalars f) (label key : String) (raw : Json) :
    settingOf table label key (f raw) = settingOf table label key raw := by
  unfold settingOf
  cases hk : Dict.lookup key table with
  | none => rfl
  | some e =>
    have hread : ReadsScalars e.2 := ht _ (Dict.mem_of_lookup hk)
    show Setting.offer e.1 (e.2 (f raw)) label = Setting.offer e.1 (e.2 raw) label
    rw [hread.apply_keeps hf]

theorem protocolSetting_keeps {f : Json → Json} (hf : KeepsScalars f) (p : String × Json) :
    U.protocolSetting (p.1, f p.2) = U.protocolSetting p :=
  settingOf_keeps (fun _ => readsScalars_protocol) hf _ _ _

/-- One member asks for the same settings in some order after sorting. -/
theorem configSettings_sortKeys (p : String × Json) :
    (U.configSettings (p.1, Json.sortKeys p.2)).Perm (U.configSettings p) := by
  unfold configSettings
  by_cases hp : p.1 = "protocol"
  · rw [if_pos hp, if_pos hp]
    cases hv : p.2 with
    | obj kvs =>
      obtain ⟨l, hsort⟩ := Json.exists_sortKeys_obj kvs
      rw [hsort]
      refine ((Json.entries_sortKeys hsort).map _).trans (List.Perm.of_eq ?_)
      rw [List.map_map]
      exact List.map_congr_left fun q _ => protocolSetting_keeps keepsScalars_sortKeys q
    | _ => exact List.Perm.refl _
  · rw [if_neg hp, if_neg hp]
    exact List.Perm.of_eq (congrArg (fun x => [x])
      (settingOf_keeps (fun _ => readsScalars_config) keepsScalars_sortKeys _ _ _))

theorem configSettings_readOrder (p : String × Json) :
    U.configSettings (p.1, Json.readOrder p.2) = U.configSettings p := by
  unfold configSettings
  by_cases hp : p.1 = "protocol"
  · rw [if_pos hp, if_pos hp]
    cases hv : p.2 with
    | obj kvs =>
      obtain ⟨l, hread⟩ := Json.exists_readOrder_obj kvs
      rw [hread]
      dsimp only
      rw [Json.entries_readOrder hread, List.map_map]
      exact List.map_congr_left fun q _ => protocolSetting_keeps keepsScalars_readOrder q
    | _ => rfl
  · rw [if_neg hp, if_neg hp, settingOf_keeps (fun _ => readsScalars_config) keepsScalars_readOrder]

/-- The settings the two loops see, in order. -/
def settings (U : UpdateEnv) (kvs : List (String × Json)) : List Setting :=
  (Json.dictOf kvs).entries.flatMap U.configSettings

theorem settings_sortKeys {kvs l : List (String × Json)} (h : Json.sortKeys (.obj kvs) = .obj l) :
    (U.settings l).Perm (U.settings kvs) := by
  refine ((Json.entries_sortKeys h).flatMap_right _).trans ?_
  rw [List.flatMap_map]
  exact List.Perm.flatMap_left _ fun p _ => configSettings_sortKeys p

theorem settings_readOrder {kvs l : List (String × Json)}
    (h : Json.readOrder (.obj kvs) = .obj l) : U.settings l = U.settings kvs := by
  rw [settings, Json.entries_readOrder h, List.flatMap_map]
  exact congrArg (fun g => (Json.dictOf kvs).entries.flatMap g) (funext configSettings_readOrder)

/-! ## No variable is named twice -/

/-- The variable a setting names. -/
def Setting.name? : Setting → Option String
  | .refuse _ => none
  | .offer name _ _ => some name

theorem settingOf_name {table : List Allowed} {label key name : String} {raw : Json}
    (h : (settingOf table label key raw).name? = some name) :
    ∃ v, (key, name, v) ∈ table := by
  unfold settingOf at h
  split at h
  · cases h
  next name' v hk =>
  cases h
  exact ⟨v, Dict.mem_of_lookup hk⟩

/-- The key a variable belongs to, and whether it stands under `protocol`. -/
def ownerOf (name : String) : Option (Bool × String) :=
  Dict.lookup name [("NEURAHASH_DILOCO_MERGE_URL", false, "merge_url"),
    ("NEURAHASH_CONTENT_URL", false, "content_url"),
    ("NEURAHASH_CONTENT_STORE", false, "corpus_store"),
    ("NEURAHASH_CORPUS_SHA", false, "corpus_sha"),
    ("NEURAHASH_SIGNED_PUT", true, "signed_put"),
    ("NEURAHASH_CONTRIB_SIG_VERSION", true, "contrib_sig_version")]

theorem ownerOf_config {key name : String} {v : Validator}
    (h : (key, name, v) ∈ U.configAllowlist) : ownerOf name = some (false, key) := by
  simp only [configAllowlist, List.mem_cons, List.not_mem_nil, or_false, Prod.mk.injEq] at h
  rcases h with ⟨rfl, rfl, -⟩ | ⟨rfl, rfl, -⟩ | ⟨rfl, rfl, -⟩ | ⟨rfl, rfl, -⟩
  all_goals rfl

theorem ownerOf_protocol {key name : String} {v : Validator}
    (h : (key, name, v) ∈ U.protocolAllowlist) : ownerOf name = some (true, key) := by
  simp only [protocolAllowlist, List.mem_cons, List.not_mem_nil, or_false, Prod.mk.injEq] at h
  rcases h with ⟨rfl, rfl, -⟩ | ⟨rfl, rfl, -⟩
  all_goals rfl

/-- Where a setting that names a variable comes from. -/
theorem origin_of_mem {kvs : List (String × Json)} {s : Setting} {name : String}
    (hs : s ∈ U.settings kvs) (hname : s.name? = some name) :
    (∃ key raw, ownerOf name = some (false, key) ∧ (Json.dictOf kvs).get? key = some raw ∧
        s = settingOf U.configAllowlist key key raw) ∨
    (∃ key raw inner, ownerOf name = some (true, key) ∧
        (Json.dictOf kvs).get? "protocol" = some (.obj inner) ∧
        (Json.dictOf inner).get? key = some raw ∧ s = U.protocolSetting (key, raw)) := by
  obtain ⟨p, hp, hs⟩ := List.mem_flatMap.mp hs
  have hget : (Json.dictOf kvs).get? p.1 = some p.2 := Dict.mem_entries_iff.mp hp
  unfold configSettings at hs
  split at hs
  · next hkey =>
    split at hs
    · next inner hinner =>
      obtain ⟨q, hq, rfl⟩ := List.mem_map.mp hs
      obtain ⟨v, hv⟩ := settingOf_name hname
      rw [hkey, hinner] at hget
      exact .inr ⟨q.1, q.2, inner, ownerOf_protocol hv, hget, Dict.mem_entries_iff.mp hq, rfl⟩
    · rw [List.mem_singleton.mp hs] at hname
      cases hname
  · rw [List.mem_singleton] at hs
    subst hs
    obtain ⟨v, hv⟩ := settingOf_name hname
    exact .inl ⟨p.1, p.2, ownerOf_config hv, hget, rfl⟩

theorem eq_of_name {kvs : List (String × Json)} {s t : Setting} {name : String}
    (hs : s ∈ U.settings kvs) (ht : t ∈ U.settings kvs) (hsn : s.name? = some name)
    (htn : t.name? = some name) : s = t := by
  rcases origin_of_mem hs hsn with ⟨k, r, ho, hr, hse⟩ | ⟨k, r, i, ho, hi, hr, hse⟩
  · rcases origin_of_mem ht htn with ⟨k', r', ho', hr', hte⟩ | ⟨k', r', i', ho', hi', hr', hte⟩
    · cases ho.symm.trans ho'
      cases hr.symm.trans hr'
      rw [hse, hte]
    · cases ho.symm.trans ho'
  · rcases origin_of_mem ht htn with ⟨k', r', ho', hr', hte⟩ | ⟨k', r', i', ho', hi', hr', hte⟩
    · cases ho.symm.trans ho'
    · cases ho.symm.trans ho'
      cases hi.symm.trans hi'
      cases hr.symm.trans hr'
      rw [hse, hte]

/-! ## The loop, up to order -/

/-- What the loop has done, without the order of the report lines. -/
abbrev Summary := (String → Option String) × Multiset String × Multiset String

def Applied.summary (a : Applied) : Summary := (a.env.get?, a.applied, a.ignored)

/-- What becomes of one setting: a line that is ignored, or a variable that is set. -/
inductive Outcome where
  | ignored (line : String)
  | applied (name val : String)

/-- The outcome of a setting where the environment is `env`. -/
def outcome (U : UpdateEnv) (env : String → Option String) : Setting → Outcome
  | .refuse line => .ignored line
  | .offer name value label => match value with
    | none => .ignored (label ++ " (value rejected by the allowlist validator)")
    | some val =>
      if U.strip ((env name).getD "") ≠ "" then
        .ignored (label ++ " (explicit " ++ name ++ " in the environment wins)")
      else .applied name val

def Summary.add (x : Summary) : Outcome → Summary
  | .ignored line => (x.1, x.2.1, line ::ₘ x.2.2)
  | .applied name val => (Function.update x.1 name (some val), (name ++ "=" ++ val) ::ₘ x.2.1, x.2.2)

/-- `one` on a summary. -/
def summaryStep (U : UpdateEnv) (x : Summary) (s : Setting) : Summary := x.add (U.outcome x.1 s)

theorem coe_concat (l : List String) (x : String) :
    ((l ++ [x] : List String) : Multiset String) = x ::ₘ (l : Multiset String) :=
  Multiset.coe_eq_coe.mpr (List.perm_append_singleton x l)

/-- An ignored line joins the second report. -/
theorem summary_ignored (a : Applied) (line : String) :
    ({ a with ignored := a.ignored ++ [line] } : Applied).summary
      = a.summary.add (.ignored line) :=
  Prod.ext rfl (Prod.ext rfl (coe_concat _ _))

/-- A variable that is set joins the environment and the first report. -/
theorem summary_applied (a : Applied) (name val : String) :
    ({ a with env := a.env.set name val, applied := a.applied ++ [name ++ "=" ++ val] } :
        Applied).summary = a.summary.add (.applied name val) := by
  refine Prod.ext (funext fun k => ?_) (Prod.ext (coe_concat _ _) rfl)
  show (a.env.set name val).get? k = Function.update a.env.get? name (some val) k
  rw [Dict.get?_set, Function.update_apply]
  by_cases hk : name = k
  · rw [if_pos hk, if_pos hk.symm]
  · rw [if_neg hk, if_neg (Ne.symm hk)]

theorem summary_one (a : Applied) (s : Setting) :
    (U.one a s).summary = U.summaryStep a.summary s := by
  cases s with
  | refuse line => exact summary_ignored a line
  | offer name value label =>
    cases value with
    | none => exact summary_ignored a _
    | some val =>
      show (if U.strip (a.env.getD name "") ≠ "" then _ else _ : Applied).summary
        = a.summary.add (if U.strip (a.env.getD name "") ≠ "" then _ else _)
      split
      · exact summary_ignored a _
      · exact summary_applied a name val

/-- A setting that sets a variable names it. -/
theorem name_of_outcome {env : String → Option String} {s : Setting} {name val : String}
    (h : U.outcome env s = .applied name val) : s.name? = some name := by
  cases s with
  | refuse line => cases h
  | offer name' value label =>
    cases value with
    | none => cases h
    | some val' =>
      simp only [outcome] at h
      split at h
      · cases h
      · cases h
        rfl

/-- A setting looks at no variable but its own. -/
theorem outcome_update {env : String → Option String} {t : Setting} {name val : String}
    (h : t.name? ≠ some name) :
    U.outcome (Function.update env name (some val)) t = U.outcome env t := by
  cases t with
  | refuse line => rfl
  | offer name' value label =>
    cases value with
    | none => rfl
    | some val' =>
      have hread : Function.update env name (some val) name' = env name' :=
        Function.update_of_ne (fun hn => h (congrArg some hn)) _ _
      simp only [outcome, hread]

/-- The outcome of one setting is the same after another one. -/
theorem outcome_add {x : Summary} {s t : Setting}
    (h : ∀ n, s.name? = some n → t.name? ≠ some n) :
    U.outcome (x.add (U.outcome x.1 s)).1 t = U.outcome x.1 t := by
  cases ho : U.outcome x.1 s with
  | ignored line => rfl
  | applied name val => exact outcome_update (h name (name_of_outcome ho))

/-- Settings of different variables can be taken in either order. -/
theorem summaryStep_comm {s t : Setting} (x : Summary)
    (h : ∀ n, s.name? = some n → t.name? = some n → s = t) :
    U.summaryStep (U.summaryStep x s) t = U.summaryStep (U.summaryStep x t) s := by
  by_cases hst : s = t
  · rw [hst]
  have hne : ∀ n, s.name? = some n → t.name? ≠ some n := fun n hs ht => hst (h n hs ht)
  have hne' : ∀ n, t.name? = some n → s.name? ≠ some n := fun n ht hs => hst (h n hs ht)
  show (x.add (U.outcome x.1 s)).add (U.outcome (x.add (U.outcome x.1 s)).1 t)
    = (x.add (U.outcome x.1 t)).add (U.outcome (x.add (U.outcome x.1 t)).1 s)
  rw [outcome_add hne, outcome_add hne']
  cases ho : U.outcome x.1 s with
  | ignored line =>
    cases ho' : U.outcome x.1 t with
    | ignored line' => exact Prod.ext rfl (Prod.ext rfl (Multiset.cons_swap _ _ _))
    | applied name' val' => rfl
  | applied name val =>
    cases ho' : U.outcome x.1 t with
    | ignored line' => rfl
    | applied name' val' =>
      have hnames : name ≠ name' := by
        intro hn
        exact hne name (name_of_outcome ho) (hn ▸ name_of_outcome ho')
      exact Prod.ext (Function.update_comm hnames _ _ _)
        (Prod.ext (Multiset.cons_swap _ _ _) rfl)

theorem summary_foldl (l : List Setting) (a : Applied) :
    (l.foldl U.one a).summary = l.foldl U.summaryStep a.summary := by
  induction l generalizing a with
  | nil => rfl
  | cons s l ih => rw [List.foldl_cons, ih, summary_one, List.foldl_cons]

/-- Two calls with one effect: the same environment, and the same lines in some order. -/
structure SameEffect (a b : Applied) : Prop where
  env : ∀ name, a.env.get? name = b.env.get? name
  applied : a.applied.Perm b.applied
  ignored : a.ignored.Perm b.ignored

theorem sameEffect_of_summary {a b : Applied} (h : a.summary = b.summary) : SameEffect a b :=
  ⟨fun name => congrFun (congrArg Prod.fst h) name,
    Multiset.coe_eq_coe.mp (congrArg (fun x => x.2.1) h),
    Multiset.coe_eq_coe.mp (congrArg (fun x => x.2.2) h)⟩

theorem summary_applyManifestConfig (kvs : List (String × Json)) (env : Dict String String) :
    (U.applyManifestConfig (.obj kvs) env).summary
      = (U.settings kvs).foldl U.summaryStep (Applied.summary ⟨env, [], []⟩) :=
  summary_foldl _ _

/-- **A configuration acts by its sorted form.** -/
theorem sameEffect_of_sortKeys {c c' : Json} (h : Json.sortKeys c = Json.sortKeys c')
    (env : Dict String String) :
    SameEffect (U.applyManifestConfig c env) (U.applyManifestConfig c' env) := by
  have hsorted : ∀ kvs : List (String × Json), ∀ l, Json.sortKeys (.obj kvs) = .obj l →
      (U.applyManifestConfig (.obj kvs) env).summary
        = (U.applyManifestConfig (.obj l) env).summary := by
    intro kvs l hl
    rw [summary_applyManifestConfig, summary_applyManifestConfig]
    refine ((settings_sortKeys hl).foldl_eq' (fun s hs t ht x => ?_) _).symm
    exact summaryStep_comm x fun n hn hn' => eq_of_name hs ht hn hn'
  cases c with
  | obj kvs =>
    cases c' with
    | obj kvs' =>
      obtain ⟨l, hl⟩ := Json.exists_sortKeys_obj kvs
      exact sameEffect_of_summary ((hsorted _ _ hl).trans (hsorted _ _ (h.symm.trans hl)).symm)
    | _ => simp [Json.sortKeys] at h
  | _ =>
    cases c' with
    | obj kvs' => simp [Json.sortKeys] at h
    | _ => exact ⟨fun _ => rfl, .refl _, .refl _⟩

theorem applyManifestConfig_readOrder {c c' : Json} (h : Json.readOrder c = Json.readOrder c')
    (env : Dict String String) : U.applyManifestConfig c env = U.applyManifestConfig c' env := by
  have hread : ∀ kvs : List (String × Json), ∀ l, Json.readOrder (.obj kvs) = .obj l →
      U.applyManifestConfig (.obj kvs) env = U.applyManifestConfig (.obj l) env := by
    intro kvs l hl
    show (U.settings kvs).foldl U.one _ = (U.settings l).foldl U.one _
    rw [settings_readOrder hl]
  cases c with
  | obj kvs =>
    cases c' with
    | obj kvs' =>
      obtain ⟨l, hl⟩ := Json.exists_readOrder_obj kvs
      exact (hread _ _ hl).trans (hread _ _ (h.symm.trans hl)).symm
    | _ => simp [Json.readOrder] at h
  | _ =>
    cases c' with
    | obj kvs' => simp [Json.readOrder] at h
    | _ => rfl

end UpdateEnv

/-! ## What the signature binds -/

namespace Manifest

open UpdateEnv

variable {U : UpdateEnv} {pubkey : String} {m m' : Json} {data : Bytes}

/-- Everything a client does with two manifests is the same. The configurations set the same
variables and report the same lines; they report them in the same order when the configurations
list their members in the same order. -/
structure ActAlike (U : UpdateEnv) (m m' : Json) : Prop where
  version : targetVersion U m = targetVersion U m'
  commit : commitOf U m = commitOf U m'
  published : publishedTs U m = publishedTs U m'
  config : ∀ env, SameEffect (applyConfig U m env) (applyConfig U m' env)
  configOrder : Json.readOrder (get m "config") = Json.readOrder (get m' "config") →
    ∀ env, applyConfig U m env = applyConfig U m' env
  files : ∀ k, (manifestFiles U m).get? k = (manifestFiles U m').get? k
  gate : ∀ localVersion, publishBlockReason U m localVersion = publishBlockReason U m' localVersion

/-- The two manifests declare one gate: both leave it out, or both carry the same text. -/
def SameMinClient (U : UpdateEnv) (m m' : Json) : Prop :=
  (get m "min_client_version").notNone = (get m' "min_client_version").notNone ∧
    ((get m "min_client_version").notNone = true →
      (get m "min_client_version").toStr U.toPyText = (get m' "min_client_version").toStr U.toPyText)

/-- No value under `files` lists the members of an object in another order. -/
def SameFileOrder (m m' : Json) : Prop :=
  ∀ k v v', (get m "files").get? k = some v → (get m' "files").get? k = some v' →
    Json.readOrder v = Json.readOrder v'

/-- What is read as the replay floor is what is signed. -/
theorem publishedTs_of_toInt {ts : ℤ} (h : (get m "published_ts").toInt U.toPyText = .ok ts) :
    publishedTs U m = ts := by
  unfold publishedTs Json.orElse
  cases hv : (get m "published_ts").truthy with
  | true => rw [if_pos rfl, h]
  | false =>
    rw [if_neg Bool.false_ne_true]
    show (0 : ℤ) = ts
    -- the falsy values with an integer are the zeros
    revert h hv
    cases get m "published_ts" with
    | bool b => cases b <;> simp [Json.toInt, Json.truthy]
    | int n =>
      simp only [Json.toInt, Json.truthy, bne_eq_false_iff_eq, Except.ok.injEq]
      omega
    | float x =>
      cases x with
      | fin q =>
        intro h hv
        have hq : q = 0 := by simpa [Json.truthy, PyFloat.eq] using hv
        subst hq
        simpa [Json.toInt] using h
      | _ => simp [Json.toInt]
    | str s =>
      intro h hv
      have hs : s = "" := by simpa [Json.truthy] using hv
      rw [hs, Json.toInt, U.parseInt_empty] at h
      cases h
    | _ => simp [Json.toInt]

/-- A falsy `config` or `files` is null or empty. -/
theorem falsy_of_nullOrObj {j : Json} (h : NullOrObj j) (hf : j.truthy = false) :
    j = .null ∨ j = .obj [] := by
  cases j with
  | null => exact .inl rfl
  | obj kvs =>
    cases kvs with
    | nil => exact .inr rfl
    | cons p t => cases hf
  | _ => exact absurd (h rfl) Bool.false_ne_true

theorem truthy_of_obj {j : Json} (ht : j.truthy = true) (h : NullOrObj j) : ∃ kvs, j = .obj kvs := by
  cases j with
  | null => cases ht
  | obj kvs => exact ⟨kvs, rfl⟩
  | _ => exact absurd (h rfl) Bool.false_ne_true

/-- The configuration that is applied, up to the order of members. -/
theorem applyConfig_sameEffect (h : SignedAgree U m m') (env : Dict String String) :
    SameEffect (applyConfig U m env) (applyConfig U m' env) := by
  refine sameEffect_of_sortKeys ?_ env
  unfold Json.orElse
  rw [← h.config_truthy]
  cases ht : (get m "config").truthy with
  | true => exact h.config ht
  | false => rfl

theorem applyConfig_eq (h : SignedAgree U m m')
    (horder : Json.readOrder (get m "config") = Json.readOrder (get m' "config"))
    (env : Dict String String) : applyConfig U m env = applyConfig U m' env := by
  refine applyManifestConfig_readOrder ?_ env
  unfold Json.orElse
  rw [← h.config_truthy]
  cases ht : (get m "config").truthy with
  | true => exact horder
  | false => rfl

/-- A file's digest, as the shipped-file map reads it. -/
theorem get?_manifestFiles (k : String) :
    (manifestFiles U m).get? k = ((get m "files").get? k).map (Json.toStr U.toPyText) := by
  unfold manifestFiles
  cases get m "files" with
  | obj kvs => exact Dict.get?_mapWithKey _ _ _
  | _ => rfl

/-- The shipped files agree up to the order of members. -/
theorem files_sortKeys (hm : WellFormed U m) (hm' : WellFormed U m') (h : SignedAgree U m m')
    (k : String) :
    ((get m "files").get? k).map Json.sortKeys = ((get m' "files").get? k).map Json.sortKeys := by
  cases ht : (get m "files").truthy with
  | true => rw [← Json.get?_sortKeys, ← Json.get?_sortKeys, h.files ht]
  | false =>
    have hnone : ∀ j : Json, j = .null ∨ j = .obj [] → j.get? k = none := by
      rintro j (rfl | rfl)
      · rfl
      · rfl
    rw [hnone _ (falsy_of_nullOrObj hm.files ht),
      hnone _ (falsy_of_nullOrObj hm'.files (h.files_truthy ▸ ht))]

/-- **The shipped-file map** is the same exactly when no value is listed in another order. -/
theorem files_alike_iff (hT : Json.FaithfulStr U.toPyText) (hm : WellFormed U m)
    (hm' : WellFormed U m') (h : SignedAgree U m m') :
    (∀ k, (manifestFiles U m).get? k = (manifestFiles U m').get? k) ↔ SameFileOrder m m' := by
  constructor
  · intro hfiles k v v' hv hv'
    have hk := hfiles k
    have hsort := files_sortKeys hm hm' h k
    rw [get?_manifestFiles, get?_manifestFiles, hv, hv'] at hk
    rw [hv, hv'] at hsort
    exact (Json.readOrder_eq_iff_toStr hT (Option.some.inj hsort)).mpr (Option.some.inj hk)
  · intro horder k
    have hsort := files_sortKeys hm hm' h k
    rw [get?_manifestFiles, get?_manifestFiles]
    cases hv : (get m "files").get? k with
    | none =>
      rw [hv] at hsort
      rw [Option.map_eq_none_iff.mp hsort.symm]
    | some v =>
      rw [hv] at hsort
      obtain ⟨v', hv', hs⟩ := Option.map_eq_some_iff.mp hsort.symm
      rw [hv']
      exact congrArg some
        ((Json.readOrder_eq_iff_toStr hT hs.symm).mp (horder k v v' hv hv'))

/-! ## The publish gate -/

/-- Without a `min_client_version` nothing is blocked. -/
theorem publishBlockReason_undeclared (h : (get m "min_client_version").notNone = false)
    (localVersion : Option String) : publishBlockReason U m localVersion = none := by
  unfold publishBlockReason
  rw [h, Bool.not_false, Bool.or_true, if_pos rfl]

/-- The gate reads the text of `min_client_version` only. -/
theorem publishBlockReason_congr (hm : m.isObj = true) (hm' : m'.isObj = true)
    (h : SameMinClient U m m') (localVersion : Option String) :
    publishBlockReason U m localVersion = publishBlockReason U m' localVersion := by
  cases hn : (get m "min_client_version").notNone with
  | false =>
    rw [publishBlockReason_undeclared hn, publishBlockReason_undeclared (h.1 ▸ hn)]
  | true =>
    unfold publishBlockReason
    rw [hm, hm', ← h.1, hn, h.2 hn]

/-- A client whose version cannot be read is blocked by a text that spells the gate out. -/
theorem publishBlockReason_unreadable (hm : WellFormed U m)
    (h : (get m "min_client_version").notNone = true) :
    publishBlockReason U m none
      = some ("client version unknown (no readable VERSION) but the signed network manifest "
          ++ "requires min_client_version " ++ (get m "min_client_version").toStr U.toPyText
          ++ " -- publishing refused; training "
          ++ "continues (run again to auto-update, or `git pull`)") := by
  have hparse := hm.minClient h
  unfold publishBlockReason gateReason
  rw [hm.isObj, h]
  cases hp : U.parseVersion ((get m "min_client_version").toStr U.toPyText) with
  | error e =>
    rw [hp] at hparse
    cases hparse
  | ok v => rfl

theorem append_cancel {a b c x y : String} (h : a ++ x ++ b ++ c = a ++ y ++ b ++ c) : x = y := by
  have htext := congrArg String.toList h
  simp only [String.toList_append, List.append_assoc, List.append_cancel_left_eq] at htext
  exact String.toList_injective (List.append_cancel_right htext)

/-- **The gate is the same for every client exactly when the two declare one gate.** -/
theorem gate_alike_iff (hm : WellFormed U m) (hm' : WellFormed U m') :
    (∀ localVersion,
      publishBlockReason U m localVersion = publishBlockReason U m' localVersion) ↔
      SameMinClient U m m' := by
  refine ⟨fun h => ?_, fun h => publishBlockReason_congr hm.isObj hm'.isObj h⟩
  have hunread := h none
  cases hn : (get m "min_client_version").notNone with
  | false =>
    cases hn' : (get m' "min_client_version").notNone with
    | false => exact ⟨hn.trans hn'.symm, fun ht => absurd (hn.symm.trans ht) Bool.false_ne_true⟩
    | true =>
      rw [publishBlockReason_undeclared hn, publishBlockReason_unreadable hm' hn'] at hunread
      cases hunread
  | true =>
    cases hn' : (get m' "min_client_version").notNone with
    | false =>
      rw [publishBlockReason_undeclared hn', publishBlockReason_unreadable hm hn] at hunread
      cases hunread
    | true =>
      rw [publishBlockReason_unreadable hm hn, publishBlockReason_unreadable hm' hn'] at hunread
      exact ⟨hn.trans hn'.symm, fun _ => append_cancel (Option.some.inj hunread)⟩

/-- **Two accepted manifests with one signed text** act alike exactly when they declare one gate
and list the values of `files` in one order. -/
theorem acts_alike_iff (hT : Json.FaithfulStr U.toPyText) {a a' : String}
    (h : verifyManifest U pubkey m = .ok a) (h' : verifyManifest U pubkey m' = .ok a')
    (hsigned : canonicalManifestBytes U m = canonicalManifestBytes U m') :
    ActAlike U m m' ↔ SameMinClient U m m' ∧ SameFileOrder m m' := by
  obtain ⟨hm, data, hdata, -⟩ := verifyManifest_ok h
  obtain ⟨hm', data', hdata', -⟩ := verifyManifest_ok h'
  have hagree : SignedAgree U m m' := signed_agree hdata (hsigned ▸ hdata)
  constructor
  · intro halike
    exact ⟨(gate_alike_iff hm hm').mp halike.gate, (files_alike_iff hT hm hm' hagree).mp halike.files⟩
  · rintro ⟨hgate, horder⟩
    obtain ⟨ts, hts, hts'⟩ := hagree.published
    exact
      { version := hagree.version
        commit := hagree.commit
        published := (publishedTs_of_toInt hts).trans (publishedTs_of_toInt hts').symm
        config := applyConfig_sameEffect hagree
        configOrder := applyConfig_eq hagree
        files := (files_alike_iff hT hm hm' hagree).mpr horder
        gate := (gate_alike_iff hm hm').mpr hgate }

end Manifest

/-! ## An environment and a signed release -/

namespace UpdateEnv

/-- A numeral of ASCII digits. -/
def numeral (s : String) : Option ℤ :=
  if s.toList.isEmpty || !s.toList.all Char.isDigit then none
  else some (s.toList.foldl (fun n c => 10 * n + (c.toNat - 48 : ℕ)) 0)

abbrev asciiPlatform : Platform := Platform.ideal

/-- The executable platform, with ASCII digits and containers printed as `json.dumps` does. -/
def sample : UpdateEnv :=
  { asciiPlatform with
    parseInt := numeral
    strContainer := (Json.orderedStr Platform.ideal.toPyText).strContainer
    parseInt_empty := rfl
    isDigit := fun s => !s.toList.isEmpty && s.toList.all Char.isDigit
    reprText := fun s => "'" ++ s ++ "'"
    splitlines := splitAt '\n' }

theorem sample_faithful : Json.FaithfulStr sample.toPyText :=
  Json.orderedStr_faithful Platform.ideal.toPyText

theorem strip_ne_empty {c : Char} {s : List Char} (hc : isAsciiSpace c = false) :
    sample.strip (String.ofList (c :: s)) ≠ "" := by
  intro h
  have hlist := congrArg String.toList h
  simp only [sample, Platform.ideal, Platform.asciiStrip, String.toList_ofList,
    List.dropWhile_cons, hc, if_neg Bool.false_ne_true] at hlist
  have hall := List.dropWhile_eq_nil_iff.mp (List.reverse_eq_nil_iff.mp hlist) c (by simp)
  exact absurd (hc.symm.trans hall) Bool.false_ne_true

end UpdateEnv

namespace Manifest

open UpdateEnv

/-- `PINNED_RELEASE_PUBKEY`. -/
def pinnedReleasePubkey : String := "0x5168F6cc4cc05bfd6d4714906d68e083c02dDC66"

/-- The fields of a release that declares no configuration and no files. -/
def plainFields (version : String) (ts : ℤ) : List (String × Json) :=
  [("version", .str version), ("git_commit", .str "4b03c06"), ("published_ts", .int ts)]

/-- The release with a `min_client_version` and a signature. -/
def withGate (version : String) (ts : ℤ) (mcv : Json) (sig : String) : Json :=
  .obj (plainFields version ts ++ [("min_client_version", mcv), ("signature", .str sig)])

def plainBytes (version : String) (ts : ℤ) : Bytes :=
  utf8 (Json.dumps sample.toPyText [] (signedBody version "4b03c06" ts "" .null .null .null))

/-- The release with the signature the release key made of its plain form. -/
def release (version : String) (ts : ℤ) (mcv : Json) : Json :=
  withGate version ts mcv (signBytes sample.toPlatform pinnedReleasePubkey (plainBytes version ts))

section Sample

variable {version : String} {ts : ℤ} {mcv : Json}

theorem get?_withGate (sig k : String) :
    (withGate version ts mcv sig).get? k = if "signature" = k then some (.str sig)
      else if "min_client_version" = k then some mcv
      else if "published_ts" = k then some (.int ts)
      else if "git_commit" = k then some (.str "4b03c06")
      else if "version" = k then some (.str version) else none := by
  rw [withGate, Json.get?_obj]
  rfl

/-- A falsy gate is not signed. -/
theorem canonical_withGate (hmcv : mcv.truthy = false) (sig : String) :
    canonicalManifestBytes sample (withGate version ts mcv sig) = .ok (plainBytes version ts) := by
  have hitem : ∀ k v, (withGate version ts mcv sig).get? k = some v →
      (withGate version ts mcv sig).item k = .ok v :=
    fun k v h => Json.item_eq_ok.mpr h
  have hobj : (withGate version ts mcv sig).isObj = true := rfl
  unfold canonicalManifestBytes
  rw [hitem "version" (.str version) (by simp [get?_withGate]),
    hitem "git_commit" (.str "4b03c06") (by simp [get?_withGate]),
    hitem "published_ts" (.int ts) (by simp [get?_withGate])]
  simp only [ok_bind, Json.toInt_int, Json.getD_of_isObj hobj]
  have hnull : Json.null.truthy = false := rfl
  simp [get?_withGate, plainBytes, signedBody, optional, hmcv, hnull]

theorem signatureGiven_sample (data : Bytes) :
    signatureGiven sample (.str (signBytes sample.toPlatform pinnedReleasePubkey data)) = true := by
  have htext : signBytes sample.toPlatform pinnedReleasePubkey data
      = String.ofList ('0' :: ('x' :: pinnedReleasePubkey.toList
        ++ '|' :: Platform.latin1 (domainBytes "bytes" data))) := by
    apply String.toList_injective
    simp [signBytes, sample, Platform.ideal, Platform.idealSign, String.toList_append]
  rw [signatureGiven, htext]
  exact bne_iff_ne.mpr (strip_ne_empty rfl)

theorem recover_sample (data : Bytes) :
    recoverBytes sample.toPlatform data
        (.str (signBytes sample.toPlatform pinnedReleasePubkey data))
      = some pinnedReleasePubkey := by
  have hkey : pinnedReleasePubkey ∈ Platform.idealKeys := by
    show '|' ∉ pinnedReleasePubkey.toList
    decide +kernel
  show Platform.idealRecover (domainBytes "bytes" data)
    (hexSig (.str (Platform.idealSign pinnedReleasePubkey (domainBytes "bytes" data)))) = _
  rw [Platform.idealRecover_idealSign hkey, if_pos rfl]

theorem wellFormed_release (hversion : (sample.parseVersion version).isOk = true)
    (hmcv : mcv = .null ∨ (sample.parseVersion (mcv.toStr sample.toPyText)).isOk = true) :
    wellFormed sample (release version ts mcv) = none := by
  have hcommit : commitRe "4b03c06" = true := by decide +kernel
  have hobj : ∀ sig, (withGate version ts mcv sig).isObj = true := fun _ => rfl
  have hnull : Json.null.notNone = false := rfl
  unfold wellFormed
  simp only [requiredFields, get, release, get?_withGate, hobj]
  simp [hcommit, hversion, signatureGiven_sample, hnull]
  rcases hmcv with rfl | hparse
  · exact fun h => absurd (h.symm.trans hnull) (by decide)
  · exact fun _ => hparse

/-- The release with a gate that is not signed is accepted. -/
theorem verifyManifest_release (hversion : (sample.parseVersion version).isOk = true)
    (hfalsy : mcv.truthy = false)
    (hmcv : mcv = .null ∨ (sample.parseVersion (mcv.toStr sample.toPyText)).isOk = true) :
    verifyManifest sample pinnedReleasePubkey (release version ts mcv)
      = .ok pinnedReleasePubkey := by
  have hrecover : recoverBytes sample.toPlatform (plainBytes version ts)
      (get (release version ts mcv) "signature") = some pinnedReleasePubkey := by
    have hsig : get (release version ts mcv) "signature"
        = .str (signBytes sample.toPlatform pinnedReleasePubkey (plainBytes version ts)) := by
      simp [get, release, get?_withGate]
    rw [hsig]
    exact recover_sample (plainBytes version ts)
  have hbytes : canonicalManifestBytes sample (release version ts mcv)
      = .ok (plainBytes version ts) := canonical_withGate hfalsy _
  simp only [verifyManifest, wellFormed_release hversion hmcv, hbytes, hrecover, if_true]

theorem targetVersion_release : targetVersion sample (release version ts mcv) = version := by
  simp [targetVersion, get, release, get?_withGate]

theorem commitOf_release : commitOf sample (release version ts mcv) = "4b03c06" := by
  simp [commitOf, get, release, get?_withGate]

theorem publishedTs_release : publishedTs sample (release version ts mcv) = ts :=
  publishedTs_of_toInt (by simp [get, release, get?_withGate])

end Sample

theorem parseVersion_sample : (sample.parseVersion "3.8.0").isOk = true := by decide +kernel

/-- Two readings of one release act alike. -/
theorem acts_alike_iff_plain :
    ActAlike sample (release "3.8.0" 1754611200 .null) (release "3.8.0" 1754611200 .null) ↔
      SameMinClient sample (release "3.8.0" 1754611200 .null)
          (release "3.8.0" 1754611200 .null) ∧
        SameFileOrder (release "3.8.0" 1754611200 .null) (release "3.8.0" 1754611200 .null) :=
  acts_alike_iff sample_faithful (verifyManifest_release parseVersion_sample rfl (.inl rfl))
    (verifyManifest_release parseVersion_sample rfl (.inl rfl)) rfl

/-- A `0` can be added to a signed manifest, and blocks a client that cannot read its version. -/
theorem unsigned_gate_acts : ¬ ∀ (m m' : Json) (a a' : String),
    verifyManifest sample pinnedReleasePubkey m = .ok a →
    verifyManifest sample pinnedReleasePubkey m' = .ok a' →
    canonicalManifestBytes sample m = canonicalManifestBytes sample m' →
    ActAlike sample m m' := by
  intro hclaim
  have hparse : (sample.parseVersion ((Json.int 0).toStr sample.toPyText)).isOk = true := by
    decide +kernel
  have hundeclared :
      (get (release "3.8.0" 1754611200 .null) "min_client_version").notNone = false := by
    simp [get, release, get?_withGate, Json.notNone]
  have hdeclared :
      (get (release "3.8.0" 1754611200 (.int 0)) "min_client_version").notNone = true := by
    simp [get, release, get?_withGate, Json.notNone]
  have halike := hclaim (release "3.8.0" 1754611200 .null) (release "3.8.0" 1754611200 (.int 0)) _ _
    (verifyManifest_release parseVersion_sample rfl (.inl rfl))
    (verifyManifest_release parseVersion_sample rfl (.inr hparse))
    ((canonical_withGate rfl _).trans (canonical_withGate rfl _).symm)
  have hgate := halike.gate none
  rw [publishBlockReason_undeclared hundeclared, publishBlockReason_unreadable
    (wellFormed_of_none (wellFormed_release parseVersion_sample (.inr hparse))) hdeclared] at hgate
  cases hgate

end Manifest

end NeuraHash
