import Mathlib.Data.List.DropRight
import NeuraHash.Systems.FirstAnswer
import NeuraHash.Updates.Config

/-!
# The configuration over several manifests (`apply_manifest_config`)

A configuration sets an allowlisted variable that is blank. The environment goes from one call to
the next, in one process or through a re-exec, and does not say who set a variable: what an earlier
manifest wrote is as explicit as what the operator wrote.

`network_defaults_iff` says when every call leaves each variable its configuration carries with the
value it carries: when no two configurations carry different values for it. No call ever writes a
variable outside the allowlist, or one the operator set.
-/

namespace NeuraHash

open Py

/-- An updater whose `str.strip` and `str.lower` are those of Python on the texts of a
configuration. -/
structure ConfigEnv extends UpdateEnv where
  strip_strip : ∀ s, strip (strip s) = strip s
  strip_bool : strip "0" = "0" ∧ strip "1" = "1"
  lower_ne_empty : ∀ s, s ≠ "" → lower s ≠ ""

namespace UpdateEnv

variable {U : UpdateEnv}

/-- The configuration carries a valid value for the variable, under the variable's key. -/
inductive Carries (U : UpdateEnv) : Json → String → String → Prop where
  | config {kvs : List (String × Json)} {key name val : String} {validator : Validator} {raw : Json}
      (hkey : (key, name, validator) ∈ U.configAllowlist)
      (hraw : (Json.dictOf kvs).get? key = some raw) (hval : validator raw = some val) :
      Carries U (.obj kvs) name val
  | protocol {kvs inner : List (String × Json)} {key name val : String} {validator : Validator}
      {raw : Json} (hkey : (key, name, validator) ∈ U.protocolAllowlist)
      (hinner : (Json.dictOf kvs).get? "protocol" = some (.obj inner))
      (hraw : (Json.dictOf inner).get? key = some raw) (hval : validator raw = some val) :
      Carries U (.obj kvs) name val

/-- The environment after a call for each configuration. -/
def applyAll (U : UpdateEnv) (env : Dict String String) (configs : List Json) :
    Dict String String :=
  configs.foldl (fun env config => (U.applyManifestConfig config env).env) env

/-- A variable that `_one` may write. -/
def blank (U : UpdateEnv) (env : Dict String String) (name : String) : Prop :=
  U.strip (env.getD name "") = ""

/-- **Network config stays a default**: after each call, the variables outside the allowlist and
those the operator set are as they were, and every other variable the configuration of the call
carries has the value it carries. -/
def StaysDefault (U : UpdateEnv) (env : Dict String String) (configs : List Json) : Prop :=
  ∀ pre config post, configs = pre ++ config :: post → ∀ name,
    (ownerOf name = none →
      (U.applyAll env (pre ++ [config])).get? name = env.get? name)
    ∧ (¬ U.blank env name → (U.applyAll env (pre ++ [config])).get? name = env.get? name)
    ∧ ∀ val, U.blank env name → Carries U config name val →
        (U.applyAll env (pre ++ [config])).get? name = some val

/-- No two configurations carry different values for a variable the operator left blank. -/
def OneValueEach (U : UpdateEnv) (env : Dict String String) (configs : List Json) : Prop :=
  ∀ name, U.blank env name → ∀ config ∈ configs, ∀ config' ∈ configs, ∀ val val',
    Carries U config name val → Carries U config' name val' → val = val'

/-! ## What a configuration carries -/

/-- The value a setting offers a variable. -/
def Setting.offered (name : String) : Setting → Option String
  | .refuse _ => none
  | .offer name' value _ => if name' = name then value else none

/-- The value a configuration carries for a variable. -/
def carried (U : UpdateEnv) (name : String) : Json → Option String
  | .obj kvs => (U.settings kvs).findSome? (Setting.offered name)
  | _ => none

theorem Setting.offered_eq_some {s : Setting} {name val : String} :
    s.offered name = some val ↔ ∃ label, s = .offer name (some val) label := by
  cases s with
  | refuse line => simp [Setting.offered]
  | offer name' value label =>
    by_cases hname : name' = name
    · simp [Setting.offered, hname]
    · simp [Setting.offered, hname]

theorem lookup_configAllowlist {key name : String} {v : Validator}
    (h : (key, name, v) ∈ U.configAllowlist) :
    Dict.lookup key U.configAllowlist = some (name, v) := by
  refine Dict.lookup_eq_some_of_mem ?_ h
  show ["merge_url", "content_url", "corpus_store", "corpus_sha"].Nodup
  decide

theorem lookup_protocolAllowlist {key name : String} {v : Validator}
    (h : (key, name, v) ∈ U.protocolAllowlist) :
    Dict.lookup key U.protocolAllowlist = some (name, v) := by
  refine Dict.lookup_eq_some_of_mem ?_ h
  show ["signed_put", "contrib_sig_version"].Nodup
  decide

theorem key_ne_protocol {key name : String} {v : Validator}
    (h : (key, name, v) ∈ U.configAllowlist) : key ≠ "protocol" := by
  have hmem : key ∈ U.configAllowlist.map Prod.fst := List.mem_map_of_mem h
  have hne : ∀ k ∈ ["merge_url", "content_url", "corpus_store", "corpus_sha"], k ≠ "protocol" := by
    decide
  exact hne key hmem

theorem settingOf_of_mem {table : List Allowed} {label key name val : String} {v : Validator}
    {raw : Json} (hkey : Dict.lookup key table = some (name, v)) (hval : v raw = some val) :
    settingOf table label key raw = .offer name (some val) label := by
  unfold settingOf
  rw [hkey, ← hval]

theorem mem_settings_of_carries {kvs : List (String × Json)} {name val : String}
    (h : Carries U (.obj kvs) name val) :
    ∃ label, Setting.offer name (some val) label ∈ U.settings kvs := by
  cases h with
  | @config _ key _ _ v raw hkey hraw hval =>
    refine ⟨key, List.mem_flatMap.mpr ⟨(key, raw), Dict.mem_entries_iff.mpr hraw, ?_⟩⟩
    unfold configSettings
    rw [if_neg (key_ne_protocol hkey), List.mem_singleton]
    exact (settingOf_of_mem (lookup_configAllowlist hkey) hval).symm
  | @protocol _ inner key _ _ v raw hkey hinner hraw hval =>
    refine ⟨"protocol." ++ key, List.mem_flatMap.mpr
      ⟨("protocol", .obj inner), Dict.mem_entries_iff.mpr hinner, ?_⟩⟩
    unfold configSettings
    rw [if_pos rfl]
    refine List.mem_map.mpr ⟨(key, raw), Dict.mem_entries_iff.mpr hraw, ?_⟩
    exact settingOf_of_mem (lookup_protocolAllowlist hkey) hval

theorem mem_of_settingOf {table : List Allowed} {label label' key name val : String} {raw : Json}
    (h : Setting.offer name (some val) label' = settingOf table label key raw) :
    ∃ v, (key, name, v) ∈ table ∧ v raw = some val := by
  unfold settingOf at h
  split at h
  · cases h
  · next name' v hkey =>
    simp only [Setting.offer.injEq] at h
    rw [h.1, h.2.1]
    exact ⟨v, Dict.mem_of_lookup hkey, rfl⟩

theorem carries_of_mem_settings {kvs : List (String × Json)} {name val label : String}
    (h : Setting.offer name (some val) label ∈ U.settings kvs) : Carries U (.obj kvs) name val := by
  rcases origin_of_mem h rfl with ⟨key, raw, -, hraw, heq⟩ | ⟨key, raw, inner, -, hinner, hraw, heq⟩
  · obtain ⟨v, hkey, hval⟩ := mem_of_settingOf heq
    exact .config hkey hraw hval
  · obtain ⟨v, hkey, hval⟩ := mem_of_settingOf heq
    exact .protocol hkey hinner hraw hval

theorem carried_eq_some {config : Json} {name val : String} :
    U.carried name config = some val ↔ Carries U config name val := by
  constructor
  · intro h
    cases config with
    | obj kvs =>
      obtain ⟨s, hs, hoffered⟩ := List.exists_of_findSome?_eq_some h
      obtain ⟨label, rfl⟩ := Setting.offered_eq_some.mp hoffered
      exact carries_of_mem_settings hs
    | _ => cases h
  · intro h
    obtain ⟨kvs, rfl⟩ : ∃ kvs, config = .obj kvs := by
      cases h with
      | config => exact ⟨_, rfl⟩
      | protocol => exact ⟨_, rfl⟩
    obtain ⟨label, hmem⟩ := mem_settings_of_carries h
    obtain ⟨w, hw, s, hs, hoffered⟩ := FirstAnswer.exists_first hmem
      (Setting.offered_eq_some.mpr ⟨label, rfl⟩ : Setting.offered name _ = some val)
    obtain ⟨label', rfl⟩ := Setting.offered_eq_some.mp hoffered
    -- one variable, one setting
    cases eq_of_name hs hmem rfl rfl
    exact hw

/-- Only allowlisted variables are carried. -/
theorem ownerOf_of_carries {config : Json} {name val : String} (h : Carries U config name val) :
    ownerOf name ≠ none := by
  cases h with
  | config hkey hraw hval => rw [ownerOf_config hkey]; simp
  | protocol hkey hinner hraw hval => rw [ownerOf_protocol hkey]; simp

/-! ## One call -/

/-- **One setting** changes a variable exactly where it offers a value and the variable is blank. -/
theorem one_get? (a : Applied) (s : Setting) (name : String) :
    (U.one a s).env.get? name = if U.strip (a.env.getD name "") = "" then
      (s.offered name).or (a.env.get? name) else a.env.get? name := by
  cases s with
  | refuse line => simp [one, Setting.offered]
  | offer name' value label =>
    cases value with
    | none => simp [one, Setting.offered]
    | some val =>
      simp only [one, Setting.offered]
      by_cases hname : name' = name
      · subst hname
        by_cases hblank : U.strip (a.env.getD name' "") = ""
        · simp [hblank]
        · simp [hblank]
      · rw [if_neg hname, Option.none_or, ite_self]
        split
        · rfl
        · exact Dict.get?_set_of_ne _ _ hname

instance (env : Dict String String) (name : String) : Decidable (U.blank env name) := by
  unfold blank
  infer_instance

end UpdateEnv

/-! ## Several calls -/

namespace ConfigEnv

open UpdateEnv

variable (U : ConfigEnv)

/-- A text that is shaped is not blank. -/
theorem strip_shaped {re : String → Bool} (hre : re "" = false) {finish : String → String}
    (hfinish : ∀ t, U.strip t = t → t ≠ "" → U.strip (finish t) ≠ "") {raw : Json} {val : String}
    (h : UpdateEnv.shaped U.toUpdateEnv re finish raw = some val) : U.strip val ≠ "" := by
  cases raw with
  | str s =>
    simp only [UpdateEnv.shaped] at h
    split at h
    · next hok =>
      cases h
      apply hfinish _ (U.strip_strip s)
      intro hempty
      rw [hempty, hre] at hok
      cases hok
    · cases h
  | _ => cases h

theorem strip_vUrl {raw : Json} {val : String} (h : U.vUrl raw = some val) : U.strip val ≠ "" :=
  U.strip_shaped (by decide +kernel) (fun t ht hne => ht.symm ▸ hne) h

theorem strip_vTag {raw : Json} {val : String} (h : U.vTag raw = some val) : U.strip val ≠ "" :=
  U.strip_shaped (by decide +kernel) (fun t ht hne => ht.symm ▸ hne) h

theorem strip_vHex {raw : Json} {val : String} (h : U.vHex raw = some val) : U.strip val ≠ "" := by
  refine U.strip_shaped (by decide +kernel) (fun t ht hne => ?_) h
  rw [← U.lower_strip, ht]
  exact U.lower_ne_empty t hne

theorem strip_vBool {raw : Json} {val : String} (h : vBool raw = some val) : U.strip val ≠ "" := by
  cases raw with
  | bool b =>
    cases h
    cases b with
    | true =>
      show U.strip "1" ≠ ""
      rw [U.strip_bool.2]
      decide
    | false =>
      show U.strip "0" ≠ ""
      rw [U.strip_bool.1]
      decide
  | _ => cases h

/-- A value a configuration carries is not blank. -/
theorem strip_of_carries {config : Json} {name val : String}
    (h : UpdateEnv.Carries U.toUpdateEnv config name val) : U.strip val ≠ "" := by
  cases h with
  | config hkey hraw hval =>
    simp only [configAllowlist, List.mem_cons, List.not_mem_nil, or_false, Prod.mk.injEq] at hkey
    rcases hkey with ⟨-, -, rfl⟩ | ⟨-, -, rfl⟩ | ⟨-, -, rfl⟩ | ⟨-, -, rfl⟩
    · exact U.strip_vUrl hval
    · exact U.strip_vUrl hval
    · exact U.strip_vUrl hval
    · exact U.strip_vHex hval
  | protocol hkey hinner hraw hval =>
    simp only [protocolAllowlist, List.mem_cons, List.not_mem_nil, or_false, Prod.mk.injEq] at hkey
    rcases hkey with ⟨-, -, rfl⟩ | ⟨-, -, rfl⟩
    · exact U.strip_vBool hval
    · exact U.strip_vTag hval

/-- **One call** gives a blank variable the value the configuration carries. -/
theorem applyManifestConfig_get? (config : Json) (env : Dict String String) (name : String) :
    (U.applyManifestConfig config env).env.get? name
      = if U.blank env name then (U.carried name config).or (env.get? name)
        else env.get? name := by
  cases config with
  | obj kvs =>
    have hone : ∀ (a : UpdateEnv.Applied) (s : Setting), (U.one a s).env.get? name
        = if U.strip ((a.env.get? name).getD "") = "" then
            (s.offered name).or (a.env.get? name) else a.env.get? name :=
      fun a s => one_get? a s name
    have hfilled : ∀ s ∈ U.settings kvs, ∀ val, s.offered name = some val →
        ¬ U.strip ((some val).getD "") = "" := by
      intro s hs val hval
      obtain ⟨label, rfl⟩ := Setting.offered_eq_some.mp hval
      exact U.strip_of_carries (carries_of_mem_settings hs)
    exact FirstAnswer.read_foldl (fun a : UpdateEnv.Applied => a.env.get? name) U.one
      (fun v => U.strip (v.getD "") = "") hone hfilled ⟨env, [], []⟩
  | _ => simp [UpdateEnv.applyManifestConfig, carried]

/-- **A run of calls** gives a blank variable the first value that was carried for it. -/
theorem applyAll_get? (env : Dict String String) (configs : List Json) (name : String) :
    (U.applyAll env configs).get? name
      = if U.blank env name then (configs.findSome? (U.carried name)).or (env.get? name)
        else env.get? name := by
  have hcall : ∀ (env : Dict String String) (config : Json),
      (U.applyManifestConfig config env).env.get? name
        = if U.strip ((env.get? name).getD "") = "" then
            (U.carried name config).or (env.get? name) else env.get? name :=
    fun env config => U.applyManifestConfig_get? config env name
  have hfilled : ∀ config ∈ configs, ∀ val, U.carried name config = some val →
      ¬ U.strip ((some val).getD "") = "" :=
    fun config _ val hval => U.strip_of_carries (carried_eq_some.mp hval)
  exact FirstAnswer.read_foldl (fun env => env.get? name) _ (fun v => U.strip (v.getD "") = "")
    hcall hfilled env

/-- **Network config over several manifests.** No call writes a variable outside the allowlist or one
the operator set. Every other variable holds, after each call, the value the configuration of the
call carries for it, if and only if no two configurations carry different values for it. -/
theorem network_defaults_iff (env : Dict String String) (configs : List Json) :
    (∀ name, ownerOf name = none ∨ ¬ U.blank env name →
        (U.applyAll env configs).get? name = env.get? name)
      ∧ (StaysDefault U.toUpdateEnv env configs ↔ OneValueEach U.toUpdateEnv env configs) := by
  have houtside : ∀ (configs : List Json) (name : String), ownerOf name = none →
      configs.findSome? (U.carried name) = none := by
    intro configs name hname
    rw [List.findSome?_eq_none_iff]
    intro config hconfig
    by_contra hsome
    obtain ⟨val, hval⟩ := Option.ne_none_iff_exists'.mp hsome
    exact ownerOf_of_carries (carried_eq_some.mp hval) hname
  have hkept : ∀ (configs : List Json) (name : String), ownerOf name = none ∨ ¬ U.blank env name →
      (U.applyAll env configs).get? name = env.get? name := by
    intro configs name h
    rw [U.applyAll_get?]
    split
    · next hblank =>
      have hname : ownerOf name = none := h.resolve_right (not_not_intro hblank)
      rw [houtside configs name hname, Option.none_or]
    · rfl
  -- a blank variable holds what is carried exactly when that is what was carried first
  have hholds : ∀ (configs : List Json) (name val : String), U.blank env name →
      (∃ config ∈ configs, U.carried name config = some val) →
      ((U.applyAll env configs).get? name = some val
        ↔ configs.findSome? (U.carried name) = some val) := by
    rintro configs name val hblank ⟨config, hconfig, hval⟩
    obtain ⟨w, hw, -⟩ := FirstAnswer.exists_first hconfig hval
    rw [U.applyAll_get?, if_pos hblank, hw, Option.some_or]
  have hlast : ∀ (pre : List Json) (config : Json) (name val : String),
      UpdateEnv.Carries U.toUpdateEnv config name val →
      ∃ d ∈ pre ++ [config], U.carried name d = some val :=
    fun pre config name val h =>
      ⟨config, List.mem_append_right _ (List.mem_singleton_self config), carried_eq_some.mpr h⟩
  refine ⟨fun name h => hkept configs name h, ?_, ?_⟩
  · intro hstays name hblank config hconfig config' hconfig' val val' hval hval'
    refine FirstAnswer.first_is_each_iff.mp (fun pre c post hl v hv => ?_) config hconfig config'
      hconfig' val val' (carried_eq_some.mpr hval) (carried_eq_some.mpr hval')
    have hcarries := carried_eq_some.mp hv
    exact (hholds _ name v hblank (hlast pre c name v hcarries)).mp
      ((hstays pre c post hl name).2.2 v hblank hcarries)
  · intro hone pre config post hl name
    refine ⟨fun hname => hkept _ name (.inl hname), fun hset => hkept _ name (.inr hset), ?_⟩
    intro val hblank hcarries
    refine (hholds _ name val hblank (hlast pre config name val hcarries)).mpr ?_
    refine FirstAnswer.first_is_each_iff.mpr (fun c hc d hd v w hv hw => ?_) pre config post hl val
      (carried_eq_some.mpr hcarries)
    exact hone name hblank c hc d hd v w (carried_eq_some.mp hv) (carried_eq_some.mp hw)

end ConfigEnv

/-! ## Two manifests -/

open UpdateEnv

/-- What is left of a text begins and ends with no blank. -/
theorem asciiStrip_asciiStrip (s : String) :
    Platform.asciiStrip (Platform.asciiStrip s) = Platform.asciiStrip s := by
  have hstrip : ∀ t : String, Platform.asciiStrip t
      = String.ofList ((t.toList.dropWhile isAsciiSpace).rdropWhile isAsciiSpace) := fun t => rfl
  have hfront : ∀ l : List Char,
      ((l.dropWhile isAsciiSpace).rdropWhile isAsciiSpace).dropWhile isAsciiSpace
        = (l.dropWhile isAsciiSpace).rdropWhile isAsciiSpace := by
    intro l
    have hpre := List.rdropWhile_prefix isAsciiSpace (l.dropWhile isAsciiSpace)
    refine List.dropWhile_eq_self_iff.mpr fun hpos => ?_
    have hfirst := List.dropWhile_eq_self_iff.mp (List.dropWhile_idempotent isAsciiSpace l)
      (lt_of_lt_of_le hpos hpre.length_le)
    rw [hpre.getElem hpos]
    exact hfirst
  rw [hstrip (Platform.asciiStrip s), hstrip s, String.toList_ofList, hfront,
    List.rdropWhile_idempotent]

/-- The executable updater. -/
def ConfigEnv.sample : ConfigEnv :=
  { UpdateEnv.sample with
    strip_strip := asciiStrip_asciiStrip
    strip_bool := by decide +kernel
    lower_ne_empty := by
      intro s hne hlower
      apply hne
      have hlist := congrArg String.toList hlower
      simpa [UpdateEnv.sample, Platform.ideal, Platform.asciiLower] using hlist }

/-- The second manifest moves the corpus store, and the variable keeps the first one's. -/
theorem network_default_sticks :
    ¬ StaysDefault ConfigEnv.sample.toUpdateEnv ∅
      [.obj [("corpus_store", .str "https://a.example")],
        .obj [("corpus_store", .str "https://b.example")]] := by
  intro hstays
  have hcarries : UpdateEnv.Carries ConfigEnv.sample.toUpdateEnv (.obj [("corpus_store", .str "https://b.example")])
      "NEURAHASH_CONTENT_STORE" "https://b.example" :=
    carried_eq_some.mp (by decide +kernel)
  have hblank : blank ConfigEnv.sample.toUpdateEnv ∅ "NEURAHASH_CONTENT_STORE" := by decide +kernel
  have hholds := (hstays [_] _ [] rfl "NEURAHASH_CONTENT_STORE").2.2 _ hblank hcarries
  have hfirst : (applyAll ConfigEnv.sample.toUpdateEnv ∅
      [.obj [("corpus_store", .str "https://a.example")],
        .obj [("corpus_store", .str "https://b.example")]]).get? "NEURAHASH_CONTENT_STORE"
      = some "https://a.example" := by decide +kernel
  exact absurd (Option.some.inj (hfirst.symm.trans hholds)) (by decide)

end NeuraHash
