import NeuraHash.Systems.FileTree
import NeuraHash.Updates.Config

/-!
# The clean-up of obsolete files (`reclaim_obsolete_files`)

A pass compares the files an earlier release shipped (`prev`, a local ledger nobody signed) with
those the current release ships (`cur`) and removes what is no longer there. Every key is a text
that may spell anything, so a candidate goes through a list of refusals before its file is removed.

The refusals look at two views of one path: `normaliseRelpath` and `neverTouchReason` read the
text of the key, the others ask the file tree where it leads. The last section proves what a pass
removes: an unmodified shipped file inside the root, never one the current release ships, exactly
when no candidate that passes every refusal leads to a path the never-touch rules name
(`reclaim_only_obsolete_iff`).
-/

namespace NeuraHash

open Py Systems

/-- What the clean-up computes with. -/
structure ReclaimEnv extends UpdateEnv where
  /-- `str.upper`. -/
  upper : String → String

namespace Reclaim

open UpdateEnv

/-! ## The knob -/

/-- `RECLAIM_MODE_OFF`, `RECLAIM_MODE_DRY`, `RECLAIM_MODE_DELETE`. -/
inductive ReclaimMode where
  | off
  | dry
  | delete
  deriving DecidableEq

def reclaimArmed : List String :=
  ["1", "true", "yes", "on", "delete", "apply", "reclaim", "enabled"]

def reclaimDisabled : List String := ["0", "false", "no", "off", "never", "disabled"]

/-- `reclaim_mode(environ, override)`; `knob` is what `NEURAHASH_UPDATE_RECLAIM` is set to. -/
def reclaimMode (U : ReclaimEnv) (knob : Option String) (override : Json) : ReclaimMode :=
  let raw := U.lower (U.strip (knob.getD ""))
  if override.truthy then
    let ov := U.lower (U.strip (override.toStr U.toPyText))
    -- no caller lifts the kill switch
    if raw ∈ reclaimDisabled then .off
    else if ov = "off" then .off
    else if ov = "delete" then .delete
    else .dry
  else if raw ∈ reclaimArmed then .delete
  else if raw ∈ reclaimDisabled then .off
  else .dry

/-! ## Reading a key -/

/-- `"/".join(parts)`. -/
def joinSlash (parts : List String) : String :=
  String.ofList (['/'].intercalate (parts.map String.toList))

/-- `_WIN_RESERVED_NAMES`. -/
def winReservedNames : List String :=
  ["CON", "PRN", "AUX", "NUL", "CONIN$", "CONOUT$"]
    ++ ["1", "2", "3", "4", "5", "6", "7", "8", "9"].flatMap fun i => ["COM" ++ i, "LPT" ++ i]

/-- `_DRIVE_RE`. -/
def driveRe : List Char → Bool
  | c :: ':' :: _ => c.isAlpha
  | _ => false

/-- Why a component of a key is refused. -/
def componentReason (U : ReclaimEnv) (p : String) : Option String :=
  if p.toList.rdropWhile (fun c => c = '.' ∨ c = ' ') ≠ p.toList then
    some ("component " ++ U.reprText p ++ " ends in a dot or space (Windows strips it, so it "
      ++ "aliases another file)")
  else if ':' ∈ p.toList then
    some ("component " ++ U.reprText p ++ " contains ':' (Windows alternate data stream)")
  else if p.toList.any (fun c => decide (c.toNat < 32)) then
    some ("component " ++ U.reprText p ++ " contains a control character")
  else if U.upper ((splitAt '.' p).headD "") ∈ winReservedNames then
    some ("component " ++ U.reprText p ++ " is a reserved Windows device name")
  else none

/-- Why the whole text of a key is refused. -/
def textReason (s : List Char) : Option String :=
  if Char.ofNat 0 ∈ s then some "NUL byte in path"
  else if ['/', '/'].isPrefixOf s then some "UNC path (starts with //)"
  else if ['/'].isPrefixOf s then some "absolute path (starts with /)"
  else if driveRe s then some "drive-qualified absolute path"
  else none

/-- The components of a key. -/
def partsOf (s : List Char) : List String :=
  (splitAt '/' (String.ofList s)).filter fun p => p ≠ "" ∧ p ≠ "."

/-- `_normalise_relpath`. -/
def normaliseRelpath (U : ReclaimEnv) (rel : String) : Except String String :=
  if U.strip rel = "" then .error "path is empty or not a string"
  else
    let s := (U.strip rel).toList.map fun c => if c = '\\' then '/' else c
    match textReason s with
    | some why => .error why
    | none =>
      if ".." ∈ partsOf s then .error "'..' traversal component"
      else if partsOf s = [] then .error "path normalises to nothing"
      else match (partsOf s).findSome? (componentReason U) with
        | some why => .error why
        | none => .ok (joinSlash (partsOf s))

/-! ## The never-touch rules -/

def neverTouchDirParts : List String :=
  [".git", ".hg", ".svn", ".venv", "venv", "env", "node_modules", "site-packages", "__pycache__",
    "wallet", "wallets", "keystore", "keystores", "key", "keys", "secret", "secrets",
    "state", "logs", "log", "checkpoint", "checkpoints", "ckpt", "ckpts", "runs", "artifacts",
    "corpus", "corpora", "corpus_cache", "cache", "data", "datasets", "_poollive"]

def neverTouchPartPrefixes : List String :=
  ["_state", "_poollive", ".neurahash", "_rl_", "_granite", "_rung", "_xarch", "_olmoe"]

def neverTouchNames : List String :=
  ["version", "requirements.txt", "release.json", ".env", ".gitignore", ".gitattributes",
    "miner_wallet.json", "wallet.json", "keystore.json", "identity.json"]

def neverTouchSuffixes : List String :=
  [".key", ".pem", ".p12", ".pfx", ".keystore", ".seed", ".mnemonic", ".log", ".pt", ".pth",
    ".bin", ".safetensors", ".ckpt", ".npy", ".npz", ".db", ".sqlite", ".sqlite3", ".pid", ".sock",
    ".lock"]

def neverTouchSubstrings : List String :=
  ["wallet", "keystore", "privkey", "private_key", "secret", "mnemonic", "passphrase",
    "credential", "seed_phrase", "token"]

/-- The rules about one component. -/
def partReason (U : ReclaimEnv) (p : String) : Option String :=
  if p ∈ neverTouchDirParts then some ("never-touch path component " ++ U.reprText p)
  else (neverTouchPartPrefixes.find? fun pre => pre.toList.isPrefixOf p.toList).map fun pre =>
    "never-touch component prefix " ++ U.reprText pre

/-- `_never_touch_reason`. -/
def neverTouchReason (U : ReclaimEnv) (normRel : String) : Option String :=
  let low := U.lower normRel
  let parts := splitAt '/' low
  match parts.findSome? (partReason U) with
  | some why => some why
  | none =>
    let name := parts.getLastD ""
    if name ∈ neverTouchNames then some ("never-touch filename " ++ U.reprText name)
    else match neverTouchSuffixes.find? fun suf => suf.toList.isSuffixOf name.toList with
      | some suf => some ("never-touch suffix " ++ U.reprText suf)
      | none => (neverTouchSubstrings.find? fun sub => decide (sub.toList <:+: low.toList)).map
        fun sub => "never-touch substring " ++ U.reprText sub

/-! ## Planning a pass -/

inductive Verdict where
  | delete
  | wouldDelete
  | refused
  | absent
  | error
  deriving DecidableEq

/-- `ReclaimAction`. -/
structure ReclaimAction where
  rel : String
  verdict : Verdict
  reason : String
  path : Option Path

/-- `ReclaimReport`. -/
structure ReclaimReport where
  mode : ReclaimMode
  actions : List ReclaimAction
  candidates : List String

/-- `report.deleted`. -/
def ReclaimReport.deleted (r : ReclaimReport) : List String :=
  (r.actions.filter fun a => a.verdict = .delete).map ReclaimAction.rel

/-- `os.path.join(root_real, *norm.split("/"))`. -/
def target (rootReal : Path) (norm : String) : Path := rootReal ++ splitAt '/' norm

/-- `cur_norm`: the paths the current release ships. -/
def curNorm (U : ReclaimEnv) (cur : Dict String String) : List String :=
  cur.keys.filterMap fun k => (normaliseRelpath U k).toOption

/-- `cur_ids`: the files these paths lead to. A candidate that is looked up here is a file, so
directories and devices are left out. -/
def curIds (U : ReclaimEnv) (t : FileTree Bytes) (rootReal : Path) (cur : Dict String String) :
    List ℕ :=
  (curNorm U cur).filterMap fun n => t.fileId (target rootReal n)

/-- The allowlist: shipped before, and not under a path shipped now. -/
def candidates (U : ReclaimEnv) (prev cur : Dict String String) : List String :=
  (prev.keys.insertionSort (· ≤ ·)).filter fun rel =>
    match normaliseRelpath U rel with
    | .ok norm => norm ∉ curNorm U cur
    | .error _ => true

/-- The most candidates a pass may have: a quarter of what was shipped, and always five. -/
def ceiling (prev : Dict String String) : ℕ := max 5 (prev.size / 4)

/-- `_sha256_file`. -/
def sha256File (U : ReclaimEnv) (t : FileTree Bytes) (p : Path) : Option String :=
  (t.read p).map U.sha256

/-- The digest the ledger recorded. -/
def wanted (U : ReclaimEnv) (prev : Dict String String) (rel : String) : String :=
  U.lower (U.strip (prev.getD rel ""))

/-- `_SHA256_RE`. -/
def sha256Re (s : String) : Bool := matchesRun hexChar 64 64 s.toList

/-- `s[:12]`. -/
def short (s : String) : String := String.ofList (s.toList.take 12)

/-- What becomes of a candidate whose text is safe. -/
def judgeTarget (U : ReclaimEnv) (t : FileTree Bytes) (rootReal : Path) (ids : List ℕ)
    (want rel : String) (path : Path) : ReclaimAction :=
  -- the real path first: a link may point out of the tree
  if ¬ rootReal <+: t.realpath path then
    ⟨rel, .refused, "resolves outside the install root (symlink or traversal)", none⟩
  else if t.islink path then ⟨rel, .refused, "is a symlink, not a regular file", some path⟩
  else if (t.stat path).isNone then ⟨rel, .absent, "already gone", some path⟩
  else match t.fileId path with
    | none => ⟨rel, .refused, "not a regular file (directory or device)", some path⟩
    | some ino =>
      if ino ∈ ids then
        ⟨rel, .refused, "resolves onto a file the CURRENT manifest still ships", some path⟩
      else if ¬ sha256Re want = true then
        ⟨rel, .refused, "old manifest recorded no usable sha256 for it", some path⟩
      else match sha256File U t path with
        | none => ⟨rel, .refused, "could not be hashed (unreadable)", some path⟩
        | some digest =>
          if U.lower digest ≠ want then
            ⟨rel, .refused, "content differs from the shipped file (on-disk " ++ short digest
              ++ " != shipped " ++ short want ++ ") -- user-modified", some path⟩
          else ⟨rel, .wouldDelete,
            "shipped by an older release, dropped by the current one, unmodified", some path⟩

/-- What becomes of a candidate. -/
def judge (U : ReclaimEnv) (t : FileTree Bytes) (rootReal : Path) (ids : List ℕ)
    (prev : Dict String String) (rel : String) : ReclaimAction :=
  match normaliseRelpath U rel with
  | .error why => ⟨rel, .refused, "unsafe path: " ++ why, none⟩
  | .ok norm => match neverTouchReason U norm with
    | some why => ⟨rel, .refused, why, none⟩
    | none => judgeTarget U t rootReal ids (wanted U prev rel) rel (target rootReal norm)

/-- The refusal of a whole pass. -/
def massRefusal (prev : Dict String String) (n : ℕ) : String :=
  "REFUSING THE WHOLE PASS: " ++ n.repr ++ " of " ++ prev.size.repr ++ " previously shipped "
    ++ "paths would be removed (> " ++ (ceiling prev).repr ++ "); that is a partial/garbage "
    ++ "`files` map, not a cleanup"

/-- `os.path.realpath(os.path.abspath(install_root))`. -/
def realRoot (t : FileTree Bytes) (root : Path) : Path := t.realpath (normpath root)

/-- `plan_reclaim`: the candidates, and what becomes of each. -/
def planReclaim (U : ReclaimEnv) (t : FileTree Bytes) (root : Path) (prev cur : Dict String String) :
    List String × List ReclaimAction :=
  let cands := candidates U prev cur
  if ceiling prev < cands.length then
    (cands, cands.map fun rel => ⟨rel, .refused, massRefusal prev cands.length, none⟩)
  else
    (cands, cands.map (judge U t (realRoot t root) (curIds U t (realRoot t root) cur) prev))

/-! ## Removing -/

/-- One planned removal: the file is hashed again right before it goes. -/
def removeOne (U : ReclaimEnv) (prev : Dict String String) (t : FileTree Bytes) (a : ReclaimAction) :
    FileTree Bytes × ReclaimAction :=
  match a.verdict, a.path with
  | .wouldDelete, some p =>
    if (sha256File U t p).map U.lower = some (wanted U prev a.rel) then
      match t.remove p with
      | some t' =>
        (t', { a with verdict := .delete, reason := "removed (obsolete, unmodified, inside the root)" })
      | none => (t, { a with verdict := .error, reason := "removal failed" })
    else (t, { a with
      verdict := .refused
      reason := "content changed between the check and the removal -- kept (re-verified "
        ++ "immediately before unlink)" })
  | _, _ => (t, a)

/-- The removals in turn. -/
def sweep (U : ReclaimEnv) (prev : Dict String String) :
    FileTree Bytes → List ReclaimAction → FileTree Bytes × List ReclaimAction
  | t, [] => (t, [])
  | t, a :: rest =>
    let first := removeOne U prev t a
    let others := sweep U prev first.1 rest
    (others.1, first.2 :: others.2)

/-- `reclaim_obsolete_files`: the tree after the pass, and its report. -/
def reclaimObsoleteFiles (U : ReclaimEnv) (t : FileTree Bytes) (root : Path)
    (prev cur : Dict String String) (override : Json) (knob : Option String) :
    FileTree Bytes × ReclaimReport :=
  let mode := reclaimMode U knob override
  if mode = .off then (t, ⟨mode, [], []⟩)
  -- an absent list means undeclared, never that nothing is shipped
  else if cur.keys = [] then (t, ⟨mode, [], []⟩)
  else
    let plan := planReclaim U t root prev cur
    if mode = .delete then
      let done := sweep U prev t plan.2
      (done.1, ⟨mode, done.2, plan.1⟩)
    else (t, ⟨mode, plan.2, plan.1⟩)

/-- `_reclaim_after_update`: the tree, the report, and the ledger of shipped files that is stored
when it differs from `prev`. -/
def reclaimAfterUpdate (U : ReclaimEnv) (t : FileTree Bytes) (root : Path) (prev : Dict String String)
    (manifest : Json) (override : Json) (knob : Option String) :
    FileTree Bytes × ReclaimReport × Dict String String :=
  let cur := Manifest.manifestFiles U.toUpdateEnv manifest
  let pass := reclaimObsoleteFiles U t root prev cur override knob
  let ledger := cur.entries.foldl (fun d e => d.set e.1 e.2) prev
  (pass.1, pass.2, pass.2.deleted.foldl Dict.erase ledger)

/-! ## What a safe key spells -/

variable {U : ReclaimEnv} {t : FileTree Bytes} {root : Path} {prev cur : Dict String String}

/-- A component of a split text does not hold the separator. -/
theorem not_mem_splitOn {sep : Char} (s : List Char) : ∀ l ∈ s.splitOn sep, sep ∉ l := by
  induction s with
  | nil => simp
  | cons c s ih =>
    rw [List.splitOn_cons_eq_if_modifyHead]
    split_ifs with hc
    · exact List.forall_mem_cons.mpr ⟨List.not_mem_nil, ih⟩
    · -- the character joins the first component
      cases hs : s.splitOn sep with
      | nil => exact absurd hs (List.splitOn_ne_nil sep s)
      | cons l ls =>
        rw [hs] at ih
        obtain ⟨hl, hls⟩ := List.forall_mem_cons.mp ih
        refine List.forall_mem_cons.mpr ⟨fun hmem => ?_, hls⟩
        rcases List.mem_cons.mp hmem with heq | hmem
        · exact hc (by rw [heq, beq_self_eq_true])
        · exact hl hmem

/-- The components a safe key normalises to are read back from its text. -/
theorem splitAt_joinSlash {parts : List String} (hne : parts ≠ [])
    (hsep : ∀ p ∈ parts, '/' ∉ p.toList) : splitAt '/' (joinSlash parts) = parts := by
  have hlists : ∀ l ∈ parts.map String.toList, '/' ∉ l := by
    intro l hl
    obtain ⟨p, hp, rfl⟩ := List.mem_map.mp hl
    exact hsep p hp
  unfold splitAt joinSlash
  rw [String.toList_ofList, List.splitOn_intercalate '/' hlists (by simpa using hne), List.map_map]
  simp

theorem mem_partsOf {l : List Char} {p : String} (hp : p ∈ partsOf l) :
    p ≠ "" ∧ p ≠ "." ∧ '/' ∉ p.toList := by
  obtain ⟨hsplit, hkept⟩ := List.mem_filter.mp hp
  rw [decide_eq_true_iff] at hkept
  obtain ⟨c, hc, rfl⟩ := List.mem_map.mp hsplit
  refine ⟨hkept.1, hkept.2, ?_⟩
  rw [String.toList_ofList]
  exact not_mem_splitOn _ c hc

/-- A safe key spells a path of names. -/
theorem normaliseRelpath_ok {k n : String} (h : normaliseRelpath U k = .ok n) :
    splitAt '/' n ≠ [] ∧ Proper (splitAt '/' n) := by
  unfold normaliseRelpath at h
  split at h
  · cases h
  dsimp only at h
  split at h
  · cases h
  split at h
  · cases h
  next hup =>
  split at h
  · cases h
  next hne =>
  split at h
  · cases h
  rw [← Except.ok.inj h, splitAt_joinSlash hne fun p hp => (mem_partsOf hp).2.2]
  refine ⟨hne, fun p hp => ⟨(mem_partsOf hp).1, (mem_partsOf hp).2.1, ?_⟩⟩
  rintro rfl
  exact hup hp

/-! ## A candidate that passes -/

section Pass

variable {rootReal : Path} {ids : List ℕ} {gone : List Path} {t₁ : FileTree Bytes}
  {k n want : String} {p path : Path} {ino : ℕ} {a : ReclaimAction} {override : Json}
  {knob : Option String}

theorem mem_candidates :
    k ∈ candidates U prev cur ↔
      k ∈ prev.keys ∧ ∀ n, normaliseRelpath U k = .ok n → n ∉ curNorm U cur := by
  unfold candidates
  rw [List.mem_filter, List.mem_insertionSort]
  refine and_congr_right fun _ => ?_
  cases hk : normaliseRelpath U k with
  | error why => exact iff_of_true rfl nofun
  | ok norm =>
    dsimp only
    rw [decide_eq_true_iff]
    constructor
    · intro h n hn
      cases hn
      exact h
    · intro h
      exact h norm rfl

/-- A candidate that passes every refusal; the file it names is the one at `p`. -/
structure Passes (U : ReclaimEnv) (t : FileTree Bytes) (rootReal : Path)
    (prev cur : Dict String String) (k n : String) (p : Path) (ino : ℕ) : Prop where
  listed : k ∈ prev.keys
  safe : normaliseRelpath U k = .ok n
  dropped : n ∉ curNorm U cur
  touchable : neverTouchReason U n = none
  leads : t.stat (target rootReal n) = some p
  noLink : t.islink (target rootReal n) = false
  file : t.at? p = some (.file ino)
  inside : rootReal <+: p
  notCurrent : ino ∉ curIds U t rootReal cur
  usable : sha256Re (wanted U prev k) = true
  readable : t.readable ino = true
  unmodified : U.lower (U.sha256 (t.content ino)) = wanted U prev k

theorem sha256File_eq {digest : String} :
    sha256File U t path = some digest ↔
      ∃ ino, t.fileId path = some ino ∧ t.readable ino = true ∧ U.sha256 (t.content ino) = digest := by
  unfold sha256File
  rw [Option.map_eq_some_iff]
  constructor
  · rintro ⟨b, hb, rfl⟩
    obtain ⟨ino, hino, hr, rfl⟩ := FileTree.read_eq_some.mp hb
    exact ⟨ino, hino, hr, rfl⟩
  · rintro ⟨ino, hino, hr, rfl⟩
    exact ⟨t.content ino, FileTree.read_eq_some.mpr ⟨ino, hino, hr, rfl⟩, rfl⟩

theorem judgeTarget_rel : (judgeTarget U t rootReal ids want k path).rel = k := by
  unfold judgeTarget
  repeat' split
  all_goals rfl

/-- A removal is planned for a file inside the root that none of the refusals meets. -/
theorem judgeTarget_wouldDelete :
    (judgeTarget U t rootReal ids want k path).verdict = .wouldDelete ↔
      rootReal <+: t.realpath path ∧ t.islink path = false ∧ ∃ ino, t.fileId path = some ino ∧
        ino ∉ ids ∧ sha256Re want = true ∧ t.readable ino = true ∧
          U.lower (U.sha256 (t.content ino)) = want := by
  unfold judgeTarget
  by_cases hin : rootReal <+: t.realpath path
  swap
  · simp [hin]
  by_cases hlink : t.islink path = true
  · simp [hin, hlink]
  rw [if_neg (not_not.mpr hin), if_neg hlink]
  cases hid : t.fileId path with
  | none =>
    dsimp only
    split <;> simp
  | some ino =>
    obtain ⟨q, hq, -⟩ := FileTree.fileId_eq_some.mp hid
    rw [hq, if_neg (by simp)]
    dsimp only
    by_cases hids : ino ∈ ids
    · simp [hids]
    by_cases hre : sha256Re want = true
    swap
    · simp [hids, hre]
    rw [if_neg hids, if_neg (not_not.mpr hre)]
    cases hread : sha256File U t path with
    | none =>
      have hunreadable : t.readable ino ≠ true := by
        intro hr
        rw [sha256File_eq.mpr ⟨ino, hid, hr, rfl⟩] at hread
        cases hread
      simp [hunreadable]
    | some digest =>
      obtain ⟨ino', hid', hr, rfl⟩ := sha256File_eq.mp hread
      rw [hid] at hid'
      cases hid'
      dsimp only
      by_cases hdigest : U.lower (U.sha256 (t.content ino)) = want
      · simp [hin, hlink, hids, hre, hr, hdigest]
      · simp [hdigest]

theorem judgeTarget_path (h : (judgeTarget U t rootReal ids want k path).verdict = .wouldDelete) :
    (judgeTarget U t rootReal ids want k path).path = some path := by
  unfold judgeTarget at h ⊢
  repeat' split at h
  -- every other verdict is a refusal
  all_goals cases h
  simp_all

/-- What is planned for a candidate. -/
theorem judge_wouldDelete (hk : k ∈ candidates U prev cur)
    (h : (judge U t rootReal (curIds U t rootReal cur) prev k).verdict = .wouldDelete) :
    ∃ n p ino, Passes U t rootReal prev cur k n p ino ∧
      (judge U t rootReal (curIds U t rootReal cur) prev k).path = some (target rootReal n) := by
  obtain ⟨hlisted, hdropped⟩ := mem_candidates.mp hk
  unfold judge at h ⊢
  cases hn : normaliseRelpath U k with
  | error why =>
    rw [hn] at h
    cases h
  | ok n =>
    rw [hn] at h
    dsimp only at h ⊢
    cases hr : neverTouchReason U n with
    | some why =>
      rw [hr] at h
      cases h
    | none =>
      rw [hr] at h
      dsimp only at h ⊢
      obtain ⟨hin, hlink, ino, hid, hids, hre, hread, hdigest⟩ := judgeTarget_wouldDelete.mp h
      obtain ⟨p, hp, hfile⟩ := FileTree.fileId_eq_some.mp hid
      rw [FileTree.realpath_of_stat hp] at hin
      exact ⟨n, p, ino, ⟨hlisted, hn, hdropped n hn, hr, hp, hlink, hfile, hin, hids, hre, hread,
        hdigest⟩, judgeTarget_path h⟩

/-- A candidate that passes is planned for. -/
theorem Passes.judge (h : Passes U t rootReal prev cur k n p ino) :
    (judge U t rootReal (curIds U t rootReal cur) prev k).verdict = .wouldDelete := by
  unfold Reclaim.judge
  rw [h.safe]
  dsimp only
  rw [h.touchable]
  refine judgeTarget_wouldDelete.mpr ⟨?_, h.noLink, ino,
    FileTree.fileId_eq_some.mpr ⟨p, h.leads, h.file⟩, h.notCurrent, h.usable, h.readable,
    h.unmodified⟩
  rw [FileTree.realpath_of_stat h.leads]
  exact h.inside

theorem judge_rel : (Reclaim.judge U t rootReal ids prev k).rel = k := by
  unfold Reclaim.judge
  split
  · rfl
  split
  · rfl
  · exact judgeTarget_rel

theorem Passes.mem_candidates (h : Passes U t rootReal prev cur k n p ino) :
    k ∈ candidates U prev cur := by
  refine Reclaim.mem_candidates.mpr ⟨h.listed, fun n' hn' => ?_⟩
  rw [h.safe] at hn'
  exact Except.ok.inj hn' ▸ h.dropped

/-- `unlink` of the path takes the file's own name away: the path is no link. -/
theorem Passes.locate (h : Passes U t rootReal prev cur k n p ino) :
    t.locate (target rootReal n) = some p := by
  obtain ⟨hne, hproper⟩ := normaliseRelpath_ok h.safe
  have hlast : target rootReal n = rootReal ++ (splitAt '/' n).dropLast
      ++ [(splitAt '/' n).getLast hne] := by
    rw [List.append_assoc, List.dropLast_append_getLast hne]
    rfl
  have hleads := h.leads
  have hnoLink := h.noLink
  rw [hlast] at hleads hnoLink ⊢
  obtain ⟨l, hl, hself⟩ := FileTree.locate_of_stat (hproper _ (List.getLast_mem hne)) hleads
  unfold FileTree.islink at hnoLink
  rw [hl] at hnoLink ⊢
  rw [(hself (Bool.eq_false_iff.mp hnoLink)).1]

/-! ## The removals -/

/-- A planned removal, and the file it is about. -/
structure Planned (U : ReclaimEnv) (t : FileTree Bytes) (rootReal : Path)
    (prev cur : Dict String String) (a : ReclaimAction) (n : String) (p : Path) (ino : ℕ) : Prop
    extends Passes U t rootReal prev cur a.rel n p ino where
  verdict : a.verdict = .wouldDelete
  path : a.path = some (target rootReal n)

theorem removeOne_kept (ha : a.verdict ≠ .wouldDelete) : removeOne U prev t a = (t, a) := by
  unfold removeOne
  split
  · next h _ => exact absurd h ha
  · rfl

theorem sweep_kept {actions : List ReclaimAction} (h : ∀ a ∈ actions, a.verdict ≠ .wouldDelete) :
    (sweep U prev t actions).1 = t := by
  induction actions with
  | nil => rfl
  | cons a rest ih =>
    obtain ⟨ha, hrest⟩ := List.forall_mem_cons.mp h
    unfold sweep
    rw [removeOne_kept ha]
    exact ih hrest

/-- A planned removal takes the file's name away, unless it is gone already or locked. -/
theorem removeOne_planned (h : t.Erased t₁ gone) (ha : Planned U t rootReal prev cur a n p ino) :
    ∃ new, t.Erased (removeOne U prev t₁ a).1 (gone ++ new) ∧ new.length ≤ 1 ∧
      (∀ q ∈ new, q = p ∧ t.locked p = false) ∧ (t.locked p = false → p ∈ gone ++ new) := by
  have hsame : t.Erased t₁ (gone ++ []) := by
    rw [List.append_nil]
    exact h
  have hstep : removeOne U prev t₁ a =
      if (sha256File U t₁ (target rootReal n)).map U.lower = some (wanted U prev a.rel) then
        match t₁.remove (target rootReal n) with
        | some t' => (t', { a with
            verdict := .delete
            reason := "removed (obsolete, unmodified, inside the root)" })
        | none => (t₁, { a with verdict := .error, reason := "removal failed" })
      else (t₁, { a with
        verdict := .refused
        reason := "content changed between the check and the removal -- kept (re-verified "
          ++ "immediately before unlink)" }) := by
    unfold removeOne
    rw [ha.verdict, ha.path]
  rw [hstep]
  by_cases hgone : p ∈ gone
  · -- another key named the same file
    have hunread : sha256File U t₁ (target rootReal n) = none := by
      by_contra hne
      obtain ⟨digest, hdigest⟩ := Option.ne_none_iff_exists'.mp hne
      obtain ⟨ino', hid, -⟩ := sha256File_eq.mp hdigest
      obtain ⟨q, hq, hkept, -⟩ := h.fileId_eq_some.mp hid
      rw [ha.leads] at hq
      exact hkept (Option.some.inj hq ▸ hgone)
    rw [hunread, if_neg (by simp)]
    exact ⟨[], hsame, Nat.zero_le _, nofun, fun _ => List.mem_append_left _ hgone⟩
  · have hid : t₁.fileId (target rootReal n) = some ino :=
      h.fileId_eq_some.mpr ⟨p, ha.leads, hgone, ha.file⟩
    have hread : sha256File U t₁ (target rootReal n) = some (U.sha256 (t.content ino)) := by
      refine sha256File_eq.mpr ⟨ino, hid, ?_, ?_⟩
      · rw [h.readable, ha.readable]
      · rw [h.content]
    have hat : t₁.at? p = some (.file ino) := by rw [h.at?, if_neg hgone, ha.file]
    have hloc : t₁.locate (target rootReal n) = some p := by rw [h.locate, ha.locate]
    rw [hread, if_pos (by rw [Option.map_some, ha.unmodified])]
    cases hrem : t₁.remove (target rootReal n) with
    | none =>
      refine ⟨[], hsame, Nat.zero_le _, nofun, fun hfree => ?_⟩
      have hdone : t₁.remove (target rootReal n) = some (t₁.erase p (by rw [hat]; nofun)) :=
        FileTree.remove_eq_some.mpr ⟨p, by rw [hat]; nofun, hloc, by rw [hat]; rfl,
          by rw [h.locked]; exact hfree, rfl⟩
      rw [hrem] at hdone
      cases hdone
    | some t' =>
      obtain ⟨l, hl, hloc', -, hfree, rfl⟩ := FileTree.remove_eq_some.mp hrem
      rw [hloc] at hloc'
      cases hloc'
      rw [h.locked] at hfree
      refine ⟨[p], h.erase hl (by rw [hat]; nofun), le_refl 1, fun q hq => ?_, fun _ => ?_⟩
      · exact ⟨List.mem_singleton.mp hq, hfree⟩
      · exact List.mem_append_right _ (List.mem_singleton_self p)

/-- **What a run of removals takes away**: the unlocked files of the planned ones. -/
theorem sweep_erases {actions : List ReclaimAction} (h : t.Erased t₁ gone)
    (hplan : ∀ a ∈ actions, a.verdict = .wouldDelete →
      ∃ n p ino, Planned U t rootReal prev cur a n p ino) :
    ∃ new, t.Erased (sweep U prev t₁ actions).1 (gone ++ new) ∧ new.length ≤ actions.length ∧
      (∀ q ∈ new, t.locked q = false ∧ ∃ a ∈ actions, ∃ n ino, Planned U t rootReal prev cur a n q ino) ∧
      (∀ a ∈ actions, ∀ n p ino, Planned U t rootReal prev cur a n p ino → t.locked p = false →
        p ∈ gone ++ new) := by
  induction actions generalizing t₁ gone with
  | nil =>
    refine ⟨[], ?_, le_refl _, nofun, nofun⟩
    rw [List.append_nil]
    exact h
  | cons a rest ih =>
    obtain ⟨hhead, hrest⟩ := List.forall_mem_cons.mp hplan
    have hfirst : ∃ new, t.Erased (removeOne U prev t₁ a).1 (gone ++ new) ∧ new.length ≤ 1 ∧
        (∀ q ∈ new, t.locked q = false ∧ ∃ n ino, Planned U t rootReal prev cur a n q ino) ∧
        (∀ n p ino, Planned U t rootReal prev cur a n p ino → t.locked p = false →
          p ∈ gone ++ new) := by
      by_cases ha : a.verdict = .wouldDelete
      · obtain ⟨n, p, ino, hp⟩ := hhead ha
        obtain ⟨new, herased, hlen, hnew, hgone⟩ := removeOne_planned h hp
        refine ⟨new, herased, hlen, fun q hq => ?_, fun n' p' ino' hp' hfree => ?_⟩
        · obtain ⟨rfl, hfree⟩ := hnew q hq
          exact ⟨hfree, n, ino, hp⟩
        · -- one action is about one file
          have hn : n' = n := Except.ok.inj (hp'.safe.symm.trans hp.safe)
          have hpp : p' = p := by
            rw [hn] at hp'
            exact Option.some.inj (hp'.leads.symm.trans hp.leads)
          rw [hpp] at hfree ⊢
          exact hgone hfree
      · rw [removeOne_kept ha]
        refine ⟨[], ?_, Nat.zero_le 1, nofun, fun n p ino hp _ => absurd hp.verdict ha⟩
        rw [List.append_nil]
        exact h
    obtain ⟨new, herased, hlen, hnew, hgone⟩ := hfirst
    obtain ⟨new', herased', hlen', hnew', hgone'⟩ := ih herased hrest
    refine ⟨new ++ new', ?_, ?_, fun q hq => ?_, fun b hb n p ino hp hfree => ?_⟩
    · rw [← List.append_assoc]
      exact herased'
    · rw [List.length_append, List.length_cons]
      omega
    · rcases List.mem_append.mp hq with hq | hq
      · obtain ⟨hfree, hp⟩ := hnew q hq
        exact ⟨hfree, a, List.mem_cons_self, hp⟩
      · obtain ⟨hfree, b, hb, hp⟩ := hnew' q hq
        exact ⟨hfree, b, List.mem_cons_of_mem a hb, hp⟩
    · rw [← List.append_assoc]
      rcases List.mem_cons.mp hb with rfl | hb
      · exact List.mem_append_left _ (hgone n p ino hp hfree)
      · exact hgone' b hb n p ino hp hfree

/-! ## A pass -/

/-- The pass removes at all. -/
def Deletes (U : ReclaimEnv) (prev cur : Dict String String) (override : Json)
    (knob : Option String) : Prop :=
  reclaimMode U knob override = .delete ∧ cur.keys ≠ [] ∧
    (candidates U prev cur).length ≤ ceiling prev

/-- A removal that is planned is about a candidate that passes. -/
theorem planned_of_judged (U : ReclaimEnv) (t : FileTree Bytes) (root : Path)
    (prev cur : Dict String String) :
    ∀ a ∈ (candidates U prev cur).map
        (judge U t (realRoot t root) (curIds U t (realRoot t root) cur) prev),
      a.verdict = .wouldDelete → ∃ n p ino, Planned U t (realRoot t root) prev cur a n p ino := by
  intro a ha hverdict
  obtain ⟨k, hk, rfl⟩ := List.mem_map.mp ha
  obtain ⟨n, p, ino, hpasses, hpath⟩ := judge_wouldDelete hk hverdict
  refine ⟨n, p, ino, ?_, hverdict, hpath⟩
  rw [judge_rel]
  exact hpasses

/-- **The tree after a pass**: without the unlocked files of the candidates that pass. -/
theorem reclaim_erases (U : ReclaimEnv) (t : FileTree Bytes) (root : Path)
    (prev cur : Dict String String) (override : Json) (knob : Option String) :
    ∃ gone, t.Erased (reclaimObsoleteFiles U t root prev cur override knob).1 gone ∧
      gone.length ≤ ceiling prev ∧
      ∀ p, p ∈ gone ↔ Deletes U prev cur override knob ∧ t.locked p = false ∧
        ∃ k n ino, Passes U t (realRoot t root) prev cur k n p ino := by
  unfold reclaimObsoleteFiles
  dsimp only
  -- without a removal the tree stays
  have hkeep : ¬ Deletes U prev cur override knob →
      ∃ gone, t.Erased t gone ∧ gone.length ≤ ceiling prev ∧
        ∀ p, p ∈ gone ↔ Deletes U prev cur override knob ∧ t.locked p = false ∧
          ∃ k n ino, Passes U t (realRoot t root) prev cur k n p ino :=
    fun hno => ⟨[], .refl t, Nat.zero_le _, fun p => iff_of_false List.not_mem_nil fun h => hno h.1⟩
  by_cases hoff : reclaimMode U knob override = .off
  · rw [if_pos hoff]
    refine hkeep fun h => ?_
    rw [h.1] at hoff
    cases hoff
  by_cases hcur : cur.keys = []
  · rw [if_neg hoff, if_pos hcur]
    exact hkeep fun h => h.2.1 hcur
  by_cases hdelete : reclaimMode U knob override = .delete
  swap
  · rw [if_neg hoff, if_neg hcur, if_neg hdelete]
    exact hkeep fun h => hdelete h.1
  rw [if_neg hoff, if_neg hcur, if_pos hdelete]
  unfold planReclaim
  dsimp only
  by_cases hmany : ceiling prev < (candidates U prev cur).length
  · rw [if_pos hmany, sweep_kept]
    · exact hkeep fun h => absurd h.2.2 (Nat.not_le.mpr hmany)
    · intro a ha
      obtain ⟨rel, -, rfl⟩ := List.mem_map.mp ha
      nofun
  · rw [if_neg hmany]
    dsimp only
    obtain ⟨new, herased, hlen, hnew, hgone⟩ := sweep_erases (.refl t) (planned_of_judged U t root prev cur)
    rw [List.length_map] at hlen
    refine ⟨new, herased, le_trans hlen (Nat.not_lt.mp hmany), fun p => ?_⟩
    constructor
    · intro hp
      obtain ⟨hfree, a, -, n, ino, hpasses⟩ := hnew p hp
      exact ⟨⟨hdelete, hcur, Nat.not_lt.mp hmany⟩, hfree, a.rel, n, ino, hpasses.toPasses⟩
    · rintro ⟨-, hfree, k, n, ino, hpasses⟩
      have hjudged : ∃ a ∈ (candidates U prev cur).map
          (judge U t (realRoot t root) (curIds U t (realRoot t root) cur) prev),
          Planned U t (realRoot t root) prev cur a n p ino := by
        refine ⟨_, List.mem_map_of_mem hpasses.mem_candidates, ?_⟩
        obtain ⟨n', p', ino', hpasses', hpath⟩ :=
          judge_wouldDelete hpasses.mem_candidates hpasses.judge
        have hn : n' = n := Except.ok.inj (hpasses'.safe.symm.trans hpasses.safe)
        refine ⟨?_, hpasses.judge, hn ▸ hpath⟩
        rw [judge_rel]
        exact hpasses
      obtain ⟨a, ha, hplanned⟩ := hjudged
      exact hgone a ha n p ino hplanned hfree

/-! ## Only obsolete files -/

/-- Where a key of a file map leads: the path it normalises to, or what `os.path.join` makes of a
text that does not. -/
def keyPath (U : ReclaimEnv) (rootReal : Path) (k : String) : Path :=
  match normaliseRelpath U k with
  | .ok n => target rootReal n
  | .error _ => if ['/'].isPrefixOf k.toList then splitAt '/' k else rootReal ++ splitAt '/' k

/-- The never-touch rules about the path inside the root. -/
def touchReason (U : ReclaimEnv) (rootReal p : Path) : Option String :=
  neverTouchReason U (joinSlash (p.drop rootReal.length))

/-- An unmodified file that an earlier release shipped and the current one does not. -/
structure Obsolete (U : ReclaimEnv) (t : FileTree Bytes) (rootReal : Path)
    (prev cur : Dict String String) (p : Path) (ino : ℕ) : Prop where
  file : t.at? p = some (.file ino)
  inside : rootReal <+: p
  shipped : ∃ k v n, prev.get? k = some v ∧ normaliseRelpath U k = .ok n ∧
    t.realpath (target rootReal n) = p ∧ U.lower (U.sha256 (t.content ino)) = U.lower (U.strip v) ∧
    n ∉ curNorm U cur
  notCurrent : ∀ k ∈ cur.keys, keyPath U rootReal k ≠ p ∧ t.fileId (keyPath U rootReal k) ≠ some ino
  touchable : touchReason U rootReal p = none

/-- What a pass may do to the tree: take away a few names of obsolete files, when it is told to
delete, and nothing else. -/
def OnlyObsolete (U : ReclaimEnv) (t t' : FileTree Bytes) (rootReal : Path)
    (prev cur : Dict String String) (mode : ReclaimMode) : Prop :=
  ∃ gone : List Path, gone.length ≤ max 5 (prev.size / 4) ∧ (mode ≠ .delete → gone = []) ∧
    (∀ p ∈ gone, ∃ ino, Obsolete U t rootReal prev cur p ino) ∧
    (∀ p, t'.at? p = if p ∈ gone then none else t.at? p) ∧ t'.content = t.content

/-- A file that is removed is one the rules let go: they name no part of the path it really has,
and no key of the current release that cannot be normalised leads to it. -/
def LeadsToObsolete (U : ReclaimEnv) (t : FileTree Bytes) (rootReal : Path)
    (prev cur : Dict String String) : Prop :=
  ∀ k n p ino, Passes U t rootReal prev cur k n p ino → t.locked p = false →
    touchReason U rootReal p = none ∧
      ∀ k' ∈ cur.keys, (normaliseRelpath U k').isOk = false →
        t.fileId (keyPath U rootReal k') ≠ some ino

/-- A file that passes is no file the current release ships under a safe key. -/
theorem Passes.fileId_ne (h : Passes U t rootReal prev cur k n p ino) {k' : String}
    (hk' : k' ∈ cur.keys) (hsafe : (normaliseRelpath U k').isOk = true) :
    t.fileId (keyPath U rootReal k') ≠ some ino := by
  intro hid
  cases hn : normaliseRelpath U k' with
  | error why =>
    rw [hn] at hsafe
    cases hsafe
  | ok n' =>
    rw [keyPath, hn] at hid
    have hnorm : n' ∈ curNorm U cur := List.mem_filterMap.mpr ⟨k', hk', by rw [hn]; rfl⟩
    exact h.notCurrent (List.mem_filterMap.mpr ⟨n', hnorm, hid⟩)

theorem Passes.obsolete (h : Passes U t rootReal prev cur k n p ino)
    (htouch : touchReason U rootReal p = none)
    (hnotSafe : ∀ k' ∈ cur.keys, (normaliseRelpath U k').isOk = false →
      t.fileId (keyPath U rootReal k') ≠ some ino) :
    Obsolete U t rootReal prev cur p ino := by
  obtain ⟨v, hv⟩ := Dict.mem_keys_iff.mp h.listed
  refine ⟨h.file, h.inside, ⟨k, v, n, hv, h.safe, FileTree.realpath_of_stat h.leads, ?_, h.dropped⟩,
    fun k' hk' => ?_, htouch⟩
  · rw [h.unmodified, wanted, Dict.getD, hv]
    rfl
  · have hid : t.fileId (keyPath U rootReal k') ≠ some ino := by
      cases hsafe : (normaliseRelpath U k').isOk with
      | true => exact h.fileId_ne hk' hsafe
      | false => exact hnotSafe k' hk' hsafe
    refine ⟨fun hpath => hid ?_, hid⟩
    -- the path of a file leads to the file
    rw [hpath, FileTree.fileId_eq_some]
    exact ⟨p, FileTree.stat_self (FileTree.proper_of_stat h.leads) rfl h.file, h.file⟩

/-- A pass that removes only obsolete files leads to none but these. -/
theorem leadsToObsolete_of_onlyObsolete (hdelete : Deletes U prev cur override knob)
    (h : OnlyObsolete U t (reclaimObsoleteFiles U t root prev cur override knob).1 (realRoot t root)
      prev cur (reclaimMode U knob override)) :
    LeadsToObsolete U t (realRoot t root) prev cur := by
  obtain ⟨gone, -, -, hgone, hat, -⟩ := h
  obtain ⟨gone', herased, -, hmem⟩ := reclaim_erases U t root prev cur override knob
  intro k n p ino hpasses hfree
  -- the name is gone, so it is one the pass accounts for
  have hp : p ∈ gone := by
    have hnone := herased.at? p
    rw [if_pos ((hmem p).mpr ⟨hdelete, hfree, k, n, ino, hpasses⟩), hat] at hnone
    by_contra hno
    rw [if_neg hno, hpasses.file] at hnone
    cases hnone
  obtain ⟨ino', hobsolete⟩ := hgone p hp
  have hino : ino' = ino := by
    have hfile := hobsolete.file
    rw [hpasses.file] at hfile
    cases hfile
    rfl
  subst hino
  exact ⟨hobsolete.touchable, fun k' hk' _ => (hobsolete.notCurrent k' hk').2⟩

/-- **A pass removes only obsolete files** exactly when every candidate that passes leads to one. -/
theorem reclaim_only_obsolete_iff (U : ReclaimEnv) (t : FileTree Bytes) (root : Path)
    (prev cur : Dict String String) (override : Json) (knob : Option String) :
    OnlyObsolete U t (reclaimObsoleteFiles U t root prev cur override knob).1 (realRoot t root)
        prev cur (reclaimMode U knob override) ↔
      (Deletes U prev cur override knob → LeadsToObsolete U t (realRoot t root) prev cur) := by
  constructor
  · intro h hdelete
    exact leadsToObsolete_of_onlyObsolete hdelete h
  · intro h
    obtain ⟨gone, herased, hlen, hmem⟩ := reclaim_erases U t root prev cur override knob
    refine ⟨gone, hlen, fun hmode => ?_, fun p hp => ?_, herased.at?, herased.content⟩
    · refine List.eq_nil_iff_forall_not_mem.mpr fun p hp => ?_
      exact hmode ((hmem p).mp hp).1.1
    · obtain ⟨hdelete, hfree, k, n, ino, hpasses⟩ := (hmem p).mp hp
      obtain ⟨htouch, hnotSafe⟩ := h hdelete k n p ino hpasses hfree
      exact ⟨ino, hpasses.obsolete htouch hnotSafe⟩

end Pass

/-- The ledger an update leaves: what either release shipped, less what was removed. -/
theorem get?_ledger (manifest : Json) (override : Json) (knob : Option String) (k : String) :
    (reclaimAfterUpdate U t root prev manifest override knob).2.2.get? k =
      if k ∈ (reclaimAfterUpdate U t root prev manifest override knob).2.1.deleted then none
      else ((Manifest.manifestFiles U.toUpdateEnv manifest).get? k).or (prev.get? k) := by
  unfold reclaimAfterUpdate
  dsimp only
  rw [Dict.get?_foldl_erase, Dict.get?_foldl_set, ← Dict.get?_ofList]
  rw [Dict.ext_entries (Dict.entries_ofList (Manifest.manifestFiles U.toUpdateEnv manifest).nodup)]

/-! ## A shipped path that is a link into the keys -/

/-- The executable environment, with ASCII capitals. -/
def sample : ReclaimEnv :=
  { UpdateEnv.sample with upper := fun s => String.ofList (s.toList.map Char.toUpper) }

/-- A directory `pub` was replaced by a link to `keys`. -/
def linkedEntries : Dict Path FileEntry :=
  Dict.ofList [(["miner"], .dir), (["miner", "keys"], .dir),
    (["miner", "keys", "node.txt"], .file 0), (["miner", "pub"], .link false ["keys"])]

def linkedTree : FileTree Bytes where
  entries := linkedEntries
  parents := parents_of_entries (by decide +kernel)
  content _ := List.replicate 31 0
  readable _ := true
  locked _ := false

def shippedBefore : Dict String String :=
  Dict.ofList [("pub/node.txt", sample.sha256 (List.replicate 31 0))]

def shippedNow : Dict String String := Dict.ofList [("miner.py", "")]

/-- The release dropped `pub/node.txt`; the pass removes `keys/node.txt`. -/
theorem reclaim_removes_key :
    ¬ ∀ (U : ReclaimEnv) (t : FileTree Bytes) (root : Path) (prev cur : Dict String String)
      (override : Json) (knob : Option String),
      OnlyObsolete U t (reclaimObsoleteFiles U t root prev cur override knob).1 (realRoot t root)
        prev cur (reclaimMode U knob override) := by
  intro hall
  have hdelete : Deletes sample shippedBefore shippedNow .null (some "1") := by
    refine ⟨by decide +kernel, by decide +kernel, ?_⟩
    exact le_trans (List.length_filter_le _ _) (by decide +kernel)
  have hpasses : Passes sample linkedTree (realRoot linkedTree ["miner"]) shippedBefore shippedNow
      "pub/node.txt" "pub/node.txt" ["miner", "keys", "node.txt"] 0 :=
    { listed := by decide +kernel
      safe := by decide +kernel
      dropped := by decide +kernel
      touchable := by decide +kernel
      leads := by decide +kernel
      noLink := by decide +kernel
      file := by decide +kernel
      inside := by decide +kernel
      notCurrent := by decide +kernel
      usable := by decide +kernel
      readable := rfl
      unmodified := by decide +kernel }
  obtain ⟨htouch, -⟩ := leadsToObsolete_of_onlyObsolete hdelete
    (hall sample linkedTree ["miner"] shippedBefore shippedNow .null (some "1")) _ _ _ _ hpasses rfl
  revert htouch
  decide +kernel

end Reclaim

end NeuraHash
