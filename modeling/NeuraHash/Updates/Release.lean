import NeuraHash.Python.Triples
import NeuraHash.Updates.Config

/-!
# Applying a release (`check_and_update`)

One check loads the state file, finds a manifest, and applies it: `git fetch`, `git checkout` of the
commit it names, a look at `HEAD`, the clean-up of old files, `pip install`, and the re-exec that
replaces the process. Everything outside the process is a `World` that may answer a call with any
value or an exception, depending on what happened before; the answers are in the `trace`.

The last section proves what a trace can hold (`check_spec`): a manifest's commit is checked out only
when the manifest is authorised, and a re-exec follows a `HEAD` that is that commit. The check
returns in all cases but one, a `last_check` of plus infinity (`check_and_update_safe`).
-/

namespace NeuraHash

open Py

namespace SelfUpdate

open PyM UpdateEnv Manifest

/-- What a call gives: a value, or an exception. -/
abbrev Reply := Except PyErr Json

/-- What a check does to the outside. -/
inductive UpdateEvent where
  /-- `git_fn(repo_dir, *args)`. -/
  | git (args : List String) (reply : Reply)
  | pip (reply : Reply)
  | reclaim (m : Json)
  /-- A write of the state file. -/
  | saved (stored : Bool)
  | reexec

/-- The outside of a check; an answer may depend on the trace. -/
structure World where
  /-- The text of `VERSION`; `none` when it cannot be read. -/
  versionFile : Option String
  /-- The name and the url of each mirror, and what is parsed of its answer. -/
  mirrors : List (String × String × Reply)
  git : List UpdateEvent → List String → Reply
  pip : List UpdateEvent → Reply
  /-- `_sha256_file` of `requirements.txt`. -/
  requirements : List UpdateEvent → Option String
  /-- What a failed write leaves of the state file; `none` when the write succeeds. -/
  failedWrite : List UpdateEvent → Option (Option Json)
  /-- The ledger `_reclaim_after_update` stores; `none` when it is unchanged. -/
  ledger : List UpdateEvent → Json → Option Json
  /-- `_exc_text`. -/
  traceback : PyErr → String

/-- The state file and the trace. -/
structure Client where
  file : Option Json
  trace : List UpdateEvent

/-! ## The state file -/

/-- `_load_state`: a missing or corrupt file is an empty dict. -/
def loadState (file : Option Json) : Dict String Json :=
  match file with
  | some (.obj kvs) => Json.dictOf kvs
  | _ => ∅

/-- `_load_last_check`. -/
def loadLastCheck (U : UpdateEnv) (file : Option Json) : PyFloat :=
  match ((loadState file).getD "last_check" (.float 0)).toFloat U.toPyText with
  | .ok x => x
  | .error _ => 0

/-- `_save_state`: the other keys are kept. -/
def saveState (W : World) (updates : List (String × Json)) : PyM Client Unit := fun s =>
  let d := updates.foldl (fun d p => d.set p.1 p.2) (loadState s.file)
  match W.failedWrite s.trace with
  | none => .ok () ⟨some (.obj d.entries), s.trace ++ [.saved true]⟩
  | some left => .ok () ⟨left, s.trace ++ [.saved false]⟩

/-! ## The mirrors -/

/-- `ManifestFetch`. -/
structure ManifestFetch where
  manifest : Option Json
  source : Option String
  tried : List (String × String × String)
  anyParsed : Bool

/-- The class of an exception. -/
def errName : PyErr → String
  | .keyError => "KeyError"
  | .typeError => "TypeError"
  | .valueError => "ValueError"
  | .overflowError => "OverflowError"
  | .attributeError => "AttributeError"
  | .raised name => name

/-- Note what a mirror gave. -/
def ManifestFetch.note (f : ManifestFetch) (name url status : String) : ManifestFetch :=
  { f with tried := f.tried ++ [(name, url, status)] }

/-- `best is None or is_forward(v, best["version"])`. -/
def better (U : UpdateEnv) (best : Option Json) (m : Json) : Except PyErr Bool :=
  match best with
  | none => .ok true
  | some b => U.isForward (targetVersion U m) (targetVersion U b)

/-- A verified manifest, against the replay floor and the best so far. -/
def considerVerified (U : UpdateEnv) (floor : ℤ) (f : ManifestFetch) (name url : String) (m : Json) :
    ManifestFetch :=
  if floor ≠ 0 ∧ publishedTs U m < floor then
    f.note name url ("REJECTED (replay: published_ts " ++ (publishedTs U m).repr ++ " < floor "
      ++ floor.repr ++ ")")
  else match better U f.manifest m with
    | .error _ => f.note name url "REJECTED (version unusable)"
    | .ok b =>
      let f := f.note name url ("valid v" ++ targetVersion U m)
      if b then { f with manifest := some m, source := some url } else f

/-- The body of the loop over the mirrors. -/
def consider (U : UpdateEnv) (pubkey : String) (floor : ℤ) (f : ManifestFetch)
    (mirror : String × String × Reply) : ManifestFetch :=
  match mirror.2.2 with
  | .error e => f.note mirror.1 mirror.2.1 ("unreachable (" ++ errName e ++ ")")
  | .ok m => match verifyManifest U pubkey m with
    | .error r =>
      ({ f with anyParsed := true }.note mirror.1 mirror.2.1 ("REJECTED (" ++ r.text U ++ ")"))
    | .ok _ => considerVerified U floor { f with anyParsed := true } mirror.1 mirror.2.1 m

/-- `fetch_best_manifest`. -/
def fetchBestManifest (U : UpdateEnv) (W : World) (pubkey : String) (floor : ℤ) : ManifestFetch :=
  W.mirrors.foldl (consider U pubkey floor) ⟨none, none, [], false⟩

/-- `ManifestFetch.summary()`. -/
def ManifestFetch.summary (f : ManifestFetch) : String :=
  if f.tried.isEmpty then "no mirrors configured"
  else "; ".intercalate (f.tried.map fun t => t.1 ++ ": " ++ t.2.2)

/-! ## Results -/

/-- The tag of an outcome. -/
inductive Action where
  | noVersionFile
  | disabled
  | rateLimited
  | verifyFailed
  | fetchFailed
  | versionParseFailed
  | noOpNotForward
  | gitFetchFailed
  | gitCheckoutUntracked
  | gitCheckoutFailed
  | gitError
  | headMismatch
  | applied
  deriving DecidableEq

def Action.tag : Action → String
  | noVersionFile => "no-version-file"
  | disabled => "disabled"
  | rateLimited => "rate-limited"
  | verifyFailed => "verify-failed"
  | fetchFailed => "fetch-failed"
  | versionParseFailed => "version-parse-failed"
  | noOpNotForward => "no-op-not-forward"
  | gitFetchFailed => "git-fetch-failed"
  | gitCheckoutUntracked => "git-checkout-untracked"
  | gitCheckoutFailed => "git-checkout-failed"
  | gitError => "git-error"
  | headMismatch => "head-mismatch"
  | applied => "applied"

structure UpdateResult where
  applied : Bool := false
  action : Action
  reason : String := ""
  localVersion : Option String := none
  targetVersion : Option String := none
  checkedOut : Option String := none
  pipRan : Bool := false
  manifest : Option Json := none
  fetch : Option ManifestFetch := none
  blockers : List String := []

def optText (s : Option String) : Json := s.elim .null .str

/-- `UpdateResult.as_state(now)`. -/
def UpdateResult.asState (r : UpdateResult) (now : ℚ) : Json :=
  .obj [("ts", .float (.fin now)), ("action", .str r.action.tag), ("applied", .bool r.applied),
    ("local_version", optText r.localVersion), ("target_version", optText r.targetVersion),
    ("checked_out", optText r.checkedOut), ("reason", .str r.reason),
    ("blockers", .arr (r.blockers.map .str))]

/-- Where a check ends: with a result, or at the call of the re-exec. -/
inductive Outcome where
  | returned (r : UpdateResult)
  | reexec (r : UpdateResult)

/-- The arguments of a check. A manifest that is not supplied is `null`. -/
structure Check where
  pubkey : String
  enabled : Bool
  rateLimitS : ℤ
  now : ℚ
  honorRateLimit : Bool
  manifest : Json

/-! ## Texts -/

/-- `_head`: the first 4000 characters. -/
def headText (U : UpdateEnv) (j : Json) : String :=
  let s := U.strip (if j.notNone then j.toStr U.toPyText else "")
  if s.length ≤ 4000 then s
  else String.ofList (s.toList.take 4000)
    ++ "\n...[truncated after 4000 chars; the FULL text is in the updater state file]"

/-- `commit[:12]`. -/
def short (commit : String) : String := String.ofList (commit.toList.take 12)

def isPart (part s : String) : Bool := decide (part.toList <:+: s.toList)

def untrackedMarkers : List String :=
  ["untracked working tree files would be overwritten",
    "untracked working tree files would be removed"]

def gitTailMarkers : List String :=
  ["please move or remove them", "aborting", "please commit your changes"]

/-- The loop of `untracked_blockers`: the paths between the announcement and its end. -/
def collectBlockers (U : UpdateEnv) (collecting : Bool) : List String → List String
  | [] => []
  | raw :: rest =>
    let low := U.lower (U.strip raw)
    if untrackedMarkers.any (isPart · low) then collectBlockers U true rest
    else if !collecting then collectBlockers U collecting rest
    else if U.strip raw = "" ∨ gitTailMarkers.any (·.toList.isPrefixOf low.toList) = true then []
    else if raw.toList.head? ≠ some '\t' ∧ raw.toList.head? ≠ some ' ' then []
    else U.strip raw :: collectBlockers U collecting rest

/-- `untracked_blockers`. -/
def untrackedBlockers (U : UpdateEnv) (gitOutput : Json) : List String :=
  let text := if gitOutput.truthy then gitOutput.toStr U.toPyText else ""
  if untrackedMarkers.any (isPart · (U.lower text)) then collectBlockers U false (U.splitlines text)
  else []

/-! ## Calls -/

/-- `a, b = value`. -/
def unpack : Json → Except PyErr (Json × Json)
  | .arr [a, b] => .ok (a, b)
  | .arr _ => .error .valueError
  | .str s => match s.toList with
    | [a, b] => .ok (.str (String.singleton a), .str (String.singleton b))
    | _ => .error .valueError
  | .obj kvs => match (Json.dictOf kvs).keys with
    | [a, b] => .ok (.str a, .str b)
    | _ => .error .valueError
  | _ => .error .typeError

/-- `rc != 0`. -/
def failedCode (rc : Json) : Bool := !Json.pyEq rc (.int 0)

/-- A call whose reply joins the trace. -/
def call (reply : List UpdateEvent → Reply) (event : Reply → UpdateEvent) : PyM Client Json := fun s =>
  match reply s.trace with
  | .ok v => .ok v { s with trace := s.trace ++ [event (.ok v)] }
  | .error e => .error e { s with trace := s.trace ++ [event (.error e)] }

variable (U : UpdateEnv) (W : World)

/-- `rc, out = git_fn(repo_dir, *args)`. -/
def gitPair (args : List String) : PyM Client (Json × Json) :=
  call (fun t => W.git t args) (.git args) >>= fun v => PyM.ofExcept (unpack v)

/-- Why an update stops: the action, the reason and the blockers. -/
abbrev Stop := Action × String × List String

/-- `git checkout` of the signed commit, in the first `try`. -/
def checkout (commit : String) : PyM Client (Option Stop) :=
  gitPair W ["checkout", "--quiet", commit] >>= fun reply =>
    let reason := "`git checkout " ++ short commit ++ "` returned rc=" ++ reply.1.toStr U.toPyText
      ++ ":\n" ++ headText U reply.2
    let blockers := untrackedBlockers U reply.2
    if !failedCode reply.1 then pure none
    else if blockers.isEmpty then pure (some (.gitCheckoutFailed, reason, []))
    else pure (some (.gitCheckoutUntracked, reason, blockers))

/-- The first `try`: `git fetch` and `git checkout`. -/
def fetchAndCheckout (commit : String) : PyM Client (Option Stop) :=
  gitPair W ["fetch", "--quiet", "origin"] >>= fun reply =>
    if failedCode reply.1 then
      pure (some (.gitFetchFailed, "`git fetch origin` returned rc=" ++ reply.1.toStr U.toPyText
        ++ ":\n" ++ headText U reply.2, []))
    else checkout U W commit

/-- `head.strip()`. -/
def stripHead : Json → Except PyErr String
  | .str s => .ok (U.strip s)
  | _ => .error .attributeError

/-- The second `try`: `git rev-parse HEAD`. -/
def readHead : PyM Client (Json × String) :=
  gitPair W ["rev-parse", "HEAD"] >>= fun reply =>
    PyM.ofExcept (stripHead U reply.2) >>= fun head => pure (reply.1, head)

/-- The third `try`: back to the previous tree. What it reports. -/
def restoreTree : PyM Client String :=
  attempt (call (fun t => W.git t ["checkout", "--quiet", "-"]) (.git ["checkout", "--quiet", "-"]))
    >>= fun r => pure (match r with
      | .ok _ => ""
      | .error e => "\nthe restore to the previous tree ALSO failed:\n"
          ++ headText U (.str (W.traceback e)))

/-- `_announce`: the outcome is stored. -/
def announce (now : ℚ) (r : UpdateResult) : PyM Client UpdateResult :=
  saveState W [("last_update", r.asState now)] >>= fun _ => pure r

/-- `_reclaim_after_update`. -/
def reclaimAfterUpdate (m : Json) : PyM Client Unit := fun s =>
  let s' : Client := { s with trace := s.trace ++ [.reclaim m] }
  match W.ledger s.trace m with
  | none => .ok () s'
  | some l => saveState W [("shipped_files", l)] s'

/-- `pip install`, when the requirements changed: whether it ran. -/
def installRequirements (before : Option String) : PyM Client Bool := fun s =>
  let after := W.requirements s.trace
  if after.getD "" ≠ "" ∧ after ≠ before then
    (attempt (call W.pip .pip >>= fun v => PyM.ofExcept (unpack v)) >>= fun r => pure r.isOk) s
  else .ok false s

/-! ## The check -/

/-- What a check has settled when it starts to apply a release. -/
structure Target where
  localVersion : String
  version : String
  commit : String
  manifest : Json
  fetch : Option ManifestFetch

/-- The fields of a result that names its target. -/
def Target.result (t : Target) (action : Action) (reason : String) : UpdateResult :=
  { action, reason, localVersion := some t.localVersion, targetVersion := some t.version,
    manifest := some t.manifest, fetch := t.fetch }

/-- `return _announce(...)`. -/
def stopWith (now : ℚ) (r : UpdateResult) : PyM Client Outcome := Outcome.returned <$> announce W now r

/-- The steps after `HEAD` is the signed commit, up to the call of the re-exec. -/
def finish (now : ℚ) (t : Target) (before : Option String) : PyM Client Outcome :=
  reclaimAfterUpdate W t.manifest >>= fun _ =>
    installRequirements W before >>= fun pipRan =>
      announce W now { t.result .applied ("v" ++ t.localVersion ++ " -> v" ++ t.version) with
        applied := true, checkedOut := some t.commit, pipRan } >>= fun r => fun s =>
          .ok (.reexec r) { s with trace := s.trace ++ [.reexec] }

/-- The return code, the head and the error text the second `try` leaves. -/
def headSeen : Except PyErr (Json × String) → Json × String × String
  | .ok p => (p.1, p.2, "")
  | .error e => (.int 1, "", headText U (.str (W.traceback e)))

/-- The reason of a tree that is not the signed commit. -/
def mismatchReason (head commit headErr restore : String) : String :=
  "post-checkout HEAD " ++ U.reprText head ++ " != signed commit " ++ U.reprText commit
    ++ "; NOT re-exec'ing" ++ (if headErr = "" then "" else "\n" ++ headErr) ++ restore

/-- The tree must now be the signed commit. -/
def verifyTree (now : ℚ) (t : Target) (before : Option String) : PyM Client Outcome :=
  attempt (readHead U W) >>= fun r =>
    let seen := headSeen U W r
    if failedCode seen.1 ∨ U.lower seen.2.1 ≠ U.lower t.commit then
      restoreTree U W >>= fun restore =>
        stopWith W now (t.result .headMismatch (mismatchReason U seen.2.1 t.commit seen.2.2 restore))
    else finish W now t before

/-- Apply a verified forward release. -/
def applyRelease (now : ℚ) (t : Target) : PyM Client Outcome := fun s =>
  (attempt (fetchAndCheckout U W t.commit) >>= fun r => match r with
    | .error e => stopWith W now (t.result .gitError
        ("git raised during update:\n" ++ headText U (.str (W.traceback e))))
    | .ok (some stop) => stopWith W now { t.result stop.1 stop.2.1 with blockers := stop.2.2 }
    | .ok none => verifyTree U W now t (W.requirements s.trace)) s

/-- The forward-only gate. -/
def proceed (now : ℚ) (localVersion : String) (m : Json) (fetch : Option ManifestFetch) :
    PyM Client Outcome :=
  PyM.ofExcept (m.item "version") >>= fun version =>
    PyM.ofExcept (m.item "git_commit") >>= fun commit =>
      let t : Target := ⟨localVersion, version.toStr U.toPyText, commit.toStr U.toPyText, m, fetch⟩
      match U.isForward t.version localVersion with
      | .error e => stopWith W now (t.result .versionParseFailed
          ("cannot compare versions: " ++ headText U (.str (W.traceback e))))
      | .ok false => stopWith W now (t.result .noOpNotForward
          ("manifest v" ++ t.version ++ " <= local v" ++ localVersion))
      | .ok true => applyRelease U W now t

/-- Without a supplied manifest, the mirrors are asked. -/
def fetchAndProceed (c : Check) (localVersion : String) : PyM Client Outcome :=
  let fetch := fetchBestManifest U W c.pubkey 0
  match fetch.manifest with
  | some m => proceed U W c.now localVersion m (some fetch)
  | none =>
    if fetch.anyParsed then
      stopWith W c.now
        { action := .verifyFailed,
          reason := "release manifest REJECTED on every mirror (never running unverified code): "
            ++ headText U (.str fetch.summary),
          localVersion := some localVersion, fetch := some fetch }
    else
      stopWith W c.now
        { action := .fetchFailed,
          reason := "no release manifest reachable on any mirror: "
            ++ headText U (.str fetch.summary),
          localVersion := some localVersion, fetch := some fetch }

/-- A supplied manifest is verified again. -/
def findManifest (c : Check) (localVersion : String) : PyM Client Outcome :=
  if !c.manifest.notNone then fetchAndProceed U W c localVersion
  else match verifyManifest U c.pubkey c.manifest with
    | .error r => stopWith W c.now
        { action := .verifyFailed,
          reason := "supplied release manifest REJECTED by the pinned release key: "
            ++ headText U (.str (r.text U)),
          localVersion := some localVersion }
    | .ok _ => proceed U W c.now localVersion c.manifest none

/-- The reason of a check that comes too soon after the last one. -/
def rateLimit (c : Check) (last : PyFloat) : Except PyErr (Option String) :=
  let age : PyFloat := .fin c.now - last
  if c.honorRateLimit && PyFloat.lt age (.fin c.rateLimitS) then do
    let seconds ← (Json.float age).toInt U.toPyText
    .ok (some ("checked " ++ seconds.repr ++ "s ago (< " ++ c.rateLimitS.repr ++ "s)"))
  else .ok none

/-- `read_local_version`. -/
def readLocalVersion : Except PyErr String :=
  match W.versionFile with
  | none => .error (.raised "OSError")
  | some text => U.parseVersion (U.strip text) >>= fun _ => .ok (U.strip text)

/-- A manifest that was supplied. -/
def supplied (c : Check) : Option Json := if c.manifest.notNone then some c.manifest else none

/-- The rest of a check that is enabled: the attempt is recorded before anything is fetched. -/
def limitedCheck (c : Check) (localVersion : String) : PyM Client Outcome := fun s =>
  (PyM.ofExcept (rateLimit U c (loadLastCheck U s.file)) >>= fun limited => match limited with
    | some reason =>
      pure (.returned { action := .rateLimited, reason, localVersion := some localVersion,
                        manifest := supplied c })
    | none => saveState W [("last_check", .float (.fin c.now))] >>= fun _ =>
        findManifest U W c localVersion) s

/-- `check_and_update`, up to the call of the re-exec. -/
def checkAndUpdate (c : Check) : PyM Client Outcome :=
  match readLocalVersion U W with
  | .error e => stopWith W c.now
      { action := .noVersionFile,
        reason := "cannot read local VERSION: " ++ headText U (.str (W.traceback e)),
        manifest := supplied c }
  | .ok localVersion =>
    if !c.enabled then
      pure (.returned { action := .disabled, reason := "NEURAHASH_AUTOUPDATE is off",
                        localVersion := some localVersion, manifest := supplied c })
    else limitedCheck U W c localVersion

/-! ## What a step adds -/

variable {U : UpdateEnv} {W : World} {s s' s'' : Client}

/-- The keys of the state file a check writes. -/
def ownKeys : List String := ["last_check", "last_update", "shipped_files"]

/-- From `s` to `s'` the events `evs` happened; where no write fails, the other keys of the state
file stay as they are. -/
structure Follows (W : World) (s s' : Client) (evs : List UpdateEvent) : Prop where
  trace : s'.trace = s.trace ++ evs
  file : (∀ t, W.failedWrite t = none) → ∀ k ∉ ownKeys,
    (loadState s'.file).get? k = (loadState s.file).get? k

theorem Follows.refl (s : Client) : Follows W s s [] := ⟨(List.append_nil _).symm, fun _ _ _ => rfl⟩

theorem Follows.trans {e e' : List UpdateEvent} (h : Follows W s s' e) (h' : Follows W s' s'' e') :
    Follows W s s'' (e ++ e') := by
  refine ⟨by rw [h'.trace, h.trace, List.append_assoc], fun hok k hk => ?_⟩
  rw [h'.file hok k hk, h.file hok k hk]

/-- An event that leaves the state file alone. -/
theorem follows_push (s : Client) (e : UpdateEvent) :
    Follows W s { s with trace := s.trace ++ [e] } [e] := ⟨rfl, fun _ _ _ => rfl⟩

/-- All events of the step satisfy `P`. -/
def Adds (W : World) (P : UpdateEvent → Prop) (s s' : Client) : Prop :=
  ∃ evs, Follows W s s' evs ∧ ∀ e ∈ evs, P e

variable {P Q : UpdateEvent → Prop}

theorem Adds.refl (s : Client) : Adds W P s s := ⟨[], Follows.refl s, fun e he => by cases he⟩

theorem Adds.trans (h : Adds W P s s') (h' : Adds W P s' s'') : Adds W P s s'' := by
  obtain ⟨e, hf, he⟩ := h
  obtain ⟨e', hf', he'⟩ := h'
  exact ⟨e ++ e', hf.trans hf', fun x hx => (List.mem_append.mp hx).elim (he x) (he' x)⟩

theorem Adds.imp (h : Adds W P s s') (hpq : ∀ e, P e → Q e) : Adds W Q s s' := by
  obtain ⟨e, hf, he⟩ := h
  exact ⟨e, hf, fun x hx => hpq x (he x hx)⟩

theorem adds_push {e : UpdateEvent} (he : P e) : Adds W P s { s with trace := s.trace ++ [e] } :=
  ⟨[e], follows_push s e, fun _ hx => List.mem_singleton.mp hx ▸ he⟩

/-- No `git` and no re-exec. -/
def Quiet : UpdateEvent → Prop
  | .git _ _ => False
  | .reexec => False
  | _ => True

/-- A commit is checked out only when `auth` allows it (`-` is the previous tree), and nothing is
re-exec'd. -/
def Allowed (auth : String → Prop) : UpdateEvent → Prop
  | .git args _ => ∀ commit, args = ["checkout", "--quiet", commit] → commit = "-" ∨ auth commit
  | .reexec => False
  | _ => True

variable {auth auth' : String → Prop}

theorem Allowed.imp {e : UpdateEvent} (h : Allowed auth e) (himp : ∀ c, auth c → auth' c) :
    Allowed auth' e := by
  cases e with
  | git args reply => exact fun commit hc => (h commit hc).imp_right (himp commit)
  | reexec => exact h
  | _ => trivial

theorem Quiet.allowed {e : UpdateEvent} (h : Quiet e) : Allowed auth e := by
  cases e with
  | git args reply => exact h.elim
  | reexec => exact h
  | _ => trivial

/-- A `git` call that is no checkout. -/
theorem allowed_git {args : List String} (h : args.head? ≠ some "checkout") (reply : Reply) :
    Allowed auth (.git args reply) := by
  rintro commit rfl
  exact absurd rfl h

/-! ## The steps around `git` -/

theorem get?_loadState_entries (d : Dict String Json) (k : String) :
    (loadState (some (.obj d.entries))).get? k = d.get? k := by
  show (Dict.ofList d.entries).get? k = d.get? k
  rw [Dict.get?, Dict.entries_ofList d.nodup]
  rfl

theorem get?_foldl_updates {updates : List (String × Json)} {d : Dict String Json} {k : String}
    (h : k ∉ updates.map Prod.fst) :
    (updates.foldl (fun d p => d.set p.1 p.2) d).get? k = d.get? k := by
  rw [Dict.get?_foldl_set, Dict.lookup_eq_none_iff.mpr, Option.none_or]
  rwa [List.map_reverse, List.mem_reverse]

theorem saveState_ends {updates : List (String × Json)} (hkeys : ∀ p ∈ updates, p.1 ∈ ownKeys)
    (s : Client) : Ends (saveState W updates) s (fun _ s' => Adds W Quiet s s') never := by
  unfold Ends saveState
  cases hw : W.failedWrite s.trace with
  | none =>
    refine ⟨[.saved true], ⟨rfl, fun _ k hk => ?_⟩, fun e he => List.mem_singleton.mp he ▸ trivial⟩
    rw [get?_loadState_entries, get?_foldl_updates]
    intro hmem
    obtain ⟨p, hp, rfl⟩ := List.mem_map.mp hmem
    exact hk (hkeys p hp)
  | some left =>
    exact ⟨[.saved false], ⟨rfl, fun hok => nomatch hw.symm.trans (hok s.trace)⟩,
      fun e he => List.mem_singleton.mp he ▸ trivial⟩

theorem announce_ends (now : ℚ) (r : UpdateResult) (s : Client) :
    Ends (announce W now r) s (fun r' s' => r' = r ∧ Adds W Quiet s s') never := by
  refine (saveState_ends ?_ s).bind fun _ s' h => Ends.pure ⟨rfl, h⟩
  intro p hp
  rw [List.mem_singleton.mp hp]
  exact (by decide : "last_update" ∈ ownKeys)

theorem stopWith_ends (now : ℚ) (r : UpdateResult) (s : Client) :
    Ends (stopWith W now r) s (fun o s' => o = .returned r ∧ Adds W Quiet s s') never :=
  Ends.map ((announce_ends now r s).mono (fun _ _ h => ⟨congrArg Outcome.returned h.1, h.2⟩)
    fun _ _ h => h)

/-- A call adds itself to the trace, with what it gave. -/
theorem call_ends (W : World) (reply : List UpdateEvent → Reply) (event : Reply → UpdateEvent) (s : Client) :
    Ends (call reply event) s (fun v s' => Follows W s s' [event (.ok v)])
      (fun e s' => Follows W s s' [event (.error e)]) := by
  unfold Ends call
  cases reply s.trace with
  | ok v => exact follows_push s _
  | error e => exact follows_push s _

theorem gitPair_ends (args : List String) (s : Client) :
    Ends (gitPair W args) s
      (fun p s' => ∃ v, unpack v = .ok p ∧ Follows W s s' [.git args (.ok v)])
      (fun _ s' => ∃ r, Follows W s s' [.git args r]) := by
  have hcall := call_ends W (fun t => W.git t args) (.git args) s
  refine Ends.bind (hcall.mono (fun v s' h => h) fun e s' h => ⟨.error e, h⟩) fun v s' h => ?_
  exact Ends.ofExcept (fun p hp => ⟨v, hp, h⟩) fun e _ => ⟨.ok v, h⟩

/-- The first `try` ends after a checkout of the commit, or stops before or at it. -/
theorem fetchAndCheckout_ends (commit : String) (s : Client) :
    Ends (fetchAndCheckout U W commit) s
      (fun o s' => Adds W (Allowed (· = commit)) s s' ∧ (o = none → ∃ pre r,
        Follows W s s' (pre ++ [.git ["checkout", "--quiet", commit] r]) ∧
          ∀ e ∈ pre, Allowed (· = commit) e))
      (fun _ s' => Adds W (Allowed (· = commit)) s s') := by
  have hfetch : ∀ r, Allowed (· = commit) (.git ["fetch", "--quiet", "origin"] r) :=
    fun r => allowed_git (by decide) r
  have hcheckout : ∀ r, Allowed (· = commit) (.git ["checkout", "--quiet", commit] r) := by
    intro r c hc
    simp only [List.cons.injEq, and_true, true_and] at hc
    exact .inr hc.symm
  have hone : ∀ {s s' : Client} {e : UpdateEvent}, Allowed (· = commit) e → Follows W s s' [e] →
      Adds W (Allowed (· = commit)) s s' :=
    fun he hf => ⟨_, hf, fun x hx => List.mem_singleton.mp hx ▸ he⟩
  refine Ends.bind ((gitPair_ends _ s).mono (fun p s' h => h) fun _ s' h => ?_) fun p s₁ h₁ => ?_
  · obtain ⟨r, hr⟩ := h
    exact hone (hfetch r) hr
  obtain ⟨v, -, hf₁⟩ := h₁
  split
  · exact Ends.pure ⟨hone (hfetch _) hf₁, nofun⟩
  refine Ends.bind ((gitPair_ends _ s₁).mono (fun p s' h => h) fun _ s' h => ?_)
    fun q s₂ h₂ => ?_
  · obtain ⟨r, hr⟩ := h
    exact (hone (hfetch _) hf₁).trans (hone (hcheckout r) hr)
  obtain ⟨w, -, hf₂⟩ := h₂
  have hadds : Adds W (Allowed (· = commit)) s s₂ :=
    (hone (hfetch _) hf₁).trans (hone (hcheckout _) hf₂)
  dsimp only
  split
  · exact Ends.pure ⟨hadds, fun _ => ⟨[_], .ok w, hf₁.trans hf₂,
      fun e he => List.mem_singleton.mp he ▸ hfetch _⟩⟩
  · split
    · exact Ends.pure ⟨hadds, nofun⟩
    · exact Ends.pure ⟨hadds, nofun⟩

/-- `git` reported that `HEAD` is the commit. -/
def HeadIs (U : UpdateEnv) (reply : Reply) (commit : String) : Prop :=
  ∃ v rc head, reply = .ok v ∧ unpack v = .ok (rc, .str head) ∧ failedCode rc = false ∧
    U.lower (U.strip head) = U.lower commit

theorem readHead_ends (s : Client) :
    Ends (readHead U W) s
      (fun p s' => ∃ v head, unpack v = .ok (p.1, .str head) ∧ p.2 = U.strip head ∧
        Follows W s s' [.git ["rev-parse", "HEAD"] (.ok v)])
      (fun _ s' => ∃ r, Follows W s s' [.git ["rev-parse", "HEAD"] r]) := by
  refine Ends.bind (gitPair_ends _ s) fun p s' h => ?_
  obtain ⟨v, hv, hf⟩ := h
  refine Ends.bind (q := fun head s'' => s'' = s' ∧ ∃ t, p.2 = .str t ∧ head = U.strip t)
    (Ends.ofExcept (fun head hh => ⟨rfl, ?_⟩) fun e _ => ⟨.ok v, hf⟩) fun head s'' h => ?_
  · unfold stripHead at hh
    split at hh
    · next t ht => exact ⟨t, ht, (Except.ok.inj hh).symm⟩
    · cases hh
  · obtain ⟨rfl, t, ht, hhead⟩ := h
    exact Ends.pure ⟨v, t, ht ▸ hv, hhead, hf⟩

theorem restoreTree_ends (auth : String → Prop) (s : Client) :
    Ends (restoreTree U W) s (fun _ s' => Adds W (Allowed auth) s s') never := by
  have hback : ∀ r, Allowed auth (.git ["checkout", "--quiet", "-"] r) := by
    intro r c hc
    simp only [List.cons.injEq, and_true, true_and] at hc
    exact .inl hc.symm
  refine Ends.bind (Ends.attempt (q := fun _ s' => Adds W (Allowed auth) s s')
    ((call_ends W _ _ s).mono (fun v s' h => ?_) fun e s' h => ?_)) fun _ s' h => Ends.pure h
  · exact ⟨_, h, fun x hx => List.mem_singleton.mp hx ▸ hback _⟩
  · exact ⟨_, h, fun x hx => List.mem_singleton.mp hx ▸ hback _⟩

theorem reclaimAfterUpdate_ends (m : Json) (s : Client) :
    Ends (reclaimAfterUpdate W m) s (fun _ s' => Adds W Quiet s s') never := by
  have hpush : Adds W Quiet s { s with trace := s.trace ++ [.reclaim m] } := adds_push trivial
  show Ends (fun s : Client => match W.ledger s.trace m with
    | none => .ok () { s with trace := s.trace ++ [.reclaim m] }
    | some l => saveState W [("shipped_files", l)] { s with trace := s.trace ++ [.reclaim m] }) s
      (fun _ s' => Adds W Quiet s s') never
  unfold Ends
  dsimp only
  cases W.ledger s.trace m with
  | none => exact hpush
  | some l =>
    have hsave := @saveState_ends W [("shipped_files", l)]
      (fun p hp => List.mem_singleton.mp hp ▸ (by decide : "shipped_files" ∈ ownKeys))
      { s with trace := s.trace ++ [.reclaim m] }
    exact hsave.mono (fun _ _ h => hpush.trans h) fun _ _ h => h

theorem installRequirements_ends (before : Option String) (s : Client) :
    Ends (installRequirements W before) s (fun _ s' => Adds W Quiet s s') never := by
  have hone : ∀ {s' : Client} {r : Reply}, Follows W s s' [.pip r] → Adds W Quiet s s' :=
    fun hf => ⟨_, hf, fun x hx => List.mem_singleton.mp hx ▸ trivial⟩
  show Ends (fun s : Client =>
    if (W.requirements s.trace).getD "" ≠ "" ∧ W.requirements s.trace ≠ before then
      (attempt (call W.pip .pip >>= fun v => PyM.ofExcept (unpack v)) >>= fun r => pure r.isOk) s
    else .ok false s) s (fun _ s' => Adds W Quiet s s') never
  unfold Ends
  dsimp only
  split_ifs with hchanged
  · refine Ends.bind (Ends.attempt (q := fun _ s' => Adds W Quiet s s') (Ends.bind
      ((call_ends W _ _ s).mono (fun v s' h => hone h) fun e s' h => hone h) fun v s' h => ?_))
      fun _ s' h => Ends.pure h
    exact Ends.ofExcept (fun _ _ => h) fun _ _ => h
  · exact Adds.refl s

/-- The last steps end at the call of the re-exec. -/
theorem finish_ends (now : ℚ) (t : Target) (before : Option String) (s : Client) :
    Ends (finish W now t before) s (fun o s' => (∃ r, o = .reexec r) ∧ ∃ post,
      Follows W s s' (post ++ [.reexec]) ∧ ∀ e ∈ post, Quiet e) never := by
  refine Ends.bind (reclaimAfterUpdate_ends t.manifest s) fun _ s₁ h₁ => ?_
  refine Ends.bind (installRequirements_ends before s₁) fun pipRan s₂ h₂ => ?_
  refine Ends.bind (announce_ends now _ s₂) fun r s₃ h₃ => ?_
  obtain ⟨post, hf, hquiet⟩ := (h₁.trans h₂).trans h₃.2
  exact ⟨⟨r, rfl⟩, post, hf.trans (follows_push s₃ .reexec), hquiet⟩

/-! ## Where a check ends -/

/-- A checkout of an allowed commit, `HEAD` found to be that commit, then no `git` any more up to
the re-exec at the end. -/
def EndsInReexec (U : UpdateEnv) (auth : String → Prop) (evs : List UpdateEvent) : Prop :=
  ∃ pre commit r reply post,
    evs = pre ++ .git ["checkout", "--quiet", commit] r :: .git ["rev-parse", "HEAD"] reply ::
      (post ++ [.reexec]) ∧
    auth commit ∧ HeadIs U reply commit ∧ (∀ e ∈ pre, Allowed auth e) ∧ ∀ e ∈ post, Quiet e

/-- The events of a check that ends with the outcome. -/
def EndsWith (U : UpdateEnv) (auth : String → Prop) (evs : List UpdateEvent) : Outcome → Prop
  | .returned _ => ∀ e ∈ evs, Allowed auth e
  | .reexec _ => EndsInReexec U auth evs

/-- From `s` the check came to `s'` and ended with the outcome. -/
def Ended (U : UpdateEnv) (W : World) (auth : String → Prop) (s : Client) (o : Outcome) (s' : Client) : Prop :=
  ∃ evs, Follows W s s' evs ∧ EndsWith U auth evs o

variable {o : Outcome}

theorem Ended.returned {r : UpdateResult} (h : Adds W (Allowed auth) s s') :
    Ended U W auth s (.returned r) s' := h

/-- Allowed events may come first. -/
theorem Ended.after (h : Adds W (Allowed auth) s s') (h' : Ended U W auth s' o s'') :
    Ended U W auth s o s'' := by
  obtain ⟨e, hf, he⟩ := h
  obtain ⟨e', hf', he'⟩ := h'
  refine ⟨e ++ e', hf.trans hf', ?_⟩
  cases o with
  | returned r => exact fun x hx => (List.mem_append.mp hx).elim (he x) (he' x)
  | reexec r =>
    obtain ⟨pre, commit, r, reply, post, rfl, hauth, hhead, hpre, hpost⟩ := he'
    exact ⟨e ++ pre, commit, r, reply, post, by rw [List.append_assoc], hauth, hhead,
      fun x hx => (List.mem_append.mp hx).elim (he x) (hpre x), hpost⟩

theorem Ended.imp (h : Ended U W auth s o s') (himp : ∀ c, auth c → auth' c) :
    Ended U W auth' s o s' := by
  obtain ⟨evs, hf, he⟩ := h
  refine ⟨evs, hf, ?_⟩
  cases o with
  | returned r => exact fun x hx => (he x hx).imp himp
  | reexec r =>
    obtain ⟨pre, commit, r, reply, post, heq, hauth, hhead, hpre, hpost⟩ := he
    exact ⟨pre, commit, r, reply, post, heq, himp _ hauth, hhead,
      fun x hx => (hpre x hx).imp himp, hpost⟩

theorem stopWith_ended (now : ℚ) (r : UpdateResult) (s : Client) :
    Ends (stopWith W now r) s (Ended U W auth s) never := by
  refine (stopWith_ends now r s).mono (fun o s' h => ?_) fun _ _ h => h
  obtain ⟨rfl, hadds⟩ := h
  exact Ended.returned (hadds.imp fun _ => Quiet.allowed)

/-- After the checkout: the tree is verified, or the check stops and goes back. -/
theorem verifyTree_ends (auth : String → Prop) (now : ℚ) (t : Target) (before : Option String) (s : Client) :
    Ends (verifyTree U W now t before) s
      (fun o s' => ((∃ r, o = .returned r) ∧ Adds W (Allowed auth) s s') ∨
        ((∃ r, o = .reexec r) ∧ ∃ reply post,
          Follows W s s' (.git ["rev-parse", "HEAD"] reply :: (post ++ [.reexec])) ∧
            HeadIs U reply t.commit ∧ ∀ e ∈ post, Quiet e)) never := by
  -- what the second `try` left: a reply in the trace, and what was read of it
  refine Ends.bind (Ends.attempt (q := fun r s' => ∃ reply,
      Follows W s s' [.git ["rev-parse", "HEAD"] reply] ∧ ∀ p, r = .ok p →
        ∃ v head, reply = .ok v ∧ unpack v = .ok (p.1, .str head) ∧ p.2 = U.strip head)
    ((readHead_ends s).mono (fun p s' h => ?_) fun e s' h => ?_)) fun r s₁ h₁ => ?_
  · obtain ⟨v, head, hv, hhead, hf⟩ := h
    exact ⟨.ok v, hf, fun q hq => by cases hq; exact ⟨v, head, rfl, hv, hhead⟩⟩
  · obtain ⟨reply, hf⟩ := h
    exact ⟨reply, hf, nofun⟩
  obtain ⟨reply, hf, hread⟩ := h₁
  have hrev : Adds W (Allowed auth) s s₁ :=
    ⟨_, hf, fun x hx => List.mem_singleton.mp hx ▸ allowed_git (by decide) _⟩
  dsimp only
  split
  · -- the tree is not the commit
    refine Ends.bind (restoreTree_ends auth s₁) fun restore s₂ h₂ => ?_
    refine (stopWith_ends now _ s₂).mono (fun o s' h => .inl ?_) fun _ _ h => h
    exact ⟨⟨_, h.1⟩, (hrev.trans h₂).trans (h.2.imp fun _ => Quiet.allowed)⟩
  · next hsame =>
    rw [not_or, not_not, Bool.not_eq_true] at hsame
    refine (finish_ends now t before s₁).mono (fun o s' h => .inr ?_) fun _ _ h => h
    obtain ⟨ho, post, hpost, hquiet⟩ := h
    refine ⟨ho, reply, post, hf.trans hpost, ?_, hquiet⟩
    cases r with
    | error e =>
      have hone : failedCode (.int 1) = false := hsame.1
      exact absurd hone (by decide)
    | ok p =>
      obtain ⟨v, head, hreply, hv, hhead⟩ := hread p rfl
      exact ⟨v, p.1, head, hreply, hv, hsame.1, hhead ▸ hsame.2⟩

theorem applyRelease_ends (now : ℚ) (t : Target) (s : Client) :
    Ends (applyRelease U W now t) s (Ended U W (· = t.commit) s) never := by
  refine Ends.bind (Ends.attempt (q := fun r s' =>
      Adds W (Allowed (· = t.commit)) s s' ∧ (r = .ok none → ∃ pre reply,
        Follows W s s' (pre ++ [.git ["checkout", "--quiet", t.commit] reply]) ∧
          ∀ e ∈ pre, Allowed (· = t.commit) e))
    ((fetchAndCheckout_ends t.commit s).mono (fun o s' h => ⟨h.1, fun ho => h.2 (Except.ok.inj ho)⟩)
      fun e s' h => ⟨h, nofun⟩)) fun r s₁ h₁ => ?_
  have hstop : ∀ result, Ends (stopWith W now result) s₁ (Ended U W (· = t.commit) s) never :=
    fun result => (stopWith_ended now result s₁).mono (fun _ _ h => h.after h₁.1) fun _ _ h => h
  cases r with
  | error e => exact hstop _
  | ok o =>
    cases o with
    | some stop => exact hstop _
    | none =>
      obtain ⟨pre, reply, hf, hpre⟩ := h₁.2 rfl
      refine (verifyTree_ends (· = t.commit) now t (W.requirements s.trace) s₁).mono (fun o s' h => ?_)
        fun _ _ h => h
      rcases h with ⟨⟨result, rfl⟩, hadds⟩ | ⟨⟨result, rfl⟩, reply', post, hf', hhead, hquiet⟩
      · exact Ended.after h₁.1 (Ended.returned hadds)
      · exact ⟨_, hf.trans hf', pre, t.commit, reply, reply', post, by simp, rfl, hhead, hpre,
          hquiet⟩

/-! ## Which manifests are applied -/

/-- The manifest's signed bytes recover to the pinned key. -/
def Signed (U : UpdateEnv) (pubkey : String) (m : Json) : Prop :=
  ∃ data a, canonicalManifestBytes U m = .ok data ∧
    recoverBytes U.toPlatform data (get m "signature") = some a ∧ U.lower a = U.lower pubkey

/-- The manifest's version is strictly greater than the local one. -/
def Newer (U : UpdateEnv) (m : Json) (localVersion : String) : Prop :=
  ∃ new cur, U.parseVersion (targetVersion U m) = .ok new ∧
    U.parseVersion localVersion = .ok cur ∧ cur < new

/-- The manifest is the supplied one, or one that a mirror served. -/
def Offered (W : World) (c : Check) (m : Json) : Prop :=
  m = c.manifest ∨ ∃ mirror ∈ W.mirrors, mirror.2.2 = .ok m

/-- A commit that a check may run. -/
def Authorised (U : UpdateEnv) (W : World) (c : Check) (commit : String) : Prop :=
  ∃ m localVersion, Offered W c m ∧ Signed U c.pubkey m ∧
    readLocalVersion U W = .ok localVersion ∧ Newer U m localVersion ∧ commitOf U m = commit

theorem signed_of_verify {pubkey a : String} {m : Json} (h : verifyManifest U pubkey m = .ok a) :
    Signed U pubkey m := by
  obtain ⟨-, data, hdata, hrec, hkey⟩ := verifyManifest_ok h
  exact ⟨data, a, hdata, hrec, hkey⟩

theorem newer_of_isForward {m : Json} {localVersion : String}
    (h : U.isForward (targetVersion U m) localVersion = .ok true) : Newer U m localVersion := by
  unfold isForward at h
  obtain ⟨new, hnew, h⟩ := bind_eq_ok.mp h
  obtain ⟨cur, hcur, h⟩ := bind_eq_ok.mp h
  exact ⟨new, cur, hnew, hcur, of_decide_eq_true (Except.ok.inj h)⟩

/-- What is kept of a loop over the mirrors: a manifest that a mirror served, that verifies, and
that is not older than the floor. -/
def Verified (U : UpdateEnv) (W : World) (pubkey : String) (floor : ℤ) (m : Json) : Prop :=
  (∃ mirror ∈ W.mirrors, mirror.2.2 = .ok m) ∧ (∃ a, verifyManifest U pubkey m = .ok a) ∧
    (floor ≠ 0 → floor ≤ publishedTs U m)

theorem note_manifest (f : ManifestFetch) (name url status : String) :
    (f.note name url status).manifest = f.manifest := rfl

/-- A turn keeps the best manifest, or takes the mirror's. -/
theorem consider_manifest (pubkey : String) (floor : ℤ) (f : ManifestFetch)
    (mirror : String × String × Reply) :
    (consider U pubkey floor f mirror).manifest = f.manifest ∨
      ∃ m, (consider U pubkey floor f mirror).manifest = some m ∧ mirror.2.2 = .ok m ∧
        (∃ a, verifyManifest U pubkey m = .ok a) ∧ (floor ≠ 0 → floor ≤ publishedTs U m) := by
  unfold consider
  split
  · exact .inl rfl
  next m hm =>
  split
  · exact .inl rfl
  next a ha =>
  unfold considerVerified
  split
  · exact .inl rfl
  next hfloor =>
  split
  · exact .inl rfl
  next b hb =>
  cases b with
  | false => exact .inl rfl
  | true =>
    refine .inr ⟨m, rfl, hm, ⟨a, ha⟩, fun hne => ?_⟩
    by_contra hlt
    exact hfloor ⟨hne, by omega⟩

theorem fetchBestManifest_verified {pubkey : String} {floor : ℤ} {m : Json}
    (h : (fetchBestManifest U W pubkey floor).manifest = some m) :
    Verified U W pubkey floor m := by
  suffices hloop : ∀ (l : List (String × String × Reply)) (f : ManifestFetch),
      (∀ x ∈ l, x ∈ W.mirrors) → (∀ m, f.manifest = some m → Verified U W pubkey floor m) →
      ∀ m, (l.foldl (consider U pubkey floor) f).manifest = some m →
        Verified U W pubkey floor m from
    hloop W.mirrors _ (fun _ h => h) (fun _ h => by cases h) m h
  intro l
  induction l with
  | nil => exact fun f _ hf => hf
  | cons mirror l ih =>
    intro f hl hf
    refine ih _ (fun x hx => hl x (List.mem_cons_of_mem _ hx)) fun m hm => ?_
    rcases consider_manifest pubkey floor f mirror with hsame | ⟨m', hm', hserved, hok, hfloor⟩
    · exact hf m (hsame ▸ hm)
    · cases hm'.symm.trans hm
      exact ⟨⟨mirror, hl _ (List.mem_cons_self ..), hserved⟩, hok, hfloor⟩

/-! ## The check -/

/-- A verified manifest has the fields the gate reads. -/
theorem item_of_verified {pubkey a : String} {m : Json} (h : verifyManifest U pubkey m = .ok a)
    {k : String} (hk : k ∈ requiredFields) : m.item k = .ok (get m k) := by
  obtain ⟨hm, -⟩ := verifyManifest_ok h
  show m.item k = .ok ((m.get? k).getD .null)
  rw [Json.item_eq_ok]
  obtain ⟨v, hv⟩ := Option.isSome_iff_exists.mp (hm.fields k hk)
  rw [hv]
  rfl

theorem proceed_ends {c : Check} {localVersion a : String} {m : Json}
    (fetch : Option ManifestFetch) (hlocal : readLocalVersion U W = .ok localVersion)
    (hoffered : Offered W c m) (hm : verifyManifest U c.pubkey m = .ok a) (s : Client) :
    Ends (proceed U W c.now localVersion m fetch) s (Ended U W (Authorised U W c) s) never := by
  unfold proceed
  rw [item_of_verified hm (by decide), item_of_verified hm (by decide)]
  show Ends (match U.isForward (targetVersion U m) localVersion with
    | .error e => _
    | .ok false => _
    | .ok true => _) s _ never
  split
  · exact stopWith_ended _ _ s
  · exact stopWith_ended _ _ s
  · next hforward =>
    refine (applyRelease_ends c.now _ s).mono (fun o s' h => h.imp fun commit hc => ?_)
      fun _ _ h => h
    exact ⟨m, localVersion, hoffered, signed_of_verify hm, hlocal, newer_of_isForward hforward,
      hc.symm⟩

theorem findManifest_ends {c : Check} {localVersion : String}
    (hlocal : readLocalVersion U W = .ok localVersion) (s : Client) :
    Ends (findManifest U W c localVersion) s (Ended U W (Authorised U W c) s) never := by
  unfold findManifest
  split
  · unfold fetchAndProceed
    dsimp only
    split
    · next m hm =>
      obtain ⟨hserved, ⟨a, ha⟩, -⟩ := fetchBestManifest_verified hm
      exact proceed_ends _ hlocal (.inr hserved) ha s
    · split
      · exact stopWith_ended _ _ s
      · exact stopWith_ended _ _ s
  · split
    · exact stopWith_ended _ _ s
    · next a ha => exact proceed_ends _ hlocal (.inl rfl) ha s

/-- The state file says that the last check was at plus infinity. -/
def StampedInfinite (U : UpdateEnv) (W : World) (c : Check) (file : Option Json) : Prop :=
  (readLocalVersion U W).isOk = true ∧ c.enabled = true ∧ c.honorRateLimit = true ∧
    loadLastCheck U file = .inf

/-- The rate limit raises exactly at plus infinity. -/
theorem rateLimit_raises_iff {c : Check} {last : PyFloat} {e : PyErr} :
    rateLimit U c last = .error e ↔
      c.honorRateLimit = true ∧ last = .inf ∧ e = .overflowError := by
  unfold rateLimit
  cases hh : c.honorRateLimit with
  | false => simp
  | true =>
    cases last with
    | inf =>
      have hlt : PyFloat.lt (PyFloat.fin c.now - PyFloat.inf) (.fin c.rateLimitS) = true := rfl
      have hint : (Json.float (PyFloat.fin c.now - PyFloat.inf)).toInt U.toPyText
          = .error .overflowError := rfl
      simp only [hlt, hint, Bool.and_self, if_true, error_bind, Except.error.injEq, true_and]
      exact eq_comm
    | negInf =>
      have hlt : PyFloat.lt (PyFloat.fin c.now - PyFloat.negInf) (.fin c.rateLimitS) = false := rfl
      simp [hlt]
    | nan =>
      have hlt : PyFloat.lt (PyFloat.fin c.now - PyFloat.nan) (.fin c.rateLimitS) = false := rfl
      simp [hlt]
    | fin q =>
      have hsub : PyFloat.fin c.now - PyFloat.fin q = .fin (c.now + -q) := rfl
      have hint : ∀ x : ℚ, (Json.float (.fin x)).toInt U.toPyText
          = .ok (if 0 ≤ x then ⌊x⌋ else ⌈x⌉) := fun _ => rfl
      simp only [hsub, hint, ok_bind]
      split <;> simp

/-- **What a check does**: it raises where the stamp is plus infinity, and nowhere else. -/
theorem check_spec (c : Check) (s : Client) :
    Ends (checkAndUpdate U W c) s
      (fun o s' => ¬ StampedInfinite U W c s.file ∧ Ended U W (Authorised U W c) s o s')
      (fun _ s' => StampedInfinite U W c s.file ∧ s' = s) := by
  unfold checkAndUpdate
  split
  · next e he =>
    refine (stopWith_ended _ _ s).mono (fun o s' h => ⟨fun hinf => ?_, h⟩) fun _ _ h => h.elim
    have hok := hinf.1
    rw [he] at hok
    exact absurd hok Bool.false_ne_true
  next localVersion hlocal =>
  cases hon : c.enabled with
  | false =>
    refine Ends.pure ⟨fun hinf => ?_, Ended.returned (Adds.refl s)⟩
    exact absurd (hon.symm.trans hinf.2.1) Bool.false_ne_true
  | true =>
  rw [Bool.not_true, if_neg Bool.false_ne_true]
  have hok : (readLocalVersion U W).isOk = true := by rw [hlocal]; rfl
  refine Ends.bind (q := fun limited s' => s' = s ∧
      rateLimit U c (loadLastCheck U s.file) = .ok limited)
    (Ends.ofExcept (fun limited h => ⟨rfl, h⟩) fun e he => ?_) fun limited s' h => ?_
  · obtain ⟨hhonor, hlast, -⟩ := rateLimit_raises_iff.mp he
    exact ⟨⟨hok, hon, hhonor, hlast⟩, rfl⟩
  obtain ⟨rfl, hlimited⟩ := h
  have hfinite : ¬ StampedInfinite U W c s'.file := by
    rintro ⟨-, -, hhonor, hlast⟩
    have hraise : rateLimit U c (loadLastCheck U s'.file) = .error .overflowError :=
      rateLimit_raises_iff.mpr ⟨hhonor, hlast, rfl⟩
    rw [hlimited] at hraise
    cases hraise
  cases limited with
  | some reason => exact Ends.pure ⟨hfinite, Ended.returned (Adds.refl s')⟩
  | none =>
    have hkeys : ∀ p ∈ [("last_check", Json.float (.fin c.now))], p.1 ∈ ownKeys := by
      intro p hp
      rw [List.mem_singleton.mp hp]
      exact (by decide : "last_check" ∈ ownKeys)
    refine Ends.bind ((saveState_ends hkeys s').mono (fun _ _ h => h) fun _ _ h => h.elim)
      fun _ s₁ h₁ => ?_
    refine (findManifest_ends hlocal s₁).mono (fun o s₂ h₂ => ⟨hfinite, ?_⟩) fun _ _ h => h.elim
    exact h₂.after (h₁.imp fun _ => Quiet.allowed)

/-- Only signed forward releases run: what a check added to the trace. -/
structure OnlySignedForward (U : UpdateEnv) (W : World) (c : Check) (evs : List UpdateEvent) :
    Prop where
  checkout : ∀ commit r, .git ["checkout", "--quiet", commit] r ∈ evs →
    commit = "-" ∨ Authorised U W c commit
  reexec : .reexec ∈ evs → ∃ pre commit r reply post,
    evs = pre ++ .git ["checkout", "--quiet", commit] r :: .git ["rev-parse", "HEAD"] reply ::
      (post ++ [.reexec]) ∧
    Authorised U W c commit ∧ HeadIs U reply commit ∧ ∀ e ∈ post, Quiet e

theorem onlySignedForward {c : Check} {evs : List UpdateEvent} {o : Outcome}
    (h : EndsWith U (Authorised U W c) evs o) : OnlySignedForward U W c evs := by
  cases o with
  | returned r => exact ⟨fun commit reply hmem => h _ hmem commit rfl, fun hmem => (h _ hmem).elim⟩
  | reexec r =>
    obtain ⟨pre, commit, r, reply, post, rfl, hauth, hhead, hpre, hpost⟩ := h
    refine ⟨fun commit' r' hmem => ?_, fun _ => ⟨pre, commit, r, reply, post, rfl, hauth, hhead,
      hpost⟩⟩
    rcases List.mem_append.mp hmem with hmem | hmem
    · exact hpre _ hmem commit' rfl
    rcases List.mem_cons.mp hmem with heq | hmem
    · simp only [UpdateEvent.git.injEq, List.cons.injEq, and_true, true_and] at heq
      exact .inr (heq.1 ▸ hauth)
    rcases List.mem_cons.mp hmem with heq | hmem
    · simp at heq
    rcases List.mem_append.mp hmem with hmem | hmem
    · exact (hpost _ hmem).elim
    · cases List.mem_singleton.mp hmem

/-- The check returns, up to the call of the re-exec, and only signed forward releases run. -/
def ReturnsSafely (U : UpdateEnv) (W : World) (c : Check) (s : Client) : Prop :=
  ∃ o s' evs, checkAndUpdate U W c s = .ok o s' ∧ s'.trace = s.trace ++ evs ∧
    OnlySignedForward U W c evs

/-- **A check returns and runs nothing but signed forward releases**, exactly when the state file
does not say that the last check was at plus infinity. -/
theorem check_and_update_safe (U : UpdateEnv) (W : World) (c : Check) (s : Client) :
    ReturnsSafely U W c s ↔ ¬ StampedInfinite U W c s.file := by
  have hspec := check_spec (U := U) (W := W) c s
  unfold Ends at hspec
  cases hrun : checkAndUpdate U W c s with
  | ok o s' =>
    rw [hrun] at hspec
    obtain ⟨hfinite, evs, hf, hends⟩ := hspec
    exact iff_of_true ⟨o, s', evs, hrun, hf.trace, onlySignedForward hends⟩ hfinite
  | error e s' =>
    rw [hrun] at hspec
    refine iff_of_false ?_ (not_not_intro hspec.1)
    rintro ⟨o, s'', evs, hok, -⟩
    cases hrun.symm.trans hok

/-! ## A check that raises -/

/-- A world in which nothing answers. -/
def deadWorld : World where
  versionFile := some "3.7.0"
  mirrors := []
  git _ _ := .error (.raised "FileNotFoundError")
  pip _ := .error (.raised "FileNotFoundError")
  requirements _ := none
  failedWrite _ := none
  ledger _ _ := none
  traceback := errName

/-- The periodic check, six hours after the last one. -/
def periodicCheck : Check := ⟨pinnedReleasePubkey, true, 21600, 1754611200, true, .null⟩

/-- The JSON text with `last_check` set to `Infinity` is a state file. -/
def stampedClient : Client := ⟨some (.obj [("last_check", .float .inf)]), []⟩

/-- With an infinite stamp the check does not return. -/
theorem infinite_stamp_raises : ¬ ReturnsSafely sample deadWorld periodicCheck stampedClient := by
  have hlocal : readLocalVersion sample deadWorld = .ok "3.7.0" := by decide +kernel
  have hlast : loadLastCheck sample stampedClient.file = .inf := by decide +kernel
  have hlimit : rateLimit sample periodicCheck .inf = .error .overflowError := rfl
  have hrun : checkAndUpdate sample deadWorld periodicCheck stampedClient
      = .error .overflowError stampedClient := by
    unfold checkAndUpdate
    rw [hlocal]
    show (PyM.ofExcept (rateLimit sample periodicCheck (loadLastCheck sample stampedClient.file))
      >>= _) stampedClient = _
    rw [hlast, hlimit]
    rfl
  rintro ⟨o, s', evs, hok, -⟩
  cases hrun.symm.trans hok

end SelfUpdate

end NeuraHash
