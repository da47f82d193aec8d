import NeuraHash.Platform
import NeuraHash.Systems.Trials

/-!
# The training bundle (`tools/bundle_pointer.py`, `tools/ipfs_checkpoint.py`)

A bundle record carries a `sha256`, perhaps an IPFS `cid`, and an ordered list of seeds.
`resolve_bundle` tries the seeds and writes what the first good one serves. A web seed is checked
against the `sha256` and installed in one replacement. An `ipfs:` seed is fetched over gateways,
checked against the `cid` only, and written straight into place.

`resolve_bundle_iff` says when the hash decides nevertheless: the first seed that serves is no `ipfs:`
seed with other content, and where none serves no gateway's write has broken off.
-/

namespace NeuraHash.Bundle

open Py Systems

/-! ## Fetching over gateways -/

/-- The `ipfs` program of a client. -/
structure IpfsClient where
  /-- What `ipfs add -qn` prints for some bytes, by CID version; `none` when it cannot be run. -/
  add : String → Bytes → Option String
  /-- `NEURAHASH_IPFS_STRICT`. -/
  strict : Bool

/-- `_cid_matches(cid, data)`; a CID that is no text raises, which the caller takes for a failure. -/
def cidMatches (C : IpfsClient) (cid : Json) (data : Bytes) : Bool :=
  match cid with
  | .str c =>
    match C.add (if "Qm".toList <+: c.toList then "0" else "1") data with
    | some got => got == c
    | none => !C.strict
  | _ => false

/-- How writing a file ends. A write that breaks off may leave something in its place. -/
inductive Written where
  | done
  | broken (left : Option Bytes)

/-- What becomes of one gateway. A request that raises has no reply. -/
structure Gateway where
  reply : Option Bytes
  write : Written

/-- The content a gateway puts into place. -/
def gatewayServes (C : IpfsClient) (cid : Json) (g : Gateway) : Option Bytes :=
  match g.reply, g.write with
  | some data, .done => if cidMatches C cid data then some data else none
  | _, _ => none

/-- What the broken write of a gateway leaves in place. -/
def gatewayLeaves (C : IpfsClient) (cid : Json) (g : Gateway) : Option Bytes :=
  match g.reply, g.write with
  | some data, .broken left => if cidMatches C cid data then left else none
  | _, _ => none

/-- `ipfs_checkpoint.fetch(cid, dest)` without known pinners: whether it returns, and what stands at
`dest` then. -/
def fetch (C : IpfsClient) (cid : Json) (gateways : List Gateway) (dest : Option Bytes) :
    Bool × Option Bytes :=
  let (served, d) := tryAll (gatewayServes C cid) (gatewayLeaves C cid) gateways dest
  (served.isSome, d)

/-! ## Trying the seeds -/

/-- What becomes of one seed. -/
structure SeedAnswer where
  /-- `ipfs_checkpoint` can be imported. -/
  importable : Bool
  gateways : List Gateway
  /-- `_http_get(url, timeout)`, where it returns. -/
  http : Option Bytes
  /-- `_atomic_write(dest, data)` returns. -/
  installed : Bool

structure Try where
  seed : Json
  answer : SeedAnswer

/-- The fields of a record that the loop reads. -/
structure Fields where
  sha : Json
  cid : Json
  size : Json

section resolve

variable (P : Platform) (C : IpfsClient) (f : Fields)

/-- The body of the loop: the text it returns, if it returns, and what stands at `dest`. -/
def trySeed (t : Try) (dest : Option Bytes) : Option String × Option Bytes :=
  match t.seed with
  | .str seed =>
    if "ipfs:".toList <+: seed.toList then
      if f.cid.truthy && t.answer.importable then
        let (served, d) := fetch C f.cid t.answer.gateways dest
        (if served then some seed else none, d)
      else (none, dest)
    else
      match f.sha with
      | .str sha =>
        match t.answer.http with
        | some data =>
          if P.sha256 data ≠ sha then (none, dest)
          else if f.size.notNone && !Json.pyEq (.int data.length) f.size then (none, dest)
          else if t.answer.installed then (some (seed.replace "{sha}" sha), some data)
          else (none, dest)
        | none => (none, dest)
      -- `seed.replace` raises
      | _ => (none, dest)
  -- `seed.startswith` raises
  | _ => (none, dest)

def trySeeds : List Try → Option Bytes → Option String × Option Bytes
  | [], dest => (none, dest)
  | t :: ts, dest =>
    match trySeed P C f t dest with
    | (some seed, d) => (some seed, d)
    | (none, d) => trySeeds ts d

end resolve

/-- The fields and the seeds of a record. -/
def readRecord (record : Json) : Except PyErr (Fields × List Json) := do
  let sha ← record.item "sha256"
  let cid ← record.getD "cid" .null
  let size ← record.getD "size" .null
  let seeds ← (← record.getD "seeds" (.arr [])).toList
  return (⟨sha, cid, size⟩, seeds)

/-- What is raised when every seed is exhausted: the message slices the hash. -/
def exhausted : Json → PyErr
  | .str _ | .arr _ => .raised "RuntimeError"
  | _ => .typeError

/-- The tries of a run, in order. -/
def triesOf (seeds : List Json) (answers : ℕ → SeedAnswer) : List Try :=
  seeds.mapIdx fun i seed => ⟨seed, answers i⟩

/-- `resolve_bundle(record, dest)`: what it returns, and what stands at `dest` afterwards. -/
def resolveBundle (P : Platform) (C : IpfsClient) (record : Json) (answers : ℕ → SeedAnswer)
    (dest : Option Bytes) : Except PyErr String × Option Bytes :=
  match readRecord record with
  | .error e => (.error e, dest)
  | .ok (f, seeds) =>
    match trySeeds P C f (triesOf seeds answers) dest with
    | (some seed, d) => (.ok seed, d)
    | (none, d) => (.error (exhausted f.sha), d)

/-! ## What a seed serves -/

section serves

variable (P : Platform) (C : IpfsClient) (f : Fields)

/-- The loop sends the seed to the gateways. -/
def IsIpfs (t : Try) : Prop := ∃ seed, t.seed = .str seed ∧ "ipfs:".toList <+: seed.toList

instance (t : Try) : Decidable (IsIpfs t) :=
  match h : t.seed with
  | .str seed => decidable_of_iff ("ipfs:".toList <+: seed.toList)
      ⟨fun hp => ⟨seed, h, hp⟩, fun ⟨_, hs, hp⟩ => by rw [h] at hs; cases hs; exact hp⟩
  | .null | .bool _ | .int _ | .float _ | .arr _ | .obj _ =>
    isFalse fun ⟨_, hs, _⟩ => by rw [h] at hs; cases hs

/-- The content a seed puts at `dest` when its turn comes. -/
def seedServes (t : Try) : Option Bytes :=
  if IsIpfs t then
    if f.cid.truthy && t.answer.importable then
      t.answer.gateways.findSome? (gatewayServes C f.cid)
    else none
  else
    match t.seed, f.sha, t.answer.http with
    | .str _, .str sha, some data =>
      if P.sha256 data = sha ∧ (f.size.notNone = true → Json.pyEq (.int data.length) f.size = true)
          ∧ t.answer.installed = true then some data
      else none
    | _, _, _ => none

/-- What a seed that fails leaves at `dest`: what the last broken write of a gateway did. -/
def seedLeaves (t : Try) : Option Bytes :=
  if IsIpfs t ∧ (f.cid.truthy && t.answer.importable) = true then
    (t.answer.gateways.filterMap (gatewayLeaves C f.cid)).getLast?
  else none

variable {P C f}

theorem isIpfs_of_str {t : Try} {seed : String} (h : t.seed = .str seed) :
    IsIpfs t ↔ "ipfs:".toList <+: seed.toList := by
  constructor
  · rintro ⟨seed', hs, hp⟩
    rw [h] at hs
    cases hs
    exact hp
  · exact fun hp => ⟨seed, h, hp⟩

theorem not_isIpfs {t : Try} (h : ∀ seed, t.seed ≠ .str seed) : ¬ IsIpfs t :=
  fun ⟨seed, hs, _⟩ => h seed hs

/-- **One turn of the loop.** -/
theorem trySeed_eq (t : Try) (dest : Option Bytes) :
    (trySeed P C f t dest).1.isSome = (seedServes P C f t).isSome
      ∧ (trySeed P C f t dest).2 = (seedServes P C f t).or ((seedLeaves C f t).or dest) := by
  cases hseed : t.seed with
  | str seed =>
    unfold trySeed seedServes seedLeaves
    rw [hseed]
    dsimp only
    simp only [isIpfs_of_str hseed]
    by_cases hp : "ipfs:".toList <+: seed.toList
    · -- the gateways
      rw [if_pos hp, if_pos hp]
      by_cases hgo : (f.cid.truthy && t.answer.importable) = true
      · simp only [hgo, hp, and_self, if_true]
        unfold fetch
        have hserved := fst_tryAll (gatewayServes C f.cid) (gatewayLeaves C f.cid)
          t.answer.gateways dest
        have hstands := snd_tryAll (gatewayServes C f.cid) (gatewayLeaves C f.cid)
          t.answer.gateways dest
        cases htry : tryAll (gatewayServes C f.cid) (gatewayLeaves C f.cid) t.answer.gateways dest
        rw [htry] at hserved hstands
        dsimp only at hserved hstands ⊢
        subst hserved
        refine ⟨?_, hstands⟩
        cases hfind : t.answer.gateways.find? fun g => (gatewayServes C f.cid g).isSome with
        | none =>
          have hnone : t.answer.gateways.findSome? (gatewayServes C f.cid) = none := by
            rw [List.findSome?_eq_none_iff]
            intro g hg
            simpa using List.find?_eq_none.mp hfind g hg
          rw [hnone]
          rfl
        | some g =>
          rw [findSome?_of_find? _ hfind]
          obtain ⟨b, hb⟩ := exists_of_find? _ hfind
          rw [hb]
          rfl
      · simp [hgo]
    · -- the web
      rw [if_neg hp, if_neg hp, if_neg fun h => hp h.1, Option.none_or]
      cases f.sha with
      | str sha =>
        dsimp only
        cases t.answer.http with
        | none => exact ⟨rfl, rfl⟩
        | some data =>
          dsimp only
          by_cases hsha : P.sha256 data = sha
          · by_cases hsize : f.size.notNone = true ∧ Json.pyEq (.int data.length) f.size = false
            · simp [hsha, hsize.1, hsize.2]
            · have hsize' : f.size.notNone = true →
                  Json.pyEq (.int data.length) f.size = true := by
                intro hn
                cases heq : Json.pyEq (.int data.length) f.size with
                | true => rfl
                | false => exact absurd ⟨hn, heq⟩ hsize
              have hcheck : (f.size.notNone && !Json.pyEq (.int data.length) f.size) = false := by
                cases hn : f.size.notNone with
                | false => rfl
                | true => rw [hsize' hn]; rfl
              cases hi : t.answer.installed with
              | true =>
                rw [if_neg (not_not.mpr hsha), hcheck]
                simp [hsha, if_pos hsize']
              | false => simp [hsha, hcheck]
          · simp [hsha]
      | _ => exact ⟨rfl, rfl⟩
  | _ =>
    have hno : ¬ IsIpfs t := not_isIpfs fun seed hs => by rw [hseed] at hs; cases hs
    unfold trySeed seedServes seedLeaves
    rw [hseed, if_neg hno, if_neg fun h => hno h.1]
    exact ⟨rfl, rfl⟩

/-- **The loop over the seeds.** -/
theorem trySeeds_eq (ts : List Try) (dest : Option Bytes) :
    (trySeeds P C f ts dest).1.isSome = (ts.find? fun t => (seedServes P C f t).isSome).isSome
      ∧ (trySeeds P C f ts dest).2 = (ts.findSome? (seedServes P C f)).or
        ((ts.filterMap (seedLeaves C f)).getLast?.or dest) := by
  rw [← snd_tryAll]
  induction ts generalizing dest with
  | nil => exact ⟨rfl, rfl⟩
  | cons t ts ih =>
    obtain ⟨hreturns, hleft⟩ := trySeed_eq (P := P) (C := C) (f := f) t dest
    unfold trySeeds tryAll
    cases htry : trySeed P C f t dest with
    | mk served d =>
      rw [htry] at hreturns hleft
      dsimp only at hreturns hleft
      cases hserve : seedServes P C f t with
      | some b =>
        rw [hserve] at hreturns hleft
        cases served with
        | none => cases hreturns
        | some seed => exact ⟨by simp [hserve], hleft⟩
      | none =>
        rw [hserve, Option.none_or] at hleft
        rw [hserve] at hreturns
        cases served with
        | some seed => cases hreturns
        | none =>
          subst hleft
          dsimp only
          rw [List.find?_cons_of_neg (by simp [hserve])]
          exact ih _

/-- A seed from the web serves what the record's hash names. -/
theorem sha_of_web {t : Try} (ht : ¬ IsIpfs t) {data : Bytes}
    (h : seedServes P C f t = some data) : f.sha = .str (P.sha256 data) := by
  unfold seedServes at h
  rw [if_neg ht] at h
  split at h
  · rename_i sha data' _ hsha _
    split at h
    · rename_i hchecks
      cases h
      rw [hsha, hchecks.1]
    · cases h
  · cases h

end serves

/-! ## The hash decides -/

/-- Where the call returns, what stands at `dest` has the record's hash; where it raises, `dest` is
as it was. -/
def HashDecides (P : Platform) (record : Json) (dest : Option Bytes)
    (r : Except PyErr String × Option Bytes) : Prop :=
  match r.1 with
  | .ok _ => ∃ data, r.2 = some data ∧ record.item "sha256" = .ok (.str (P.sha256 data))
  | .error _ => r.2 = dest

/-- The first seed that serves is no `ipfs:` seed with other content than the hash names; and where
no seed serves, no broken write of a gateway has changed what stands at `dest`. -/
def HarmlessTries (P : Platform) (C : IpfsClient) (f : Fields) (ts : List Try)
    (dest : Option Bytes) : Prop :=
  (∀ t data, ts.find? (fun t => (seedServes P C f t).isSome) = some t → IsIpfs t →
      seedServes P C f t = some data → f.sha = .str (P.sha256 data))
    ∧ ((∀ t ∈ ts, seedServes P C f t = none) →
        ∀ left, (ts.filterMap (seedLeaves C f)).getLast? = some left → some left = dest)

/-- `HarmlessTries` for a record whose fields and seeds can be read. -/
def GatewaysHarmless (P : Platform) (C : IpfsClient) (record : Json) (answers : ℕ → SeedAnswer)
    (dest : Option Bytes) : Prop :=
  ∀ f seeds, readRecord record = .ok (f, seeds) →
    HarmlessTries P C f (triesOf seeds answers) dest

theorem readRecord_sha {record : Json} {f : Fields} {seeds : List Json}
    (h : readRecord record = .ok (f, seeds)) : record.item "sha256" = .ok f.sha := by
  unfold readRecord at h
  obtain ⟨sha, hsha, h⟩ := bind_eq_ok.mp h
  obtain ⟨cid, -, h⟩ := bind_eq_ok.mp h
  obtain ⟨size, -, h⟩ := bind_eq_ok.mp h
  obtain ⟨served, -, h⟩ := bind_eq_ok.mp h
  obtain ⟨l, -, h⟩ := bind_eq_ok.mp h
  cases h
  exact hsha

/-- **When bundle resolution trusts only the hash.** -/
theorem resolve_bundle_iff (P : Platform) (C : IpfsClient) (record : Json)
    (answers : ℕ → SeedAnswer) (dest : Option Bytes) :
    HashDecides P record dest (resolveBundle P C record answers dest)
      ↔ GatewaysHarmless P C record answers dest := by
  unfold resolveBundle
  cases hread : readRecord record with
  | error e =>
    refine iff_of_true rfl fun f seeds h => ?_
    rw [hread] at h
    cases h
  | ok fs =>
    obtain ⟨f, seeds⟩ := fs
    obtain ⟨hreturns, hstands⟩ := trySeeds_eq (P := P) (C := C) (f := f) (triesOf seeds answers) dest
    have hsha := readRecord_sha hread
    have hfields : GatewaysHarmless P C record answers dest
        ↔ HarmlessTries P C f (triesOf seeds answers) dest := by
      refine ⟨fun h => h f seeds hread, fun h f' seeds' heq => ?_⟩
      rw [hread] at heq
      cases heq
      exact h
    rw [hfields]
    dsimp only
    cases hfind : (triesOf seeds answers).find? fun t => (seedServes P C f t).isSome with
    | none =>
      -- no seed serves, and the call raises
      have hnone : ∀ t ∈ triesOf seeds answers, seedServes P C f t = none := by
        intro t ht
        simpa using List.find?_eq_none.mp hfind t ht
      rw [hfind] at hreturns
      rw [List.findSome?_eq_none_iff.mpr hnone, Option.none_or] at hstands
      cases htries : trySeeds P C f (triesOf seeds answers) dest with
      | mk served d =>
        rw [htries] at hreturns hstands
        cases served with
        | some seed => cases hreturns
        | none =>
          dsimp only at hstands ⊢
          show d = dest ↔ _
          rw [hstands]
          refine ⟨fun h => ⟨fun t data ht => ?_, fun _ left hleft => ?_⟩, fun h => ?_⟩
          · rw [hfind] at ht
            cases ht
          · rw [hleft] at h
            exact h
          · cases hlast : ((triesOf seeds answers).filterMap (seedLeaves C f)).getLast? with
            | none => rfl
            | some left => exact h.2 hnone left hlast
    | some t =>
      -- the first seed that serves decides
      obtain ⟨data, hdata⟩ := exists_of_find? _ hfind
      have hmem := List.mem_of_find?_eq_some hfind
      rw [hfind] at hreturns
      rw [findSome?_of_find? _ hfind, hdata, Option.some_or] at hstands
      cases htries : trySeeds P C f (triesOf seeds answers) dest with
      | mk served d =>
        rw [htries] at hreturns hstands
        cases served with
        | none => cases hreturns
        | some seed =>
          dsimp only at hstands ⊢
          show (∃ data, d = some data ∧ _) ↔ _
          rw [hstands, hsha]
          constructor
          · rintro ⟨data', heq, hhash⟩
            cases heq
            refine ⟨fun t' data' ht' _ hdata' => ?_, fun hno => ?_⟩
            · rw [hfind] at ht'
              cases ht'
              rw [hdata] at hdata'
              cases hdata'
              exact Except.ok.inj hhash
            · rw [hno t hmem] at hdata
              cases hdata
          · rintro ⟨hipfs, -⟩
            refine ⟨data, rfl, congrArg Except.ok ?_⟩
            by_cases ht : IsIpfs t
            · exact hipfs t data hfind ht hdata
            · exact sha_of_web ht hdata

/-- The gateway serves what the `cid` names, which is not what the `sha256` names. -/
theorem resolve_bundle_wrong_sha : ∃ (C : IpfsClient) (record : Json) (answers : ℕ → SeedAnswer),
    resolveBundle Platform.ideal C record answers none = (.ok "ipfs:", some [104, 105])
      ∧ ¬ HashDecides Platform.ideal record none
          (resolveBundle Platform.ideal C record answers none) := by
  refine ⟨⟨fun _ _ => some "bafy", true⟩,
    .obj [("sha256", .str "aa"), ("cid", .str "bafy"), ("seeds", .arr [.str "ipfs:"])],
    fun _ => ⟨true, [⟨some [104, 105], .done⟩], none, true⟩, by decide +kernel, ?_⟩
  rintro ⟨data, -, hsha⟩
  have htext : Platform.ideal.sha256 data = "aa" := by
    injection Except.ok.inj hsha with h
    exact h.symm
  exact Platform.ideal_sha256_ne (by decide) htext

end NeuraHash.Bundle
