import NeuraHash.Platform
import NeuraHash.Systems.Cycles

/-!
# Data domains (`domains_list`, `domains_canonical`, `domains_digest`)

Expert `E` trains on the domain `doms[E % len(doms)]` of the node's `--domains`. Two nodes need the
same mapping, not the same text: `domains_canonical` is the shortest list with the mapping of a
list, and `domains_digest` the digest of that list, one name a line.

The canonical list determines the mapping, and the mapping the canonical list. A name may hold a
line feed, and then the digest of one name can be that of two: `domains_digest_iff`.
-/

namespace NeuraHash

open Py

/-- `domains_list(args)`. -/
def domainsList (T : PyText) (domains : String) : List String :=
  ((domains.toList.splitOn ',').map fun d => T.strip (String.ofList d)).filter (· ≠ "")

/-- `domains_canonical(doms)`. -/
def domainsCanonical (doms : List String) : List String :=
  match (List.range' 1 doms.length).find? (Cycles.isPeriod doms) with
  | some p => doms.take p
  | none => doms

/-- `domains_digest(doms)`. -/
def domainsDigest (P : Platform) (doms : List String) : String :=
  P.sha256 (utf8 ("\n".intercalate (domainsCanonical doms)))

/-- `doms[E % len(doms)]`. -/
abbrev domainOf (doms : List String) (E : ℕ) : Option String := Cycles.cycle doms E

/-- Different shortest blocks of names make the same lines. -/
def Merged (doms doms' : List String) : Prop :=
  Cycles.block doms ≠ Cycles.block doms' ∧
    "\n".intercalate (Cycles.block doms) = "\n".intercalate (Cycles.block doms')

section Domains

variable {P : Platform} {doms doms' : List String}

theorem domainsCanonical_eq (hne : doms ≠ []) : domainsCanonical doms = Cycles.block doms := by
  unfold domainsCanonical
  rw [Cycles.find?_isPeriod hne]
  rfl

theorem domainsDigest_eq_iff (hfree : CollisionFree P) :
    domainsDigest P doms = domainsDigest P doms' ↔
      "\n".intercalate (domainsCanonical doms) = "\n".intercalate (domainsCanonical doms') := by
  unfold domainsDigest
  constructor
  · intro h
    have hbytes := hfree h
    exact utf8_injective hbytes
  · intro h
    rw [h]

/-- Names without a line feed are read back from their lines. -/
theorem not_merged (h : ∀ d ∈ doms ++ doms', '\n' ∉ d.toList) (hne : doms ≠ [])
    (hne' : doms' ≠ []) : ¬ Merged doms doms' := by
  rintro ⟨hblocks, hlines⟩
  have hsplit : ∀ l : List String, l ≠ [] → (∀ d ∈ l, '\n' ∉ d.toList) →
      ("\n".intercalate l).toList.splitOn '\n' = l.map String.toList := fun l hl hfeed => by
    rw [String.toList_intercalate]
    refine List.splitOn_intercalate '\n' ?_ (by simpa using hl)
    intro t ht
    obtain ⟨d, hd, rfl⟩ := List.mem_map.mp ht
    exact hfeed d hd
  have hnil : ∀ l : List String, l ≠ [] → Cycles.block l ≠ [] := fun l hl =>
    List.length_pos_iff.mp (Cycles.length_block hl ▸ Cycles.minimalPeriod_pos hl)
  have hfeed : ∀ d ∈ Cycles.block doms, '\n' ∉ d.toList := fun d hd =>
    h d (List.mem_append_left _ (List.mem_of_mem_take hd))
  have hfeed' : ∀ d ∈ Cycles.block doms', '\n' ∉ d.toList := fun d hd =>
    h d (List.mem_append_right _ (List.mem_of_mem_take hd))
  apply hblocks
  have hsame := congrArg (fun s : String => s.toList.splitOn '\n') hlines
  rw [hsplit _ (hnil _ hne) hfeed, hsplit _ (hnil _ hne') hfeed'] at hsame
  exact List.map_injective_iff.mpr (fun _ _ h => String.toList_injective h) hsame

/-- **When the digest decides the mapping**: the canonical list always does, its digest does unless
different blocks of names make the same lines. -/
theorem domains_digest_iff (hfree : CollisionFree P) {args args' : String}
    (hne : domainsList P.toPyText args ≠ []) (hne' : domainsList P.toPyText args' ≠ []) :
    let doms := domainsList P.toPyText args
    let doms' := domainsList P.toPyText args'
    (domainsCanonical doms = domainsCanonical doms' ↔ ∀ E, domainOf doms E = domainOf doms' E) ∧
    ((domainsDigest P doms = domainsDigest P doms' ↔ ∀ E, domainOf doms E = domainOf doms' E) ↔
      ¬ Merged doms doms') ∧
    ((∀ d ∈ doms ++ doms', '\n' ∉ d.toList) → ¬ Merged doms doms') := by
  intro doms doms'
  have hmapping : Cycles.block doms = Cycles.block doms' ↔
      ∀ E, domainOf doms E = domainOf doms' E := by
    rw [Cycles.block_eq_iff hne hne', funext_iff]
  refine ⟨?_, ?_, fun h => not_merged h hne hne'⟩
  · rw [domainsCanonical_eq hne, domainsCanonical_eq hne', hmapping]
  · rw [domainsDigest_eq_iff hfree, domainsCanonical_eq hne, domainsCanonical_eq hne', ← hmapping]
    unfold Merged
    constructor
    · rintro hdecides ⟨hblocks, hlines⟩
      exact hblocks (hdecides.mp hlines)
    · intro hmerged
      refine ⟨fun hlines => ?_, fun hblocks => by rw [hblocks]⟩
      by_contra hblocks
      exact hmerged ⟨hblocks, hlines⟩

end Domains

theorem domains_digest_daily :
    domainsDigest Platform.ideal (domainsList Platform.ideal.toPyText "daily,daily")
      = domainsDigest Platform.ideal (domainsList Platform.ideal.toPyText " daily ") := by
  have hdaily : domainsList Platform.ideal.toPyText "daily,daily" = ["daily", "daily"] := by
    decide +kernel
  have honce : domainsList Platform.ideal.toPyText " daily " = ["daily"] := by decide +kernel
  have hmain := @domains_digest_iff Platform.ideal Platform.ideal_collisionFree "daily,daily" " daily "
    (by rw [hdaily]; simp) (by rw [honce]; simp)
  have hfeed : ∀ d ∈ ["daily", "daily"] ++ ["daily"], '\n' ∉ d.toList := by decide
  dsimp only at hmain
  rw [hdaily, honce] at hmain ⊢
  exact (hmain.2.1.mpr (hmain.2.2 hfeed)).mpr (hmain.1.mp (by decide))

/-- One name of two lines has the digest of two names. -/
theorem domains_digest_two_lines :
    ¬ ∀ (P : Platform), CollisionFree P → ∀ args args' : String,
        domainsList P.toPyText args ≠ [] → domainsList P.toPyText args' ≠ [] →
        (domainsDigest P (domainsList P.toPyText args)
            = domainsDigest P (domainsList P.toPyText args') ↔
          ∀ E, domainOf (domainsList P.toPyText args) E
            = domainOf (domainsList P.toPyText args') E) := by
  intro hclaim
  have hone : domainsList Platform.ideal.toPyText "code\nweb" = ["code\nweb"] := by decide +kernel
  have htwo : domainsList Platform.ideal.toPyText "code,web" = ["code", "web"] := by decide +kernel
  have h := hclaim Platform.ideal Platform.ideal_collisionFree "code\nweb" "code,web"
    (by rw [hone]; simp) (by rw [htwo]; simp)
  rw [hone, htwo] at h
  have hdigest : domainsDigest Platform.ideal ["code\nweb"]
      = domainsDigest Platform.ideal ["code", "web"] := by
    unfold domainsDigest
    rw [show domainsCanonical ["code\nweb"] = ["code\nweb"] from by decide,
      show domainsCanonical ["code", "web"] = ["code", "web"] from by decide]
    rfl
  exact absurd (h.mp hdigest 0) (by decide)

end NeuraHash
