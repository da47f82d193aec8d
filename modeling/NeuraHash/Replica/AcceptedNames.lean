import NeuraHash.Python.Digits
import NeuraHash.Replica.Lane

/-!
# Which events a manifest lists (`accepted_events_in`)

A catch-up reads the accepted events off the names of the manifest, which any miner can add to. A
name of the campaign counts when what follows the prefix is a digit text, and Python's digits are
more than the encoder's: a leading zero, another script, a superscript.

`accepted_events_iff` says for which manifests the events are those whose own name is listed: every
digit text after the prefix is a plain decimal numeral. Names of other campaigns never count.
-/

namespace NeuraHash

open Py

/-- `normalize_campaign_id(cid)`. -/
def normalizeCampaignId (T : PyText) (cid : Json) : Option CampaignId :=
  if cid.notNone then
    let s := T.lower (T.strip (cid.toStr T))
    if h : (∀ c ∈ s.toList, isLowerHex c = true) ∧ 8 ≤ s.length ∧ s.length ≤ 64 then
      some ⟨s, h.1, h.2⟩
    else none
  else none

/-- `str.isdigit` and `int` as Python has them, of what the code reads. -/
structure ReadsNumerals (E : MinerEnv) : Prop where
  isDigit : ∀ s, E.isDigit s = strIsDigit s
  parseInt : ∀ n : ℕ, E.parseInt n.repr = some (n : ℤ)

/-- Every digit text after the campaign's prefix is written as the encoder writes it. -/
def PlainlyNumbered (man : Manifest) (campaign : Option CampaignId) : Prop :=
  ∀ name ∈ man.keys, ∀ s, acceptedSuffix campaign name = some s → strIsDigit s = true →
    ∃ e : ℕ, s = e.repr

/-- The digit texts after the campaign's prefix. -/
def numeralsIn (man : Manifest) (campaign : Option CampaignId) : List String :=
  (man.keys.filterMap (acceptedSuffix campaign)).filter strIsDigit

section Names

variable {E : MinerEnv} {campaign : Option CampaignId} {man : Manifest}

theorem isPrefixOf?_eq_some {l l' t : List Char} : l.isPrefixOf? l' = some t ↔ l' = l ++ t := by
  induction l generalizing l' with
  | nil => simp [List.isPrefixOf?, eq_comm]
  | cons a l ih => cases l' with
    | nil => simp [List.isPrefixOf?]
    | cons b l' =>
      by_cases hab : a = b
      · subst hab
        simp [List.isPrefixOf?, ih]
      · simp [List.isPrefixOf?, hab, Ne.symm hab]

theorem acceptedSuffix_eq_some {name s : String} :
    acceptedSuffix campaign name = some s ↔ name = acceptedPrefix campaign ++ s := by
  unfold acceptedSuffix
  rw [Option.map_eq_some_iff]
  constructor
  · rintro ⟨t, ht, rfl⟩
    apply String.toList_injective
    rw [isPrefixOf?_eq_some.mp ht, String.toList_append, String.toList_ofList]
  · rintro rfl
    exact ⟨s.toList, isPrefixOf?_eq_some.mpr String.toList_append, String.ofList_toList⟩

theorem not_isLowerHex_mem {cid : CampaignId} {c : Char} (hc : isLowerHex c = false) :
    c ∉ cid.text.toList := fun hmem => by
  rw [cid.isHex c hmem] at hc
  cases hc

/-- Where a campaign's id ends in a name. -/
theorem takeWhile_text (cid : CampaignId) (l : List Char) :
    (cid.text.toList ++ '/' :: l).takeWhile (· ≠ '/') = cid.text.toList := by
  have hslash : ∀ c ∈ cid.text.toList, (decide (c ≠ '/')) = true := fun c hc => by
    rw [decide_eq_true_eq]
    rintro rfl
    exact not_isLowerHex_mem (by decide) hc
  rw [List.takeWhile_append_of_pos hslash, List.takeWhile_cons_of_neg (by simp), List.append_nil]

/-- What follows the common stem of the accepted names. -/
theorem toList_acceptedPrefix (campaign : Option CampaignId) :
    (acceptedPrefix campaign).toList = "sharddiloco/glm/accepted/".toList ++
      match campaign with
      | none => ['r']
      | some cid => cid.text.toList ++ ['/', 'r'] := by
  cases campaign with
  | none => rfl
  | some cid =>
    show ("sharddiloco/glm/accepted/" ++ cid.text ++ "/r").toList = _
    rw [String.toList_append, String.toList_append, List.append_assoc]
    rfl

/-- Two campaigns, or a campaign and the flat family, share no name. -/
theorem prefix_apart {campaign' : Option CampaignId} (hne : campaign' ≠ campaign) (s : String) :
    acceptedSuffix campaign (acceptedPrefix campaign' ++ s) = none := by
  rw [Option.eq_none_iff_forall_not_mem]
  intro t ht
  have heq := congrArg String.toList (acceptedSuffix_eq_some.mp ht)
  rw [String.toList_append, String.toList_append, toList_acceptedPrefix, toList_acceptedPrefix,
    List.append_assoc, List.append_assoc] at heq
  have htail := List.append_cancel_left heq
  have hr : ∀ (cid : CampaignId) (l l' : List Char),
      ['r'] ++ l ≠ (cid.text.toList ++ ['/', 'r']) ++ l' := fun cid l l' h => by
    cases htext : cid.text.toList with
    | nil =>
      rw [htext] at h
      cases (List.cons.inj h).1
    | cons c cs =>
      rw [htext] at h
      obtain ⟨rfl, -⟩ := List.cons.inj h
      have hnone : 'r' ∉ cid.text.toList := not_isLowerHex_mem (by decide)
      exact hnone (by rw [htext]; simp)
  match campaign, campaign' with
  | none, none => exact hne rfl
  | some cid, none => exact hr cid _ _ htail
  | none, some cid => exact hr cid _ _ htail.symm
  | some cid, some cid' =>
    have htexts := congrArg (List.takeWhile (· ≠ '/')) htail
    dsimp only at htexts
    rw [List.append_assoc, List.append_assoc] at htexts
    have hsame : cid'.text.toList = cid.text.toList := by
      rw [← takeWhile_text cid' ('r' :: s.toList), ← takeWhile_text cid ('r' :: t.toList)]
      exact htexts
    apply hne
    cases cid
    cases cid'
    cases String.toList_injective hsame
    rfl

theorem mem_numeralsIn {s : String} :
    s ∈ numeralsIn man campaign ↔ acceptedPrefix campaign ++ s ∈ man.keys ∧ strIsDigit s = true := by
  unfold numeralsIn
  rw [List.mem_filter, List.mem_filterMap]
  refine and_congr_left fun _ => ?_
  constructor
  · rintro ⟨name, hname, hsuffix⟩
    rwa [← acceptedSuffix_eq_some.mp hsuffix]
  · intro hmem
    exact ⟨_, hmem, acceptedSuffix_eq_some.mpr rfl⟩

theorem nodup_numeralsIn : (numeralsIn man campaign).Nodup := by
  refine List.Nodup.filter _ (List.Nodup.filterMap ?_ man.nodup)
  intro name name' s hs hs'
  rw [acceptedSuffix_eq_some.mp hs, acceptedSuffix_eq_some.mp hs']

theorem acceptedEventsIn_eq (hE : ReadsNumerals E) :
    acceptedEventsIn E man campaign = (numeralsIn man campaign).mapM (intOfText E.toPyText) >>=
      fun l => .ok (l.insertionSort (· ≤ ·)) := by
  unfold acceptedEventsIn numeralsIn
  rw [show E.isDigit = strIsDigit from funext hE.isDigit]
  rfl

/-- The names that count are those that the plain numerals have. -/
theorem numeral_of_event {e : ℤ} (he : 0 ≤ e) (hmem : acceptedName campaign e ∈ man.keys) :
    e.repr ∈ numeralsIn man campaign := by
  lift e to ℕ using he
  exact mem_numeralsIn.mpr ⟨hmem, strIsDigit_of_isDigits (Platform.isDigits_repr e)⟩

/-- An exact answer uses up every digit text, so each is the numeral of an event. -/
theorem plainlyNumbered_of_exact {events : List ℤ} {values : List ℤ}
    (hvalues : (numeralsIn man campaign).mapM (intOfText E.toPyText) = .ok values)
    (hperm : events.Perm values) (hdistinct : events.Nodup)
    (hmem : ∀ e ∈ events, 0 ≤ e ∧ acceptedName campaign e ∈ man.keys) :
    PlainlyNumbered man campaign := by
  have hlength : (numeralsIn man campaign).length = events.length := by
    rw [hperm.length_eq]
    exact (forall₂_of_mapM hvalues).length_eq
  have hnodup : (events.map Int.repr).Nodup :=
    hdistinct.map fun _ _ h => Json.int_repr_injective h
  have hsubset : events.map Int.repr ⊆ numeralsIn man campaign := fun s hs => by
    obtain ⟨e, he, rfl⟩ := List.mem_map.mp hs
    exact numeral_of_event (hmem e he).1 (hmem e he).2
  have hall : (events.map Int.repr).Perm (numeralsIn man campaign) :=
    (List.subperm_of_subset hnodup hsubset).perm_of_length_le (by simp [hlength])
  intro name hname s hs hdigits
  have hs' : s ∈ numeralsIn man campaign :=
    mem_numeralsIn.mpr ⟨acceptedSuffix_eq_some.mp hs ▸ hname, hdigits⟩
  obtain ⟨e, he, rfl⟩ := List.mem_map.mp (hall.mem_iff.mpr hs')
  obtain ⟨n, rfl⟩ := Int.eq_ofNat_of_zero_le (hmem e he).1
  exact ⟨n, rfl⟩

theorem mapM_numerals (hE : ReadsNumerals E) (ns : List ℕ) :
    (ns.map Nat.repr).mapM (intOfText E.toPyText) = .ok (ns.map (↑)) := by
  induction ns with
  | nil => rfl
  | cons n ns ih =>
    have hhead : intOfText E.toPyText n.repr = .ok (n : ℤ) := by
      unfold intOfText
      rw [hE.parseInt]
    rw [List.map_cons, List.mapM_cons, hhead, ih]
    rfl

theorem exists_numerals {l : List String} (h : ∀ s ∈ l, ∃ e : ℕ, s = e.repr) :
    ∃ ns : List ℕ, l = ns.map Nat.repr := by
  induction l with
  | nil => exact ⟨[], rfl⟩
  | cons s l ih =>
    obtain ⟨n, rfl⟩ := h s List.mem_cons_self
    obtain ⟨ns, rfl⟩ := ih fun t ht => h t (List.mem_cons_of_mem _ ht)
    exact ⟨n :: ns, rfl⟩

theorem exact_of_plainlyNumbered (hE : ReadsNumerals E) (h : PlainlyNumbered man campaign) :
    ∃ events, acceptedEventsIn E man campaign = .ok events ∧ events.Pairwise (· < ·) ∧
      ∀ e : ℤ, e ∈ events ↔ 0 ≤ e ∧ acceptedName campaign e ∈ man.keys := by
  obtain ⟨ns, hns⟩ : ∃ ns : List ℕ, numeralsIn man campaign = ns.map Nat.repr :=
    exists_numerals fun s hs => by
      obtain ⟨hname, hdigits⟩ := mem_numeralsIn.mp hs
      exact h _ hname s (acceptedSuffix_eq_some.mpr rfl) hdigits
  have hnodup : (ns.map ((↑) : ℕ → ℤ)).Nodup := by
    have hnumerals : (numeralsIn man campaign).Nodup := nodup_numeralsIn
    rw [hns] at hnumerals
    exact (List.Nodup.of_map _ hnumerals).map Nat.cast_injective
  refine ⟨(ns.map (↑)).insertionSort (· ≤ ·), ?_, ?_, fun e => ?_⟩
  · rw [acceptedEventsIn_eq hE, hns, mapM_numerals hE]
    rfl
  · have hsorted := List.pairwise_insertionSort (· ≤ ·) (ns.map ((↑) : ℕ → ℤ))
    have hdistinct := (List.perm_insertionSort (· ≤ ·) (ns.map ((↑) : ℕ → ℤ))).nodup_iff.mpr hnodup
    exact (hsorted.and hdistinct).imp fun hab => lt_of_le_of_ne hab.1 hab.2
  · rw [List.mem_insertionSort, List.mem_map]
    constructor
    · rintro ⟨n, hn, rfl⟩
      have hmem : n.repr ∈ numeralsIn man campaign := hns ▸ List.mem_map_of_mem hn
      exact ⟨Int.natCast_nonneg n, (mem_numeralsIn.mp hmem).1⟩
    · rintro ⟨he, hmem⟩
      have hnumeral := numeral_of_event he hmem
      rw [hns] at hnumeral
      obtain ⟨n, hn, heq⟩ := List.mem_map.mp hnumeral
      exact ⟨n, hn, Json.int_repr_injective heq⟩

theorem numeralsIn_erase {name : String} (h : acceptedSuffix campaign name = none) :
    numeralsIn (man.erase name) campaign = numeralsIn man campaign := by
  have hkeys : (man.erase name).keys = man.keys.filter (· ≠ name) := by
    show (man.entries.filter fun p => p.1 ≠ name).map Prod.fst = (man.entries.map Prod.fst).filter _
    rw [List.filter_map]
    rfl
  unfold numeralsIn
  rw [hkeys, List.filterMap_filter]
  congr 1
  refine List.filterMap_congr fun name' _ => ?_
  by_cases heq : name' = name
  · simp [heq, h]
  · simp [heq]

end Names

/-! ## A miner that reads digits as Python does -/

/-- An executable miner with Python's digits, and an `int` that reads plain numerals. -/
def MinerEnv.unicode : MinerEnv :=
  { MinerEnv.digits with
    isDigit := strIsDigit
    parseInt s := if s.toList.all numericChar then s.toInt? else none }

theorem readsNumerals_unicode : ReadsNumerals MinerEnv.unicode where
  isDigit _ := rfl
  parseInt n := by
    have hall : n.repr.toList.all numericChar = true :=
      List.all_eq_true.mpr fun c hc => Json.mem_intText (n := n) hc
    show (if n.repr.toList.all numericChar then n.repr.toInt? else none) = _
    rw [if_pos hall]
    exact Nat.toInt?_repr n

/-- A manifest with the given names. -/
def listingNames (names : List String) : Manifest := Dict.ofList (names.map fun n => (n, Json.null))

/-- Two accepted records and the pointer. -/
def twoRecords : Manifest :=
  listingNames ["sharddiloco/glm/accepted/r12", "sharddiloco/glm/accepted/r3", "pointer"]

theorem plainlyNumbered_twoRecords : PlainlyNumbered twoRecords none := by
  have hkeys : twoRecords.keys.filterMap (acceptedSuffix none) = ["12", "3"] := by decide +kernel
  intro name hname s hs _
  have hmem : s ∈ twoRecords.keys.filterMap (acceptedSuffix none) :=
    List.mem_filterMap.mpr ⟨name, hname, hs⟩
  rw [hkeys] at hmem
  rcases List.mem_cons.mp hmem with rfl | hmem
  · exact ⟨12, by decide⟩
  · rw [List.mem_singleton.mp hmem]
    exact ⟨3, by decide⟩

end NeuraHash
