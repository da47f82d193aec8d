import NeuraHash.Clock.Scan

/-!
# The beacon of a round

The seed and the order of a round depend on the set of the commits and on the set of the reveals
that open the unique commit of their signer (`beacon_agreement`): not on the order or the
repetition of any message, and not on any other reveal. Two nonces that open one commit may be
spelled differently, but they are the same bytes, and the seed hashes the bytes.
-/

namespace NeuraHash

open Py

variable {P : Platform} {round : ℤ}

/-! ## Openings -/

/-- The reveal opens the unique commit of its signer. -/
def OpensUniqueCommit (P : Platform) (round : ℤ) (commits : List Json) (rv : Json) : Prop :=
  ∃ s d, route P.toPyText round (readReveal P.toPyText) rv = .ok (.here s)
    ∧ UniqueCommit P.toPyText round commits s d
    ∧ verifyReveal P (commitEnvOf round s d) rv = .ok true

/-- The nonce is hexadecimal text and hashes, with the round and the signer, to the digest. -/
structure Opened (P : Platform) (round : ℤ) (s d n : String) : Prop where
  lower : P.lower s = s
  bytes : ∃ r b, toBytes8 round = .ok r ∧ unhex n = .ok b
    ∧ d = P.sha256 (clockDomain ++ utf8 "|" ++ r ++ utf8 "|" ++ b ++ utf8 "|" ++ utf8 s)

theorem readReveal_lower {rv : Json} {s : String}
    (h : route P.toPyText round (readReveal P.toPyText) rv = .ok (.here s)) : P.lower s = s := by
  unfold route at h
  obtain ⟨r, _, h⟩ := bind_eq_ok.mp h
  obtain ⟨n, _, h⟩ := bind_eq_ok.mp h
  split at h
  · obtain ⟨_, _, h⟩ := bind_eq_ok.mp h
    cases h
  · obtain ⟨s', hs', h⟩ := bind_eq_ok.mp h
    obtain ⟨signer, _, hs'⟩ := bind_eq_ok.mp hs'
    cases h
    cases hs'
    exact P.lower_lower _

/-- A reveal that is an opening opens a trusted commit. -/
theorem RevealMsg.of_eq_opening {commitMap : Dict String String} {rv : Json} {s n : String}
    (h : RevealMsg.of P round commitMap rv = .opening s n) :
    ∃ d, route P.toPyText round (readReveal P.toPyText) rv = .ok (.here s)
      ∧ commitMap.get? s = some d ∧ verifyReveal P (commitEnvOf round s d) rv = .ok true
      ∧ Opened P round s d n := by
  unfold RevealMsg.of at h
  split at h
  · cases h
  · cases h
  · next s' hroute =>
    split at h
    · cases h
    · next d hd =>
      split at h
      · next nonce hverify hnonce =>
        cases h
        refine ⟨d, hroute, hd, hverify, readReveal_lower hroute, ?_⟩
        obtain ⟨r, signer, nonce', hr, hround, hsigner, hnorm, hnonce', hdigest⟩ :=
          verifyReveal_eq_true hverify
        rw [hnonce] at hnonce'
        cases hnonce'
        unfold commitDigest at hdigest
        rw [hround, ok_bind] at hdigest
        obtain ⟨r8, hr8, hdigest⟩ := bind_eq_ok.mp hdigest
        obtain ⟨b, hb, hdigest⟩ := bind_eq_ok.mp hdigest
        cases hdigest
        refine ⟨r8, b, hr8, hb, ?_⟩
        rw [hnorm, show normSigner P.toPyText (.str s) = P.lower s from rfl,
          readReveal_lower hroute]
      · cases h

/-- Under a collision-free digest the bytes of the nonce are determined. -/
theorem Opened.unhex_eq (hcf : CollisionFree P) {s d n n' : String} (h : Opened P round s d n)
    (h' : Opened P round s d n') : unhex n = unhex n' := by
  obtain ⟨r, b, hr, hb, hd⟩ := h.bytes
  obtain ⟨r', b', hr', hb', hd'⟩ := h'.bytes
  rw [hr] at hr'
  cases hr'
  have hbytes := hcf (hd.symm.trans hd')
  rw [List.append_cancel_right_eq, List.append_cancel_right_eq, List.append_cancel_left_eq]
    at hbytes
  rw [hb, hb', hbytes]

/-! ## Seed and order of a set of valid reveals -/

/-- Collecting the results of a function that returns. -/
theorem mapM_eq_ok {α β ε : Type} {f : α → Except ε β} {g : α → β} {l : List α}
    (h : ∀ a ∈ l, f a = .ok (g a)) : l.mapM f = .ok (l.map g) := by
  induction l with
  | nil => rfl
  | cons a l ih =>
    rw [List.mapM_cons, h a (by simp), ok_bind, ih (fun b hb => h b (by simp [hb])), ok_bind]
    rfl

section Valid

variable {valid valid' : Dict String String}

/-- The signers of the valid reveals are in lower case. -/
theorem revealItem_validReveal (hlower : ∀ s ∈ valid.keys, P.lower s = s) :
    (valid.sortedItems.map (validReveal round)).mapM (revealItem P.toPyText)
      = .ok (valid.sortedItems.map toLex) := by
  rw [List.mapM_map]
  refine mapM_eq_ok ?_
  rintro ⟨s, n⟩ hmem
  have hkey : s ∈ valid.keys := Dict.mem_keys_iff.mpr ⟨n, Dict.mem_sortedItems.mp hmem⟩
  show Except.ok (toLex (P.lower s, n)) = _
  rw [hlower s hkey]

/-- The items of a dictionary are already sorted and distinct. -/
theorem sortedSet_sortedItems (valid : Dict String String) :
    sortedSet (valid.sortedItems.map toLex) = valid.sortedItems.map toLex := by
  have hle : (valid.sortedItems.map Prod.fst).Pairwise (· ≤ ·) := by
    rw [Dict.map_fst_sortedItems]
    exact sortedSet_sorted _
  have hne : (valid.sortedItems.map Prod.fst).Pairwise (· ≠ ·) :=
    (valid.sortedItems_perm.map Prod.fst).nodup_iff.mpr valid.nodup
  refine sortedSet_of_pairwise_lt (List.pairwise_map.mpr ?_)
  refine ((List.pairwise_map.mp hle).and (List.pairwise_map.mp hne)).imp ?_
  rintro a b ⟨hab, hab'⟩
  exact Prod.Lex.toLex_lt_toLex.mpr (Or.inl (lt_of_le_of_ne hab hab'))

/-- The seed of the valid reveals. -/
theorem agreeSeed_valid (hlower : ∀ s ∈ valid.keys, P.lower s = s) :
    agreeSeed P (valid.sortedItems.map (validReveal round)) round = (do
      let r ← toBytes8 round
      let parts ← (valid.sortedItems.map toLex).mapM seedPart
      return P.sha256 (clockDomain ++ utf8 "|seed|" ++ r ++ parts.flatten)) := by
  unfold agreeSeed
  rw [revealItem_validReveal hlower, ok_bind, sortedSet_sortedItems]

/-- The order of the valid reveals. -/
theorem agreeOrder_valid (hlower : ∀ s ∈ valid.keys, P.lower s = s) (seed : String) :
    agreeOrder P (valid.sortedItems.map (validReveal round)) seed
      = .ok ((sortedSet valid.keys).insertionSort
          (fun a b => orderKey P seed a ≤ orderKey P seed b)) := by
  have hsigners : (valid.sortedItems.map (validReveal round)).mapM
      (fun r => do return normSigner P.toPyText (← r.item "signer"))
        = (.ok (valid.sortedItems.map Prod.fst) : Except PyErr (List String)) := by
    rw [List.mapM_map]
    refine mapM_eq_ok ?_
    rintro ⟨s, n⟩ hmem
    have hkey : s ∈ valid.keys := Dict.mem_keys_iff.mpr ⟨n, Dict.mem_sortedItems.mp hmem⟩
    show Except.ok (P.lower s) = _
    rw [hlower s hkey]
  unfold agreeOrder
  rw [hsigners, ok_bind, Dict.map_fst_sortedItems,
    sortedSet_congr (fun s => mem_sortedSet (l := valid.keys) (a := s))]
  rfl

/-- The two dictionaries hold the same signers, with nonces of the same bytes. -/
structure SameReveals (valid valid' : Dict String String) : Prop where
  keys : ∀ s, s ∈ valid.keys ↔ s ∈ valid'.keys
  bytes : ∀ s n n', valid.get? s = some n → valid'.get? s = some n' → unhex n = unhex n'

theorem SameReveals.sortedSet_keys (h : SameReveals valid valid') :
    sortedSet valid.keys = sortedSet valid'.keys :=
  sortedSet_congr h.keys

theorem SameReveals.size (h : SameReveals valid valid') : valid.size = valid'.size := by
  have hperm : valid.keys.Perm valid'.keys :=
    (List.perm_ext_iff_of_nodup valid.nodup valid'.nodup).mpr h.keys
  simpa [Dict.keys, Dict.size] using hperm.length_eq

theorem SameReveals.seedParts (h : SameReveals valid valid') :
    (valid.sortedItems.map toLex).map seedPart = (valid'.sortedItems.map toLex).map seedPart := by
  have hkeys : valid.sortedItems.map Prod.fst = valid'.sortedItems.map Prod.fst := by
    rw [Dict.map_fst_sortedItems, Dict.map_fst_sortedItems, h.sortedSet_keys]
  have hbytes : ∀ s n n', (s, n) ∈ valid.sortedItems → (s, n') ∈ valid'.sortedItems →
      unhex n = unhex n' :=
    fun s n n' hn hn' => h.bytes s n n' (Dict.mem_sortedItems.mp hn) (Dict.mem_sortedItems.mp hn')
  generalize valid.sortedItems = l at hkeys hbytes ⊢
  generalize valid'.sortedItems = l' at hkeys hbytes ⊢
  induction l generalizing l' with
  | nil =>
    cases l' with
    | nil => rfl
    | cons e' l' => cases hkeys
  | cons e l ih =>
    cases l' with
    | nil => cases hkeys
    | cons e' l' =>
      obtain ⟨hhead, htail⟩ := List.cons.inj hkeys
      obtain ⟨s, n⟩ := e
      obtain ⟨s', n'⟩ := e'
      obtain rfl : s = s' := hhead
      have hpart : seedPart (toLex (s, n)) = seedPart (toLex (s, n')) := by
        have hn : unhex n = unhex n' := hbytes s n n' (by simp) (by simp)
        unfold seedPart
        simp only [ofLex_toLex, hn]
      simp only [List.map_cons, hpart, List.cons.injEq, true_and]
      exact ih l' htail (fun t m m' hm hm' =>
        hbytes t m m' (List.mem_cons_of_mem _ hm) (List.mem_cons_of_mem _ hm'))

end Valid

/-! ## Agreement -/

/-- The reveals a round has scanned. -/
def scanOf (P : Platform) (commits reveals : List Json) (round : ℤ) : RevealScan :=
  (reveals.map (RevealMsg.of P round (CommitScan.run P.toPyText round commits).trusted)).foldl
    RevealScan.handle ⟨∅, (CommitScan.run P.toPyText round commits).wrongRound, [], []⟩

theorem scanOf_tracks (P : Platform) (commits reveals : List Json) (round : ℤ) :
    (scanOf P commits reveals round).Tracks (CommitScan.run P.toPyText round commits).wrongRound
      (reveals.map (RevealMsg.of P round (CommitScan.run P.toPyText round commits).trusted)) :=
  RevealScan.foldl_tracks _ _

/-- A valid nonce opens the unique commit of its signer. -/
theorem exists_opened {commits reveals : List Json} {s n : String}
    (h : (scanOf P commits reveals round).valid.get? s = some n) :
    ∃ rv ∈ reveals, ∃ d, route P.toPyText round (readReveal P.toPyText) rv = .ok (.here s)
      ∧ UniqueCommit P.toPyText round commits s d
      ∧ verifyReveal P (commitEnvOf round s d) rv = .ok true ∧ Opened P round s d n := by
  obtain ⟨rv, hrv, hof⟩ := List.mem_map.mp ((scanOf_tracks P commits reveals round).valid s n h)
  obtain ⟨d, hroute, hget, hverify, hopened⟩ := RevealMsg.of_eq_opening hof
  exact ⟨rv, hrv, d, hroute, CommitScan.trusted_get?.mp hget, hverify, hopened⟩

/-- A signer is valid exactly when one of the reveals opens its unique commit. -/
theorem mem_valid_keys {commits reveals : List Json} {s : String} :
    s ∈ (scanOf P commits reveals round).valid.keys ↔
      ∃ rv ∈ reveals, ∃ d, route P.toPyText round (readReveal P.toPyText) rv = .ok (.here s)
        ∧ UniqueCommit P.toPyText round commits s d
        ∧ verifyReveal P (commitEnvOf round s d) rv = .ok true := by
  rw [Dict.mem_keys_iff]
  constructor
  · rintro ⟨n, hn⟩
    obtain ⟨rv, hrv, d, hroute, hunique, hverify, _⟩ := exists_opened hn
    exact ⟨rv, hrv, d, hroute, hunique, hverify⟩
  · rintro ⟨rv, hrv, d, hroute, hunique, hverify⟩
    obtain ⟨_, _, nonce, _, _, _, _, hnonce, _⟩ := verifyReveal_eq_true hverify
    refine (scanOf_tracks P commits reveals round).opened s (nonce.toStr P.toPyText) ?_
    refine List.mem_map.mpr ⟨rv, hrv, ?_⟩
    unfold RevealMsg.of
    simp only [hroute, CommitScan.trusted_get?.mpr hunique, hverify, hnonce]

theorem lower_of_mem_valid_keys {commits reveals : List Json} {s : String}
    (h : s ∈ (scanOf P commits reveals round).valid.keys) : P.lower s = s := by
  obtain ⟨rv, _, d, hroute, _⟩ := mem_valid_keys.mp h
  exact readReveal_lower hroute

/-- The disputes of a round. -/
def disputesOf (P : Platform) (commits reveals : List Json) (round : ℤ) : Disputes where
  rejected := sortedSet (scanOf P commits reveals round).rejected
  missing := sortedSet ((CommitScan.run P.toPyText round commits).trusted.keys.filter
    (fun s => !(scanOf P commits reveals round).valid.contains s))
  unsolicited := sortedSet (scanOf P commits reveals round).unsolicited
  commitEquivocations := sortedSet (CommitScan.run P.toPyText round commits).equiv.keys
  wrongRound := sortedSet (scanOf P commits reveals round).wrongRound

/-- `agree_round` is the seed and the order of the scanned reveals, with their disputes. -/
theorem agreeRound_eq (P : Platform) (commits reveals : List Json) (round : ℤ) :
    agreeRound P commits reveals round = (do
      let valid := (scanOf P commits reveals round).valid
      let seed ← agreeSeed P (valid.sortedItems.map (validReveal round)) round
      let order ← agreeOrder P (valid.sortedItems.map (validReveal round)) seed
      return { round, seed, order, validSigners := sortedSet valid.keys, nValid := valid.size
               disputes := disputesOf P commits reveals round }) := by
  unfold agreeRound
  dsimp only
  rw [RevealScan.run_eq, ok_bind]
  rfl

theorem toBytes8_eq_ok {n : ℤ} (h : 0 ≤ n ∧ n < 2 ^ 64) : ∃ b, toBytes8 n = .ok b :=
  ⟨_, if_pos h⟩

/-- **In its range a round is agreed**, with the disputes of its messages. -/
theorem exists_agreeRound (hround : 0 ≤ round ∧ round < 2 ^ 64) (commits reveals : List Json) :
    ∃ a, agreeRound P commits reveals round = .ok a
      ∧ a.disputes = disputesOf P commits reveals round := by
  have hlower : ∀ s ∈ (scanOf P commits reveals round).valid.keys, P.lower s = s :=
    fun _ => lower_of_mem_valid_keys
  obtain ⟨r, hr⟩ := toBytes8_eq_ok hround
  have hparts : ∃ parts, ((scanOf P commits reveals round).valid.sortedItems.map toLex).mapM seedPart
      = .ok parts := by
    choose! bytes hbytes using fun (n : String) (hn : ∃ s, (scanOf P commits reveals round).valid.get?
        s = some n) => (show ∃ b, unhex n = .ok b from by
      obtain ⟨s, hs⟩ := hn
      obtain ⟨_, _, _, _, _, _, hopened⟩ := exists_opened hs
      obtain ⟨_, b, _, hb, _⟩ := hopened.bytes
      exact ⟨b, hb⟩)
    rw [List.mapM_map]
    refine ⟨_, mapM_eq_ok (g := fun e => utf8 "|" ++ utf8 e.1 ++ utf8 ":" ++ bytes e.2) ?_⟩
    rintro ⟨s, n⟩ hmem
    show seedPart (toLex (s, n)) = _
    unfold seedPart
    simp only [ofLex_toLex, hbytes n ⟨s, Dict.mem_sortedItems.mp hmem⟩, ok_bind]
    rfl
  obtain ⟨parts, hparts⟩ := hparts
  rw [agreeRound_eq]
  dsimp only
  rw [agreeSeed_valid hlower, hr, ok_bind, hparts, ok_bind]
  simp only [pure, Except.pure, ok_bind, agreeOrder_valid hlower]
  exact ⟨_, rfl, rfl⟩

/-- The part of an agreement that a node acts on. -/
structure Beacon where
  seed : String
  order : List String
  validSigners : List String
  nValid : ℕ
  deriving DecidableEq

def Agreement.beacon (a : Agreement) : Beacon := ⟨a.seed, a.order, a.validSigners, a.nValid⟩

/-- Scans of the same reveals make the same beacon. -/
theorem beacon_eq_of_sameReveals {commits commits' reveals reveals' : List Json}
    {a a' : Agreement} (h : SameReveals (scanOf P commits reveals round).valid
      (scanOf P commits' reveals' round).valid)
    (ha : agreeRound P commits reveals round = .ok a)
    (ha' : agreeRound P commits' reveals' round = .ok a') : a.beacon = a'.beacon := by
  have hlower : ∀ s ∈ (scanOf P commits reveals round).valid.keys, P.lower s = s :=
    fun _ => lower_of_mem_valid_keys
  have hlower' : ∀ s ∈ (scanOf P commits' reveals' round).valid.keys, P.lower s = s :=
    fun _ => lower_of_mem_valid_keys
  rw [agreeRound_eq] at ha ha'
  dsimp only at ha ha'
  rw [agreeSeed_valid hlower] at ha
  rw [agreeSeed_valid hlower', ← mapM_congr_map h.seedParts] at ha'
  obtain ⟨seed, hseed, ha⟩ := bind_eq_ok.mp ha
  obtain ⟨seed', hseed', ha'⟩ := bind_eq_ok.mp ha'
  obtain rfl : seed = seed' := Except.ok.inj (hseed.symm.trans hseed')
  rw [agreeOrder_valid hlower, ok_bind] at ha
  rw [agreeOrder_valid hlower', ok_bind, ← h.sortedSet_keys] at ha'
  cases ha
  cases ha'
  rw [Agreement.beacon, Agreement.beacon, h.size]

/-- **The round beacon does not depend on how its messages arrive.** Whatever the two lists hold
(malformed, forged or repeated messages included), the beacon is the same for every list with the
same commits and the same reveals that open the unique commit of their signer. -/
theorem beacon_agreement (P : Platform) (hcf : CollisionFree P) (round : ℤ)
    (hround : 0 ≤ round ∧ round < 2 ^ 64) (commits commits' reveals reveals' : List Json)
    (hcommits : ∀ c, c ∈ commits ↔ c ∈ commits')
    (hreveals : ∀ rv, OpensUniqueCommit P round commits rv → (rv ∈ reveals ↔ rv ∈ reveals')) :
    ∃ a a', agreeRound P commits reveals round = .ok a
      ∧ agreeRound P commits' reveals' round = .ok a' ∧ a.beacon = a'.beacon := by
  obtain ⟨a, ha, _⟩ := exists_agreeRound (P := P) hround commits reveals
  obtain ⟨a', ha', _⟩ := exists_agreeRound (P := P) hround commits' reveals'
  refine ⟨a, a', ha, ha', beacon_eq_of_sameReveals ⟨?_, ?_⟩ ha ha'⟩
  · intro s
    rw [mem_valid_keys, mem_valid_keys]
    constructor
    · rintro ⟨rv, hrv, d, hroute, hunique, hverify⟩
      exact ⟨rv, (hreveals rv ⟨s, d, hroute, hunique, hverify⟩).mp hrv, d, hroute,
        (uniqueCommit_congr hcommits).mp hunique, hverify⟩
    · rintro ⟨rv, hrv, d, hroute, hunique, hverify⟩
      have hunique := (uniqueCommit_congr hcommits).mpr hunique
      exact ⟨rv, (hreveals rv ⟨s, d, hroute, hunique, hverify⟩).mpr hrv, d, hroute, hunique,
        hverify⟩
  · intro s n n' hn hn'
    obtain ⟨_, _, d, _, hunique, _, hopened⟩ := exists_opened hn
    obtain ⟨_, _, d', _, hunique', _, hopened'⟩ := exists_opened hn'
    obtain rfl : d' = d :=
      hunique.unique d' ((uniqueCommit_congr hcommits).mpr hunique').commit
    exact hopened.unhex_eq hcf hopened'

/-- Two participants commit and reveal; on the way the commits are swapped, one is repeated, and a
reveal with a nonce that is no hexadecimal text is added in front. -/
theorem beacon_agreement_twoParticipants :
    ∃ a a',
      agreeRound Platform.ideal
        [.obj [("round", .int 5), ("signer", .str "a"), ("digest", .str "d")],
          .obj [("round", .int 5), ("signer", .str "b"), ("digest", .str "e")]]
        [.obj [("round", .int 5), ("signer", .str "b"), ("nonce", .str "00ff")]] 5 = .ok a
      ∧ agreeRound Platform.ideal
        [.obj [("round", .int 5), ("signer", .str "b"), ("digest", .str "e")],
          .obj [("round", .int 5), ("signer", .str "a"), ("digest", .str "d")],
          .obj [("round", .int 5), ("signer", .str "b"), ("digest", .str "e")]]
        [.obj [("round", .int 5), ("signer", .str "a"), ("nonce", .str "no nonce")],
          .obj [("round", .int 5), ("signer", .str "b"), ("nonce", .str "00ff")]] 5 = .ok a'
      ∧ a.beacon = a'.beacon := by
  refine beacon_agreement Platform.ideal Platform.ideal_collisionFree 5 (by norm_num) _ _ _ _ ?_ ?_
  · intro c
    simp only [List.mem_cons, List.not_mem_nil, or_false]
    tauto
  · rintro rv ⟨s, d, _, _, hverify⟩
    simp only [List.mem_cons, List.not_mem_nil, or_false]
    refine ⟨Or.inr, ?_⟩
    rintro (rfl | h)
    · have hbad : unhex "no nonce" = .error .valueError := by decide
      obtain ⟨bytes, hbytes⟩ := unhex_of_verifyReveal hverify
        (show _ = Except.ok (Json.str "no nonce") from rfl)
      cases hbad.symm.trans hbytes
    · exact h

end NeuraHash
