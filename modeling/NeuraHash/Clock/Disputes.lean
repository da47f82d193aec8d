import NeuraHash.Clock.Beacon

/-!
# The disputes of a round

A reveal that does not open its signer's commit is rejected unless an earlier reveal of the same
signer has opened it: the loop of `agreeRound` stops looking at a signer once it is valid. So the
disputes are the same for every order of the messages exactly when no signer sends both kinds of
reveal (`disputes_order_independent_iff`).
-/

namespace NeuraHash

open Py

variable {P : Platform} {round : ℤ}

/-! ## The outcome of a reveal -/

/-- The reveal is checked against the unique commit of `s`, with this outcome. -/
def Checks (P : Platform) (round : ℤ) (commits : List Json) (rv : Json) (s : String) (b : Bool) :
    Prop :=
  route P.toPyText round (readReveal P.toPyText) rv = .ok (.here s)
    ∧ ∃ d, UniqueCommit P.toPyText round commits s d
      ∧ verifyReveal P (commitEnvOf round s d) rv = .ok b

/-- No signer has both a reveal that opens its unique commit and one that does not. -/
def RevealsConsistent (P : Platform) (round : ℤ) (commits reveals : List Json) : Prop :=
  ∀ s, (∃ rv ∈ reveals, Checks P round commits rv s true) →
    ¬ ∃ rv ∈ reveals, Checks P round commits rv s false

/-- What a reveal is to a round with these commits. -/
def msgOf (P : Platform) (round : ℤ) (commits : List Json) (rv : Json) : RevealMsg :=
  RevealMsg.of P round (CommitScan.run P.toPyText round commits).trusted rv

theorem msgOf_congr {commits commits' : List Json} (h : ∀ c, c ∈ commits ↔ c ∈ commits')
    (rv : Json) : msgOf P round commits rv = msgOf P round commits' rv := by
  have hget : ∀ s, (CommitScan.run P.toPyText round commits).trusted.get? s
      = (CommitScan.run P.toPyText round commits').trusted.get? s := by
    intro s
    refine Option.ext fun d => ?_
    rw [CommitScan.trusted_get?, CommitScan.trusted_get?, uniqueCommit_congr h]
  unfold msgOf RevealMsg.of
  simp only [hget]

theorem msgOf_eq_opening {commits : List Json} {rv : Json} {s : String} :
    (∃ n, msgOf P round commits rv = .opening s n) ↔ Checks P round commits rv s true := by
  constructor
  · rintro ⟨n, hn⟩
    obtain ⟨d, hroute, hget, hverify, _⟩ := RevealMsg.of_eq_opening hn
    exact ⟨hroute, d, CommitScan.trusted_get?.mp hget, hverify⟩
  · rintro ⟨hroute, d, hunique, hverify⟩
    obtain ⟨_, _, nonce, _, _, _, _, hnonce, _⟩ := verifyReveal_eq_true hverify
    refine ⟨nonce.toStr P.toPyText, ?_⟩
    unfold msgOf RevealMsg.of
    simp only [hroute, CommitScan.trusted_get?.mpr hunique, hverify, hnonce]

theorem msgOf_eq_miss {commits : List Json} {rv : Json} {s : String} :
    msgOf P round commits rv = .miss s ↔ Checks P round commits rv s false := by
  constructor
  · intro h
    unfold msgOf RevealMsg.of at h
    split at h
    · cases h
    · cases h
    · next s' hroute =>
      split at h
      · cases h
      · next d hd =>
        obtain ⟨b, hb⟩ := exists_verifyReveal P round s' d rv
        split at h
        · cases h
        · next hno =>
          cases h
          refine ⟨hroute, d, CommitScan.trusted_get?.mp hd, ?_⟩
          cases b with
          | false => exact hb
          | true =>
            obtain ⟨_, _, nonce, _, _, _, _, hnonce, _⟩ := verifyReveal_eq_true hb
            exact absurd hnonce (hno nonce hb)
  · rintro ⟨hroute, d, hunique, hverify⟩
    unfold msgOf RevealMsg.of
    simp only [hroute, CommitScan.trusted_get?.mpr hunique, hverify]

/-! ## The buckets -/

section Buckets

variable {commits commits' reveals reveals' : List Json}

/-- A signer is rejected when a reveal of its misses and no reveal before it opens. -/
theorem mem_rejected {s : String} :
    s ∈ (disputesOf P commits reveals round).rejected ↔
      ∃ pre rv post, reveals = pre ++ rv :: post ∧ Checks P round commits rv s false
        ∧ ∀ rv' ∈ pre, ¬ Checks P round commits rv' s true := by
  show s ∈ sortedSet (scanOf P commits reveals round).rejected ↔ _
  rw [mem_sortedSet, (scanOf_tracks P commits reveals round).rejected s]
  constructor
  · rintro ⟨pre, post, heq, hpre⟩
    obtain ⟨pre', rest, rfl, hpre', hrest⟩ := List.map_eq_append_iff.mp heq
    obtain ⟨rv, post', rfl, hrv, -⟩ := List.map_eq_cons_iff.mp hrest
    refine ⟨pre', rv, post', rfl, msgOf_eq_miss.mp hrv, ?_⟩
    intro rv' hrv' hopens
    obtain ⟨n, hn⟩ := msgOf_eq_opening.mpr hopens
    exact hpre n (hpre' ▸ List.mem_map.mpr ⟨rv', hrv', hn⟩)
  · rintro ⟨pre, rv, post, rfl, hmiss, hpre⟩
    refine ⟨pre.map (msgOf P round commits), post.map (msgOf P round commits), ?_, ?_⟩
    · rw [List.map_append, List.map_cons, ← msgOf_eq_miss.mpr hmiss]
      rfl
    · intro n hn
      obtain ⟨rv', hrv', hn⟩ := List.mem_map.mp hn
      exact hpre rv' hrv' (msgOf_eq_opening.mp ⟨n, hn⟩)

/-- Without mixed signers every miss is rejected. -/
theorem mem_rejected_of_consistent (h : RevealsConsistent P round commits reveals) {s : String} :
    s ∈ (disputesOf P commits reveals round).rejected ↔
      ∃ rv ∈ reveals, Checks P round commits rv s false := by
  rw [mem_rejected]
  constructor
  · rintro ⟨pre, rv, post, rfl, hmiss, -⟩
    exact ⟨rv, by simp, hmiss⟩
  · rintro ⟨rv, hrv, hmiss⟩
    obtain ⟨pre, post, rfl⟩ := List.append_of_mem hrv
    refine ⟨pre, rv, post, rfl, hmiss, fun rv' hrv' hopens => ?_⟩
    exact h s ⟨rv', by simp [hrv'], hopens⟩ ⟨rv, by simp, hmiss⟩

/-- The same messages, no signer of them mixed: the same disputes. -/
theorem disputesOf_congr (h : RevealsConsistent P round commits reveals)
    (hcommits : ∀ c, c ∈ commits ↔ c ∈ commits') (hreveals : ∀ rv, rv ∈ reveals ↔ rv ∈ reveals') :
    disputesOf P commits reveals round = disputesOf P commits' reveals' round := by
  have hchecks : ∀ rv s b, Checks P round commits rv s b ↔ Checks P round commits' rv s b := by
    intro rv s b
    simp only [Checks, uniqueCommit_congr hcommits]
  have hconsistent : RevealsConsistent P round commits' reveals' := by
    simpa only [RevealsConsistent, hchecks, hreveals] using h
  have hmsgs : ∀ m, m ∈ reveals.map (msgOf P round commits) ↔
      m ∈ reveals'.map (msgOf P round commits') := by
    intro m
    simp only [List.mem_map, hreveals, msgOf_congr hcommits]
  have htracks := scanOf_tracks P commits reveals round
  have htracks' := scanOf_tracks P commits' reveals' round
  have hrun := CommitScan.run_tracks P.toPyText round commits
  have hrun' := CommitScan.run_tracks P.toPyText round commits'
  have hunique : ∀ s d, UniqueCommit P.toPyText round commits s d ↔
      UniqueCommit P.toPyText round commits' s d := fun _ _ => uniqueCommit_congr hcommits
  have hcommitted : ∀ s d, Commits P.toPyText round commits s d ↔
      Commits P.toPyText round commits' s d := by
    intro s d
    simp only [Commits, hcommits]
  have hrejected : (disputesOf P commits reveals round).rejected
      = (disputesOf P commits' reveals' round).rejected := by
    refine sortedSet_congr fun s => ?_
    have hs := mem_rejected_of_consistent h (s := s)
    have hs' := mem_rejected_of_consistent hconsistent (s := s)
    simp only [disputesOf, mem_sortedSet] at hs hs'
    rw [hs, hs']
    simp only [hreveals, hchecks]
  have hmissing : (disputesOf P commits reveals round).missing
      = (disputesOf P commits' reveals' round).missing := by
    refine sortedSet_congr fun s => ?_
    have hvalid : (scanOf P commits reveals round).valid.contains s
        = (scanOf P commits' reveals' round).valid.contains s := by
      rw [Bool.eq_iff_iff, Dict.contains_iff, Dict.contains_iff, ← Dict.mem_keys_iff,
        ← Dict.mem_keys_iff, mem_valid_keys, mem_valid_keys]
      simp only [hreveals, hunique]
    simp only [List.mem_filter, hvalid, Dict.mem_keys_iff, CommitScan.trusted_get?, hunique]
  have hunsolicited : (disputesOf P commits reveals round).unsolicited
      = (disputesOf P commits' reveals' round).unsolicited := by
    refine sortedSet_congr fun s => ?_
    rw [htracks.unsolicited s, htracks'.unsolicited s]
    exact hmsgs _
  have hequiv : (disputesOf P commits reveals round).commitEquivocations
      = (disputesOf P commits' reveals' round).commitEquivocations := by
    refine sortedSet_congr fun s => ?_
    have hiff : ∀ l, (CommitScan.run P.toPyText round l).Tracks P.toPyText round l →
        (s ∈ (CommitScan.run P.toPyText round l).equiv.keys ↔
          ∃ d d', Commits P.toPyText round l s d ∧ Commits P.toPyText round l s d' ∧ d' ≠ d) := by
      intro l hl
      rw [hl.equiv s]
      constructor
      · rintro ⟨d, hd, d', hd', hne⟩
        exact ⟨d, d', hl.first s d hd, hd', hne⟩
      · rintro ⟨d, d', hd, hd', hne⟩
        cases hget : (CommitScan.run P.toPyText round l).commitMap.get? s with
        | none => exact absurd hd (hl.fresh s hget d)
        | some d₁ =>
          by_cases heq : d' = d₁
          · exact ⟨d₁, rfl, d, hd, fun h => hne (heq.trans h.symm)⟩
          · exact ⟨d₁, rfl, d', hd', heq⟩
    rw [hiff commits hrun, hiff commits' hrun']
    simp only [hcommitted]
  have hwrong : (disputesOf P commits reveals round).wrongRound
      = (disputesOf P commits' reveals' round).wrongRound := by
    refine sortedSet_congr fun s => ?_
    rw [htracks.wrongRound s, htracks'.wrongRound s, hrun.wrongRound s, hrun'.wrongRound s]
    simp only [hcommits]
    exact or_congr_right (hmsgs _)
  rw [show disputesOf P commits reveals round = ⟨_, _, _, _, _⟩ from rfl]
  exact (Disputes.mk.injEq ..).mpr ⟨hrejected, hmissing, hunsolicited, hequiv, hwrong⟩

end Buckets

/-! ## What a node records -/

/-- Out of its range a round raises, whatever the messages. -/
theorem agreeRound_of_overflow (hround : ¬ (0 ≤ round ∧ round < 2 ^ 64))
    (commits reveals : List Json) :
    agreeRound P commits reveals round = .error .overflowError := by
  have hr : toBytes8 round = .error .overflowError := if_neg hround
  rw [agreeRound_eq]
  dsimp only
  rw [agreeSeed_valid (fun s => lower_of_mem_valid_keys), hr]
  rfl

/-- The disputes a round returns. -/
theorem agreeRound_disputes (P : Platform) (commits reveals : List Json) (round : ℤ) :
    (agreeRound P commits reveals round).map Agreement.disputes
      = (toBytes8 round).map (fun _ => disputesOf P commits reveals round) := by
  by_cases hround : 0 ≤ round ∧ round < 2 ^ 64
  · obtain ⟨a, ha, hdisputes⟩ := exists_agreeRound (P := P) hround commits reveals
    obtain ⟨r, hr⟩ := toBytes8_eq_ok hround
    rw [ha, hr]
    exact congrArg Except.ok hdisputes
  · rw [agreeRound_of_overflow hround, show toBytes8 round = .error .overflowError from if_neg hround]
    rfl

/-- The clean flag of the audit is that of the disputes. -/
theorem shadowAudit_clean (P : Platform) (round : ℤ) (claimedOrder : List Json)
    (commits reveals : List Json) (mode : Json) :
    (shadowAudit P round claimedOrder commits reveals mode).map ShadowAudit.clean
      = ((agreeRound P commits reveals round).map Agreement.disputes).map Disputes.clean := by
  unfold shadowAudit
  cases agreeRound P commits reveals round <;> rfl

/-- The disputes and the clean flag are the same in every order of the messages. -/
def DisputesOrderIndependent (P : Platform) (round : ℤ) (commits reveals : List Json) : Prop :=
  ∀ commits' reveals', commits'.Perm commits → reveals'.Perm reveals →
    (agreeRound P commits' reveals' round).map Agreement.disputes
        = (agreeRound P commits reveals round).map Agreement.disputes
      ∧ ∀ claimedOrder mode,
        (shadowAudit P round claimedOrder commits' reveals' mode).map ShadowAudit.clean
          = (shadowAudit P round claimedOrder commits reveals mode).map ShadowAudit.clean

/-- An opening shows that the round is in range. -/
theorem toBytes8_of_checks {commits : List Json} {rv : Json} {s : String}
    (h : Checks P round commits rv s true) : ∃ r, toBytes8 round = .ok r := by
  obtain ⟨n, hn⟩ := msgOf_eq_opening.mpr h
  obtain ⟨_, _, _, _, hopened⟩ := RevealMsg.of_eq_opening hn
  obtain ⟨r, _, hr, _⟩ := hopened.bytes
  exact ⟨r, hr⟩

/-- **A signer with both kinds of reveal is rejected in one order and not in another.** -/
theorem disputes_differ_of_mixed {commits reveals : List Json} {s : String} {good bad : Json}
    (hgood : good ∈ reveals) (hopens : Checks P round commits good s true)
    (hbad : bad ∈ reveals) (hmisses : Checks P round commits bad s false) :
    ¬ DisputesOrderIndependent P round commits reveals := by
  intro h
  obtain ⟨r, hr⟩ := toBytes8_of_checks hopens
  obtain ⟨pre, post, hsplit⟩ := List.append_of_mem hgood
  obtain ⟨pre', post', hsplit'⟩ := List.append_of_mem hbad
  have hfirst : (good :: (pre ++ post)).Perm reveals := hsplit ▸ List.perm_middle.symm
  have hfirst' : (bad :: (pre' ++ post')).Perm reveals := hsplit' ▸ List.perm_middle.symm
  have heq := (h commits _ (.refl _) hfirst).1.trans (h commits _ (.refl _) hfirst').1.symm
  rw [agreeRound_disputes, agreeRound_disputes, hr] at heq
  have hdisputes : disputesOf P commits (good :: (pre ++ post)) round
      = disputesOf P commits (bad :: (pre' ++ post')) round := Except.ok.inj heq
  have hrejected : s ∈ (disputesOf P commits (bad :: (pre' ++ post')) round).rejected :=
    mem_rejected.mpr ⟨[], bad, pre' ++ post', rfl, hmisses, by simp⟩
  rw [← hdisputes] at hrejected
  obtain ⟨pre₁, rv, post₁, heq₁, hmiss₁, hpre₁⟩ := mem_rejected.mp hrejected
  cases pre₁ with
  | nil =>
    obtain rfl : good = rv := (List.cons.inj heq₁).1
    obtain ⟨n, hn⟩ := msgOf_eq_opening.mpr hopens
    rw [msgOf_eq_miss.mpr hmiss₁] at hn
    cases hn
  | cons g pre₁ =>
    obtain rfl : good = g := (List.cons.inj heq₁).1
    exact hpre₁ good (by simp) hopens

/-- **The disputes do not depend on the order of the messages if and only if no signer has both a
reveal that opens its unique commit and one that does not.** -/
theorem disputes_order_independent_iff (P : Platform) (round : ℤ) (commits reveals : List Json) :
    DisputesOrderIndependent P round commits reveals ↔
      RevealsConsistent P round commits reveals := by
  constructor
  · rintro h s ⟨good, hgood, hopens⟩ ⟨bad, hbad, hmisses⟩
    exact disputes_differ_of_mixed hgood hopens hbad hmisses h
  · intro h commits' reveals' hcommits hreveals
    have hdisputes := disputesOf_congr h (fun c => hcommits.mem_iff.symm)
      (fun rv => hreveals.mem_iff.symm)
    have hreturned : (agreeRound P commits' reveals' round).map Agreement.disputes
        = (agreeRound P commits reveals round).map Agreement.disputes := by
      rw [agreeRound_disputes, agreeRound_disputes, hdisputes]
    refine ⟨hreturned, fun claimedOrder mode => ?_⟩
    rw [shadowAudit_clean, shadowAudit_clean, hreturned]

/-- A participant commits to the nonce `00ff`, and a reveal in its name carries no hexadecimal
text. -/
theorem not_disputes_order_independent :
    ¬ ∀ (P : Platform) (round : ℤ) (commits reveals : List Json),
      DisputesOrderIndependent P round commits reveals := by
  intro h
  obtain ⟨d, hd⟩ : ∃ d, commitDigest Platform.ideal (.int 5) (.str "a") (.str "00ff") = .ok d :=
    ⟨_, rfl⟩
  have hlower : normSigner Platform.ideal.toPyText (.str "a") = "a" := by decide
  have hseal : makeCommit Platform.ideal 5 (.str "a") "00ff" = .ok ⟨5, "a", d, "00ff"⟩ := by
    unfold makeCommit
    rw [hd, hlower]
    rfl
  have hcommit : route Platform.ideal.toPyText 5 (readCommit Platform.ideal.toPyText)
      (commitEnvelope ⟨5, "a", d, "00ff"⟩) = .ok (.here ("a", d)) := by
    rw [← hlower]
    rfl
  have hunique : UniqueCommit Platform.ideal.toPyText 5 [commitEnvelope ⟨5, "a", d, "00ff"⟩]
      "a" d := by
    refine ⟨⟨_, List.mem_singleton_self _, hcommit⟩, ?_⟩
    rintro d' ⟨c, hc, hroute⟩
    rw [List.mem_singleton.mp hc, hcommit] at hroute
    cases hroute
    rfl
  have hreveal : ∀ nonce, route Platform.ideal.toPyText 5 (readReveal Platform.ideal.toPyText)
      (revealOf ⟨5, "a", d, nonce⟩) = .ok (.here "a") := by
    intro nonce
    rw [← hlower]
    rfl
  have hmiss : verifyReveal Platform.ideal (commitEnvOf 5 "a" d) (revealOf ⟨5, "a", d, "no nonce"⟩)
      = .ok false := by
    have hbad : unhex "no nonce" = .error .valueError := by decide
    obtain ⟨b, hb⟩ := exists_verifyReveal Platform.ideal 5 "a" d (revealOf ⟨5, "a", d, "no nonce"⟩)
    cases b with
    | false => exact hb
    | true =>
      obtain ⟨bytes, hbytes⟩ := unhex_of_verifyReveal hb (show _ = Except.ok (Json.str "no nonce") from rfl)
      cases hbad.symm.trans hbytes
  exact disputes_differ_of_mixed (List.mem_cons_self (a := revealOf ⟨5, "a", d, "00ff"⟩))
    ⟨hreveal _, d, hunique, verifyReveal_makeCommit hseal⟩
    (List.mem_cons_of_mem _ (List.mem_singleton_self (revealOf ⟨5, "a", d, "no nonce"⟩)))
    ⟨hreveal _, d, hunique, hmiss⟩ (h Platform.ideal 5 [commitEnvelope ⟨5, "a", d, "00ff"⟩] _)

end NeuraHash
