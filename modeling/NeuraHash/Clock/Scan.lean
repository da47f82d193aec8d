import NeuraHash.Clock.Round

/-!
# What the two loops of the round clock collect

`CommitScan.Tracks` and `RevealScan.Tracks` say what the loops of `agreeRound` have collected after
a prefix of the messages, in terms of the messages alone. Each turn of a loop keeps its invariant,
and from them come `trusted_get?` (the commit map holds exactly the signers that committed to one
digest) and `RevealScan.foldl_tracks`. The reveal loop never raises: a reveal is one of the cases
of `RevealMsg`, and a turn of the loop handles that case (`RevealScan.run_eq`).
-/

namespace NeuraHash

open Py

/-! ## Commits -/

variable {T : PyText} {P : Platform} {round : ℤ}

/-- One of the messages commits the signer to the digest. -/
def Commits (T : PyText) (round : ℤ) (commits : List Json) (s d : String) : Prop :=
  ∃ c ∈ commits, route T round (readCommit T) c = .ok (.here (s, d))

/-- The signer committed to this digest and to no other one. -/
structure UniqueCommit (T : PyText) (round : ℤ) (commits : List Json) (s d : String) : Prop where
  commit : Commits T round commits s d
  unique : ∀ d', Commits T round commits s d' → d' = d

theorem commits_append {l : List Json} {c : Json} {s d : String} :
    Commits T round (l ++ [c]) s d ↔
      Commits T round l s d ∨ route T round (readCommit T) c = .ok (.here (s, d)) := by
  simp [Commits, or_and_right, exists_or]

/-- The same messages make the same unique commits. -/
theorem uniqueCommit_congr {l l' : List Json} (h : ∀ c, c ∈ l ↔ c ∈ l') {s d : String} :
    UniqueCommit T round l s d ↔ UniqueCommit T round l' s d := by
  have hcommits : ∀ d, Commits T round l s d ↔ Commits T round l' s d := by
    intro d
    simp only [Commits, h]
  constructor
  · exact fun hu => ⟨(hcommits d).mp hu.commit, fun d' hd' => hu.unique d' ((hcommits d').mpr hd')⟩
  · exact fun hu => ⟨(hcommits d).mpr hu.commit, fun d' hd' => hu.unique d' ((hcommits d').mp hd')⟩

/-- What the commit loop has collected: the first digest of every signer, the signers with a
second one, and the signers of the messages of other rounds. -/
structure CommitScan.Tracks (T : PyText) (round : ℤ) (l : List Json) (st : CommitScan) : Prop where
  fresh : ∀ s, st.commitMap.get? s = none → ∀ d, ¬ Commits T round l s d
  first : ∀ s d, st.commitMap.get? s = some d → Commits T round l s d
  equiv : ∀ s, s ∈ st.equiv.keys ↔
    ∃ d, st.commitMap.get? s = some d ∧ ∃ d', Commits T round l s d' ∧ d' ≠ d
  wrongRound : ∀ s, s ∈ st.wrongRound ↔
    ∃ c ∈ l, route T round (readCommit T) c = .ok (.wrongRound s)

/-- A turn of the commit loop keeps track. -/
theorem CommitScan.Tracks.step {l : List Json} {st : CommitScan} (h : st.Tracks T round l)
    (c : Json) : (st.step T round c).Tracks T round (l ++ [c]) := by
  unfold CommitScan.step
  cases hroute : route T round (readCommit T) c with
  | error e =>
    have hcommits : ∀ s d, Commits T round (l ++ [c]) s d ↔ Commits T round l s d := by
      simp [commits_append, hroute]
    refine ⟨?_, ?_, ?_, ?_⟩
    · simpa only [hcommits] using h.fresh
    · simpa only [hcommits] using h.first
    · simpa only [hcommits] using h.equiv
    · simpa [hroute, or_and_right, exists_or] using h.wrongRound
  | ok m =>
    cases m with
    | wrongRound s₀ =>
      have hcommits : ∀ s d, Commits T round (l ++ [c]) s d ↔ Commits T round l s d := by
        simp [commits_append, hroute]
      refine ⟨?_, ?_, ?_, ?_⟩
      · simpa only [hcommits] using h.fresh
      · simpa only [hcommits] using h.first
      · simpa only [hcommits] using h.equiv
      · intro s
        simp only [List.mem_append, List.mem_singleton, or_and_right, exists_or, exists_eq_left,
          hroute, Except.ok.injEq, Routed.wrongRound.injEq, h.wrongRound s, eq_comm (a := s)]
    | here m =>
      obtain ⟨s₀, d₀⟩ := m
      have hcommits : ∀ s d, Commits T round (l ++ [c]) s d ↔
          Commits T round l s d ∨ (s₀ = s ∧ d₀ = d) := by
        simp [commits_append, hroute]
      have hwrong : ∀ s, s ∈ st.wrongRound ↔
          ∃ c' ∈ l ++ [c], route T round (readCommit T) c' = .ok (.wrongRound s) := by
        simpa [hroute, or_and_right, exists_or] using h.wrongRound
      dsimp only
      cases hget : st.commitMap.get? s₀ with
      | none =>
        -- the first commit of this signer
        have hnone := h.fresh s₀ hget
        refine ⟨?_, ?_, ?_, hwrong⟩
        · intro s hs d
          rw [Dict.get?_set] at hs
          split at hs
          · cases hs
          · next hne =>
            rw [hcommits]
            rintro (hd | ⟨hs', -⟩)
            · exact h.fresh s hs d hd
            · exact hne hs'
        · intro s d hs
          rw [Dict.get?_set] at hs
          rw [hcommits]
          split at hs
          · next heq => exact Or.inr ⟨heq, Option.some.inj hs⟩
          · exact Or.inl (h.first s d hs)
        · intro s
          by_cases hs : s₀ = s
          · subst hs
            have hmem : s₀ ∉ st.equiv.keys := by
              rw [h.equiv, hget]
              simp
            simp only [hmem, Dict.get?_set_self, Option.some.injEq, exists_eq_left', hcommits,
              true_and, false_iff, not_exists, not_and, not_not]
            rintro d (hd | rfl)
            · exact absurd hd (hnone d)
            · rfl
          · simp only [h.equiv, Dict.get?_set_of_ne _ _ hs, hcommits, hs, false_and, or_false]
      | some d₁ =>
        have hfresh : ∀ s, st.commitMap.get? s = none → ∀ d, ¬ Commits T round (l ++ [c]) s d := by
          intro s hs d
          rw [hcommits]
          rintro (hd | ⟨rfl, -⟩)
          · exact h.fresh s hs d hd
          · rw [hget] at hs
            cases hs
        have hfirst : ∀ s d, st.commitMap.get? s = some d → Commits T round (l ++ [c]) s d :=
          fun s d hs => (hcommits s d).mpr (Or.inl (h.first s d hs))
        dsimp only
        split
        · next hne =>
          -- a second digest
          refine ⟨hfresh, hfirst, ?_, hwrong⟩
          intro s
          by_cases hs : s₀ = s
          · subst hs
            simp only [PySet.mem_keys_add, true_or, hget, Option.some.injEq, exists_eq_left',
              hcommits, true_and, true_iff]
            exact ⟨d₀, Or.inr rfl, Ne.symm hne⟩
          · simp only [PySet.mem_keys_add, Ne.symm hs, h.equiv, hcommits, hs, false_and, or_false,
              false_or]
        · next heq =>
          push Not at heq
          subst heq
          refine ⟨hfresh, hfirst, ?_, hwrong⟩
          intro s
          by_cases hs : s₀ = s
          · subst hs
            simp only [h.equiv, hget, Option.some.injEq, exists_eq_left', hcommits, true_and]
            constructor
            · rintro ⟨d', hd', hne⟩
              exact ⟨d', Or.inl hd', hne⟩
            · rintro ⟨d', hd' | rfl, hne⟩
              · exact ⟨d', hd', hne⟩
              · exact absurd rfl hne
          · simp only [h.equiv, hcommits, hs, false_and, or_false]

/-- **The commit loop keeps track of every message.** -/
theorem CommitScan.run_tracks (T : PyText) (round : ℤ) (commits : List Json) :
    (CommitScan.run T round commits).Tracks T round commits := by
  induction commits using List.reverseRecOn with
  | nil =>
    refine ⟨?_, ?_, ?_, ?_⟩ <;> simp [CommitScan.run, Commits]
  | append_singleton l c ih =>
    rw [CommitScan.run, List.foldl_append]
    exact ih.step c

/-- **The trusted commits are the unique ones.** -/
theorem CommitScan.trusted_get? {commits : List Json} {s d : String} :
    (CommitScan.run T round commits).trusted.get? s = some d ↔ UniqueCommit T round commits s d := by
  have h := CommitScan.run_tracks T round commits
  rw [CommitScan.trusted, Dict.get?_foldl_erase]
  constructor
  · intro hget
    split at hget
    · cases hget
    · next hmem =>
      refine ⟨h.first s d hget, ?_⟩
      intro d' hd'
      by_contra hne
      exact hmem ((h.equiv s).mpr ⟨d, hget, d', hd', hne⟩)
  · intro hu
    have hmem : s ∉ (CommitScan.run T round commits).equiv.keys := by
      rw [h.equiv]
      rintro ⟨d₁, hd₁, d₂, hd₂, hne⟩
      exact hne ((hu.unique d₂ hd₂).trans (hu.unique d₁ (h.first s d₁ hd₁)).symm)
    rw [if_neg hmem]
    cases hget : (CommitScan.run T round commits).commitMap.get? s with
    | none => exact absurd hu.commit (h.fresh s hget d)
    | some d' => rw [hu.unique d' (h.first s d' hget)]

/-! ## Reveals -/

/-- What a reveal is to the round, given the trusted commits. -/
inductive RevealMsg where
  | skipped
  | wrongRound (s : String)
  | unsolicited (s : String)
  /-- It opens the commit of its signer with this nonce. -/
  | opening (s n : String)
  /-- It does not open the commit of its signer. -/
  | miss (s : String)

def RevealMsg.of (P : Platform) (round : ℤ) (commitMap : Dict String String) (rv : Json) :
    RevealMsg :=
  match route P.toPyText round (readReveal P.toPyText) rv with
  | .error _ => .skipped
  | .ok (.wrongRound s) => .wrongRound s
  | .ok (.here s) =>
    match commitMap.get? s with
    | none => .unsolicited s
    | some d =>
      match verifyReveal P (commitEnvOf round s d) rv, rv.item "nonce" with
      | .ok true, .ok nonce => .opening s (nonce.toStr P.toPyText)
      | _, _ => .miss s

/-- What the loop does with it. -/
def RevealScan.handle (st : RevealScan) : RevealMsg → RevealScan
  | .skipped => st
  | .wrongRound s => { st with wrongRound := st.wrongRound ++ [s] }
  | .unsolicited s => { st with unsolicited := st.unsolicited ++ [s] }
  | .opening s n => if st.valid.contains s then st else { st with valid := st.valid.set s n }
  | .miss s => if st.valid.contains s then st else { st with rejected := st.rejected ++ [s] }

/-- The check of a reveal against a commit the loop built does not raise. -/
theorem exists_verifyReveal (P : Platform) (round : ℤ) (s d : String) (rv : Json) :
    ∃ b, verifyReveal P (commitEnvOf round s d) rv = .ok b := by
  unfold verifyReveal
  split
  · exact ⟨_, rfl⟩
  · exact ⟨false, rfl⟩

/-- An opening reveal recomputes the digest from its own nonce. -/
theorem verifyReveal_eq_true {s d : String} {rv : Json}
    (h : verifyReveal P (commitEnvOf round s d) rv = .ok true) :
    ∃ r signer nonce, rv.item "round" = .ok r ∧ r.toInt P.toPyText = .ok round
      ∧ rv.item "signer" = .ok signer
      ∧ normSigner P.toPyText signer = normSigner P.toPyText (.str s)
      ∧ rv.item "nonce" = .ok nonce ∧ commitDigest P r signer nonce = .ok d := by
  unfold verifyReveal at h
  split at h
  · next recomputed hrec =>
    have hd : recomputed = d := by
      have : (recomputed == d) = true := Except.ok.inj h
      simpa using this
    subst hd
    unfold recomputedDigest at hrec
    rw [show (commitEnvOf round s recomputed).item "round" = .ok (.int round) from rfl,
      show (commitEnvOf round s recomputed).item "signer" = .ok (.str s) from rfl] at hrec
    simp only [ok_bind, Json.toInt_int] at hrec
    obtain ⟨r, hr, hrec⟩ := bind_eq_ok.mp hrec
    obtain ⟨n, hn, hrec⟩ := bind_eq_ok.mp hrec
    split at hrec
    · cases hrec
    · next heq =>
      obtain ⟨signer, hsigner, hrec⟩ := bind_eq_ok.mp hrec
      split at hrec
      · cases hrec
      · next hnorm =>
        rw [hr, hsigner] at hrec
        simp only [ok_bind] at hrec
        obtain ⟨nonce, hnonce, hrec⟩ := bind_eq_ok.mp hrec
        obtain ⟨digest, hdigest, hrec⟩ := bind_eq_ok.mp hrec
        cases hrec
        push Not at heq hnorm
        exact ⟨r, signer, nonce, hr, by rw [hn, heq], hsigner, hnorm.symm, hnonce, hdigest⟩
  · cases h

/-- The nonce of an opening reveal is hexadecimal text. -/
theorem unhex_of_verifyReveal {s d : String} {rv nonce : Json}
    (h : verifyReveal P (commitEnvOf round s d) rv = .ok true) (hnonce : rv.item "nonce" = .ok nonce) :
    ∃ b, unhex (nonce.toStr P.toPyText) = .ok b := by
  obtain ⟨_, _, nonce', _, _, _, _, hnonce', hdigest⟩ := verifyReveal_eq_true h
  obtain rfl : nonce = nonce' := Except.ok.inj (hnonce.symm.trans hnonce')
  obtain ⟨_, _, hdigest⟩ := bind_eq_ok.mp hdigest
  obtain ⟨_, _, hdigest⟩ := bind_eq_ok.mp hdigest
  obtain ⟨b, hb, _⟩ := bind_eq_ok.mp hdigest
  exact ⟨b, hb⟩

/-- **A turn of the reveal loop handles the case of its reveal.** -/
theorem RevealScan.step_eq (P : Platform) (round : ℤ) (commitMap : Dict String String)
    (st : RevealScan) (rv : Json) :
    RevealScan.step P round commitMap st rv = .ok (st.handle (.of P round commitMap rv)) := by
  unfold RevealScan.step RevealMsg.of
  cases hroute : route P.toPyText round (readReveal P.toPyText) rv with
  | error e => rfl
  | ok m =>
    cases m with
    | wrongRound s => rfl
    | here s =>
      dsimp only
      cases hget : commitMap.get? s with
      | none => rfl
      | some d =>
        dsimp only
        obtain ⟨b, hb⟩ := exists_verifyReveal P round s d rv
        rw [hb]
        cases b with
        | false =>
          dsimp only [RevealScan.handle]
          by_cases hmem : st.valid.contains s = true
          · rw [if_pos hmem, if_pos hmem]
          · rw [if_neg hmem, if_neg hmem]
            rfl
        | true =>
          obtain ⟨_, _, nonce, _, _, _, _, hnonce, _⟩ := verifyReveal_eq_true hb
          rw [hnonce]
          dsimp only [RevealScan.handle]
          by_cases hmem : st.valid.contains s = true
          · rw [if_pos hmem, if_pos hmem]
          · rw [if_neg hmem, if_neg hmem]
            rfl

/-- **The reveal loop returns**, and handles the reveals one after the other. -/
theorem RevealScan.run_eq (P : Platform) (round : ℤ) (commitMap : Dict String String)
    (wrongRound : List String) (reveals : List Json) :
    RevealScan.run P round commitMap wrongRound reveals
      = .ok ((reveals.map (RevealMsg.of P round commitMap)).foldl RevealScan.handle
          ⟨∅, wrongRound, [], []⟩) := by
  unfold RevealScan.run
  generalize (⟨∅, wrongRound, [], []⟩ : RevealScan) = st
  induction reveals generalizing st with
  | nil => rfl
  | cons rv reveals ih =>
    rw [List.foldlM_cons, RevealScan.step_eq, ok_bind, ih, List.map_cons, List.foldl_cons]

/-- What the reveal loop has collected. A miss is recorded unless an opening came before it. -/
structure RevealScan.Tracks (wrongRound : List String) (l : List RevealMsg) (st : RevealScan) :
    Prop where
  valid : ∀ s n, st.valid.get? s = some n → .opening s n ∈ l
  opened : ∀ s n, .opening s n ∈ l → ∃ n', st.valid.get? s = some n'
  wrongRound : ∀ s, s ∈ st.wrongRound ↔ s ∈ wrongRound ∨ .wrongRound s ∈ l
  unsolicited : ∀ s, s ∈ st.unsolicited ↔ .unsolicited s ∈ l
  rejected : ∀ s, s ∈ st.rejected ↔
    ∃ pre post, l = pre ++ .miss s :: post ∧ ∀ n, .opening s n ∉ pre

/-- A first miss in a longer list. -/
theorem firstMiss_append {l : List RevealMsg} {m : RevealMsg} {s : String} :
    (∃ pre post, l ++ [m] = pre ++ .miss s :: post ∧ ∀ n, RevealMsg.opening s n ∉ pre) ↔
      (∃ pre post, l = pre ++ .miss s :: post ∧ ∀ n, RevealMsg.opening s n ∉ pre)
        ∨ (m = .miss s ∧ ∀ n, RevealMsg.opening s n ∉ l) := by
  constructor
  · rintro ⟨pre, post, heq, hpre⟩
    rcases List.eq_nil_or_concat post with rfl | ⟨post, m', rfl⟩
    · obtain ⟨rfl, hm⟩ := List.append_inj' heq rfl
      exact Or.inr ⟨List.singleton_inj.mp hm, hpre⟩
    · rw [List.concat_eq_append, ← List.cons_append, ← List.append_assoc] at heq
      exact Or.inl ⟨pre, post, (List.append_inj' heq rfl).1, hpre⟩
  · rintro (⟨pre, post, rfl, hpre⟩ | ⟨rfl, hl⟩)
    · exact ⟨pre, post ++ [m], by simp, hpre⟩
    · exact ⟨l, [], rfl, hl⟩

/-- A turn of the reveal loop keeps track. -/
theorem RevealScan.Tracks.handle {wrongRound : List String} {l : List RevealMsg} {st : RevealScan}
    (h : st.Tracks wrongRound l) (m : RevealMsg) : (st.handle m).Tracks wrongRound (l ++ [m]) := by
  have hcontains : ∀ s, st.valid.contains s = true ↔ ∃ n, RevealMsg.opening s n ∈ l := by
    intro s
    rw [Dict.contains_iff]
    exact ⟨fun ⟨n, hn⟩ => ⟨n, h.valid s n hn⟩, fun ⟨n, hn⟩ => h.opened s n hn⟩
  cases m with
  | skipped =>
    refine ⟨?_, ?_, ?_, ?_, ?_⟩
    · intro s n hn
      simpa using h.valid s n hn
    · intro s n hn
      exact h.opened s n (by simpa using hn)
    · simpa [RevealScan.handle] using h.wrongRound
    · simpa [RevealScan.handle] using h.unsolicited
    · intro s
      rw [firstMiss_append]
      simpa [RevealScan.handle] using h.rejected s
  | wrongRound s₀ =>
    refine ⟨?_, ?_, ?_, ?_, ?_⟩
    · intro s n hn
      simpa using h.valid s n hn
    · intro s n hn
      exact h.opened s n (by simpa using hn)
    · intro s
      simp [RevealScan.handle, h.wrongRound s, or_assoc]
    · simpa [RevealScan.handle] using h.unsolicited
    · intro s
      rw [firstMiss_append]
      simpa [RevealScan.handle] using h.rejected s
  | unsolicited s₀ =>
    refine ⟨?_, ?_, ?_, ?_, ?_⟩
    · intro s n hn
      simpa using h.valid s n hn
    · intro s n hn
      exact h.opened s n (by simpa using hn)
    · simpa [RevealScan.handle] using h.wrongRound
    · intro s
      simp [RevealScan.handle, h.unsolicited s]
    · intro s
      rw [firstMiss_append]
      simpa [RevealScan.handle] using h.rejected s
  | opening s₀ n₀ =>
    unfold RevealScan.handle
    dsimp only
    split
    · next hmem =>
      -- an earlier reveal opened the commit
      refine ⟨?_, ?_, ?_, ?_, ?_⟩
      · intro s n hn
        simp [h.valid s n hn]
      · intro s n hn
        rcases List.mem_append.mp hn with hn | hn
        · exact h.opened s n hn
        · obtain ⟨rfl, -⟩ := RevealMsg.opening.inj (List.mem_singleton.mp hn)
          exact Dict.contains_iff.mp hmem
      · simpa using h.wrongRound
      · simpa using h.unsolicited
      · intro s
        rw [firstMiss_append]
        simpa using h.rejected s
    · refine ⟨?_, ?_, ?_, ?_, ?_⟩
      · intro s n hn
        rw [Dict.get?_set] at hn
        split at hn
        · next heq =>
          cases heq
          cases hn
          simp
        · simp [h.valid s n hn]
      · intro s n hn
        rw [Dict.get?_set]
        split
        · exact ⟨n₀, rfl⟩
        · next hne =>
          refine h.opened s n ?_
          simpa [Ne.symm hne] using hn
      · simpa using h.wrongRound
      · simpa using h.unsolicited
      · intro s
        rw [firstMiss_append]
        simpa using h.rejected s
  | miss s₀ =>
    have hopening : ∀ s n, RevealMsg.opening s n ∈ l ++ [.miss s₀] ↔ RevealMsg.opening s n ∈ l := by
      simp
    unfold RevealScan.handle
    dsimp only
    split
    · next hmem =>
      obtain ⟨n, hn⟩ := (hcontains s₀).mp hmem
      refine ⟨?_, ?_, ?_, ?_, ?_⟩
      · simpa only [hopening] using h.valid
      · simpa only [hopening] using h.opened
      · simpa using h.wrongRound
      · simpa using h.unsolicited
      · intro s
        rw [firstMiss_append, h.rejected s, iff_self_or]
        rintro ⟨heq, hno⟩
        obtain rfl := RevealMsg.miss.inj heq
        exact absurd hn (hno n)
    · next hmem =>
      rw [hcontains] at hmem
      refine ⟨?_, ?_, ?_, ?_, ?_⟩
      · simpa only [hopening] using h.valid
      · simpa only [hopening] using h.opened
      · simpa using h.wrongRound
      · simpa using h.unsolicited
      · intro s
        rw [firstMiss_append, List.mem_append, h.rejected s, List.mem_singleton]
        refine or_congr_right ⟨?_, ?_⟩
        · rintro rfl
          exact ⟨rfl, fun n hn => hmem ⟨n, hn⟩⟩
        · rintro ⟨heq, -⟩
          exact (RevealMsg.miss.inj heq).symm

/-- **The reveal loop keeps track of every reveal.** -/
theorem RevealScan.foldl_tracks (wrongRound : List String) (l : List RevealMsg) :
    (l.foldl RevealScan.handle ⟨∅, wrongRound, [], []⟩).Tracks wrongRound l := by
  induction l using List.reverseRecOn with
  | nil => refine ⟨?_, ?_, ?_, ?_, ?_⟩ <;> simp
  | append_singleton l m ih =>
    rw [List.foldl_append]
    exact ih.handle m

end NeuraHash
