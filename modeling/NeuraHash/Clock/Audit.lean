import NeuraHash.Clock.Round

/-!
# The auditor of the clock log (`neurahash/diloco_clock.py`)

`auditClockRecords` replays a mixed log of signed commitments and shadow audits, which is untrusted
JSON. A turn of its loop is one of the cases of `ClockEvent`; `AuditScan.Tracks` says what the loop
has collected from them.

The auditor loses what it cannot sort: a failed signature whose record has no round disappears from
the report, and rounds of mixed types make `sorted` raise. `audit_complete_iff` says on which logs
it returns and reports what the log shows.
-/

namespace NeuraHash

open Py

/-! ## Signed commitments -/

/-- `clock_commit_payload(round_id, signer, digest)`. -/
def clockCommitPayload (T : PyText) (round : ℤ) (signer digest : Json) : Bytes :=
  utf8 (Json.dumps T [] (.obj [
    ("w", .str clockTag),
    ("round", .int round),
    ("signer", .str (normSigner T signer)),
    ("digest", .str (digest.toStr T))]))

/-- The signer a commitment recovers to, from its own fields. -/
def recoverClockCommit (P : Platform) (signed : Json) : Except PyErr String := do
  let round ← (← signed.item "round").toInt P.toPyText
  let payload := clockCommitPayload P.toPyText round (← signed.item "signer")
    (← signed.item "digest")
  match recoverBytes P payload (← signed.item "sig") with
  | some who => .ok who
  | none => .error (.raised "recover_message")

/-- `verify_clock_commit(signed)`. -/
def verifyClockCommit (P : Platform) (signed : Json) : Bool × Option String :=
  if !signed.isObj then (false, none)
  else
    match recoverClockCommit P signed with
    | .error _ => (false, none)
    | .ok who =>
      match signed.get? "signer" with
      | some (.str claimed) =>
        if P.lower who ≠ P.lower claimed then (false, some who) else (true, some who)
      | _ => (false, some who)

/-- An accepted commitment has a round and a digest. -/
theorem fields_of_verifyClockCommit {P : Platform} {signed : Json} {who : String}
    (h : verifyClockCommit P signed = (true, some who)) :
    ∃ r round digest, signed.item "round" = .ok r ∧ r.toInt P.toPyText = .ok round
      ∧ signed.item "digest" = .ok digest := by
  unfold verifyClockCommit at h
  split at h
  · cases h
  · split at h
    · cases h
    · next who' hrec =>
      obtain ⟨r, hr, hrec⟩ := bind_eq_ok.mp hrec
      obtain ⟨round, hround, hrec⟩ := bind_eq_ok.mp hrec
      obtain ⟨signer, _, hrec⟩ := bind_eq_ok.mp hrec
      obtain ⟨digest, hdigest, _⟩ := bind_eq_ok.mp hrec
      exact ⟨r, round, digest, hr, hround, hdigest⟩

/-- An accepted commitment names its signer. -/
theorem verifyClockCommit_true {P : Platform} {signed : Json}
    (h : (verifyClockCommit P signed).1 = true) :
    ∃ who, verifyClockCommit P signed = (true, some who) := by
  unfold verifyClockCommit at h ⊢
  split
  · next hobj => rw [if_pos hobj] at h; cases h
  · next hobj =>
    rw [if_neg hobj] at h
    split at h
    · cases h
    · next who hrec =>
      split at h
      · split at h
        · cases h
        · next hlow => exact ⟨who, if_neg hlow⟩
      · cases h

/-! ## The audit -/

structure ClockReport where
  nSigned : ℕ
  nAudits : ℕ
  sigFailures : List Json
  offRoster : List String
  /-- The signer and the round of each. -/
  equivocations : List (String × ℤ)
  mismatches : List ℤ
  ok : Bool

structure AuditScan where
  nSigned : ℕ
  nAudits : ℕ
  sigFailures : List Json
  offRoster : List String
  equivocations : List (String × ℤ)
  mismatches : List ℤ
  seen : Dict (String × ℤ) String

def AuditScan.init : AuditScan := ⟨0, 0, [], [], [], [], ∅⟩

/-- One turn of the loop of `audit_clock_records`. -/
def AuditScan.step (P : Platform) (allow : Option (List String)) (st : AuditScan) (rec : Json) :
    Except PyErr AuditScan :=
  if !rec.isObj then .ok st
  else if (rec.get? "sig").isSome then
    let st := { st with nSigned := st.nSigned + 1 }
    match verifyClockCommit P rec with
    | (true, some who) => do
      let round ← (← rec.item "round").toInt P.toPyText
      if allow.any (fun a => decide (P.lower who ∉ a)) then
        return { st with offRoster := st.offRoster ++ [who] }
      let digest := (← rec.item "digest").toStr P.toPyText
      match st.seen.get? (P.lower who, round) with
      | none => return { st with seen := st.seen.set (P.lower who, round) digest }
      | some d =>
        if d ≠ digest then
          return { st with equivocations := st.equivocations ++ [(who, round)] }
        else return st
    | _ => do
      return { st with sigFailures := st.sigFailures ++ [← rec.getD "round" .null] }
  else if Json.pyEq ((rec.get? "kind").getD .null) (.str clockTag) then do
    let st := { st with nAudits := st.nAudits + 1 }
    if (← rec.getD "match" .null).isFalse then
      return { st with
        mismatches := st.mismatches ++ [← (← rec.getD "round" (.int 0)).toInt P.toPyText] }
    else return st
  else .ok st

/-- `audit_clock_records(records, expected_signers)`. -/
def auditClockRecords (P : Platform) (records : List Json) (expectedSigners : Option (List Json)) :
    Except PyErr ClockReport := do
  let allow := expectedSigners.map (fun l => l.map (normSigner P.toPyText))
  let st ← records.foldlM (AuditScan.step P allow) .init
  let sigFailures ← Json.sorted (st.sigFailures.filter Json.notNone)
  return { nSigned := st.nSigned, nAudits := st.nAudits, sigFailures
           offRoster := sortedSet st.offRoster, equivocations := st.equivocations
           mismatches := sortedSet st.mismatches
           ok := sigFailures.isEmpty && st.equivocations.isEmpty }

/-! ## The cases of a record -/

/-- What a record is to the auditor. -/
inductive ClockEvent where
  | ignored
  | failure (round : Json)
  | offRoster (who : String)
  /-- A commitment of a permitted signer. -/
  | commit (who : String) (round : ℤ) (digest : String)
  /-- A shadow audit, with its round when it reports a mismatch. -/
  | audit (mismatch : Option ℤ)

def ClockEvent.of (P : Platform) (allow : Option (List String)) (rec : Json) :
    Except PyErr ClockEvent :=
  if !rec.isObj then .ok .ignored
  else if (rec.get? "sig").isSome then
    match verifyClockCommit P rec with
    | (true, some who) => do
      let round ← (← rec.item "round").toInt P.toPyText
      if allow.any (fun a => decide (P.lower who ∉ a)) then return .offRoster who
      return .commit who round ((← rec.item "digest").toStr P.toPyText)
    | _ => do return .failure (← rec.getD "round" .null)
  else if Json.pyEq ((rec.get? "kind").getD .null) (.str clockTag) then do
    if (← rec.getD "match" .null).isFalse then
      return .audit (some (← (← rec.getD "round" (.int 0)).toInt P.toPyText))
    else return .audit none
  else .ok .ignored

/-- What the loop does with it. -/
def AuditScan.handle (T : PyText) (st : AuditScan) : ClockEvent → AuditScan
  | .ignored => st
  | .failure r => { st with nSigned := st.nSigned + 1, sigFailures := st.sigFailures ++ [r] }
  | .offRoster who => { st with nSigned := st.nSigned + 1, offRoster := st.offRoster ++ [who] }
  | .commit who round digest =>
    match st.seen.get? (T.lower who, round) with
    | none => { st with
        nSigned := st.nSigned + 1, seen := st.seen.set (T.lower who, round) digest }
    | some d =>
      if d ≠ digest then { st with
        nSigned := st.nSigned + 1, equivocations := st.equivocations ++ [(who, round)] }
      else { st with nSigned := st.nSigned + 1 }
  | .audit m => { st with nAudits := st.nAudits + 1, mismatches := st.mismatches ++ m.toList }

/-- **A turn of the auditor's loop handles the case of its record.** -/
theorem AuditScan.step_eq (P : Platform) (allow : Option (List String)) (st : AuditScan)
    (rec : Json) :
    AuditScan.step P allow st rec = (ClockEvent.of P allow rec).map (st.handle P.toPyText) := by
  unfold AuditScan.step ClockEvent.of
  by_cases hobj : (!rec.isObj) = true
  · rw [if_pos hobj, if_pos hobj]
    rfl
  rw [if_neg hobj, if_neg hobj]
  by_cases hsig : (rec.get? "sig").isSome = true
  · rw [if_pos hsig, if_pos hsig]
    dsimp only
    split
    · next who hverify =>
      obtain ⟨r, round, digest, hr, hround, hdigest⟩ := fields_of_verifyClockCommit hverify
      simp only [hr, hround, hdigest, ok_bind]
      by_cases hallow : allow.any (fun a => decide (P.lower who ∉ a)) = true
      · rw [if_pos hallow, if_pos hallow]
        rfl
      · rw [if_neg hallow, if_neg hallow]
        show _ = Except.ok (st.handle P.toPyText (.commit who round (digest.toStr P.toPyText)))
        unfold AuditScan.handle
        dsimp only
        cases st.seen.get? (P.lower who, round) with
        | none => rfl
        | some d =>
          dsimp only
          split <;> rfl
    · cases rec.getD "round" .null <;> rfl
  · rw [if_neg hsig, if_neg hsig]
    by_cases hkind : Json.pyEq ((rec.get? "kind").getD .null) (.str clockTag) = true
    · rw [if_pos hkind, if_pos hkind]
      cases hmatch : rec.getD "match" .null with
      | error e => rfl
      | ok j =>
        simp only [ok_bind]
        by_cases hfalse : j.isFalse = true
        · rw [if_pos hfalse, if_pos hfalse]
          cases rec.getD "round" (.int 0) with
          | error e => rfl
          | ok r => cases hr : r.toInt P.toPyText <;> simp only [ok_bind, hr] <;> rfl
        · rw [if_neg hfalse, if_neg hfalse]
          simp [AuditScan.handle, Except.map, pure, Except.pure]
    · rw [if_neg hkind, if_neg hkind]
      rfl

/-- **The auditor's loop reads every record, then handles them one after the other.** -/
theorem AuditScan.run_eq (P : Platform) (allow : Option (List String)) (records : List Json)
    (st : AuditScan) :
    records.foldlM (AuditScan.step P allow) st
      = (records.mapM (ClockEvent.of P allow)).map (fun l => l.foldl (·.handle P.toPyText) st) := by
  induction records generalizing st with
  | nil => rfl
  | cons rec records ih =>
    rw [List.foldlM_cons, List.mapM_cons, AuditScan.step_eq]
    cases ClockEvent.of P allow rec with
    | error e => rfl
    | ok e =>
      show records.foldlM (AuditScan.step P allow) (st.handle P.toPyText e) = _
      rw [ih, ok_bind]
      cases records.mapM (ClockEvent.of P allow) <;> rfl

/-! ## What the loop has collected -/

/-- The round a failed record is reported with. -/
def ClockEvent.failure? : ClockEvent → Option Json
  | .failure r => some r
  | _ => none

/-- The failures, the first digest of every signer and round, and whether a later digest differs
from the first. -/
structure AuditScan.Tracks (T : PyText) (l : List ClockEvent) (st : AuditScan) : Prop where
  sigFailures : st.sigFailures = l.filterMap ClockEvent.failure?
  fresh : ∀ who round, st.seen.get? (T.lower who, round) = none →
    ∀ who' digest, .commit who' round digest ∈ l → T.lower who' ≠ T.lower who
  first : ∀ who round d, st.seen.get? (T.lower who, round) = some d →
    ∃ who', T.lower who' = T.lower who ∧ .commit who' round d ∈ l
  equivocations : st.equivocations = [] ↔ ∀ who round digest, .commit who round digest ∈ l →
    st.seen.get? (T.lower who, round) = some digest

/-- A turn of the loop keeps track. -/
theorem AuditScan.Tracks.handle {T : PyText} {l : List ClockEvent} {st : AuditScan}
    (h : st.Tracks T l) (e : ClockEvent) : (st.handle T e).Tracks T (l ++ [e]) := by
  by_cases hcommit : ∃ who round digest, e = .commit who round digest
  swap
  · -- the commitments are the same as before
    have hmem : ∀ who round digest, ClockEvent.commit who round digest ∈ l ++ [e] ↔
        .commit who round digest ∈ l := by
      intro who round digest
      simp only [List.mem_append, List.mem_singleton, or_iff_left_iff_imp]
      rintro rfl
      exact absurd ⟨who, round, digest, rfl⟩ hcommit
    have hsame : (st.handle T e).seen = st.seen ∧ (st.handle T e).equivocations = st.equivocations
        ∧ (st.handle T e).sigFailures = st.sigFailures ++ e.failure?.toList := by
      cases e with
      | commit who round digest => exact absurd ⟨who, round, digest, rfl⟩ hcommit
      | _ => simp [AuditScan.handle, ClockEvent.failure?]
    obtain ⟨hseen, hequiv, hfail⟩ := hsame
    refine ⟨?_, ?_, ?_, ?_⟩
    · rw [hfail, h.sigFailures, List.filterMap_append]
      cases hf : e.failure? <;> simp [hf]
    · simpa only [hseen, hmem] using h.fresh
    · simpa only [hseen, hmem] using h.first
    · simpa only [hseen, hequiv, hmem] using h.equivocations
  obtain ⟨who, round, digest, rfl⟩ := hcommit
  have hmem : ∀ who' round' digest', ClockEvent.commit who' round' digest'
      ∈ l ++ [.commit who round digest] ↔ .commit who' round' digest' ∈ l
        ∨ (who' = who ∧ round' = round ∧ digest' = digest) := by
    simp
  have hfail : l.filterMap ClockEvent.failure?
      = (l ++ [ClockEvent.commit who round digest]).filterMap ClockEvent.failure? := by
    simp [ClockEvent.failure?]
  unfold AuditScan.handle
  dsimp only
  cases hget : st.seen.get? (T.lower who, round) with
  | none =>
    -- the first commitment of this signer for this round
    have hkey : ∀ who' round', (T.lower who, round) = (T.lower who', round') ↔
        T.lower who' = T.lower who ∧ round' = round := by
      intro who' round'
      rw [Prod.mk.injEq, eq_comm, eq_comm (a := round)]
    refine ⟨h.sigFailures.trans hfail, ?_, ?_, ?_⟩
    · intro who' round' hnone who'' digest' hmem'
      rw [Dict.get?_set] at hnone
      split at hnone
      · cases hnone
      · next hne =>
        rcases (hmem _ _ _).mp hmem' with hold | ⟨rfl, rfl, rfl⟩
        · exact h.fresh who' round' hnone who'' digest' hold
        · exact fun heq => hne ((hkey _ _).mpr ⟨heq.symm, rfl⟩)
    · intro who' round' d hsome
      rw [Dict.get?_set] at hsome
      split at hsome
      · next heq =>
        obtain ⟨hlow, rfl⟩ := (hkey _ _).mp heq
        exact ⟨who, hlow.symm, (hmem _ _ _).mpr (Or.inr ⟨rfl, rfl, (Option.some.inj hsome).symm⟩)⟩
      · obtain ⟨who'', hlow, hold⟩ := h.first who' round' d hsome
        exact ⟨who'', hlow, (hmem _ _ _).mpr (Or.inl hold)⟩
    · rw [h.equivocations]
      constructor
      · intro hall who' round' digest' hmem'
        rw [Dict.get?_set]
        rcases (hmem _ _ _).mp hmem' with hold | ⟨rfl, rfl, rfl⟩
        · rw [if_neg, hall who' round' digest' hold]
          intro heq
          obtain ⟨hlow, rfl⟩ := (hkey _ _).mp heq
          exact h.fresh who round' hget who' digest' hold hlow
        · rw [if_pos rfl]
      · intro hall who' round' digest' hold
        have hset := hall who' round' digest' ((hmem _ _ _).mpr (Or.inl hold))
        rw [Dict.get?_set] at hset
        split at hset
        · next heq =>
          obtain ⟨hlow, rfl⟩ := (hkey _ _).mp heq
          exact absurd hlow (h.fresh who round' hget who' digest' hold)
        · exact hset
  | some d =>
    have hfresh : ∀ who' round', st.seen.get? (T.lower who', round') = none →
        ∀ who'' digest', .commit who'' round' digest' ∈ l ++ [.commit who round digest] →
          T.lower who'' ≠ T.lower who' := by
      intro who' round' hnone who'' digest' hmem'
      rcases (hmem _ _ _).mp hmem' with hold | ⟨rfl, rfl, rfl⟩
      · exact h.fresh who' round' hnone who'' digest' hold
      · intro heq
        rw [← heq, hget] at hnone
        cases hnone
    have hfirst : ∀ who' round' d', st.seen.get? (T.lower who', round') = some d' →
        ∃ who'', T.lower who'' = T.lower who'
          ∧ .commit who'' round' d' ∈ l ++ [.commit who round digest] := by
      intro who' round' d' hsome
      obtain ⟨who'', hlow, hold⟩ := h.first who' round' d' hsome
      exact ⟨who'', hlow, (hmem _ _ _).mpr (Or.inl hold)⟩
    dsimp only
    split
    · next hne =>
      -- a second digest
      refine ⟨h.sigFailures.trans hfail, hfresh, hfirst, ?_⟩
      simp only [List.append_eq_nil_iff, List.cons_ne_nil, and_false, false_iff, not_forall]
      refine ⟨who, round, digest, (hmem _ _ _).mpr (Or.inr ⟨rfl, rfl, rfl⟩), ?_⟩
      rw [hget]
      exact fun heq => hne (Option.some.inj heq)
    · next heq =>
      push Not at heq
      subst heq
      refine ⟨h.sigFailures.trans hfail, hfresh, hfirst, ?_⟩
      rw [h.equivocations]
      constructor
      · intro hall who' round' digest' hmem'
        rcases (hmem _ _ _).mp hmem' with hold | ⟨rfl, rfl, rfl⟩
        · exact hall who' round' digest' hold
        · exact hget
      · intro hall who' round' digest' hold
        exact hall who' round' digest' ((hmem _ _ _).mpr (Or.inl hold))

/-- **The auditor's loop keeps track of every record.** -/
theorem AuditScan.foldl_tracks (T : PyText) (l : List ClockEvent) :
    (l.foldl (·.handle T) AuditScan.init).Tracks T l := by
  induction l using List.reverseRecOn with
  | nil => refine ⟨?_, ?_, ?_, ?_⟩ <;> simp [AuditScan.init]
  | append_singleton l e ih =>
    rw [List.foldl_append]
    exact ih.handle e

/-- No equivocation is reported exactly when the digests of each signer and round agree. -/
theorem AuditScan.Tracks.equivocations_eq_nil {T : PyText} {l : List ClockEvent} {st : AuditScan}
    (h : st.Tracks T l) :
    st.equivocations = [] ↔ ∀ who who' round digest digest', .commit who round digest ∈ l →
      .commit who' round digest' ∈ l → T.lower who = T.lower who' → digest = digest' := by
  rw [h.equivocations]
  constructor
  · intro hall who who' round digest digest' hmem hmem' hlow
    have hget := hall who round digest hmem
    rw [hlow, hall who' round digest' hmem'] at hget
    exact (Option.some.inj hget).symm
  · intro hall who round digest hmem
    cases hget : st.seen.get? (T.lower who, round) with
    | none => exact absurd rfl (h.fresh who round hget who digest hmem)
    | some d =>
      obtain ⟨who', hlow, hfirst⟩ := h.first who round d hget
      rw [hall who who' round digest d hmem hfirst hlow.symm]

/-! ## What the log shows -/

/-- A signed commitment that re-recovers to its stated signer. -/
structure SignedBy (P : Platform) (rec : Json) (who : String) (round : ℤ) (digest : String) :
    Prop where
  signed : (rec.get? "sig").isSome = true
  verified : verifyClockCommit P rec = (true, some who)
  round : ∃ r, rec.item "round" = .ok r ∧ r.toInt P.toPyText = .ok round
  digest : ∃ d, rec.item "digest" = .ok d ∧ d.toStr P.toPyText = digest

/-- The signer is one of the expected signers, when there are any. -/
def OnRoster (T : PyText) (expected : Option (List Json)) (who : String) : Prop :=
  ∀ l ∈ expected, T.lower who ∈ l.map (normSigner T)

/-- No signer of the roster signed two digests for one round. -/
def NoEquivocation (P : Platform) (records : List Json) (expected : Option (List Json)) : Prop :=
  ∀ rec ∈ records, ∀ rec' ∈ records, ∀ who who' round digest digest',
    SignedBy P rec who round digest → SignedBy P rec' who' round digest' →
    P.lower who = P.lower who' → OnRoster P.toPyText expected who → digest = digest'

/-- Every signed record re-recovers to its stated signer, and nobody equivocated. -/
structure ClockLogSound (P : Platform) (records : List Json) (expected : Option (List Json)) :
    Prop where
  recovered : ∀ rec ∈ records, (rec.get? "sig").isSome = true →
    ∃ who, verifyClockCommit P rec = (true, some who)
  noEquivocation : NoEquivocation P records expected

/-- The signed records that do not re-recover to their stated signer. -/
def failedRecords (P : Platform) (records : List Json) : List Json :=
  records.filter (fun rec => (rec.get? "sig").isSome && !(verifyClockCommit P rec).1)

/-- The rounds of those records that state one. -/
def failedRounds (P : Platform) (records : List Json) : List Json :=
  ((failedRecords P records).map (fun rec => (rec.get? "round").getD .null)).filter Json.notNone

/-- What the auditor can read: the rounds of the failed records can be sorted, the rounds of the
reported mismatches are integers, and a failure leaves a trace in the report. -/
structure ClockLogReadable (P : Platform) (records : List Json) (expected : Option (List Json)) :
    Prop where
  sortable : (failedRounds P records).Pairwise (fun a b => Json.comparable a b = true)
  mismatches : ∀ rec ∈ records, rec.isObj = true → rec.get? "sig" = none →
    rec.get? "kind" = some (.str clockTag) → rec.get? "match" = some (.bool false) →
    ∃ round, ((rec.get? "round").getD (.int 0)).toInt P.toPyText = .ok round
  visible : failedRecords P records ≠ [] →
    failedRounds P records ≠ [] ∨ ¬ NoEquivocation P records expected

/-! ## The cases of a record, in terms of the record -/

section Cases

variable {P : Platform} {expected : Option (List Json)} {allow : Option (List String)} {rec : Json}

/-- The permitted signers. -/
def allowOf (T : PyText) (expected : Option (List Json)) : Option (List String) :=
  expected.map (fun l => l.map (normSigner T))

theorem onRoster_iff {T : PyText} {who : String} :
    (allowOf T expected).any (fun a => decide (T.lower who ∉ a)) = false ↔
      OnRoster T expected who := by
  cases expected with
  | none => simp [allowOf, OnRoster]
  | some l => simp [allowOf, OnRoster]

theorem isShadowAudit_iff : Json.pyEq ((rec.get? "kind").getD .null) (.str clockTag) = true ↔
    rec.get? "kind" = some (.str clockTag) := by
  rw [Json.pyEq_str_right]
  cases rec.get? "kind" <;> simp

theorem reportsMismatch_iff : ((rec.get? "match").getD .null).isFalse = true ↔
    rec.get? "match" = some (.bool false) := by
  rw [Json.isFalse_iff]
  cases rec.get? "match" <;> simp

/-- A record that is not signed: a shadow audit, or nothing. -/
theorem ClockEvent.of_unsigned (hobj : rec.isObj = true) (hsig : rec.get? "sig" = none) :
    ClockEvent.of P allow rec =
      if Json.pyEq ((rec.get? "kind").getD .null) (.str clockTag) then
        if ((rec.get? "match").getD .null).isFalse then
          (((rec.get? "round").getD (.int 0)).toInt P.toPyText).map
            (fun n => ClockEvent.audit (some n))
        else .ok (.audit none)
      else .ok .ignored := by
  unfold ClockEvent.of
  rw [if_neg (by simp [hobj]), if_neg (by simp [hsig])]
  simp only [Json.getD_of_isObj hobj, ok_bind]
  split
  · split
    · cases ((rec.get? "round").getD (.int 0)).toInt P.toPyText <;> rfl
    · rfl
  · rfl

/-- A signed record that does not verify. -/
theorem ClockEvent.of_failed (hsig : (rec.get? "sig").isSome = true)
    (hverify : (verifyClockCommit P rec).1 = false) :
    ClockEvent.of P allow rec = .ok (.failure ((rec.get? "round").getD .null)) := by
  have hobj := Json.isObj_of_get? hsig
  unfold ClockEvent.of
  rw [if_neg (by simp [hobj]), if_pos hsig]
  split
  · next who htrue =>
    rw [htrue] at hverify
    cases hverify
  · rw [Json.getD_of_isObj hobj]
    rfl

/-- A signed record that verifies. -/
theorem ClockEvent.of_verified {who : String} {r d : Json} {round : ℤ}
    (hsig : (rec.get? "sig").isSome = true) (hverify : verifyClockCommit P rec = (true, some who))
    (hr : rec.item "round" = .ok r) (hround : r.toInt P.toPyText = .ok round)
    (hd : rec.item "digest" = .ok d) :
    ClockEvent.of P (allowOf P.toPyText expected) rec =
      if (allowOf P.toPyText expected).any (fun a => decide (P.lower who ∉ a)) then
        .ok (.offRoster who)
      else .ok (.commit who round (d.toStr P.toPyText)) := by
  unfold ClockEvent.of
  rw [if_neg (by simp [Json.isObj_of_get? hsig]), if_pos hsig, hverify]
  simp only [hr, hround, hd, ok_bind]
  split <;> rfl

/-- The auditor reads every record but the mismatches without an integer round. -/
theorem ClockEvent.exists_of (P : Platform) (rec : Json) (expected : Option (List Json)) :
    (∃ e, ClockEvent.of P (allowOf P.toPyText expected) rec = .ok e) ↔
      (rec.isObj = true → rec.get? "sig" = none → rec.get? "kind" = some (.str clockTag) →
        rec.get? "match" = some (.bool false) →
        ∃ round, ((rec.get? "round").getD (.int 0)).toInt P.toPyText = .ok round) := by
  by_cases hobj : rec.isObj = true
  swap
  · refine iff_of_true ⟨.ignored, ?_⟩ (fun h => absurd h hobj)
    unfold ClockEvent.of
    rw [if_pos (by simpa using hobj)]
  cases hsig : rec.get? "sig" with
  | none =>
    rw [ClockEvent.of_unsigned hobj hsig, ← isShadowAudit_iff, ← reportsMismatch_iff]
    split
    · next hkind =>
      split
      · next hmatch =>
        simp only [hobj, hkind, hmatch, forall_true_left]
        cases ((rec.get? "round").getD (.int 0)).toInt P.toPyText <;> simp [Except.map]
      · next hmatch => exact iff_of_true ⟨_, rfl⟩ (fun _ _ _ h => absurd h hmatch)
    · next hkind => exact iff_of_true ⟨_, rfl⟩ (fun _ _ h => absurd h hkind)
  | some sig =>
    have hsome : (rec.get? "sig").isSome = true := by rw [hsig]; rfl
    refine iff_of_true ?_ (fun _ h => nomatch h)
    cases hverify : (verifyClockCommit P rec).1 with
    | false => exact ⟨_, ClockEvent.of_failed hsome hverify⟩
    | true =>
      obtain ⟨who, hwho⟩ := verifyClockCommit_true hverify
      obtain ⟨r, round, d, hr, hround, hd⟩ := fields_of_verifyClockCommit hwho
      rw [ClockEvent.of_verified hsome hwho hr hround hd]
      split <;> exact ⟨_, rfl⟩

/-- The failures are the failed records. -/
theorem ClockEvent.failure?_of {e : ClockEvent}
    (h : ClockEvent.of P (allowOf P.toPyText expected) rec = .ok e) :
    e.failure? = if (rec.get? "sig").isSome && !(verifyClockCommit P rec).1 then
      some ((rec.get? "round").getD .null) else none := by
  by_cases hobj : rec.isObj = true
  swap
  · have hsig : rec.get? "sig" = none := by
      cases rec with
      | obj kvs => exact absurd rfl hobj
      | _ => rfl
    unfold ClockEvent.of at h
    rw [if_pos (by simpa using hobj)] at h
    cases h
    simp [hsig, ClockEvent.failure?]
  cases hsig : rec.get? "sig" with
  | none =>
    rw [ClockEvent.of_unsigned hobj hsig] at h
    have hnone : e.failure? = none := by
      split at h
      · split at h
        · cases hround : ((rec.get? "round").getD (.int 0)).toInt P.toPyText with
          | error err => rw [hround] at h; cases h
          | ok n => rw [hround] at h; cases h; rfl
        · cases h; rfl
      · cases h; rfl
    simp [hnone]
  | some sig =>
    have hsome : (rec.get? "sig").isSome = true := by rw [hsig]; rfl
    cases hverify : (verifyClockCommit P rec).1 with
    | false =>
      rw [ClockEvent.of_failed hsome hverify] at h
      cases h
      rfl
    | true =>
      obtain ⟨who, hwho⟩ := verifyClockCommit_true hverify
      obtain ⟨r, round, d, hr, hround, hd⟩ := fields_of_verifyClockCommit hwho
      rw [ClockEvent.of_verified hsome hwho hr hround hd] at h
      split at h <;> cases h <;> rfl

/-- The commitments are the signed records of the roster. -/
theorem ClockEvent.of_eq_commit {who : String} {round : ℤ} {digest : String} :
    ClockEvent.of P (allowOf P.toPyText expected) rec = .ok (.commit who round digest) ↔
      SignedBy P rec who round digest ∧ OnRoster P.toPyText expected who := by
  constructor
  · intro h
    by_cases hobj : rec.isObj = true
    swap
    · unfold ClockEvent.of at h
      rw [if_pos (by simpa using hobj)] at h
      cases h
    cases hsig : rec.get? "sig" with
    | none =>
      rw [ClockEvent.of_unsigned hobj hsig] at h
      split at h
      · split at h
        · cases hround : ((rec.get? "round").getD (.int 0)).toInt P.toPyText with
          | error err => rw [hround] at h; cases h
          | ok n => rw [hround] at h; cases h
        · cases h
      · cases h
    | some sig =>
      have hsome : (rec.get? "sig").isSome = true := by rw [hsig]; rfl
      cases hverify : (verifyClockCommit P rec).1 with
      | false =>
        rw [ClockEvent.of_failed hsome hverify] at h
        cases h
      | true =>
        obtain ⟨who', hwho⟩ := verifyClockCommit_true hverify
        obtain ⟨r, round', d, hr, hround, hd⟩ := fields_of_verifyClockCommit hwho
        rw [ClockEvent.of_verified hsome hwho hr hround hd] at h
        split at h
        · cases h
        · next hroster =>
          cases h
          exact ⟨⟨hsome, hwho, ⟨r, hr, hround⟩, ⟨d, hd, rfl⟩⟩,
            onRoster_iff.mp (by simpa using hroster)⟩
  · rintro ⟨hsigned, hroster⟩
    obtain ⟨r, hr, hround⟩ := hsigned.round
    obtain ⟨d, hd, rfl⟩ := hsigned.digest
    rw [ClockEvent.of_verified hsigned.signed hsigned.verified hr hround hd,
      onRoster_iff.mpr hroster]
    rfl

end Cases

/-! ## The verdict -/

section Verdict

variable {P : Platform} {records : List Json} {expected : Option (List Json)}

/-- What the loop has collected, in terms of the records. -/
theorem exists_scan :
    (∃ st, records.foldlM (AuditScan.step P (allowOf P.toPyText expected)) .init = .ok st) ↔
      ∀ rec ∈ records, rec.isObj = true → rec.get? "sig" = none →
        rec.get? "kind" = some (.str clockTag) → rec.get? "match" = some (.bool false) →
        ∃ round, ((rec.get? "round").getD (.int 0)).toInt P.toPyText = .ok round := by
  have hevent := fun rec : Json => ClockEvent.exists_of P rec expected
  rw [AuditScan.run_eq]
  simp only [← hevent, ← exists_mapM_eq_ok]
  cases records.mapM (ClockEvent.of P (allowOf P.toPyText expected)) <;> simp [Except.map]

theorem scan_facts {st : AuditScan}
    (h : records.foldlM (AuditScan.step P (allowOf P.toPyText expected)) .init = .ok st) :
    st.sigFailures = (failedRecords P records).map (fun rec => (rec.get? "round").getD .null)
      ∧ (st.equivocations = [] ↔ NoEquivocation P records expected) := by
  rw [AuditScan.run_eq] at h
  cases hevents : records.mapM (ClockEvent.of P (allowOf P.toPyText expected)) with
  | error e =>
    rw [hevents] at h
    cases h
  | ok l =>
    rw [hevents] at h
    cases h
    have hall := forall₂_of_mapM hevents
    have htracks := AuditScan.foldl_tracks P.toPyText l
    refine ⟨?_, ?_⟩
    · rw [htracks.sigFailures]
      clear hevents htracks
      induction hall with
      | nil => rfl
      | @cons rec e records l hhead _ ih =>
        rw [List.filterMap_cons, ClockEvent.failure?_of hhead, ih, failedRecords, failedRecords]
        simp only [List.filter_cons]
        cases hfail : (rec.get? "sig").isSome && !(verifyClockCommit P rec).1 <;> simp
    · have hcommit : ∀ who round digest, .commit who round digest ∈ l ↔
          ∃ rec ∈ records, SignedBy P rec who round digest ∧ OnRoster P.toPyText expected who := by
        intro who round digest
        constructor
        · intro hmem
          obtain ⟨rec, hrec, hof⟩ := exists_left_of_forall₂ hall hmem
          exact ⟨rec, hrec, ClockEvent.of_eq_commit.mp hof⟩
        · rintro ⟨rec, hrec, hsigned⟩
          obtain ⟨e, he, hof⟩ := exists_right_of_forall₂ hall hrec
          rw [ClockEvent.of_eq_commit.mpr hsigned] at hof
          cases hof
          exact he
      rw [htracks.equivocations_eq_nil]
      constructor
      · intro hno rec hrec rec' hrec' who who' round digest digest' hs hs' hlow hroster
        have hroster' : OnRoster P.toPyText expected who' := by
          intro l hl
          rw [← hlow]
          exact hroster l hl
        exact hno who who' round digest digest' ((hcommit ..).mpr ⟨rec, hrec, hs, hroster⟩)
          ((hcommit ..).mpr ⟨rec', hrec', hs', hroster'⟩) hlow
      · intro hno who who' round digest digest' hmem hmem' hlow
        obtain ⟨rec, hrec, hs, hroster⟩ := (hcommit ..).mp hmem
        obtain ⟨rec', hrec', hs', _⟩ := (hcommit ..).mp hmem'
        exact hno rec hrec rec' hrec' who who' round digest digest' hs hs' hlow hroster

theorem recovered_iff :
    (∀ rec ∈ records, (rec.get? "sig").isSome = true →
      ∃ who, verifyClockCommit P rec = (true, some who)) ↔ failedRecords P records = [] := by
  rw [failedRecords, List.filter_eq_nil_iff]
  refine forall₂_congr fun rec _ => ?_
  simp only [Bool.and_eq_true, Bool.not_eq_true', not_and, Bool.not_eq_false]
  refine forall_congr' fun _ => ⟨?_, verifyClockCommit_true⟩
  rintro ⟨who, hwho⟩
  rw [hwho]

end Verdict

/-- **The auditor returns, and its verdict is what the log shows, exactly on the readable
logs.** -/
theorem audit_complete_iff (P : Platform) (records : List Json) (expected : Option (List Json)) :
    (∃ report, auditClockRecords P records expected = .ok report
        ∧ (report.ok = true ↔ ClockLogSound P records expected)) ↔
      ClockLogReadable P records expected := by
  have hsound : ClockLogSound P records expected ↔
      failedRecords P records = [] ∧ NoEquivocation P records expected :=
    ⟨fun h => ⟨recovered_iff.mp h.recovered, h.noEquivocation⟩,
      fun h => ⟨recovered_iff.mpr h.1, h.2⟩⟩
  have hrounds : failedRecords P records = [] → failedRounds P records = [] := by
    intro h
    rw [failedRounds, h]
    rfl
  rw [hsound]
  unfold auditClockRecords
  constructor
  · rintro ⟨report, hreport, hok⟩
    obtain ⟨st, hst, hreport⟩ := bind_eq_ok.mp hreport
    obtain ⟨sorted, hsorted, hreport⟩ := bind_eq_ok.mp hreport
    obtain ⟨hfail, hequiv⟩ := scan_facts hst
    rw [hfail, show ((failedRecords P records).map _).filter _ = failedRounds P records from rfl]
      at hsorted
    have hpair : (failedRounds P records).Pairwise (fun a b => Json.comparable a b = true) := by
      by_contra hno
      rw [Json.sorted, if_neg hno] at hsorted
      cases hsorted
    rw [Json.sorted, if_pos hpair] at hsorted
    have hnil : sorted = [] ↔ failedRounds P records = [] := by
      rw [← Except.ok.inj hsorted]
      simp only [List.eq_nil_iff_forall_not_mem, List.mem_insertionSort]
    cases hreport
    refine ⟨hpair, exists_scan.mp ⟨st, hst⟩, fun hne => ?_⟩
    by_contra hno
    push Not at hno
    refine hne (hok.mp ?_).1
    simpa [hnil, hequiv] using hno
  · rintro ⟨hpair, hmismatches, hvisible⟩
    obtain ⟨st, hst⟩ := exists_scan.mpr hmismatches
    obtain ⟨hfail, hequiv⟩ := scan_facts hst
    have hsorted : Json.sorted (st.sigFailures.filter Json.notNone)
        = .ok ((failedRounds P records).insertionSort Json.sortLe) := by
      rw [hfail]
      exact if_pos hpair
    have hnil : (failedRounds P records).insertionSort Json.sortLe = [] ↔
        failedRounds P records = [] := by
      simp only [List.eq_nil_iff_forall_not_mem, List.mem_insertionSort]
    rw [show expected.map (fun l => l.map (normSigner P.toPyText)) = allowOf P.toPyText expected
      from rfl]
    refine ⟨_, bind_eq_ok.mpr ⟨st, hst, bind_eq_ok.mpr ⟨_, hsorted, rfl⟩⟩, ?_⟩
    simp only [Bool.and_eq_true, List.isEmpty_iff, hnil, hequiv]
    constructor
    · rintro ⟨hno, hloyal⟩
      refine ⟨?_, hloyal⟩
      by_contra hne
      exact (hvisible hne).elim (fun h => h hno) (fun h => h hloyal)
    · rintro ⟨hno, hloyal⟩
      exact ⟨hrounds hno, hloyal⟩

/-- A record with a signature and nothing else: it fails, and the report is clean. -/
theorem not_audit_complete :
    ¬ ∀ (P : Platform) (records : List Json) (expected : Option (List Json)),
      ∃ report, auditClockRecords P records expected = .ok report
        ∧ (report.ok = true ↔ ClockLogSound P records expected) := by
  intro h
  obtain ⟨report, hreport, hok⟩ := h Platform.ideal [.obj [("sig", .str "0x00")]] none
  have hverify : verifyClockCommit Platform.ideal (.obj [("sig", .str "0x00")]) = (false, none) := by
    rfl
  have hclean : report.ok = true := by
    cases hreport
    rfl
  obtain ⟨who, hwho⟩ := (hok.mp hclean).recovered _ (List.mem_singleton_self _) rfl
  rw [hverify] at hwho
  cases hwho

end NeuraHash
