import NeuraHash.Rounds.ViewChange

/-!
# Accepting a proposal in place (`Candidate.accept`)

`accept` reads an untrusted envelope through nine checks and then assigns three members of the
replica's chain, one after the other. An exception in Python keeps what was assigned before it, so
`acceptInPlace` is written over the state of the candidate, and nothing in its type says that a
rejection changes nothing.

`acceptInPlace_run` says that it refines the pure `Candidate.accept`; `acceptInPlace_spec` is what a
peer relies on: the proposer was elected, every earlier view was timed out by a strict majority of
the roster, the block extends the chain, and anything else leaves the candidate as it was.
-/

namespace NeuraHash

open Py

/-! ## Envelopes -/

/-- An envelope as `accept` is handed it: the members of a sent one and, in process, the map of
timeouts under the integer and the text keys it then has. -/
structure Envelope where
  members : Json
  handed : Option (Dict ℤ Json × Dict String Json)

/-- `quorums.get(v, quorums.get(str(v)))`. -/
def Envelope.timeouts (envelope : Envelope) (v : ℕ) : Except PyErr Json :=
  match envelope.handed with
  | none => Election.sentTimeouts envelope.members v
  | some (byView, byText) => .ok (byView.getD v (byText.getD (v : ℤ).repr .null))

/-! ## `accept`, assignment by assignment -/

/-- Code of a candidate: an exception keeps the assignments made before it. -/
abbrev Accepting := ExceptT PyErr (StateM Candidate)

namespace Candidate

/-- `self.chain.state = st`. -/
def setState (st : State PyFloat) (c : Candidate) : Candidate :=
  { c with chain := { c.chain with state := st } }

/-- `self.chain.blocks.append(rec)`. -/
def pushBlock (rec : Json) (c : Candidate) : Candidate :=
  { c with chain := { c.chain with blocks := c.chain.blocks ++ [rec] } }

/-- `self.chain.head = head`. -/
def setHead (head : String) (c : Candidate) : Candidate :=
  { c with chain := { c.chain with head := head } }

/-- `dict(rec)` of a record that has a header. -/
def copyRecord : Json → Except PyErr Json
  | .obj kvs => .ok (.obj kvs)
  | _ => .error .typeError

/-- The three assignments of an accepted block. -/
def advance (P : Platform) (hdr : BlockHeader PyFloat) (rec : Json) (st : State PyFloat) :
    Accepting (Except AcceptReason Unit) := do
  modify (setState st)
  let copied ← copyRecord rec
  modify (pushBlock copied)
  let head ← hdr.hash P
  modify (setHead head)
  return .ok ()

/-- `accept` once the header is read. -/
def acceptBlockInPlace (P : Platform) (envelope claim rec : Json) (hdr : BlockHeader PyFloat) :
    Accepting (Except AcceptReason Unit) := do
  let claimed := (← claim.item "block_hash").toStr P.toPyText
  let h ← hdr.hash P
  if claimed ≠ h then return .error .claimNotBound
  else
    let round ← (← envelope.getD "round" (.int (-2))).toInt P.toPyText
    if round ≠ hdr.height then return .error .roundMismatch
    else
      let claimRound ← (← claim.getD "round" (.int (-3))).toInt P.toPyText
      if claimRound ≠ hdr.height then return .error .roundMismatch
      else
        let self ← get
        if !Json.pyEq hdr.prevHash (.str self.chain.head) then return .error .notExtending
        else
          match recoverBlock P hdr rec with
          | .error e => return .error (.badSignature e)
          | .ok (_, signer) =>
            if norm P.toPyText signer ≠ norm P.toPyText self.chain.coord then
              return .error (.notCoordinator signer)
            else
              match applyRecord P self.chain.state hdr rec with
              | .error e => return .error (.doesNotApply e)
              | .ok st => advance P hdr rec st

/-- `accept(envelope, order, unavailable, timeout_m=…, roster=…)`. -/
def acceptInPlace (P : Platform) (envelope : Envelope) (e : Election) :
    Accepting (Except AcceptReason Unit) := do
  let claim ← envelope.members.getD "claim" .null
  match recoverProposer P claim with
  | none => return .error .invalidClaim
  | some who =>
    match (← e.check P envelope.members who envelope.timeouts) with
    | .error r => return .error r
    | .ok () =>
      let block ← envelope.members.getD "block" .null
      let record := block.orElse (.obj [])
      match readHeader P.toPyText record with
      | .error err => return .error (.malformedHeader err)
      | .ok hdr => acceptBlockInPlace P envelope.members claim record hdr

/-- A call of code of the candidate: what it returns or raises, and the candidate after it. -/
def call {α : Type} (c : Candidate) (code : Accepting α) : Except PyErr α × Candidate := code c

/-! ## In place and pure -/

section Call

variable {α β : Type} (c : Candidate)

@[simp] theorem call_pure (a : α) : c.call (pure a) = (.ok a, c) := rfl

/-- What a read raises ends the call; nothing was assigned. -/
theorem call_read (x : Except PyErr α) (rest : α → Accepting β) :
    c.call (liftM x >>= rest) = match x with
      | .error e => (.error e, c)
      | .ok a => c.call (rest a) := by
  cases x <;> rfl

theorem call_assign (g : Candidate → Candidate) (rest : Accepting β) :
    c.call (modify g >>= fun _ => rest) = (g c).call rest := rfl

theorem call_get (rest : Candidate → Accepting β) : c.call (get >>= rest) = c.call (rest c) := rfl

end Call

/-- What the pure `accept` says of a call: a rejection or an exception leaves the candidate. -/
def outcome (c : Candidate) : Except PyErr (Except AcceptReason Candidate) →
    Except PyErr (Except AcceptReason Unit) × Candidate
  | .ok (.ok c') => (.ok (.ok ()), c')
  | .ok (.error r) => (.ok (.error r), c)
  | .error e => (.error e, c)

theorem outcome_bind {α : Type} (c : Candidate) (x : Except PyErr α)
    (rest : α → Except PyErr (Except AcceptReason Candidate)) :
    c.outcome (x >>= rest) = match x with
      | .error e => (.error e, c)
      | .ok a => c.outcome (rest a) := by
  cases x <;> rfl

section Refine

variable {P : Platform} {c : Candidate} {envelope claim rec : Json} {hdr : BlockHeader PyFloat}

/-- No assignment fails once the block applied. -/
theorem call_advance (hheader : HeaderOf P.toPyText rec hdr) {head : String}
    (hhash : hdr.hash P = .ok head) (st : State PyFloat) :
    c.call (advance P hdr rec st) = (.ok (.ok ()), c.append rec st head) := by
  obtain ⟨j, hj, _⟩ := hheader
  obtain ⟨kvs, rfl⟩ := Json.isObj_of_item hj
  unfold advance
  rw [call_assign, call_read, copyRecord]
  dsimp only
  rw [call_assign, call_read, hhash]
  rfl

/-- After the header, the assignments come last. -/
theorem call_acceptBlockInPlace (hheader : HeaderOf P.toPyText rec hdr) :
    c.call (acceptBlockInPlace P envelope claim rec hdr)
      = c.outcome (c.acceptBlock P envelope claim rec hdr) := by
  unfold acceptBlockInPlace acceptBlock
  rw [call_read, outcome_bind]
  cases claim.item "block_hash" with
  | error e => rfl
  | ok b =>
  dsimp only
  rw [call_read, outcome_bind]
  cases hhash : hdr.hash P with
  | error e => rfl
  | ok head =>
  dsimp only
  by_cases hbound : b.toStr P.toPyText = head
  swap
  · rw [if_pos hbound, if_pos hbound]
    rfl
  rw [if_neg (not_not.mpr hbound), if_neg (not_not.mpr hbound), call_read, outcome_bind]
  cases envelope.getD "round" (.int (-2)) with
  | error e => rfl
  | ok r =>
  dsimp only
  rw [call_read, outcome_bind]
  cases r.toInt P.toPyText with
  | error e => rfl
  | ok round =>
  dsimp only
  by_cases hround : round = hdr.height
  swap
  · rw [if_pos hround, if_pos hround]
    rfl
  rw [if_neg (not_not.mpr hround), if_neg (not_not.mpr hround), call_read, outcome_bind]
  cases claim.getD "round" (.int (-3)) with
  | error e => rfl
  | ok r =>
  dsimp only
  rw [call_read, outcome_bind]
  cases r.toInt P.toPyText with
  | error e => rfl
  | ok claimRound =>
  dsimp only
  by_cases hclaimRound : claimRound = hdr.height
  swap
  · rw [if_pos hclaimRound, if_pos hclaimRound]
    rfl
  rw [if_neg (not_not.mpr hclaimRound), if_neg (not_not.mpr hclaimRound), call_get]
  cases hlink : Json.pyEq hdr.prevHash (.str c.chain.head) with
  | false => rfl
  | true =>
  rw [if_neg (by decide), if_neg (by decide)]
  cases recoverBlock P hdr rec with
  | error e => rfl
  | ok signed =>
  obtain ⟨head', signer⟩ := signed
  dsimp only
  by_cases hsigner : norm P.toPyText signer = norm P.toPyText c.chain.coord
  swap
  · rw [if_pos hsigner, if_pos hsigner]
    rfl
  rw [if_neg (not_not.mpr hsigner), if_neg (not_not.mpr hsigner)]
  cases applyRecord P c.chain.state hdr rec with
  | error e => rfl
  | ok st => exact call_advance hheader hhash st

/-- **`accept` in place refines the pure one**: what it returns, and the candidate after it. -/
theorem call_acceptInPlace (envelope : Envelope) (e : Election) :
    c.call (acceptInPlace P envelope e)
      = c.outcome (c.accept P envelope.members e envelope.timeouts) := by
  unfold acceptInPlace accept
  rw [call_read, outcome_bind]
  cases envelope.members.getD "claim" .null with
  | error e => rfl
  | ok claim =>
  dsimp only
  cases recoverProposer P claim with
  | none => rfl
  | some who =>
  dsimp only
  rw [call_read, outcome_bind]
  cases e.check P envelope.members who envelope.timeouts with
  | error e => rfl
  | ok verdict =>
  cases verdict with
  | error r => rfl
  | ok _ =>
  dsimp only
  rw [call_read, outcome_bind]
  cases envelope.members.getD "block" .null with
  | error e => rfl
  | ok block =>
  dsimp only
  cases hread : readHeader P.toPyText (block.orElse (.obj [])) with
  | error err => rfl
  | ok hdr =>
  have hheader : HeaderOf P.toPyText (block.orElse (.obj [])) hdr := by
    obtain ⟨j, hj, hdr'⟩ := bind_eq_ok.mp hread
    exact ⟨j, hj, hdr'⟩
  exact call_acceptBlockInPlace hheader

end Refine

end Candidate

/-! ## The election -/

/-- A strict majority of the distinct identities of the roster signed that `failed` did not produce
the block of the round at this view. -/
def TimedOutByMajority (P : Platform) (roster : List String) (round : ℤ) (failed : String)
    (view : ℕ) (attestations : Json) : Prop :=
  ∃ (atts : List Json) (signers : List String), (attestations.orElse (.arr [])).toList = .ok atts
    ∧ signers.Nodup
    ∧ (roster.map (norm P.toPyText)).dedup.length < 2 * signers.length
    ∧ ∀ s ∈ signers, s ∈ GuardianSet.normalize P.toPyText (roster.map Json.str)
      ∧ ∃ sig ∈ sigsOf atts, ∃ who,
        recoverBytes P (timeoutPayload P.toPyText round failed view) sig = some who
          ∧ P.lower who = s

/-- Who may produce the block of a round, as `accept` reads the envelope. -/
inductive Elected (P : Platform) (envelope : Envelope) (e : Election) (round : ℤ) (who : String) :
    Prop
  /-- Without a view: the first signer of the order that is not down. -/
  | legacy {expected : String} (hview : envelope.members.get? "view" = none)
      (helected : electProposer P.toPyText e.order e.unavailable = some expected)
      (hwho : norm P.toPyText who = norm P.toPyText expected)
  /-- The proposer of the view, when every earlier view timed out. -/
  | atView {j : Json} (view : ℕ) (hview : envelope.members.get? "view" = some j)
      (hread : j.toInt P.toPyText = .ok (view : ℤ)) (hlt : view < e.order.length)
      (hwho : norm P.toPyText who = norm P.toPyText e.order[view])
      (htimeouts : ∀ u, ∀ hu : u < view, ∃ atts, envelope.timeouts u = .ok atts
        ∧ TimedOutByMajority P e.members round e.order[u] u atts)

section Election

variable {P : Platform} {e : Election} {round : ℤ} {envelope : Envelope} {who : String}

theorem timedOutByMajority_of_approved {roster : List String} {m : ℤ} {failed : String}
    {view : ℕ} {attestations : Json} {verdict : TimeoutVerdict}
    (h : verifyTimeoutQuorum P attestations roster m round failed view = .ok verdict)
    (happroved : verdict.approved = true) :
    TimedOutByMajority P roster round failed view attestations := by
  obtain ⟨⟨_, _, hmajority⟩, gs, atts, hgs, hatts, hcount⟩ :=
    verifyTimeoutQuorum_approved.mp ⟨verdict, h, happroved⟩
  refine ⟨atts, gs.distinctSigners P (timeoutPayload P.toPyText round failed view) (sigsOf atts),
    hatts, gs.nodup_distinctSigners P _ _, by omega, fun s hs => ?_⟩
  obtain ⟨hmem, hsigned⟩ := GuardianSet.mem_distinctSigners.mp hs
  rw [(GuardianSet.make_eq_ok.mp hgs).1] at hmem
  exact ⟨hmem, hsigned⟩

/-- The loop over the earlier views ends well when each of them has its quorum. -/
theorem timedOut_of_checkTimeouts {timeouts : ℕ → Except PyErr Json} {failed : List String}
    {v : ℕ} (h : e.checkTimeouts P round timeouts v failed = .ok (.ok ())) :
    ∀ i, ∀ hi : i < failed.length, ∃ atts, timeouts (v + i) = .ok atts
      ∧ TimedOutByMajority P e.members round failed[i] (v + i) atts := by
  induction failed generalizing v with
  | nil => exact fun i hi => absurd hi (Nat.not_lt_zero i)
  | cons f rest ih =>
    unfold Election.checkTimeouts at h
    obtain ⟨atts, hatts, h⟩ := bind_eq_ok.mp h
    obtain ⟨verdict, hverdict, h⟩ := bind_eq_ok.mp h
    cases happroved : verdict.approved with
    | false =>
      rw [happroved] at h
      cases h
    | true =>
      rw [happroved, if_pos rfl] at h
      intro i hi
      cases i with
      | zero => exact ⟨atts, hatts, timedOutByMajority_of_approved hverdict happroved⟩
      | succ i =>
        obtain ⟨atts', hatts', hmajority⟩ := ih h i (Nat.lt_of_succ_lt_succ hi)
        rw [Nat.add_right_comm] at hatts' hmajority
        exact ⟨atts', hatts', hmajority⟩

/-- **No path through the election check is without its view proof.** -/
theorem elected_of_check
    (h : e.check P envelope.members who envelope.timeouts = .ok (.ok ()))
    (hround : ∀ j, envelope.members.item "round" = .ok j → j.toInt P.toPyText = .ok round) :
    Elected P envelope e round who := by
  unfold Election.check at h
  split at h
  · next j hview =>
    split at h
    · next view hread =>
      unfold Election.checkView at h
      split at h
      · cases h
      next hrange =>
      obtain ⟨hnonneg, hlt⟩ := not_not.mp hrange
      obtain ⟨n, rfl⟩ := Int.eq_ofNat_of_zero_le hnonneg
      have hlt : n < e.order.length := by omega
      dsimp only [Int.toNat_natCast] at h
      rw [List.getD_eq_getElem _ _ hlt] at h
      split at h
      · cases h
      next hwho =>
      refine .atView n hview hread hlt (not_not.mp hwho) fun u hu => ?_
      rw [if_neg (by omega)] at h
      obtain ⟨r, hr, h⟩ := bind_eq_ok.mp h
      obtain ⟨round', hround', h⟩ := bind_eq_ok.mp h
      rw [hround r hr] at hround'
      cases hround'
      have hu' : u < (e.order.take n).length := by
        rw [List.length_take]
        omega
      have hmajority := timedOut_of_checkTimeouts h u hu'
      rwa [Nat.zero_add, List.getElem_take] at hmajority
    · cases h
    · cases h
    · cases h
  · next hview =>
    split at h
    · next expected helected =>
      split at h
      · next hwho => exact .legacy hview helected hwho
      · cases h
    · cases h

end Election

/-! ## What a peer relies on -/

/-- The block `rec` of the envelope, produced by `who`, was checked and appended. -/
structure Appended (P : Platform) (envelope : Envelope) (e : Election) (c c' : Candidate)
    (claim rec : Json) (hdr : BlockHeader PyFloat) (who : String) : Prop where
  carries : Carries envelope.members claim rec
  claimant : recoverProposer P claim = some who
  elected : Elected P envelope e hdr.height who
  /-- The claim names the block, and the three rounds are its height. -/
  bound : Bound P envelope.members claim hdr c'.chain.head
  header : HeaderOf P.toPyText rec hdr
  extends_head : hdr.prevHash = .str c.chain.head
  hash : hdr.hash P = .ok c'.chain.head
  coordinator : ∃ sig signer, rec.item "sig" = .ok sig
    ∧ recoverBytes P (utf8 c'.chain.head) sig = some signer
    ∧ norm P.toPyText signer = norm P.toPyText c.chain.coord
  applied : applyRecord P c.chain.state hdr rec = .ok c'.chain.state
  blocks : c'.chain.blocks = c.chain.blocks ++ [rec]
  keeps : c'.identity = c.identity ∧ c'.chain.coord = c.chain.coord

/-- **Acceptance is sound and atomic**: a block is appended when its proposer was elected, every
earlier view timed out, and it extends the chain under the coordinator's signature; an envelope that
is rejected or raises leaves the candidate as it was. -/
theorem Candidate.accept_sound_atomic (P : Platform) (c : Candidate) (envelope : Envelope)
    (e : Election) :
    match c.call (acceptInPlace P envelope e) with
    | (.ok (.ok ()), c') => ∃ claim rec hdr who, Appended P envelope e c c' claim rec hdr who
    | (_, c') => c' = c := by
  rw [call_acceptInPlace]
  cases h : c.accept P envelope.members e envelope.timeouts with
  | error err => rfl
  | ok verdict =>
    cases verdict with
    | error r => rfl
    | ok c' =>
      obtain ⟨claim, rec, hdr, who, st, head, hcarries, hwho, hcheck, hbound, hblock, rfl⟩ :=
        accept_eq_ok.mp h
      obtain ⟨r, hr, hround⟩ := hbound.round
      have helected : Elected P envelope e hdr.height who := by
        refine elected_of_check hcheck fun j hj => ?_
        rw [Json.getD_of_item hj] at hr
        cases hr
        exact hround
      exact ⟨claim, rec, hdr, who, hcarries, hwho, helected, hbound, hblock.header, hblock.link,
        hblock.hash, hblock.signed, hblock.applied, rfl, rfl, rfl⟩

end NeuraHash
