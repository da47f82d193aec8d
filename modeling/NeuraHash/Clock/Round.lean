import NeuraHash.Platform

/-!
# The round clock (`neurahash/diloco_clock.py`)

Participants of a round commit to a nonce (`commitDigest`) and reveal it later. `agreeRound` reads
the commits and the reveals, which are untrusted JSON, and derives the seed and the order of the
round from the reveals that open their signer's commit; everything else it met goes into the
disputes. `shadowAudit` compares the agreed order with a claimed one.

The two loops of `agreeRound` are folds of `CommitScan.step` and `RevealScan.step`. A message that
raises inside a `try` block is skipped.
-/

namespace NeuraHash

open Py

/-- `DOMAIN`. -/
def clockDomain : Bytes := utf8 "neurahash-diloco-clock/v1"

/-- `CLOCK_TAG`. -/
def clockTag : String := "neurahash-diloco-clock"

/-- `_norm_signer(signer)`. -/
def normSigner (T : PyText) (signer : Json) : String := T.lower (signer.toStr T)

theorem normSigner_str_lower (T : PyText) (s : String) :
    normSigner T (.str (T.lower s)) = T.lower s := T.lower_lower s

/-! ## Commit and reveal -/

/-- `bytes.fromhex(s)`. -/
def unhex (s : String) : Except PyErr Bytes :=
  match fromHex s with
  | some b => .ok b
  | none => .error .valueError

/-- `commit_digest(round_id, signer, nonce_hex)`. -/
def commitDigest (P : Platform) (round signer nonce : Json) : Except PyErr String := do
  let r ← toBytes8 (← round.toInt P.toPyText)
  let n ← unhex (nonce.toStr P.toPyText)
  return P.sha256 (clockDomain ++ utf8 "|" ++ r ++ utf8 "|" ++ n ++ utf8 "|"
    ++ utf8 (normSigner P.toPyText signer))

/-- What a participant keeps of its commit. -/
structure SealedCommit where
  round : ℤ
  signer : String
  digest : String
  nonce : String

/-- `make_commit(round_id, signer, nonce_hex)`. -/
def makeCommit (P : Platform) (round : ℤ) (signer : Json) (nonce : String) :
    Except PyErr SealedCommit := do
  let digest ← commitDigest P (.int round) signer (.str nonce)
  return { round, signer := normSigner P.toPyText signer, digest, nonce }

/-- `commit_envelope(sealed)`. -/
def commitEnvelope (sealedCommit : SealedCommit) : Json :=
  .obj [("round", .int sealedCommit.round), ("signer", .str sealedCommit.signer),
    ("digest", .str sealedCommit.digest)]

/-- `reveal_of(sealed)`. -/
def revealOf (sealedCommit : SealedCommit) : Json :=
  .obj [("round", .int sealedCommit.round), ("signer", .str sealedCommit.signer),
    ("nonce", .str sealedCommit.nonce)]

/-- The `try` block of `verify_reveal`: the recomputed digest, or `none` for another round or
another signer. -/
def recomputedDigest (P : Platform) (commitEnv reveal : Json) : Except PyErr (Option String) := do
  if (← (← commitEnv.item "round").toInt P.toPyText)
      ≠ (← (← reveal.item "round").toInt P.toPyText) then return none
  if normSigner P.toPyText (← commitEnv.item "signer")
      ≠ normSigner P.toPyText (← reveal.item "signer") then return none
  return some (← commitDigest P (← reveal.item "round") (← reveal.item "signer")
    (← reveal.item "nonce"))

/-- `verify_reveal(commit_env, reveal)`. -/
def verifyReveal (P : Platform) (commitEnv reveal : Json) : Except PyErr Bool :=
  match recomputedDigest P commitEnv reveal with
  | .ok (some recomputed) => do
    return recomputed == (← commitEnv.item "digest").toStr P.toPyText
  | _ => .ok false

/-- **The reveal of a commit opens it.** -/
theorem verifyReveal_makeCommit {P : Platform} {round : ℤ} {signer : Json} {nonce : String}
    {sealedCommit : SealedCommit} (h : makeCommit P round signer nonce = .ok sealedCommit) :
    verifyReveal P (commitEnvelope sealedCommit) (revealOf sealedCommit) = .ok true := by
  obtain ⟨digest, hdigest, h⟩ := bind_eq_ok.mp h
  cases h
  have hsame : commitDigest P (.int round) (.str (normSigner P.toPyText signer)) (.str nonce)
      = .ok digest := by
    rw [← hdigest]
    unfold commitDigest
    rw [show normSigner P.toPyText (.str (normSigner P.toPyText signer))
      = normSigner P.toPyText signer from P.lower_lower _]
  have hrec : recomputedDigest P
      (commitEnvelope ⟨round, normSigner P.toPyText signer, digest, nonce⟩)
      (revealOf ⟨round, normSigner P.toPyText signer, digest, nonce⟩) = .ok (some digest) := by
    unfold recomputedDigest
    simp only [commitEnvelope, revealOf, Json.item_obj, List.reverse_cons, List.reverse_nil,
      List.nil_append, List.cons_append, Dict.lookup, String.reduceEq, ↓reduceIte, ok_bind,
      Json.toInt_int, ne_eq, not_true_eq_false, hsame]
    rfl
  unfold verifyReveal
  rw [hrec]
  show Except.ok (digest == digest) = _
  rw [beq_self_eq_true]

/-! ## Seed and order -/

/-- The signer and the nonce of a reveal, as `agree_seed` compares them. -/
def revealItem (T : PyText) (r : Json) : Except PyErr (String ×ₗ String) := do
  return toLex (normSigner T (← r.item "signer"), (← r.item "nonce").toStr T)

/-- What one reveal adds to the hashed bytes. -/
def seedPart (item : String ×ₗ String) : Except PyErr Bytes := do
  return utf8 "|" ++ utf8 (ofLex item).1 ++ utf8 ":" ++ (← unhex (ofLex item).2)

/-- `agree_seed(reveals, round_id)`. -/
def agreeSeed (P : Platform) (reveals : List Json) (round : ℤ) : Except PyErr String := do
  let items ← reveals.mapM (revealItem P.toPyText)
  let r ← toBytes8 round
  let parts ← (sortedSet items).mapM seedPart
  return P.sha256 (clockDomain ++ utf8 "|seed|" ++ r ++ parts.flatten)

/-- `_order_key(seed_hex, signer)`. -/
def orderKey (P : Platform) (seed signer : String) : String :=
  P.sha256 (utf8 (seed ++ "|" ++ normSigner P.toPyText (.str signer)))

/-- `agree_order(reveals, round_id, seed)`. -/
def agreeOrder (P : Platform) (reveals : List Json) (seed : String) :
    Except PyErr (List String) := do
  let signers ← reveals.mapM (fun r => do return normSigner P.toPyText (← r.item "signer"))
  return (sortedSet signers).insertionSort (fun a b => orderKey P seed a ≤ orderKey P seed b)

/-! ## The commit loop -/

/-- What a commit or a reveal says: its round is another one, or the rest of it. -/
inductive Routed (α : Type) where
  | wrongRound (signer : String)
  | here (message : α)

/-- Route a message by its round, then read it. -/
def route {α : Type} (T : PyText) (round : ℤ) (read : Json → Except PyErr α) (msg : Json) :
    Except PyErr (Routed α) := do
  if (← (← msg.item "round").toInt T) ≠ round then
    return .wrongRound (normSigner T (← msg.getD "signer" .null))
  return .here (← read msg)

/-- The signer and the digest of a commit. -/
def readCommit (T : PyText) (c : Json) : Except PyErr (String × String) := do
  return (normSigner T (← c.item "signer"), (← c.item "digest").toStr T)

structure CommitScan where
  commitMap : Dict String String
  equiv : PySet String
  wrongRound : List String

/-- One turn of the commit loop. -/
def CommitScan.step (T : PyText) (round : ℤ) (st : CommitScan) (c : Json) : CommitScan :=
  match route T round (readCommit T) c with
  | .error _ => st
  | .ok (.wrongRound s) => { st with wrongRound := st.wrongRound ++ [s] }
  | .ok (.here (s, d)) =>
    match st.commitMap.get? s with
    | none => { st with commitMap := st.commitMap.set s d }
    | some d' => if d' ≠ d then { st with equiv := st.equiv.add s } else st

/-- The commit loop. -/
def CommitScan.run (T : PyText) (round : ℤ) (commits : List Json) : CommitScan :=
  commits.foldl (CommitScan.step T round) ⟨∅, ∅, []⟩

/-- The commits of the signers that committed once. -/
def CommitScan.trusted (st : CommitScan) : Dict String String :=
  st.equiv.keys.foldl Dict.erase st.commitMap

/-! ## The reveal loop -/

/-- The signer of a reveal. -/
def readReveal (T : PyText) (rv : Json) : Except PyErr String := do
  return normSigner T (← rv.item "signer")

/-- The commit `agree_round` matches a reveal against. -/
def commitEnvOf (round : ℤ) (signer digest : String) : Json :=
  .obj [("round", .int round), ("signer", .str signer), ("digest", .str digest)]

structure RevealScan where
  /-- The revealed nonce of each signer. -/
  valid : Dict String String
  wrongRound : List String
  unsolicited : List String
  rejected : List String

/-- One turn of the reveal loop. -/
def RevealScan.step (P : Platform) (round : ℤ) (commitMap : Dict String String) (st : RevealScan)
    (rv : Json) : Except PyErr RevealScan :=
  match route P.toPyText round (readReveal P.toPyText) rv with
  | .error _ => .ok st
  | .ok (.wrongRound s) => .ok { st with wrongRound := st.wrongRound ++ [s] }
  | .ok (.here s) =>
    match commitMap.get? s with
    | none => .ok { st with unsolicited := st.unsolicited ++ [s] }
    | some d =>
      if st.valid.contains s then .ok st
      else do
        if (← verifyReveal P (commitEnvOf round s d) rv) then
          return { st with valid := st.valid.set s ((← rv.item "nonce").toStr P.toPyText) }
        else return { st with rejected := st.rejected ++ [s] }

/-- The reveal loop. -/
def RevealScan.run (P : Platform) (round : ℤ) (commitMap : Dict String String)
    (wrongRound : List String) (reveals : List Json) : Except PyErr RevealScan :=
  reveals.foldlM (RevealScan.step P round commitMap) ⟨∅, wrongRound, [], []⟩

/-! ## Agreement -/

structure Disputes where
  rejected : List String
  missing : List String
  unsolicited : List String
  commitEquivocations : List String
  wrongRound : List String
  deriving DecidableEq

structure Agreement where
  round : ℤ
  seed : String
  order : List String
  validSigners : List String
  nValid : ℕ
  disputes : Disputes
  deriving DecidableEq

/-- A valid reveal, as `agree_round` passes it on. -/
def validReveal (round : ℤ) (entry : String × String) : Json :=
  .obj [("round", .int round), ("signer", .str entry.1), ("nonce", .str entry.2)]

/-- `agree_round(commit_envs, reveals, round_id)`. -/
def agreeRound (P : Platform) (commits reveals : List Json) (round : ℤ) :
    Except PyErr Agreement := do
  let commitScan := CommitScan.run P.toPyText round commits
  let commitMap := commitScan.trusted
  let scan ← RevealScan.run P round commitMap commitScan.wrongRound reveals
  let disputes : Disputes := {
    rejected := sortedSet scan.rejected
    missing := sortedSet (commitMap.keys.filter (fun s => !scan.valid.contains s))
    unsolicited := sortedSet scan.unsolicited
    commitEquivocations := sortedSet commitScan.equiv.keys
    wrongRound := sortedSet scan.wrongRound }
  let validReveals := scan.valid.sortedItems.map (validReveal round)
  let seed ← agreeSeed P validReveals round
  let order ← agreeOrder P validReveals seed
  return { round, seed, order, validSigners := sortedSet scan.valid.keys
           nValid := scan.valid.size, disputes }

/-! ## The shadow audit -/

/-- `not any(disputes[k] for k in disputes)`. -/
def Disputes.clean (d : Disputes) : Bool :=
  d.rejected.isEmpty && d.missing.isEmpty && d.unsolicited.isEmpty
    && d.commitEquivocations.isEmpty && d.wrongRound.isEmpty

structure ShadowAudit where
  round : ℤ
  mode : String
  same : Bool
  clean : Bool
  claimedOrder : List String
  agreedOrder : List String
  seed : String
  nValid : ℕ
  disputes : Disputes
  deriving DecidableEq

/-- `shadow_audit(round_id, claimed_order, commit_envs, reveals, mode)`; its `match` flag is
`same` here. -/
def shadowAudit (P : Platform) (round : ℤ) (claimedOrder : List Json) (commits reveals : List Json)
    (mode : Json) : Except PyErr ShadowAudit := do
  let agreed ← agreeRound P commits reveals round
  let claimed := claimedOrder.map (normSigner P.toPyText)
  return { round, mode := mode.toStr P.toPyText, same := decide (claimed = agreed.order)
           clean := agreed.disputes.clean, claimedOrder := claimed, agreedOrder := agreed.order
           seed := agreed.seed, nValid := agreed.nValid, disputes := agreed.disputes }

end NeuraHash
