import NeuraHash.Signing

/-!
# Settlement quorums (`neurahash/guardian_halt.py`, `neurahash/diloco_settlement.py`)

A reward decision names a recipient, an amount, a height and the contribution it pays for.
Validators sign its canonical text (`settlementPayload`), and `collectSettlementSignatures` counts
the distinct members of a roster among the recovered signers: a roster that is a list authorises
on a strict majority of its members, a roster with stakes on a strict majority of the stake.

`settlementPayload_inj` says that the signed text binds the whole decision.
-/

namespace NeuraHash

open Py

/-! ## The threshold primitive -/

/-- A k-of-m set: distinct member addresses and a threshold within range. -/
structure GuardianSet where
  members : List String
  threshold : ℤ
  nodup : members.Nodup
  one_le : 1 ≤ threshold
  le_length : threshold ≤ members.length

namespace GuardianSet

/-- The member addresses: stripped, in lower case, without blanks and repetitions. -/
def normalize (T : PyText) (members : List Json) : List String :=
  ((members.map (fun a => T.strip (a.toStr T))).filter (· ≠ "")).map T.lower |>.dedup

/-- `GuardianSet(members, threshold)`. -/
def make (T : PyText) (members : List Json) (threshold : ℤ) : Except PyErr GuardianSet :=
  if h : 1 ≤ threshold ∧ threshold ≤ (normalize T members).length then
    .ok ⟨normalize T members, threshold, List.nodup_dedup _, h.1, h.2⟩
  else .error .valueError

theorem make_eq_ok {T : PyText} {members : List Json} {m : ℤ} {gs : GuardianSet} :
    make T members m = .ok gs ↔
      gs.members = normalize T members ∧ gs.threshold = m := by
  unfold make
  constructor
  · intro h
    split at h
    · cases h
      exact ⟨rfl, rfl⟩
    · cases h
  · rintro ⟨hmembers, hm⟩
    have hle := gs.le_length
    have hone := gs.one_le
    rw [hmembers, hm] at hle
    rw [hm] at hone
    rw [dif_pos ⟨hone, hle⟩]
    cases gs
    cases hmembers
    cases hm
    rfl

/-- `distinct_signers(payload, signatures)`: the members that signed, each once. -/
def distinctSigners (P : Platform) (gs : GuardianSet) (payload : Bytes) (sigs : List Json) :
    List String :=
  ((sigs.filterMap (fun sig => match recoverBytesScheme P payload sig .null with
    | .ok a => some (P.lower a)
    | .error _ => none)).filter (· ∈ gs.members)).dedup

theorem nodup_distinctSigners (P : Platform) (gs : GuardianSet) (payload : Bytes)
    (sigs : List Json) : (gs.distinctSigners P payload sigs).Nodup :=
  List.nodup_dedup _

/-- A counted signer is a member, and one of the signatures recovers to it. -/
theorem mem_distinctSigners {P : Platform} {gs : GuardianSet} {payload : Bytes}
    {sigs : List Json} {a : String} :
    a ∈ gs.distinctSigners P payload sigs ↔
      a ∈ gs.members ∧ ∃ sig ∈ sigs, ∃ who, recoverBytes P payload sig = some who
        ∧ P.lower who = a := by
  unfold distinctSigners
  simp only [List.mem_dedup, List.mem_filter, List.mem_filterMap, decide_eq_true_eq]
  constructor
  · rintro ⟨⟨sig, hsig, hmatch⟩, hmem⟩
    refine ⟨hmem, sig, hsig, ?_⟩
    split at hmatch
    · next who hrec =>
      exact ⟨who, (recoverBytesScheme_null P payload sig who).mp hrec, Option.some.inj hmatch⟩
    · cases hmatch
  · rintro ⟨hmem, sig, hsig, who, hrec, hlow⟩
    refine ⟨⟨sig, hsig, ?_⟩, hmem⟩
    simp only [(recoverBytesScheme_null P payload sig who).mpr hrec, hlow]

theorem distinctSigners_subset (P : Platform) (gs : GuardianSet) (payload : Bytes)
    (sigs : List Json) : gs.distinctSigners P payload sigs ⊆ gs.members :=
  fun _ ha => (mem_distinctSigners.mp ha).1

end GuardianSet

/-! ## Who can sign for a roster -/

/-- Every member has a key, and what recovers to a member is one of the keys. -/
structure RosterKeys (P : Platform) (members : List Json) (keys : Set String) : Prop where
  key : ∀ s ∈ GuardianSet.normalize P.toPyText members, ∃ a ∈ keys, P.lower a = s
  only : ∀ payload sig who, recoverBytes P payload sig = some who →
    P.lower who ∈ GuardianSet.normalize P.toPyText members → who ∈ keys

/-- One key for each member. -/
theorem RosterKeys.exists_signers {P : Platform} {members : List Json} {keys : Set String}
    (h : RosterKeys P members keys) :
    ∃ signers : List String, signers.map P.lower = GuardianSet.normalize P.toPyText members
      ∧ ∀ a ∈ signers, a ∈ keys := by
  choose! key hkey hlow using h.key
  refine ⟨(GuardianSet.normalize P.toPyText members).map key, ?_, ?_⟩
  · rw [List.map_map]
    exact (List.map_congr_left hlow).trans (List.map_id _)
  · intro a ha
    obtain ⟨s, hs, rfl⟩ := List.mem_map.mp ha
    exact hkey s hs

namespace Platform

/-- On the executable platform: the keys of the members, in any spelling. -/
def idealRosterKeys (members : List Json) : Set String :=
  {a | ideal.lower a ∈ GuardianSet.normalize ideal.toPyText members}

theorem ideal_rosterKeys {members : List Json}
    (hlower : ∀ s ∈ GuardianSet.normalize ideal.toPyText members, ideal.lower s = s) :
    RosterKeys ideal members (idealRosterKeys members) where
  key s hs := ⟨s, show ideal.lower s ∈ _ from (hlower s hs).symm ▸ hs, hlower s hs⟩
  only _ _ _ _ h := h

theorem idealRosterKeys_subset {members : List Json}
    (hbar : ∀ s ∈ GuardianSet.normalize ideal.toPyText members, '|' ∉ s.toList) :
    idealRosterKeys members ⊆ idealKeys := by
  intro a ha hmem
  refine hbar _ ha ?_
  show '|' ∈ (asciiLower a).toList
  rw [asciiLower, String.toList_ofList]
  exact List.mem_map.mpr ⟨'|', hmem, by decide⟩

end Platform

/-! ## Attestations -/

/-- The signature inside an attestation, which is a dict or a bare signature; `None` is dropped
by the callers. -/
def sigOf (att : Json) : Json :=
  match att.getD "sig" .null with
  | .ok sig => sig
  | .error _ => att

/-- The signatures of a list of attestations. -/
def sigsOf (atts : List Json) : List Json := (atts.map sigOf).filter (fun s => !Json.pyEq s .null)

/-! ## The signed decision -/

/-- `settlement_payload(recipient, amount, height, delta_cid)`. -/
def settlementPayload (T : PyText) (recipient : Json) (amount : PyFloat) (height : ℤ)
    (deltaCid : Json) : Bytes :=
  utf8 (Json.dumps T [] (.obj [
    ("w", .str "neurahash-diloco-settlement"),
    ("recipient", .str (recipient.toStr T)),
    ("amount", .float amount.round12),
    ("height", .int height),
    ("delta_cid", .str ((deltaCid.orElse (.str "")).toStr T))]))

/-- **The signed text binds the recipient, the rounded amount, the height and the
contribution.** -/
theorem settlementPayload_inj {T : PyText} {r r' : Json} {a a' : PyFloat} {h h' : ℤ}
    {d d' : Json} :
    settlementPayload T r a h d = settlementPayload T r' a' h' d' ↔
      r.toStr T = r'.toStr T ∧ a.round12 = a'.round12 ∧ h = h'
        ∧ (d.orElse (.str "")).toStr T = (d'.orElse (.str "")).toStr T := by
  constructor
  · intro heq
    have hmember := Json.get?_eq_of_dumps_eq T [] (utf8_injective heq)
    have hr := hmember "recipient"
    have ha := hmember "amount"
    have hh := hmember "height"
    have hd := hmember "delta_cid"
    simp only [Json.get?, Json.dictOf, Dict.get?_ofList, List.reverse_cons, List.reverse_nil,
      List.nil_append, List.cons_append, Dict.lookup, String.reduceEq, if_false, if_true,
      Option.map_some, Json.sortKeys, Option.some.injEq, Json.str.injEq, Json.float.injEq,
      Json.int.injEq] at hr ha hh hd
    exact ⟨hr, ha, hh, hd⟩
  · rintro ⟨hr, ha, rfl, hd⟩
    unfold settlementPayload
    rw [hr, ha, hd]

/-! ## Rosters -/

/-- `_roster_members_and_stakes(roster)`: the members, and their stakes (1 without weights). -/
def rosterMembersAndStakes (T : PyText) (roster : Json) :
    Except PyErr (List Json × Dict String PyFloat) :=
  match roster with
  | .obj kvs => do
    let entries := (Json.dictOf kvs).entries
    let stakes ← entries.mapM (fun e => do return (e.1, ← e.2.toFloat T))
    return (entries.map (fun e => .str e.1), Dict.ofList stakes)
  | _ => do
    let members ← (roster.orElse (.arr [])).toList
    return (members, Dict.ofList (members.map (fun a => (a.toStr T, .fin 1))))

/-- `_stake_weight_map(stakes)`: stakes by lower-case address, negatives clamped to zero. -/
def stakeWeightMap (T : PyText) (stakes : Dict String PyFloat) : Dict String PyFloat :=
  stakes.entries.foldl (fun out e =>
    out.set (T.lower e.1) (out.getD (T.lower e.1) 0 + FloatOps.max 0 e.2)) ∅

/-- `_stake_majority(signer_stake, total_stake)`: strictly more than half of the total. -/
def stakeMajority (signerStake totalStake : PyFloat) : Bool :=
  FloatOps.lt 0 totalStake && FloatOps.lt totalStake (signerStake * FloatOps.lit 2)

/-- `roster_root` (`neura_l1/pool_sequencer.py`): a digest of the sorted `addr=stake` entries. -/
def rosterRoot (P : Platform) (stakes : Dict String PyFloat) : String :=
  P.sha256 (utf8 (String.intercalate "|"
    (stakes.sortedItems.map (fun e => e.1 ++ "=" ++ P.format8g e.2))))

/-- The number of distinct members, case folded. -/
def rosterSize (T : PyText) (members : List Json) : ℕ :=
  (members.map (fun a => T.lower (a.toStr T))).dedup.length

/-! ## The verdict -/

structure SettlementVerdict where
  approved : Bool
  nSigners : ℕ
  nRequired : ℤ
  rosterN : ℕ
  /-- The counted signers; the source lists them in order. -/
  signers : List String
  nSubmitted : ℕ
  nDropped : ℤ
  rosterRoot : Option String
  recipient : String
  amount : PyFloat
  height : ℤ
  deltaCid : String
  payloadSha256 : String
  /-- The stake of the roster and of the signers, when the roster is weighted. -/
  stakes : Option (PyFloat × PyFloat)

/-- `collect_settlement_signatures`. The threshold must be a strict majority of the roster; a
weighted roster then decides by stake. -/
def collectSettlementSignatures (P : Platform) (recipient : Json) (amount : PyFloat) (height : ℤ)
    (deltaCid roster attestations : Json) (m : Option ℤ) : Except PyErr SettlementVerdict := do
  let (members, stakes) ← rosterMembersAndStakes P.toPyText roster
  let n := rosterSize P.toPyText members
  let m := m.getD ((n / 2 : ℕ) + 1)
  if n = 0 then throw .valueError
  if ¬(1 ≤ m ∧ m ≤ n ∧ (n : ℤ) < m * 2) then throw .valueError
  let payload := settlementPayload P.toPyText recipient amount height deltaCid
  let atts ← (attestations.orElse (.arr [])).toList
  let gs ← GuardianSet.make P.toPyText members m
  let signers := gs.distinctSigners P payload (sigsOf atts)
  let wmap := stakeWeightMap P.toPyText stakes
  let totalStake := FloatOps.sum wmap.values
  let signerStake := FloatOps.sum (signers.map (fun s => wmap.getD s 0))
  return {
    approved := if roster.isObj then stakeMajority signerStake totalStake
                else decide (m ≤ signers.length)
    nSigners := signers.length
    nRequired := m
    rosterN := n
    signers := signers
    nSubmitted := atts.length
    nDropped := atts.length - signers.length
    rosterRoot := if P.poolSequencer then some (rosterRoot P stakes) else none
    recipient := recipient.toStr P.toPyText
    amount := amount.round12
    height := height
    deltaCid := (deltaCid.orElse (.str "")).toStr P.toPyText
    payloadSha256 := P.sha256 payload
    stakes := if roster.isObj then some (totalStake.round12, signerStake.round12) else none }

end NeuraHash
