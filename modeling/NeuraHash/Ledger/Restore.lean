import NeuraHash.Ledger.Retarget
import NeuraHash.Ledger.SetOrder

/-!
# A chain read back from its stored form

Nothing that consensus reads is lost by `to_dict` and `from_dict` but two things: a state is not
written at all when two of its signallers cannot be ordered, and the set of the signallers is filled
in another order, in which floats may sum to another two-thirds decision (`serialisation_kept_iff`).
Where sums do not depend on the order the second cannot happen (`tallyAgrees_of_perm`).
-/

namespace NeuraHash

open Py

namespace State

variable {F : Type} [FloatOps F]

/-- The state is read back with its digest, its policies and its retarget, and every further block
does the same to both. -/
structure Kept {W : Type} (P : Platform) (number : PyFloat → Json) (toWeight : W → Except PyErr F)
    (s s' : State F) : Prop where
  stateHash : s'.stateHash P number = s.stateHash P number
  policy : s'.requireTxSignatures = s.requireTxSignatures ∧ s'.retargetEnabled = s.retargetEnabled
  retarget : s'.retarget = s.retarget
  blocks : ∀ block contributors, SameResult (s.applyBlock P toWeight block contributors)
    (s'.applyBlock P toWeight block contributors)

/-- `from_dict(to_dict(s))` is a state, and everything is kept in it. -/
def RoundTrips {W : Type} (P : Platform) (number : PyFloat → Json) (toWeight : W → Except PyErr F)
    (s : State F) : Prop :=
  ∃ d s', s.toDict = .ok d ∧ fromDict d = .ok s' ∧ Kept P number toWeight s s'

section Restored

variable {P : Platform} {number : PyFloat → Json} {W : Type} {toWeight : W → Except PyErr F}
  {s : State F} {signallers : List Key}

omit [FloatOps F] in
/-- The restored state differs in the order of its sets. -/
theorem reordered_restored (hsorted : sortedBy id s.upgradeSignals.keys = .ok signallers) :
    Reordered s.upgradeSignals.keys signallers s (s.restored signallers) := by
  have hnodup : signallers.Nodup :=
    (sortedBy_perm hsorted).nodup_iff.mpr s.upgradeSignals.nodup
  refine ⟨rfl, fun fault => ?_, [], (List.append_nil _).symm, ?_⟩
  · rw [Bool.eq_iff_iff, Dict.contains_iff, Dict.contains_iff, ← Dict.mem_keys_iff,
      ← Dict.mem_keys_iff]
    show fault ∈ (PySet.ofList (sortedSet s.slashedFaults.keys)).keys ↔ _
    rw [PySet.keys_ofList (nodup_sortedSet _), mem_sortedSet]
  · show (PySet.ofList signallers).keys = _
    rw [PySet.keys_ofList hnodup, List.append_nil]

/-- **The digest survives**: it sorts the sets again. -/
theorem stateHash_restored (hsorted : sortedBy id s.upgradeSignals.keys = .ok signallers) :
    (s.restored signallers).stateHash P number = s.stateHash P number := by
  have hnodup : signallers.Nodup :=
    (sortedBy_perm hsorted).nodup_iff.mpr s.upgradeSignals.nodup
  have hsignals : sortedBy id (s.restored signallers).upgradeSignals.keys
      = sortedBy id s.upgradeSignals.keys := by
    show sortedBy id (PySet.ofList signallers).keys = _
    rw [PySet.keys_ofList hnodup, sortedBy_sortedBy hsorted, hsorted]
  have hfaults : sortedSet (s.restored signallers).slashedFaults.keys
      = sortedSet s.slashedFaults.keys := by
    refine sortedSet_congr fun fault => ?_
    show fault ∈ (PySet.ofList (sortedSet s.slashedFaults.keys)).keys ↔ _
    rw [PySet.keys_ofList (nodup_sortedSet _), mem_sortedSet]
  have hobj : (s.restored signallers).digestObj P.toPyText number
      = s.digestObj P.toPyText number := by
    unfold digestObj
    rw [hsignals, hfaults]
    rfl
  unfold stateHash
  rw [hobj]

/-- **A state with finite numbers makes the round trip exactly when its signallers can be ordered
and no block that applies is tallied otherwise in the sorted order.** -/
theorem roundTrips_iff (hfinite : s.Finite) :
    RoundTrips P number toWeight s ↔ ∃ l, sortedBy id s.upgradeSignals.keys = .ok l
      ∧ ∀ block contributors, (∃ t, s.applyBlock P toWeight block contributors = .ok t) →
        TallyAgrees P s l block := by
  constructor
  · rintro ⟨d, s', hd, hs', hkept⟩
    obtain ⟨l, hsorted, hrestored⟩ := fromDict_toDict hfinite hd
    rw [hrestored] at hs'
    cases hs'
    refine ⟨l, hsorted, fun block contributors => ?_⟩
    exact (applyBlock_reordered (reordered_restored hsorted) (sortedBy_perm hsorted).symm
      block).mp (hkept.blocks block contributors)
  · rintro ⟨l, hsorted, hagree⟩
    obtain ⟨d, hd⟩ := s.exists_toDict_iff.mpr (sortedBy_eq_ok.mp hsorted).1
    obtain ⟨l', hsorted', hrestored⟩ := fromDict_toDict hfinite hd
    rw [hsorted] at hsorted'
    cases hsorted'
    refine ⟨d, s.restored l, hd, hrestored, stateHash_restored hsorted, ⟨rfl, rfl⟩, rfl, ?_⟩
    intro block contributors
    exact (applyBlock_reordered (reordered_restored hsorted) (sortedBy_perm hsorted).symm
      block).mpr (hagree block contributors)

end Restored

/-! ## Exact sums -/

/-- Where sums do not depend on the order, no tally does. -/
theorem tallyAgrees_of_perm [Std.Commutative (α := F) (· + ·)] [Std.Associative (α := F) (· + ·)]
    {P : Platform} {s : State F} {l : List Key} (hperm : s.upgradeSignals.keys.Perm l)
    (block : Block F) : TallyAgrees P s l block := by
  intro ns hns _
  have hself : Reordered s.upgradeSignals.keys s.upgradeSignals.keys s s :=
    ⟨rfl, fun _ => rfl, [], (List.append_nil _).symm, (List.append_nil _).symm⟩
  have hmatured : Reordered s.upgradeSignals.keys s.upgradeSignals.keys
      (s.matureUnbonding block.header.height) (s.matureUnbonding block.header.height) :=
    (setFree_matureUnbonding block.header.height).equalBut hself
  rcases hmatured.applyTxs (P := P) (List.Perm.refl _) block.header.height block.txs with
    ⟨e, he, _⟩ | ⟨t, t', ht, _, htxs⟩
  · rw [hns] at he
    cases he
  · rw [hns] at ht
    cases ht
    obtain ⟨later, hkeys, _⟩ := htxs.signals
    have horder : (l ++ ns.upgradeSignals.keys.drop s.upgradeSignals.keys.length).Perm
        ns.upgradeSignals.keys := by
      rw [hkeys, List.drop_left]
      exact hperm.symm.append_right later
    have hsum : FloatOps.sum ((l ++ ns.upgradeSignals.keys.drop
          s.upgradeSignals.keys.length).map fun a => ns.staked.getD a 0)
        = FloatOps.sum (ns.upgradeSignals.keys.map fun a => ns.staked.getD a 0) :=
      (horder.map _).foldl_op_eq
    unfold nextStreak supermajority
    rw [hsum]

/-- In exact arithmetic the round trip asks for signallers that can be ordered, and nothing else. -/
theorem roundTrips_exact_iff {W : Type} {P : Platform} {number : PyFloat → Json}
    {toWeight : W → Except PyErr PyFloat} {s : State PyFloat} (hfinite : s.Finite) :
    RoundTrips P number toWeight s ↔ Orderable id s.upgradeSignals.keys := by
  rw [roundTrips_iff hfinite]
  constructor
  · rintro ⟨l, hsorted, _⟩
    exact (sortedBy_eq_ok.mp hsorted).1
  · intro horderable
    have hsorted := sortedBy_eq_ok.mpr ⟨horderable, rfl⟩
    exact ⟨_, hsorted, fun block _ _ => tallyAgrees_of_perm (sortedBy_perm hsorted).symm block⟩

end State

/-! ## The whole chain -/

section Mixed

def mixedSignallers : State PyFloat :=
  { State.genesis .null with
    staked := Dict.ofList [(.str "a", .fin 10), (.num (.fin 1), .fin 10)]
    upgradeSignals := PySet.ofList [.str "a", .num (.fin 1)] }

theorem mixedSignallers_finite : mixedSignallers.Finite where
  bal := by simp [mixedSignallers, State.genesis, Dict.values]
  staked := by decide
  treasury := rfl
  minted := rfl
  unbonding := by simp [mixedSignallers, State.genesis, Dict.values]

end Mixed

end NeuraHash
