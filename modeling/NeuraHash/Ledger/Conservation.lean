import NeuraHash.Ledger.Transition

/-!
# Conservation of value

At `ℚ`, where arithmetic is exact, `applyBlock` neither creates nor destroys value except by
minting: what the accounts, the bonds, the unbonding queue and the treasury hold together, less
what was minted, never changes (`State.value`). No balance, bond or unbonding entry becomes
negative and the cap holds (`State.Solvent`).

`Conserves s s'` states both for a step from `s` to `s'`. It is reflexive and transitive, so each
function of the transition is one lemma, a loop is an induction over `Conserves.trans`, and the
lemma for `applyBlock` is the composition of its steps. Signature checks and vote-fault checks
only decide which step is taken, so nothing is assumed about them.
-/

namespace NeuraHash

open Py

namespace State

/-! ## The invariant -/

/-- The total of a list of unbonding entries. -/
def entriesTotal (entries : List (ℚ × ℤ)) : ℚ := (entries.map Prod.fst).sum

/-- Everything the ledger holds. -/
def value (s : State ℚ) : ℚ :=
  s.bal.sumBy id + s.staked.sumBy id + s.unbonding.sumBy entriesTotal + s.treasury

/-- No entry is negative and the cap holds. -/
structure Solvent (s : State ℚ) : Prop where
  bal : s.bal.All (0 ≤ ·)
  staked : s.staked.All (0 ≤ ·)
  unbonding : s.unbonding.All (fun entries => ∀ e ∈ entries, 0 ≤ e.1)
  cap : s.minted ≤ maxSupply

/-- From a solvent state the step leads to a solvent one, and keeps the value less what was
minted. -/
def Conserves (s s' : State ℚ) : Prop :=
  s.Solvent → s'.Solvent ∧ s'.value - s'.minted = s.value - s.minted

theorem Conserves.refl (s : State ℚ) : Conserves s s := fun h => ⟨h, rfl⟩

theorem Conserves.trans {s s' s'' : State ℚ} (h : Conserves s s') (h' : Conserves s' s'') :
    Conserves s s'' := by
  intro hs
  obtain ⟨hs', heq⟩ := h hs
  obtain ⟨hs'', heq'⟩ := h' hs'
  exact ⟨hs'', heq'.trans heq⟩

/-- A step that touches none of the containers. -/
theorem Conserves.of_eq {s s' : State ℚ} (hbal : s'.bal = s.bal) (hstaked : s'.staked = s.staked)
    (hunb : s'.unbonding = s.unbonding) (htreasury : s'.treasury = s.treasury)
    (hminted : s'.minted = s.minted) : Conserves s s' := by
  intro h
  refine ⟨⟨hbal ▸ h.bal, hstaked ▸ h.staked, hunb ▸ h.unbonding, hminted ▸ h.cap⟩, ?_⟩
  simp only [State.value, hbal, hstaked, hunb, htreasury, hminted]

/-! ## Moving value -/

theorem measureAt_id (d : Dict Key ℚ) (k : Key) : d.measureAt id k = d.getD k 0 := by
  unfold Dict.measureAt Dict.getD
  cases d.get? k <;> rfl

theorem sumBy_set_id (d : Dict Key ℚ) (k : Key) (v : ℚ) :
    (d.set k v).sumBy id = d.sumBy id - d.getD k 0 + v := by
  have h := Dict.sumBy_set id d k v
  rw [measureAt_id] at h
  simp only [id_eq] at h
  linarith

theorem Solvent.balance_nonneg {s : State ℚ} (h : s.Solvent) (addr : Key) :
    0 ≤ s.balance addr :=
  h.bal.getD le_rfl

theorem Solvent.stakeOf_nonneg {s : State ℚ} (h : s.Solvent) (addr : Key) :
    0 ≤ s.stakeOf addr :=
  h.staked.getD le_rfl

@[simp] theorem value_credit (s : State ℚ) (addr : Key) (amt : ℚ) :
    (s.credit addr amt).value = s.value + amt := by
  simp only [value, credit, sumBy_set_id]
  ring

@[simp] theorem minted_credit (s : State ℚ) (addr : Key) (amt : ℚ) :
    (s.credit addr amt).minted = s.minted := rfl

theorem Solvent.credit {s : State ℚ} (h : s.Solvent) {amt : ℚ} (hamt : 0 ≤ amt) (addr : Key) :
    (s.credit addr amt).Solvent where
  bal := h.bal.set (add_nonneg (h.balance_nonneg addr) hamt)
  staked := h.staked
  unbonding := h.unbonding
  cap := h.cap

@[simp] theorem value_debit (s : State ℚ) (addr : Key) (amt : ℚ) :
    (s.debit addr amt).value = s.value - amt := by
  simp only [value, debit, sumBy_set_id]
  ring

@[simp] theorem minted_debit (s : State ℚ) (addr : Key) (amt : ℚ) :
    (s.debit addr amt).minted = s.minted := rfl

theorem Solvent.debit {s : State ℚ} (h : s.Solvent) {addr : Key} {amt : ℚ}
    (hamt : amt ≤ s.balance addr) : (s.debit addr amt).Solvent where
  bal := h.bal.set (sub_nonneg.mpr hamt)
  staked := h.staked
  unbonding := h.unbonding
  cap := h.cap

theorem conserves_bumpNonce (s : State ℚ) (sender : Key) (tx : Tx ℚ) :
    Conserves s (s.bumpNonce sender tx) :=
  .of_eq rfl rfl rfl rfl rfl

/-! ## The unbonding queue -/

/-- What an address has in the queue. -/
def withdrawing (s : State ℚ) (addr : Key) : ℚ := entriesTotal (s.unbonding.getD addr [])

theorem measureAt_entriesTotal (d : Dict Key (List (ℚ × ℤ))) (k : Key) :
    d.measureAt entriesTotal k = entriesTotal (d.getD k []) := by
  unfold Dict.measureAt Dict.getD
  cases d.get? k <;> rfl

theorem sumBy_set_entries (d : Dict Key (List (ℚ × ℤ))) (k : Key) (entries : List (ℚ × ℤ)) :
    (d.set k entries).sumBy entriesTotal
      = d.sumBy entriesTotal - entriesTotal (d.getD k []) + entriesTotal entries := by
  have h := Dict.sumBy_set entriesTotal d k entries
  rw [measureAt_entriesTotal] at h
  linarith

/-- Replacing an address's entries changes the value by the difference. -/
theorem value_setUnbonding (s : State ℚ) (addr : Key) (kept : List (ℚ × ℤ)) :
    (s.setUnbonding addr kept).value = s.value - s.withdrawing addr + entriesTotal kept := by
  have hsum : (s.setUnbonding addr kept).unbonding.sumBy entriesTotal
      = s.unbonding.sumBy entriesTotal - s.withdrawing addr + entriesTotal kept := by
    cases kept with
    | nil =>
      have h := Dict.sumBy_erase entriesTotal s.unbonding addr
      rw [measureAt_entriesTotal] at h
      simp only [setUnbonding, List.isEmpty_nil, if_true, withdrawing]
      simp only [entriesTotal, List.map_nil, List.sum_nil] at h ⊢
      linarith
    | cons e kept =>
      simp only [setUnbonding, List.isEmpty_cons, Bool.false_eq_true, if_false, withdrawing]
      exact sumBy_set_entries _ _ _
  simp only [value, hsum]
  simp only [setUnbonding]
  ring

@[simp] theorem minted_setUnbonding (s : State ℚ) (addr : Key) (kept : List (ℚ × ℤ)) :
    (s.setUnbonding addr kept).minted = s.minted := rfl

theorem Solvent.setUnbonding {s : State ℚ} (h : s.Solvent) (addr : Key)
    {kept : List (ℚ × ℤ)} (hkept : ∀ e ∈ kept, 0 ≤ e.1) :
    (s.setUnbonding addr kept).Solvent where
  bal := h.bal
  staked := h.staked
  unbonding := by
    unfold State.setUnbonding
    dsimp only
    split
    · exact h.unbonding.erase addr
    · exact h.unbonding.set hkept
  cap := h.cap

theorem Solvent.entries_nonneg {s : State ℚ} (h : s.Solvent) {addr : Key}
    {entries : List (ℚ × ℤ)} (hget : s.unbonding.get? addr = some entries) :
    ∀ e ∈ entries, 0 ≤ e.1 :=
  h.unbonding addr entries hget

theorem withdrawing_of_get? {s : State ℚ} {addr : Key} {entries : List (ℚ × ℤ)}
    (hget : s.unbonding.get? addr = some entries) :
    s.withdrawing addr = entriesTotal entries := by
  simp [withdrawing, Dict.getD, hget]

/-! ## Maturing -/

theorem foldl_credit (addr : Key) (entries : List (ℚ × ℤ)) (s : State ℚ) :
    (entries.foldl (fun s e => s.credit addr e.1) s).value = s.value + entriesTotal entries
      ∧ (entries.foldl (fun s e => s.credit addr e.1) s).minted = s.minted
      ∧ (entries.foldl (fun s e => s.credit addr e.1) s).unbonding = s.unbonding := by
  induction entries generalizing s with
  | nil => simp [entriesTotal]
  | cons e entries ih =>
    obtain ⟨hvalue, hminted, hunb⟩ := ih (s.credit addr e.1)
    refine ⟨?_, hminted, hunb⟩
    rw [List.foldl_cons, hvalue, value_credit]
    simp only [entriesTotal, List.map_cons, List.sum_cons]
    ring

theorem Solvent.foldl_credit {s : State ℚ} (h : s.Solvent) (addr : Key)
    {entries : List (ℚ × ℤ)} (hnn : ∀ e ∈ entries, 0 ≤ e.1) :
    (entries.foldl (fun s e => s.credit addr e.1) s).Solvent := by
  induction entries generalizing s with
  | nil => exact h
  | cons e entries ih =>
    exact ih (h.credit (hnn e (by simp)) addr) (fun e' he' => hnn e' (by simp [he']))

/-- Splitting the entries by a test splits their total. -/
theorem entriesTotal_filter (p : ℚ × ℤ → Bool) (entries : List (ℚ × ℤ)) :
    entriesTotal (entries.filter p) + entriesTotal (entries.filter (fun e => !p e))
      = entriesTotal entries := by
  induction entries with
  | nil => simp [entriesTotal]
  | cons e entries ih =>
    simp only [entriesTotal] at ih ⊢
    cases hp : p e <;> simp only [List.filter_cons, hp, Bool.not_true, Bool.not_false,
      Bool.false_eq_true, if_true, if_false, List.map_cons, List.sum_cons] <;> linarith

theorem conserves_matureOne (height : ℤ) (s : State ℚ) (addr : Key) :
    Conserves s (matureOne height s addr) := by
  unfold matureOne
  cases hget : s.unbonding.get? addr with
  | none => exact .refl s
  | some entries =>
    dsimp only
    obtain ⟨hvalue, hminted, hunb⟩ :=
      foldl_credit addr (entries.filter (fun e => decide (e.2 ≤ height))) s
    have hsplit := entriesTotal_filter (fun e => decide (e.2 ≤ height)) entries
    simp only [← decide_not] at hsplit
    intro h
    have hnn := h.entries_nonneg hget
    refine ⟨(h.foldl_credit addr (fun e he => hnn e (List.mem_of_mem_filter he))).setUnbonding addr
      (fun e he => hnn e (List.mem_of_mem_filter he)), ?_⟩
    have hw : withdrawing (List.foldl (fun s e => s.credit addr e.1) s
        (List.filter (fun e => decide (e.2 ≤ height)) entries)) addr = entriesTotal entries :=
      withdrawing_of_get? (by rw [hunb]; exact hget)
    rw [value_setUnbonding, minted_setUnbonding, hminted, hvalue, hw]
    linarith

theorem conserves_matureUnbonding (s : State ℚ) (height : ℤ) :
    Conserves s (s.matureUnbonding height) := by
  unfold matureUnbonding
  induction s.unbonding.keys generalizing s with
  | nil => exact .refl s
  | cons addr keys ih => exact (conserves_matureOne height s addr).trans (ih _)

/-! ## Seizing -/

/-- The loop splits the entries' total between what it seizes and what it keeps. -/
theorem seizeEntries_total (entries : List (ℚ × ℤ)) (remaining : Option ℚ) (seized : ℚ) :
    (seizeEntries remaining seized entries).1
        + entriesTotal (seizeEntries remaining seized entries).2
      = seized + entriesTotal entries := by
  induction entries generalizing remaining seized with
  | nil => simp [seizeEntries, entriesTotal]
  | cons e entries ih =>
    obtain ⟨amt, rel⟩ := e
    have hcons : entriesTotal ((amt, rel) :: entries) = amt + entriesTotal entries := by
      simp [entriesTotal]
    cases remaining with
    | none =>
      have h := ih none (seized + amt)
      simp only [seizeEntries, sub_self, FloatOps.lt_rat, lt_self_iff_false, decide_false,
        Bool.false_eq_true, if_false, hcons]
      linarith
    | some r =>
      by_cases hr : r ≤ 0
      · have h := ih (some r) seized
        simp only [seizeEntries, FloatOps.le_rat, hr, decide_true, if_true, hcons]
        simp only [entriesTotal, List.map_cons, List.sum_cons] at h ⊢
        linarith
      · have h := ih (some (r - min amt r)) (seized + min amt r)
        simp only [seizeEntries, FloatOps.le_rat, hr, decide_false, Bool.false_eq_true, if_false,
          FloatOps.min_rat, FloatOps.lt_rat, hcons, decide_eq_true_eq]
        by_cases hpos : 0 < amt - min amt r
        · simp only [hpos, if_true]
          simp only [entriesTotal, List.map_cons, List.sum_cons] at h ⊢
          linarith
        · -- nothing is left of the entry
          have hle : min amt r ≤ amt := min_le_left _ _
          simp only [hpos, if_false]
          linarith

theorem seizeEntries_nonneg (entries : List (ℚ × ℤ)) (hnn : ∀ e ∈ entries, 0 ≤ e.1)
    (remaining : Option ℚ) (seized : ℚ) :
    seized ≤ (seizeEntries remaining seized entries).1
      ∧ ∀ e ∈ (seizeEntries remaining seized entries).2, 0 ≤ e.1 := by
  induction entries generalizing remaining seized with
  | nil => simp [seizeEntries]
  | cons e entries ih =>
    obtain ⟨amt, rel⟩ := e
    have hamt : 0 ≤ amt := hnn (amt, rel) (by simp)
    have ih := ih (fun e he => hnn e (by simp [he]))
    cases remaining with
    | none =>
      obtain ⟨hle, hkept⟩ := ih none (seized + amt)
      simp only [seizeEntries, sub_self, FloatOps.lt_rat, lt_self_iff_false, decide_false,
        Bool.false_eq_true, if_false]
      exact ⟨by linarith, hkept⟩
    | some r =>
      by_cases hr : r ≤ 0
      · obtain ⟨hle, hkept⟩ := ih (some r) seized
        simp only [seizeEntries, FloatOps.le_rat, hr, decide_true, if_true]
        refine ⟨hle, ?_⟩
        intro e he
        rcases List.mem_cons.mp he with rfl | he
        · exact hamt
        · exact hkept e he
      · obtain ⟨hle, hkept⟩ := ih (some (r - min amt r)) (seized + min amt r)
        have hmin : 0 ≤ min amt r := le_min hamt (not_le.mp hr).le
        simp only [seizeEntries, FloatOps.le_rat, hr, decide_false, Bool.false_eq_true, if_false,
          FloatOps.min_rat, FloatOps.lt_rat, decide_eq_true_eq]
        refine ⟨by linarith, ?_⟩
        split
        · next hpos =>
          intro e he
          rcases List.mem_cons.mp he with rfl | he
          · exact hpos.le
          · exact hkept e he
        · exact hkept

theorem value_seizeStake (s : State ℚ) (addr : Key) (remaining : Option ℚ) :
    (s.seizeStake addr remaining).value
        + (if 0 < s.seizeTake addr remaining then s.seizeTake addr remaining else 0) = s.value := by
  unfold seizeStake
  by_cases h : 0 < s.seizeTake addr remaining
  · simp only [FloatOps.lt_rat, h, decide_true, if_true, value, sumBy_set_id, stakeOf]
    ring
  · simp [h]

theorem Solvent.seizeStake {s : State ℚ} (h : s.Solvent) (addr : Key) (remaining : Option ℚ) :
    (s.seizeStake addr remaining).Solvent := by
  have hle : s.seizeTake addr remaining ≤ s.stakeOf addr := by
    cases remaining with
    | none => exact le_rfl
    | some r => simp [State.seizeTake]
  unfold State.seizeStake
  dsimp only
  split
  · exact ⟨h.bal, h.staked.set (sub_nonneg.mpr hle), h.unbonding, h.cap⟩
  · exact h

@[simp] theorem unbonding_seizeStake (s : State ℚ) (addr : Key) (remaining : Option ℚ) :
    (s.seizeStake addr remaining).unbonding = s.unbonding := by
  unfold seizeStake
  dsimp only
  split <;> rfl

@[simp] theorem minted_seizeStake (s : State ℚ) (addr : Key) (remaining : Option ℚ) :
    (s.seizeStake addr remaining).minted = s.minted := by
  unfold seizeStake
  dsimp only
  split <;> rfl

theorem entriesTotal_perm {l l' : List (ℚ × ℤ)} (h : l.Perm l') :
    entriesTotal l = entriesTotal l' :=
  (h.map Prod.fst).sum_eq

theorem seizeUnbonding_spec (s : State ℚ) (addr : Key) (remaining : Option ℚ) (seized : ℚ) :
    (s.seizeUnbonding addr remaining seized).1.value
        + (s.seizeUnbonding addr remaining seized).2 = s.value + seized
      ∧ (s.seizeUnbonding addr remaining seized).1.minted = s.minted
      ∧ (s.Solvent → (s.seizeUnbonding addr remaining seized).1.Solvent
          ∧ seized ≤ (s.seizeUnbonding addr remaining seized).2) := by
  unfold seizeUnbonding
  cases hget : s.unbonding.get? addr with
  | none => exact ⟨rfl, rfl, fun h => ⟨h, le_rfl⟩⟩
  | some entries =>
    by_cases hc : (!entries.isEmpty && remaining.all (FloatOps.lt 0)) = true
    · simp only [hc, if_true]
      have hperm : (entries.insertionSort seizeOrder).Perm entries := List.perm_insertionSort _ _
      have htotal := seizeEntries_total (entries.insertionSort seizeOrder) remaining seized
      rw [entriesTotal_perm hperm] at htotal
      refine ⟨?_, minted_setUnbonding _ _ _, ?_⟩
      · rw [value_setUnbonding, withdrawing_of_get? hget]
        linarith
      · intro h
        have hnn : ∀ e ∈ entries.insertionSort seizeOrder, 0 ≤ e.1 := fun e he =>
          h.entries_nonneg hget e (hperm.mem_iff.mp he)
        obtain ⟨hle, hkept⟩ := seizeEntries_nonneg _ hnn remaining seized
        exact ⟨h.setUnbonding addr hkept, hle⟩
    · rw [Bool.not_eq_true] at hc
      simp only [hc, Bool.false_eq_true, if_false]
      exact ⟨trivial, trivial, fun h => ⟨h, le_rfl⟩⟩

/-- **Seizing takes exactly what it returns**, mints nothing, and keeps the state solvent. -/
theorem seize_spec (s : State ℚ) (addr : Key) (amount : Option ℚ) :
    (s.seize addr amount).1.value + (s.seize addr amount).2 = s.value
      ∧ (s.seize addr amount).1.minted = s.minted
      ∧ (s.Solvent → (s.seize addr amount).1.Solvent ∧ 0 ≤ (s.seize addr amount).2) := by
  have hstake := s.value_seizeStake addr (amount.map (FloatOps.max 0))
  by_cases hpos : 0 < s.seizeTake addr (amount.map (FloatOps.max 0))
  · have heq : s.seize addr amount = (s.seizeStake addr (amount.map (FloatOps.max 0))).seizeUnbonding
        addr ((amount.map (FloatOps.max 0)).map
          (· - s.seizeTake addr (amount.map (FloatOps.max 0))))
        (0 + s.seizeTake addr (amount.map (FloatOps.max 0))) :=
      if_pos (decide_eq_true hpos)
    rw [if_pos hpos] at hstake
    rw [heq]
    obtain ⟨hvalue, hminted, hsolvent⟩ := seizeUnbonding_spec
      (s.seizeStake addr (amount.map (FloatOps.max 0))) addr ((amount.map (FloatOps.max 0)).map
          (· - s.seizeTake addr (amount.map (FloatOps.max 0))))
        (0 + s.seizeTake addr (amount.map (FloatOps.max 0)))
    refine ⟨by linarith, by rw [hminted, minted_seizeStake], ?_⟩
    intro h
    obtain ⟨hs, hle⟩ := hsolvent (h.seizeStake addr _)
    exact ⟨hs, by linarith⟩
  · have heq : s.seize addr amount = (s.seizeStake addr (amount.map (FloatOps.max 0))).seizeUnbonding
        addr (amount.map (FloatOps.max 0)) 0 :=
      if_neg (by simpa using hpos)
    rw [if_neg hpos] at hstake
    rw [heq]
    obtain ⟨hvalue, hminted, hsolvent⟩ := seizeUnbonding_spec
      (s.seizeStake addr (amount.map (FloatOps.max 0))) addr (amount.map (FloatOps.max 0)) 0
    exact ⟨by linarith, by rw [hminted, minted_seizeStake], fun h => hsolvent (h.seizeStake addr _)⟩

/-! ## Transactions -/

/-- When the call returns, its step conserves; a call that raises is not constrained. -/
def Returns (s : State ℚ) (p : State ℚ × TxOutcome ℚ) : Prop :=
  ∀ v, p.2 = .ok v → Conserves s p.1

theorem returns_reject (s : State ℚ) (r : TxReason ℚ) : Returns s (s.reject r) :=
  fun _ _ => .refl s

theorem returns_done {s s' : State ℚ} (h : Conserves s s') (r : TxReason ℚ) :
    Returns s (s'.done r) :=
  fun _ _ => h

theorem returns_andThen {α : Type} {s s' : State ℚ} {x : Except PyErr α}
    {f : α → State ℚ × TxOutcome ℚ} (h : ∀ a, Returns s (f a)) : Returns s (s'.andThen x f) := by
  cases x with
  | error e => intro v hv; cases hv
  | ok a => exact h a

/-- Of a seized bond, what the reporter does not get goes to the treasury. -/
theorem payBond_spec {s : State ℚ} (h : s.Solvent) (sender : Key) (bond : ℚ) {bounty : ℚ}
    (hbounty : 0 ≤ bounty) (fault : String) :
    (s.payBond sender bond bounty fault).Solvent
      ∧ (s.payBond sender bond bounty fault).value = s.value + bond
      ∧ (s.payBond sender bond bounty fault).minted = s.minted := by
  unfold payBond
  rcases hbounty.lt_or_eq with hpos | rfl
  · have hcredit := s.value_credit sender bounty
    simp only [FloatOps.lt_rat, hpos, decide_true, if_true]
    obtain ⟨hbal, hstaked, hunb, hcap⟩ := h.credit hpos.le sender
    refine ⟨⟨hbal, hstaked, hunb, hcap⟩, ?_, rfl⟩
    simp only [value] at hcredit ⊢
    linarith
  · simp only [FloatOps.lt_rat, lt_self_iff_false, decide_false, Bool.false_eq_true, if_false]
    refine ⟨⟨h.bal, h.staked, h.unbonding, h.cap⟩, ?_, trivial⟩
    simp only [value]
    ring

theorem returns_burnBond (P : Platform) (s : State ℚ) (tx : Tx ℚ) (addr : Key) (fault : String)
    (reason : ℚ → ℚ → TxReason ℚ) : Returns s (s.burnBond P tx addr fault reason) := by
  obtain ⟨hvalue, hminted, hsolvent⟩ := s.seize_spec addr none
  unfold burnBond
  generalize s.seize addr none = seized at hvalue hminted hsolvent ⊢
  obtain ⟨s₁, bond⟩ := seized
  dsimp only at hvalue hminted hsolvent ⊢
  refine returns_andThen fun ok => returns_andThen fun sender => returns_done ?_ _
  intro h
  obtain ⟨hs, hbond⟩ := hsolvent h
  have hbounty : 0 ≤ if ok = true then bond * FloatOps.lit equivocationBountyFrac else 0 := by
    split
    · exact mul_nonneg hbond (by norm_num [equivocationBountyFrac])
    · exact le_rfl
  obtain ⟨hs', hvalue', hminted'⟩ := payBond_spec hs sender bond hbounty fault
  exact ⟨hs', by rw [hvalue', hminted', hvalue, hminted]⟩

theorem returns_applyVoteFaultSlash (P : Platform) (s : State ℚ) (tx : Tx ℚ) :
    Returns s (s.applyVoteFaultSlash P tx) := by
  unfold applyVoteFaultSlash
  refine returns_andThen fun validator => ?_
  split
  · exact returns_reject s _
  · dsimp only
    split
    · exact returns_reject s _
    · refine returns_andThen fun addr => ?_
      split
      · exact returns_reject s _
      · refine returns_andThen fun verdict => ?_
        split
        · exact returns_reject s _
        · split
          · exact returns_done (.refl s) _
          · exact returns_burnBond P s tx _ _ _

theorem returns_applyEquivocationSlash (P : Platform) (s : State ℚ) (tx : Tx ℚ) :
    Returns s (s.applyEquivocationSlash P tx) := by
  unfold applyEquivocationSlash
  refine returns_andThen fun proofD => returns_andThen fun proposer => ?_
  split
  · exact returns_reject s _
  · split
    · exact returns_reject s _
    · refine returns_andThen fun verdict => ?_
      split
      · exact returns_reject s _
      · refine returns_andThen fun addr => ?_
        split
        · exact returns_reject s _
        · split
          · exact returns_reject s _
          · refine returns_andThen fun ca => ?_
            dsimp only
            split
            · exact returns_done (.refl s) _
            · exact returns_burnBond P s tx _ _ _

theorem returns_applySlash (P : Platform) (s : State ℚ) (tx : Tx ℚ) :
    Returns s (s.applySlash P tx) := by
  unfold applySlash
  refine returns_andThen fun voteFault => ?_
  split
  · exact returns_applyVoteFaultSlash P s tx
  · exact returns_applyEquivocationSlash P s tx

section Moves

variable {s : State ℚ} {tx : Tx ℚ} (hamt : 0 ≤ tx.amount)

include hamt

theorem returns_applyTransfer (sender : Key) : Returns s (s.applyTransfer sender tx) := by
  unfold applyTransfer
  split
  · exact returns_reject s _
  · split
    · exact returns_reject s _
    · next hle =>
      simp only [FloatOps.lt_rat, decide_eq_true_eq, not_lt] at hle
      refine returns_andThen fun recipient => returns_done ?_ _
      refine Conserves.trans (fun h => ?_) (conserves_bumpNonce _ sender tx)
      refine ⟨(h.debit hle).credit hamt recipient, ?_⟩
      rw [value_credit, value_debit, minted_credit, minted_debit]
      ring

theorem returns_applyStake (sender : Key) : Returns s (s.applyStake sender tx) := by
  unfold applyStake
  split
  · exact returns_reject s _
  · next hle =>
    simp only [FloatOps.lt_rat, decide_eq_true_eq, not_lt] at hle
    refine returns_done (Conserves.trans (fun h => ?_) (conserves_bumpNonce _ sender tx)) _
    obtain ⟨hbal, hstaked, hunb, hcap⟩ := h.debit hle
    refine ⟨⟨hbal, hstaked.set (add_nonneg (h.stakeOf_nonneg sender) hamt), hunb, hcap⟩, ?_⟩
    have hdebit := s.value_debit sender tx.amount
    simp only [value, sumBy_set_id] at hdebit ⊢
    rw [minted_debit]
    linarith

theorem returns_applyUnstake (sender : Key) (height : Option ℤ) :
    Returns s (s.applyUnstake sender tx height) := by
  unfold applyUnstake
  dsimp only
  split
  · exact returns_reject s _
  · next hle =>
    simp only [FloatOps.lt_rat, decide_eq_true_eq, not_lt] at hle
    refine returns_done (Conserves.trans (fun h => ?_) (conserves_bumpNonce _ sender tx)) _
    refine ⟨⟨h.bal, h.staked.set (sub_nonneg.mpr hle), h.unbonding.set ?_, h.cap⟩, ?_⟩
    · intro e he
      rcases List.mem_append.mp he with he | he
      · exact (h.unbonding.getD (p := fun es => ∀ e ∈ es, (0 : ℚ) ≤ e.1) (by simp)) e he
      · rw [List.mem_singleton.mp he]
        exact hamt
    · simp only [value, sumBy_set_id, sumBy_set_entries, stakeOf]
      simp only [entriesTotal, List.map_append, List.sum_append, List.map_cons, List.map_nil,
        List.sum_cons, List.sum_nil]
      ring

end Moves

theorem returns_applyUpgradeSignal (T : PyText) (s : State ℚ) (sender : Key) (tx : Tx ℚ) :
    Returns s (s.applyUpgradeSignal T sender tx) := by
  unfold applyUpgradeSignal
  split
  · exact returns_reject s _
  · split
    · exact returns_reject s _
    · split
      · exact returns_reject s _
      · refine returns_done ?_ _
        exact .of_eq rfl rfl rfl rfl rfl

/-- **A transaction that returns, applied or rejected, conserves.** -/
theorem returns_applyTx (P : Platform) (s : State ℚ) (tx : Tx ℚ)
    (height : Option ℤ) : Returns s (s.applyTx P tx height) := by
  unfold applyTx
  split
  · exact returns_reject s _
  · split
    · exact returns_reject s _
    · next hneg =>
      have hamt : 0 ≤ tx.amount := by simpa using hneg
      split
      · exact returns_applySlash P s tx
      · refine returns_andThen fun sender => ?_
        split
        · exact returns_reject s _
        · split
          · exact returns_reject s _
          · split
            · exact returns_applyTransfer hamt sender
            · exact returns_applyStake hamt sender
            · exact returns_applyUpgradeSignal P.toPyText s sender tx
            · exact returns_applyUnstake hamt sender height
            · exact returns_applySlash P s tx

theorem conserves_applyTxs (P : Platform) (height : ℤ) (txs : List (Tx ℚ))
    {s s' : State ℚ} (h : applyTxs P height s txs = .ok s') : Conserves s s' := by
  induction txs generalizing s with
  | nil =>
    cases h
    exact .refl _
  | cons tx txs ih =>
    have hret := s.returns_applyTx P tx (some height)
    unfold applyTxs at h
    split at h
    · cases h
    · cases h
    · next s₁ r hcall =>
      rw [hcall] at hret
      exact (hret _ rfl).trans (ih h)

/-! ## The reward -/

theorem aggregate_pos {W : Type} (toWeight : W → Except PyErr ℚ) (l : List (String × W))
    {agg agg' : Dict String ℚ} (h : aggregate toWeight agg l = .ok agg') (hpos : agg.All (0 < ·)) :
    agg'.All (0 < ·) := by
  induction l generalizing agg with
  | nil =>
    cases h
    exact hpos
  | cons p t ih =>
    obtain ⟨addr, w⟩ := p
    obtain ⟨w, _, _, h⟩ := aggregate_cons_eq_ok.mp h
    refine ih h ?_
    split
    · next hw =>
      have hw' : 0 < w := by simpa using hw
      have hcur : 0 ≤ agg.getD addr 0 :=
        Dict.All.getD (p := (0 ≤ ·)) (fun k v hk => (hpos k v hk).le) le_rfl
      exact hpos.set (by linarith)
    · exact hpos

theorem totalWeight_eq (agg : Dict String ℚ) :
    totalWeight agg = (agg.sortedItems.map Prod.snd).sum := by
  unfold totalWeight
  rw [FloatOps.sum_rat, Dict.values]
  exact (agg.sortedItems_perm.map Prod.snd).sum_eq.symm

/-- The shares of a reward add up to it. -/
theorem sum_rewardShares (agg : Dict String ℚ) (reward : ℚ) (h : totalWeight agg ≠ 0) :
    ((rewardShares agg reward).map Prod.snd).sum = reward := by
  have hsum : ∀ (l : List (String × ℚ)) (total : ℚ),
      ((l.map (fun p => (p.1, reward * (p.2 / total)))).map Prod.snd).sum
        = reward * ((l.map Prod.snd).sum / total) := by
    intro l total
    induction l with
    | nil => simp
    | cons p l ih =>
      simp only [List.map_cons, List.sum_cons, ih]
      ring
  unfold rewardShares
  rw [hsum, ← totalWeight_eq, div_self h, mul_one]

theorem rewardShares_pos {agg : Dict String ℚ} {reward : ℚ} (hagg : agg.All (0 < ·))
    (hreward : 0 < reward) (htotal : 0 < totalWeight agg) :
    ∀ p ∈ rewardShares agg reward, 0 < p.2 := by
  intro p hp
  obtain ⟨⟨addr, w⟩, hmem, rfl⟩ := List.mem_map.mp hp
  have hw : 0 < w := hagg addr w (Dict.mem_entries_iff.mp (agg.sortedItems_perm.mem_iff.mp hmem))
  exact mul_pos hreward (div_pos hw htotal)

/-- Minting positive amounts adds their sum to the value and to what was minted. -/
theorem foldl_creditReward (shares : List (String × ℚ)) (hpos : ∀ p ∈ shares, 0 < p.2)
    (s : State ℚ) :
    (shares.foldl (fun s p => s.creditReward (.str p.1) p.2) s).value
        = s.value + (shares.map Prod.snd).sum
      ∧ (shares.foldl (fun s p => s.creditReward (.str p.1) p.2) s).minted
        = s.minted + (shares.map Prod.snd).sum
      ∧ (s.Solvent → s.minted + (shares.map Prod.snd).sum ≤ maxSupply →
          (shares.foldl (fun s p => s.creditReward (.str p.1) p.2) s).Solvent) := by
  induction shares generalizing s with
  | nil => exact ⟨by simp, by simp, fun h _ => h⟩
  | cons p shares ih =>
    have hp : 0 < p.2 := hpos p (by simp)
    have hrest : ∀ q ∈ shares, 0 < q.2 := fun q hq => hpos q (by simp [hq])
    have hnn : 0 ≤ (shares.map Prod.snd).sum := by
      refine List.sum_nonneg fun x hx => ?_
      obtain ⟨q, hq, rfl⟩ := List.mem_map.mp hx
      exact (hrest q hq).le
    have hcredit : s.creditReward (.str p.1) p.2
        = { s.credit (.str p.1) p.2 with minted := s.minted + p.2 } := by
      simp only [creditReward, FloatOps.le_rat, not_le.mpr hp, decide_false, Bool.false_eq_true,
        if_false, minted_credit]
    obtain ⟨hvalue, hminted, hsolvent⟩ := ih hrest (s.creditReward (.str p.1) p.2)
    rw [List.foldl_cons, List.map_cons, List.sum_cons, hvalue, hminted]
    have hval : (s.creditReward (.str p.1) p.2).value = s.value + p.2 := by
      rw [hcredit, ← value_credit s (.str p.1) p.2]
      rfl
    have hmint : (s.creditReward (.str p.1) p.2).minted = s.minted + p.2 := by rw [hcredit]
    refine ⟨by rw [hval]; ring, by rw [hmint]; ring, fun h hcap => hsolvent ?_ ?_⟩
    · obtain ⟨hbal, hstaked, hunb, _⟩ := h.credit hp.le (.str p.1)
      rw [hcredit]
      exact ⟨hbal, hstaked, hunb, by show s.minted + p.2 ≤ maxSupply; linarith⟩
    · rw [hmint]
      linarith

theorem conserves_mintReward (s : State ℚ) (headerReward : ℚ) {agg : Dict String ℚ}
    (hagg : agg.All (0 < ·)) : Conserves s (s.mintReward headerReward agg) := by
  unfold mintReward credits
  split
  · next hpos =>
    simp only [FloatOps.lt_rat, Bool.and_eq_true, decide_eq_true_eq] at hpos
    obtain ⟨htotal, hreward⟩ := hpos
    obtain ⟨hvalue, hminted, hsolvent⟩ := foldl_creditReward
      (rewardShares agg (s.clampReward headerReward)) (rewardShares_pos hagg hreward htotal) s
    rw [sum_rewardShares agg _ htotal.ne'] at hvalue hminted hsolvent
    intro h
    refine ⟨hsolvent h ?_, by rw [hvalue, hminted]; ring⟩
    have hclamp : s.clampReward headerReward ≤ maxSupply - s.minted := by
      have hmax : (0 : ℚ) ≤ maxSupply - s.minted := sub_nonneg.mpr h.cap
      simp only [clampReward, FloatOps.max_rat, FloatOps.min_rat, FloatOps.lit_rat]
      exact max_le hmax (min_le_right _ _)
    linarith
  · exact .refl s

/-! ## Blocks -/

theorem conserves_upgradeStep (s : State ℚ) (headerVersion height : ℤ) :
    Conserves s (s.upgradeStep headerVersion height) := by
  unfold upgradeStep
  split
  · exact .of_eq rfl rfl rfl rfl rfl
  · split
    · exact .of_eq rfl rfl rfl rfl rfl
    · exact .refl s

theorem conserves_foldRetarget {parent s s' : State ℚ} {height headerTs : ℤ} {workScore : ℚ}
    (h : foldRetarget parent s height headerTs workScore = .ok s') : Conserves s s' := by
  unfold foldRetarget at h
  split at h
  · cases h
    exact .refl s
  · obtain ⟨sample, _, h⟩ := bind_eq_ok.mp h
    dsimp only at h
    split at h
    · cases h
      exact .of_eq rfl rfl rfl rfl rfl
    · cases h
      exact .of_eq rfl rfl rfl rfl rfl

/-- **A block conserves.** -/
theorem conserves_applyBlock {W : Type} {P : Platform}
    {toWeight : W → Except PyErr ℚ} {s s' : State ℚ} {block : Block ℚ}
    {contributors : Dict String W} (h : s.applyBlock P toWeight block contributors = .ok s') :
    Conserves s s' := by
  obtain ⟨root, ns, agg, _, _, htxs, hagg, hfold⟩ := applyBlock_eq_ok.mp h
  have hpos : agg.All (0 < ·) := aggregate_pos toWeight _ hagg Dict.all_empty
  have hmature := conserves_matureUnbonding s block.header.height
  have hupgrade := conserves_upgradeStep ns block.header.protocolVersion block.header.height
  have hmint := conserves_mintReward (ns.upgradeStep block.header.protocolVersion
    block.header.height) block.header.reward hpos
  have hcheckpoint : ∀ s : State ℚ,
      Conserves s { s with modelCheckpoint := block.header.newCheckpoint } :=
    fun s => .of_eq rfl rfl rfl rfl rfl
  exact hmature.trans ((conserves_applyTxs P _ _ htxs).trans (hupgrade.trans
    (hmint.trans ((hcheckpoint _).trans (conserves_foldRetarget hfold)))))

/-! ## Runs -/

/-- One block applied, with any contributors and any reading of their weights. -/
def BlockStep (P : Platform) (s s' : State ℚ) : Prop :=
  ∃ (W : Type) (toWeight : W → Except PyErr ℚ) (block : Block ℚ) (contributors : Dict String W),
    s.applyBlock P toWeight block contributors = .ok s'

/-- Every run conserves, block by block. -/
theorem conserves_run {P : Platform} {s s' : State ℚ}
    (hrun : Relation.ReflTransGen (BlockStep P) s s') : Conserves s s' := by
  induction hrun with
  | refl => exact .refl s
  | tail _ hstep ih =>
    obtain ⟨W, toWeight, block, contributors, happly⟩ := hstep
    exact ih.trans (conserves_applyBlock happly)

/-- **Conservation, non-negativity and the cap hold along every run of blocks**, whatever
transactions, contributors and rewards the blocks carry. -/
theorem run_conserves_value (P : Platform) {genesis s : State ℚ} (hgenesis : genesis.Solvent)
    (hrun : Relation.ReflTransGen (BlockStep P) genesis s) :
    s.value - s.minted = genesis.value - genesis.minted ∧ s.Solvent := by
  obtain ⟨hsolvent, hvalue⟩ := conserves_run hrun hgenesis
  exact ⟨hvalue, hsolvent⟩

theorem solvent_genesis (checkpoint : Json) : (genesis checkpoint : State ℚ).Solvent where
  bal := Dict.all_empty
  staked := Dict.all_empty
  unbonding := Dict.all_empty
  cap := by norm_num [genesis, maxSupply]

/-- A block of height 1 that pays a reward of 5. -/
def rewardBlock : Block ℚ where
  header :=
    { height := 1, prevHash := .str zeroHash, beacon := .null, parentCheckpoint := .null,
      newCheckpoint := .null, workScore := 1, proposer := .null, reward := 5,
      txRoot := .str zeroHash, timestamp := 0, protocolVersion := genesisVersion,
      quorumHash := "" }
  txs := []

theorem run_conserves_value_rewardBlock :
    ∃ s, Relation.ReflTransGen (BlockStep Platform.ideal) (genesis .null) s ∧ s.minted = 5
      ∧ s.value - s.minted = (genesis .null : State ℚ).value - (genesis .null : State ℚ).minted
      ∧ s.Solvent := by
  have hagg : aggregate Except.ok ∅ [("a", (1 : ℚ))]
      = .ok ((∅ : Dict String ℚ).set "a" (0 + 1)) :=
    aggregate_single "a" rfl (by norm_num) (by norm_num)
  have happly : (genesis .null : State ℚ).applyBlock Platform.ideal Except.ok rewardBlock
      (Dict.ofList [("a", (1 : ℚ))]) = .ok _ :=
    applyBlock_eq_ok.mpr ⟨zeroHash, _, _, rfl, rfl, rfl, hagg, rfl⟩
  have hrun : Relation.ReflTransGen (BlockStep Platform.ideal) (genesis .null) _ :=
    .single ⟨ℚ, Except.ok, rewardBlock, _, happly⟩
  refine ⟨_, hrun, ?_, run_conserves_value Platform.ideal (solvent_genesis .null) hrun⟩
  have htotal : totalWeight ((∅ : Dict String ℚ).set "a" (0 + 1)) = 1 := by
    show (0 : ℚ) + (0 + 1) = 1
    norm_num
  have hclamp : (genesis .null : State ℚ).clampReward 5 = 5 := by
    norm_num [clampReward, genesis, maxSupply]
  show (mintReward (genesis .null) 5 ((∅ : Dict String ℚ).set "a" (0 + 1))).minted = 5
  simp only [mintReward, credits, htotal, hclamp, rewardShares_single]
  norm_num [creditReward, genesis]

end State

end NeuraHash
