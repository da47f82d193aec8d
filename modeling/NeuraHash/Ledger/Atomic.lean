import NeuraHash.Ledger.Outcomes
import NeuraHash.Ledger.Serial

/-!
# A transaction that does not apply (`State.apply_tx`)

The docstring promises that nothing is mutated on failure. Two writes come before a step that can
still raise: the debit of a transfer, before the recipient is used as a dictionary key, and the
seizure of a bond, before the reporter is. `atomic_iff` says when a transaction leaves the state
alone, `unhashable_recipient_is_debited` is one that does not.
-/

namespace NeuraHash.State

open Py

/-- A call that returns `(False, reason)` or raises leaves the state as it was. -/
def Atomic (P : Platform) (s : State PyFloat) (tx : Tx PyFloat) (height : Option ℤ) : Prop :=
  (∀ reason, (s.applyTx P tx height).2 ≠ .ok (true, reason)) → (s.applyTx P tx height).1 = s

/-- Something can be seized of an address. -/
def AtRisk (s : State PyFloat) (addr : Key) : Prop :=
  FloatOps.lt 0 (s.stakeOf addr) = true ∨ s.unbonding.getD addr [] ≠ []

/-- The two ways to fail after a write. -/
def FailsLate (P : Platform) (s : State PyFloat) (tx : Tx PyFloat) : Prop :=
  (∃ sender, TransferDue P s tx sender ∧ (Key.ofJson tx.toAddr).isOk = false ∧
    s.bal.get? sender ≠ some (s.balance sender - tx.amount)) ∨
  ∃ addr fault reason, BurnDue P s tx addr fault reason ∧ (Key.ofJson tx.sender).isOk = false ∧
    s.AtRisk addr

/-! ## Writes that change nothing -/

theorem dict_set_eq_self_iff {α β : Type} [DecidableEq α] {d : Dict α β} {k : α} {v : β} :
    d.set k v = d ↔ d.get? k = some v := by
  constructor
  · intro h
    rw [← h]
    exact Dict.get?_set_self d k v
  · intro h
    refine Dict.ext_get? ?_ fun k' => ?_
    · rw [Dict.keys_set, if_pos (Dict.mem_keys_iff.mpr ⟨v, h⟩)]
    · rw [Dict.get?_set]
      split
      · next heq => rw [← heq, h]
      · rfl

theorem debit_eq_self_iff (s : State PyFloat) (addr : Key) (amt : PyFloat) :
    s.debit addr amt = s ↔ s.bal.get? addr = some (s.balance addr - amt) := by
  rw [← dict_set_eq_self_iff]
  constructor
  · exact fun h => congrArg bal h
  · intro h
    unfold debit
    rw [show s.bal.set addr (s.bal.getD addr 0 - amt) = s.bal from h]

/-- What is left of a positive number when it is taken away is not that number. -/
theorem sub_self_ne {x : PyFloat} (h : FloatOps.lt 0 x = true) : x - x ≠ x := by
  cases x with
  | fin q =>
    have hpos : (0 : ℚ) < q := of_decide_eq_true h
    rw [PyFloat.fin_sub, sub_self, Ne, PyFloat.fin.injEq]
    exact hpos.ne
  | inf => decide
  | negInf => cases h
  | nan => cases h

/-- Nothing of an entry is kept when all of it is taken. -/
theorem seizeEntries_kept (seized : PyFloat) (entries : List (PyFloat × ℤ)) :
    (seizeEntries none seized entries).2 = [] := by
  induction entries generalizing seized with
  | nil => rfl
  | cons e entries ih =>
    obtain ⟨amt, rel⟩ := e
    have hnone : FloatOps.lt 0 (amt - amt) = false := by
      cases amt with
      | fin q =>
        show PyFloat.lt (.fin 0) (.fin q - .fin q) = false
        rw [PyFloat.fin_sub, sub_self, PyFloat.fin_lt]
        exact decide_eq_false (lt_irrefl 0)
      | inf => rfl
      | negInf => rfl
      | nan => rfl
    show (if FloatOps.lt 0 (amt - amt) = true then _ else _) = []
    rw [hnone, if_neg (by simp)]
    exact ih (seized + amt)

theorem seizeStake_none (s : State PyFloat) (addr : Key) :
    s.seizeStake addr none = if FloatOps.lt 0 (s.stakeOf addr) then
      { s with staked := s.staked.set addr (s.stakeOf addr - s.stakeOf addr) } else s := rfl

theorem seizeUnbonding_none (s : State PyFloat) (addr : Key) (seized : PyFloat) :
    (s.seizeUnbonding addr none seized).1
      = if s.unbonding.getD addr [] = [] then s else s.setUnbonding addr [] := by
  unfold seizeUnbonding Dict.getD
  cases s.unbonding.get? addr with
  | none => rfl
  | some entries =>
    cases entries with
    | nil => rfl
    | cons e entries =>
      show s.setUnbonding addr (seizeEntries none seized _).2 = _
      rw [seizeEntries_kept]
      rfl

/-- **A seizure changes the state when something is at risk, and only then.** -/
theorem seize_eq_self_iff (s : State PyFloat) (addr : Key) :
    (s.seize addr none).1 = s ↔ ¬ s.AtRisk addr := by
  have hseize : (s.seize addr none).1
      = if s.unbonding.getD addr [] = [] then s.seizeStake addr none
        else (s.seizeStake addr none).setUnbonding addr [] := by
    have hunbonding : (s.seizeStake addr none).unbonding = s.unbonding := by
      rw [seizeStake_none]
      split
      · rfl
      · rfl
    unfold seize
    dsimp only [Option.map_none]
    split
    · rw [seizeUnbonding_none, hunbonding]
    · rw [seizeUnbonding_none, hunbonding]
  rw [hseize]
  unfold AtRisk
  constructor
  · rintro heq (hstake | hunbonding)
    · -- the bond is no longer there
      have hstaked : (s.seizeStake addr none).staked = s.staked := by
        have := congrArg staked heq
        split at this
        · exact this
        · exact this
      rw [seizeStake_none, if_pos hstake] at hstaked
      have hget := dict_set_eq_self_iff.mp hstaked
      have hself : s.stakeOf addr = s.stakeOf addr - s.stakeOf addr :=
        congrArg (fun x => x.getD 0) hget
      exact sub_self_ne hstake hself.symm
    · -- the entry of the queue is gone
      rw [if_neg hunbonding] at heq
      have herased :
          ((s.seizeStake addr none).setUnbonding addr []).unbonding.get? addr = none := by
        show ((s.seizeStake addr none).unbonding.erase addr).get? addr = none
        rw [Dict.get?_erase, if_pos rfl]
      rw [heq] at herased
      exact hunbonding (congrArg (fun x => x.getD []) herased)
  · intro hnot
    rw [not_or, not_not, Bool.not_eq_true] at hnot
    rw [if_pos hnot.2, seizeStake_none, hnot.1]
    rfl

/-! ## When a failure leaves the state alone -/

/-- **A transaction that does not apply leaves the state alone, unless it fails late**: a transfer
whose recipient cannot be a dictionary key, when its debit changes the sender's balance, or a slash
on fresh evidence whose reporter cannot be one, when something can be seized. -/
theorem atomic_iff (P : Platform) (s : State PyFloat) (tx : Tx PyFloat) (height : Option ℤ) :
    Atomic P s tx height ↔ ¬ FailsLate P s tx := by
  constructor
  · rintro hatomic (⟨sender, hdue, hto, hdebit⟩ | ⟨addr, fault, reason, hdue, hsender, hrisk⟩)
    · cases hkey : Key.ofJson tx.toAddr with
      | ok recipient =>
        rw [hkey] at hto
        cases hto
      | error e =>
        have happly : s.applyTx P tx height = (s.debit sender tx.amount, .error e) := by
          rw [hdue.applyTx, hkey]
          rfl
        have hsame : (s.applyTx P tx height).1 = s := hatomic fun reason => by
          rw [happly]
          exact fun h => nomatch h
        rw [happly] at hsame
        exact hdebit ((debit_eq_self_iff s sender tx.amount).mp hsame)
    · cases hkey : Key.ofJson tx.sender with
      | ok sender =>
        rw [hkey] at hsender
        cases hsender
      | error e =>
        have happly : s.applyTx P tx height = ((s.seize addr none).1, .error e) := by
          rw [hdue.applyTx, burnBond_raises s hkey]
        have hsame : (s.applyTx P tx height).1 = s := hatomic fun reason => by
          rw [happly]
          exact fun h => nomatch h
        rw [happly] at hsame
        exact (seize_eq_self_iff s addr).mp hsame hrisk
  · intro hlate hfailed
    have hstep := applyTx_step P s tx height
    generalize s.applyTx P tx height = p at hstep hfailed
    cases hstep with
    | keeps out => rfl
    | @transferRaises sender e h hto =>
      refine (debit_eq_self_iff s sender tx.amount).mpr ?_
      by_contra hdebit
      exact hlate (.inl ⟨sender, h, by rw [hto]; rfl, hdebit⟩)
    | @burnRaises addr fault reason e h hsender =>
      refine (seize_eq_self_iff s addr).mpr fun hrisk => ?_
      exact hlate (.inr ⟨addr, fault, reason, h, by rw [hsender]; rfl, hrisk⟩)
    | transfer h hto => exact absurd rfl (hfailed _)
    | stake h hkind hfunds => exact absurd rfl (hfailed _)
    | signal h hkind hversion hstake => exact absurd rfl (hfailed _)
    | unstake h hkind hstake hrelease => exact absurd rfl (hfailed _)
    | burn h hsender hbounty => exact absurd rfl (hfailed _)

/-- A genesis with ten coins for one account. -/
def funded : State PyFloat :=
  { genesis .null with bal := (∅ : Dict Key PyFloat).set (.str "alice") (.fin 10) }

/-- A transfer to a list. -/
def transferToList : Json :=
  .obj [("sender", .str "alice"), ("kind", .str "transfer"), ("to", .arr []),
    ("amount", .float (.fin 4))]

/-- What is read of it. -/
def listTransfer : Tx PyFloat where
  sender := .str "alice"
  kind := .transfer
  toAddr := .arr []
  amount := .fin 4
  nonce := 0
  sig := .str "dev"
  data := .null
  sigScheme := .null

/-- **A transfer to a list raises, and the sender has paid.** -/
theorem unhashable_recipient_is_debited :
    ¬ ∀ (P : Platform) (s : State PyFloat) (d : Json) (tx : Tx PyFloat) (height : Option ℤ),
      Tx.fromDict P.toPyText d = .ok tx → Atomic P s tx height := by
  intro hall
  have hread : Tx.fromDict Platform.ideal.toPyText transferToList = .ok listTransfer := by
    with_unfolding_all rfl
  have hraises : (funded.applyTx Platform.ideal listTransfer none).2.isOk = false := by
    with_unfolding_all rfl
  have hpaid : (funded.applyTx Platform.ideal listTransfer none).1.bal.get? (.str "alice")
      = some (.fin 6) := by
    with_unfolding_all rfl
  have hsame := hall Platform.ideal funded transferToList listTransfer none hread fun reason h => by
    rw [h] at hraises
    cases hraises
  rw [hsame] at hpaid
  cases hpaid

end NeuraHash.State
