import NeuraHash.Python.Mutation
import NeuraHash.Settlement.Quorum

/-!
# The halt controller (`neurahash/guardian_halt.py`)

k of m guardians sign an order that halts the pool until a deadline, or resumes it. `submit`
checks the order's epoch, action and signatures, moves the epoch floor and then sets the deadline;
it writes in place, so an exception leaves what was written before it.

`submit_cases` says once what a call can do. An order its checks let through (`Authorised`) is
carried out, or it raises after the epoch floor has moved.
-/

namespace NeuraHash

open Py

/-- The canonical text the guardians sign, `halt_payload`. -/
def haltPayload (T : PyText) (action : Json) (epoch : ℤ) (reason : Json) (durationS : ℤ) : Bytes :=
  utf8 (Json.dumps T [] (.obj [
    ("guard", .str "neurahash-halt"),
    ("action", .str (action.toStr T)),
    ("epoch", .int epoch),
    ("reason", .str (reason.toStr T)),
    ("duration_s", .int durationS)]))

/-- A signed order is an order for one epoch. -/
theorem haltPayload_epoch {T : PyText} {action action' reason reason' : Json}
    {epoch epoch' d d' : ℤ}
    (h : haltPayload T action epoch reason d = haltPayload T action' epoch' reason' d') :
    epoch = epoch' := by
  have hmember := Json.get?_eq_of_dumps_eq T [] (utf8_injective h) "epoch"
  simpa only [Json.get?_obj, List.reverse_cons, List.reverse_nil, List.nil_append,
    List.cons_append, Dict.lookup, String.reduceEq, if_false, if_true, Option.map_some,
    Json.sortKeys, Option.some.injEq, Json.int.injEq] using hmember

/-- A signed order is an order for one whole number of seconds. -/
theorem haltPayload_duration {T : PyText} {action action' reason reason' : Json}
    {epoch epoch' d d' : ℤ}
    (h : haltPayload T action epoch reason d = haltPayload T action' epoch' reason' d') :
    d = d' := by
  have hmember := Json.get?_eq_of_dumps_eq T [] (utf8_injective h) "duration_s"
  simpa only [Json.get?_obj, List.reverse_cons, List.reverse_nil, List.nil_append,
    List.cons_append, Dict.lookup, String.reduceEq, if_false, if_true, Option.map_some,
    Json.sortKeys, Option.some.injEq, Json.int.injEq] using hmember

/-- The pool's signed ledger, as far as the controller uses it. -/
structure PoolLedger (L : Type) where
  /-- `governance_records()`; `none` when it raises. -/
  governanceRecords : L → Option (List Json)
  /-- The ledger after `governance(record)`, also when that raised. -/
  governance : L → Json → L

structure GuardianHalt (L : Type) where
  gs : GuardianSet
  ledger : Option L
  maxHaltS : PyFloat
  /-- Halted while the clock is below this. -/
  haltedUntil : PyFloat
  /-- The floor an order's epoch must exceed. -/
  lastEpoch : ℤ

/-- What `submit` answers: `ok` and the message. -/
inductive HaltReply where
  /-- `stale epoch {epoch} <= floor {self._last_epoch} (replay)` -/
  | stale (epoch floor : ℤ)
  /-- `unknown action {action!r}` -/
  | unknownAction (action : Json)
  /-- `insufficient guardian signatures: {n}/{self.gs.threshold}` -/
  | insufficient (n : ℕ) (threshold : ℤ)
  /-- `HALTED for {eff:.0f}s (epoch {epoch})` -/
  | halted (eff : PyFloat) (epoch : ℤ)
  /-- `RESUMED (epoch {epoch})` -/
  | resumed (epoch : ℤ)

def HaltReply.ok : HaltReply → Bool
  | .halted .. => true
  | .resumed .. => true
  | _ => false

namespace GuardianHalt

variable {L : Type}

/-! ## The controller -/

/-- `rec.get("guard_intent") in (HALT, RESUME)` of a dict. -/
def isIntent (record : Json) : Bool :=
  match record.get? "guard_intent" with
  | some intent => Json.pyEq intent (.str "halt") || Json.pyEq intent (.str "resume")
  | none => false

/-- The loop of `_init_epoch_from_ledger`. -/
def epochFloor (T : PyText) : ℤ → List Json → Except PyErr ℤ
  | floor, [] => .ok floor
  | floor, r :: recs =>
    let record := if r.isObj then (r.get? "record").getD r else .obj []
    if isIntent record then do
      let epoch ← ((record.get? "epoch").getD (.int 0)).toInt T
      epochFloor T (max floor epoch) recs
    else epochFloor T floor recs

/-- `GuardianHalt(guardian_set, ledger, max_halt_s)`. -/
def make (T : PyText) (pool : PoolLedger L) (gs : GuardianSet) (ledger : Option L)
    (maxHaltS : Json) : Except PyErr (GuardianHalt L) := do
  let maxHaltS ← maxHaltS.toFloat T
  -- a ledger that cannot be read leaves the floor at zero
  let lastEpoch ← epochFloor T 0 ((ledger.bind pool.governanceRecords).getD [])
  return { gs, ledger, maxHaltS, haltedUntil := 0, lastEpoch }

/-- `is_halted(now)`. -/
def isHalted (h : GuardianHalt L) (now : PyFloat) : Bool := PyFloat.lt now h.haltedUntil

/-- `_record(action, epoch, reason, expiry)`: best effort, so it never raises. -/
def record (T : PyText) (pool : PoolLedger L) (action reason : Json) (epoch : ℤ)
    (expiry : PyFloat) (h : GuardianHalt L) : GuardianHalt L :=
  { h with ledger := h.ledger.map (fun l => pool.governance l (.obj [
      ("guard_intent", action),
      ("epoch", .int epoch),
      ("reason", .str (reason.toStr T)),
      ("expiry", .float expiry),
      ("k", .int h.gs.threshold),
      ("m", .int h.gs.members.length)])) }

/-- The seconds of a halt: what the order asks for, at most `max_halt_s`, which is also the
default. -/
def haltSeconds (T : PyText) (durationS : Json) (maxHaltS : PyFloat) : Except PyErr PyFloat :=
  match Json.pyLt (.int 0) durationS with
  | none => .error .typeError
  | some true => do return FloatOps.min (← durationS.toFloat T) maxHaltS
  | some false => .ok maxHaltS

/-- The last lines of `submit`, once the order is authorised. -/
def carryOut (T : PyText) (pool : PoolLedger L) (action : Json) (epoch : ℤ)
    (now reason durationS : Json) : PyM (GuardianHalt L) HaltReply := do
  modify (fun h => { h with lastEpoch := epoch })
  if Json.pyEq action (.str "halt") then
    let eff ← PyM.ofExcept (haltSeconds T durationS (← get).maxHaltS)
    let expiry := (← PyM.ofExcept now.asFloat) + eff
    modify (fun h => { h with haltedUntil := expiry })
    modify (record T pool (.str "halt") reason epoch expiry)
    return .halted eff epoch
  else
    modify (fun h => { h with haltedUntil := 0 })
    modify (record T pool (.str "resume") reason epoch 0)
    return .resumed epoch

/-- `submit(action, epoch, signatures, now, reason, duration_s)`. -/
def submit (P : Platform) (pool : PoolLedger L)
    (action epoch signatures now reason durationS : Json) : PyM (GuardianHalt L) HaltReply := do
  let epoch ← PyM.ofExcept (epoch.toInt P.toPyText)
  let h ← get
  if epoch ≤ h.lastEpoch then
    return .stale epoch h.lastEpoch
  if !(Json.pyEq action (.str "halt") || Json.pyEq action (.str "resume")) then
    return .unknownAction action
  let seconds ← PyM.ofExcept (durationS.toInt P.toPyText)
  let sigs ← PyM.ofExcept (signatures.orElse (.arr [])).toList
  let n := (h.gs.distinctSigners P (haltPayload P.toPyText action epoch reason seconds) sigs).length
  if (n : ℤ) < h.gs.threshold then
    return .insufficient n h.gs.threshold
  carryOut P.toPyText pool action epoch now reason durationS

/-! ## One call -/

/-- A call of `submit`. -/
structure SubmitCall where
  action : Json
  epoch : Json
  signatures : Json
  now : Json
  reason : Json
  durationS : Json

/-- The call `poll_file` makes with the fields of an order, as they are in the file. -/
def SubmitCall.ofOrder (order now : Json) : SubmitCall where
  action := (order.get? "action").getD .null
  epoch := (order.get? "epoch").getD .null
  signatures := (order.get? "signatures").getD .null
  now := now
  reason := (order.get? "reason").getD (.str "")
  durationS := (order.get? "duration_s").getD (.int 0)

/-- `poll_file(path, now)`, where `order` is what `load_order` read (`None` for garbage). -/
def pollFile (P : Platform) (pool : PoolLedger L) (order now : Json) :
    PyM (GuardianHalt L) (Option HaltReply) := do
  if !order.truthy then
    return none
  let epoch ← PyM.ofExcept (order.getD "epoch" (.int 0))
  if (← PyM.ofExcept (epoch.toInt P.toPyText)) ≤ (← get).lastEpoch then
    return none
  let c := SubmitCall.ofOrder order now
  let reply ← submit P pool c.action c.epoch c.signatures c.now c.reason c.durationS
  return some reply

namespace SubmitCall

variable (P : Platform) (gs : GuardianSet) (c : SubmitCall)

/-- The text the call's signatures are checked over. -/
def payload (T : PyText) : Except PyErr Bytes := do
  return haltPayload T c.action (← c.epoch.toInt T) c.reason (← c.durationS.toInt T)

/-- `list(signatures or [])`. -/
def sigs : Except PyErr (List Json) := (c.signatures.orElse (.arr [])).toList

/-- The distinct guardians that signed the call. -/
def signers : List String :=
  match c.payload P.toPyText, c.sigs with
  | .ok payload, .ok sigs => gs.distinctSigners P payload sigs
  | _, _ => []

/-- The signatures of the call that count: over its payload they recover to a guardian. -/
def counted : Set Json :=
  {sig | ∃ payload sigs, c.payload P.toPyText = .ok payload ∧ c.sigs = .ok sigs ∧ sig ∈ sigs
    ∧ ∃ who, recoverBytes P payload sig = some who ∧ P.lower who ∈ gs.members}

section

variable {P : Platform} {gs : GuardianSet} {c : SubmitCall}

/-- A call with enough signers has a text and signatures over it. -/
theorem signed_text (h : gs.threshold ≤ (c.signers P gs).length) :
    ∃ payload sigs, c.payload P.toPyText = .ok payload ∧ c.sigs = .ok sigs
      ∧ gs.threshold ≤ (gs.distinctSigners P payload sigs).length := by
  have hone := gs.one_le
  unfold signers at h
  split at h
  · next payload sigs hpayload hsigs => exact ⟨payload, sigs, hpayload, hsigs, h⟩
  · rw [List.length_nil] at h
    omega

/-- A call with enough signers has a duration that `int` accepts. -/
theorem signed_duration (h : gs.threshold ≤ (c.signers P gs).length) :
    ∃ seconds, c.durationS.toInt P.toPyText = .ok seconds := by
  obtain ⟨payload, _, hpayload, _⟩ := signed_text h
  obtain ⟨_, _, hpayload⟩ := bind_eq_ok.mp hpayload
  obtain ⟨seconds, hseconds, _⟩ := bind_eq_ok.mp hpayload
  exact ⟨seconds, hseconds⟩

/-- A call with enough signers counts a signature. -/
theorem counted_nonempty (h : gs.threshold ≤ (c.signers P gs).length) :
    (c.counted P gs).Nonempty := by
  obtain ⟨payload, sigs, hpayload, hsigs, hlen⟩ := signed_text h
  have hone := gs.one_le
  have hpos : 0 < (gs.distinctSigners P payload sigs).length := by omega
  obtain ⟨a, ha⟩ := List.exists_mem_of_length_pos hpos
  obtain ⟨hmem, sig, hsig, who, hrecover, hlower⟩ := GuardianSet.mem_distinctSigners.mp ha
  exact ⟨sig, payload, sigs, hpayload, hsigs, hsig, who, hrecover, hlower ▸ hmem⟩

end

end SubmitCall

/-- The call as a step: its answer or exception, and what it leaves behind. -/
def step (P : Platform) (pool : PoolLedger L) (h : GuardianHalt L) (c : SubmitCall) :
    Except PyErr HaltReply × GuardianHalt L :=
  match submit P pool c.action c.epoch c.signatures c.now c.reason c.durationS h with
  | .ok reply h' => (.ok reply, h')
  | .error e h' => (.error e, h')

/-- A file is an order submitted, or nothing happens. -/
theorem pollFile_after (P : Platform) (pool : PoolLedger L) (order now : Json)
    (h : GuardianHalt L) :
    (pollFile P pool order now).after h = h
      ∨ (pollFile P pool order now).after h
        = (step P pool h (SubmitCall.ofOrder order now)).2 := by
  unfold pollFile PyM.after step
  cases order.truthy with
  | false => exact Or.inl rfl
  | true =>
    rw [if_neg (by simp)]
    cases order.getD "epoch" (.int 0) with
    | error e => exact Or.inl rfl
    | ok epoch =>
      rw [PyM.bind_run_ok (PyM.ofExcept_ok epoch h)]
      cases epoch.toInt P.toPyText with
      | error e => exact Or.inl rfl
      | ok n =>
        rw [PyM.bind_run_ok (PyM.ofExcept_ok n h), PyM.bind_run_ok (PyM.get_run h)]
        by_cases hstale : n ≤ h.lastEpoch
        · rw [if_pos hstale]
          exact Or.inl rfl
        rw [if_neg hstale, PyM.bind_run]
        refine Or.inr ?_
        cases submit P pool _ _ _ _ _ _ h <;> rfl

/-- The checks of `submit` let the call through, as an order of this epoch. -/
structure Authorised (P : Platform) (h : GuardianHalt L) (c : SubmitCall) (epoch : ℤ) :
    Prop where
  epoch_eq : c.epoch.toInt P.toPyText = .ok epoch
  fresh : h.lastEpoch < epoch
  known : c.action = .str "halt" ∨ c.action = .str "resume"
  signed : h.gs.threshold ≤ (c.signers P h.gs).length

/-- A halt can be carried out: the clock is a number a float can hold, and so is a positive
duration; a text that `int` accepts is no number. -/
structure OrderArgs (c : SubmitCall) : Prop where
  now : ∃ t₀, c.now.asFloat = .ok t₀
  duration : ∃ d, c.durationS.number? = some d
    ∧ (PyFloat.lt (.fin 0) d = true → ∃ x, c.durationS.asFloat = .ok x)

theorem toFloat_of_number {T : PyText} {j : Json} {d : PyFloat} (h : j.number? = some d) :
    j.toFloat T = j.asFloat := by
  cases j <;> first | rfl | cases h

/-- The length of a halt exists exactly for the durations of `OrderArgs`. -/
theorem haltSeconds_isOk {T : PyText} {j : Json} {m : PyFloat} :
    (∃ eff, haltSeconds T j m = .ok eff) ↔
      ∃ d, j.number? = some d ∧ (PyFloat.lt (.fin 0) d = true → ∃ x, j.asFloat = .ok x) := by
  unfold haltSeconds
  cases hd : j.number? with
  | none =>
    have hlt : Json.pyLt (.int 0) j = none := by
      cases j <;> first | rfl | cases hd
    rw [hlt]
    simp
  | some d =>
    have hlt : Json.pyLt (.int 0) j = some (PyFloat.lt (.fin 0) d) := by
      cases j <;> first | (cases hd; rfl) | cases hd
    rw [hlt, toFloat_of_number hd]
    cases hpos : PyFloat.lt (.fin 0) d with
    | false => simp [hpos]
    | true => cases j.asFloat <;> simp [hpos]

/-- **A halt is capped**: its length is `max_halt_s`, or a number of seconds `max_halt_s` is not
below. -/
theorem haltSeconds_capped {T : PyText} {j : Json} {m eff : PyFloat} {n : ℤ}
    (hseconds : j.toInt T = .ok n) (heff : haltSeconds T j m = .ok eff) :
    eff = m ∨ ∃ q, eff = .fin q ∧ PyFloat.lt m (.fin q) = false := by
  unfold haltSeconds at heff
  split at heff
  · cases heff
  · next hpos =>
    obtain ⟨d, hd, heff⟩ := bind_eq_ok.mp heff
    replace heff : (if PyFloat.lt m d = true then m else d) = eff := Except.ok.inj heff
    -- `int(duration_s)` did not raise, so the duration is finite
    have hfin : ∃ q, d = .fin q := by
      cases j with
      | bool b => exact ⟨_, (Except.ok.inj hd).symm⟩
      | int k => exact ⟨k, Json.eq_of_floatOfInt hd⟩
      | float x =>
        cases x with
        | fin q => exact ⟨q, (Except.ok.inj hd).symm⟩
        | _ => cases hseconds
      | _ => cases hpos
    obtain ⟨q, rfl⟩ := hfin
    cases hlt : PyFloat.lt m (.fin q) with
    | true =>
      rw [hlt, if_pos rfl] at heff
      exact Or.inl heff.symm
    | false =>
      rw [hlt, if_neg (by simp)] at heff
      exact Or.inr ⟨q, heff.symm, hlt⟩
  · exact Or.inl (Except.ok.inj heff).symm

/-- A time before a capped deadline is before the last deadline there could be. -/
theorem lt_deadline {t t₀ eff m : PyFloat} (hm : m ≠ .nan)
    (hcap : eff = m ∨ ∃ q, eff = .fin q ∧ PyFloat.lt m (.fin q) = false)
    (ht : PyFloat.lt t (t₀ + eff) = true) : PyFloat.lt t (t₀ + m) = true := by
  rcases hcap with rfl | ⟨q, rfl, hq⟩
  · exact ht
  cases m with
  | nan => exact absurd rfl hm
  | negInf => cases hq
  | inf =>
    cases t₀ with
    | fin a =>
      show PyFloat.lt t .inf = true
      cases t <;> first | rfl | cases ht
    | negInf => cases t <;> cases ht
    | _ => exact ht
  | fin b =>
    have hle : q ≤ b := by simpa using hq
    cases t₀ with
    | fin a =>
      cases t with
      | fin x =>
        have hx : x < a + q := by simpa using ht
        have hxb : x < a + b := by linarith
        simpa using hxb
      | _ => exact ht
    | _ => exact ht

/-- What a call can do. -/
inductive Outcome (P : Platform) (pool : PoolLedger L) (h : GuardianHalt L) (c : SubmitCall) :
    Except PyErr HaltReply × GuardianHalt L → Prop
  /-- The checks turn the call away, by an answer or an exception. -/
  | turnedAway (out : Except PyErr HaltReply) (hno : ∀ epoch, ¬ Authorised P h c epoch)
      (hout : ∀ reply, out = .ok reply → reply.ok = false) : Outcome P pool h c (out, h)
  | halted (epoch : ℤ) (eff t₀ : PyFloat) (auth : Authorised P h c epoch)
      (haction : c.action = .str "halt") (hargs : OrderArgs c)
      (heff : haltSeconds P.toPyText c.durationS h.maxHaltS = .ok eff)
      (hnow : c.now.asFloat = .ok t₀) :
      Outcome P pool h c (.ok (.halted eff epoch),
        record P.toPyText pool (.str "halt") c.reason epoch (t₀ + eff)
          { h with lastEpoch := epoch, haltedUntil := t₀ + eff })
  | resumed (epoch : ℤ) (auth : Authorised P h c epoch) (haction : c.action = .str "resume") :
      Outcome P pool h c (.ok (.resumed epoch),
        record P.toPyText pool (.str "resume") c.reason epoch 0
          { h with lastEpoch := epoch, haltedUntil := 0 })
  /-- An exception after the epoch floor has moved. -/
  | burned (epoch : ℤ) (e : PyErr) (auth : Authorised P h c epoch)
      (haction : c.action = .str "halt") (hargs : ¬ OrderArgs c) :
      Outcome P pool h c (.error e, { h with lastEpoch := epoch })

section

variable {P : Platform} {pool : PoolLedger L} {h : GuardianHalt L} {c : SubmitCall} {epoch : ℤ}

theorem isOrder_iff {action : Json} :
    (Json.pyEq action (.str "halt") || Json.pyEq action (.str "resume")) = true ↔
      action = .str "halt" ∨ action = .str "resume" := by
  rw [Bool.or_eq_true, Json.pyEq_str_right, Json.pyEq_str_right]

/-- The guardians counted by the signature check are the signers of the call. -/
theorem signers_eq {seconds : ℤ} {sigs : List Json} (hepoch : c.epoch.toInt P.toPyText = .ok epoch)
    (hseconds : c.durationS.toInt P.toPyText = .ok seconds) (hsigs : c.sigs = .ok sigs) :
    c.signers P h.gs
      = h.gs.distinctSigners P (haltPayload P.toPyText c.action epoch c.reason seconds) sigs := by
  unfold SubmitCall.signers SubmitCall.payload
  rw [hepoch, hseconds, hsigs]
  rfl

variable (pool) in
/-- A call that is not authorised ends before anything is written. -/
theorem submit_of_not_authorised (hno : ∀ epoch, ¬ Authorised P h c epoch) :
    (∃ reply, submit P pool c.action c.epoch c.signatures c.now c.reason c.durationS h
        = .ok reply h ∧ reply.ok = false)
      ∨ ∃ e, submit P pool c.action c.epoch c.signatures c.now c.reason c.durationS h
        = .error e h := by
  unfold submit
  cases hepoch : c.epoch.toInt P.toPyText with
  | error e => exact Or.inr ⟨e, rfl⟩
  | ok epoch =>
    rw [PyM.bind_run_ok (PyM.ofExcept_ok epoch h), PyM.bind_run_ok (PyM.get_run h)]
    by_cases hstale : epoch ≤ h.lastEpoch
    · rw [if_pos hstale]
      exact Or.inl ⟨_, rfl, rfl⟩
    rw [if_neg hstale]
    cases hknown : Json.pyEq c.action (.str "halt") || Json.pyEq c.action (.str "resume") with
    | false => exact Or.inl ⟨.unknownAction c.action, rfl, rfl⟩
    | true =>
      cases hseconds : c.durationS.toInt P.toPyText with
      | error e => exact Or.inr ⟨e, rfl⟩
      | ok seconds =>
        cases hsigs : c.sigs with
        | error e =>
          refine Or.inr ⟨e, ?_⟩
          show ((PyM.ofExcept c.sigs : PyM (GuardianHalt L) _) >>= _) h = _
          rw [hsigs]
          rfl
        | ok sigs =>
          -- only the signatures are left to fail
          have hfew : ((h.gs.distinctSigners P
              (haltPayload P.toPyText c.action epoch c.reason seconds) sigs).length : ℤ)
                < h.gs.threshold := by
            by_contra henough
            refine hno epoch ⟨hepoch, not_le.mp hstale, isOrder_iff.mp hknown, ?_⟩
            rw [signers_eq hepoch hseconds hsigs]
            exact not_lt.mp henough
          refine Or.inl ⟨.insufficient (h.gs.distinctSigners P
            (haltPayload P.toPyText c.action epoch c.reason seconds) sigs).length
              h.gs.threshold, ?_, rfl⟩
          show ((PyM.ofExcept c.sigs : PyM (GuardianHalt L) _) >>= _) h = _
          rw [hsigs, PyM.bind_run_ok (PyM.ofExcept_ok sigs h), if_pos hfew]
          rfl

/-- An authorised call gets to the part that writes. -/
theorem submit_of_authorised (auth : Authorised P h c epoch) :
    submit P pool c.action c.epoch c.signatures c.now c.reason c.durationS h
      = carryOut P.toPyText pool c.action epoch c.now c.reason c.durationS h := by
  obtain ⟨seconds, hseconds⟩ := SubmitCall.signed_duration auth.signed
  obtain ⟨_, sigs, _, hsigs, _⟩ := SubmitCall.signed_text auth.signed
  have hsigned := auth.signed
  rw [signers_eq auth.epoch_eq hseconds hsigs] at hsigned
  unfold submit
  rw [auth.epoch_eq, PyM.bind_run_ok (PyM.ofExcept_ok epoch h),
    PyM.bind_run_ok (PyM.get_run h), if_neg (not_le.mpr auth.fresh),
    isOrder_iff.mpr auth.known, hseconds]
  show ((PyM.ofExcept c.sigs : PyM (GuardianHalt L) _) >>= _) h = _
  rw [hsigs, PyM.bind_run_ok (PyM.ofExcept_ok sigs h), if_neg (not_lt.mpr hsigned)]

/-- An authorised halt: both conversions come after the epoch floor has moved. -/
theorem carryOut_halt (T : PyText) (now reason durationS : Json) :
    carryOut T pool (.str "halt") epoch now reason durationS h
      = match haltSeconds T durationS h.maxHaltS, now.asFloat with
        | .ok eff, .ok t₀ => .ok (.halted eff epoch)
            (record T pool (.str "halt") reason epoch (t₀ + eff)
              { h with lastEpoch := epoch, haltedUntil := t₀ + eff })
        | .error e, _ => .error e { h with lastEpoch := epoch }
        | _, .error e => .error e { h with lastEpoch := epoch } := by
  unfold carryOut
  rw [PyM.bind_run_ok (PyM.modify_run _ h), if_pos (Json.pyEq_str_right.mpr rfl),
    PyM.bind_run_ok (PyM.get_run _)]
  cases haltSeconds T durationS h.maxHaltS with
  | error e => rfl
  | ok eff => cases now.asFloat <;> rfl

/-- **What a call of `submit` can do.** -/
theorem step_cases (P : Platform) (pool : PoolLedger L) (h : GuardianHalt L) (c : SubmitCall) :
    ∃ out, step P pool h c = out ∧ Outcome P pool h c out := by
  refine ⟨_, rfl, ?_⟩
  unfold step
  by_cases hauth : ∃ epoch, Authorised P h c epoch
  swap
  · have hno := not_exists.mp hauth
    rcases submit_of_not_authorised pool hno with ⟨reply, hrun, hok⟩ | ⟨e, hrun⟩
    · rw [hrun]
      exact .turnedAway (.ok reply) hno fun r hr => Except.ok.inj hr ▸ hok
    · rw [hrun]
      exact .turnedAway (.error e) hno fun r hr => by cases hr
  obtain ⟨epoch, auth⟩ := hauth
  rw [submit_of_authorised auth]
  rcases auth.known with haction | haction
  · rw [haction, carryOut_halt]
    cases heff : haltSeconds P.toPyText c.durationS h.maxHaltS with
    | error e =>
      refine .burned epoch e auth haction fun hargs => ?_
      obtain ⟨eff, hok⟩ := haltSeconds_isOk.mpr hargs.duration
      rw [heff] at hok
      cases hok
    | ok eff =>
      cases hnow : c.now.asFloat with
      | error e =>
        refine .burned epoch e auth haction fun hargs => ?_
        obtain ⟨t₀, hok⟩ := hargs.now
        rw [hnow] at hok
        cases hok
      | ok t₀ =>
        have hargs : OrderArgs c := ⟨⟨t₀, hnow⟩, haltSeconds_isOk.mp ⟨eff, heff⟩⟩
        exact .halted epoch eff t₀ auth haction hargs heff hnow
  · rw [haction]
    exact .resumed epoch auth haction

end

end GuardianHalt

end NeuraHash
