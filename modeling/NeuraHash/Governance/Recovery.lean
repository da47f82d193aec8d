import NeuraHash.Governance.Orders

/-!
# The controller after a restart

A new controller reads the epoch floor off the ledger's intent records and starts with no halt in
force. Every order that is carried out leaves its epoch there, so the floor comes back unless the
last order that was let through raised; the deadline of a halt is written to the record and never
read (`restart_keeps_iff`).
-/

namespace NeuraHash

open Py Systems

namespace GuardianHalt

variable {L : Type} {P : Platform} {pool : PoolLedger L} {h : GuardianHalt L} {c : SubmitCall}

/-- What `_init_epoch_from_ledger` takes for the record of a ledger entry. -/
def recordOf (entry : Json) : Json :=
  if entry.isObj then (entry.get? "record").getD entry else .obj []

/-- The ledger stores every governance record, as its last entry or inside it. -/
def Stores (pool : PoolLedger L) : Prop :=
  ∀ l recs record, pool.governanceRecords l = some recs →
    ∃ entry, pool.governanceRecords (pool.governance l record) = some (recs ++ [entry])
      ∧ recordOf entry = record

/-! ## The floor of a ledger -/

theorem epochFloor_append {T : PyText} (recs recs' : List Json) (floor : ℤ) :
    epochFloor T floor (recs ++ recs')
      = (epochFloor T floor recs >>= fun floor' => epochFloor T floor' recs') := by
  induction recs generalizing floor with
  | nil => rfl
  | cons r recs ih =>
    rw [List.cons_append, epochFloor, epochFloor]
    generalize (if r.isObj then (r.get? "record").getD r else .obj []) = record
    cases isIntent record with
    | false => exact ih floor
    | true =>
      rw [if_pos rfl, if_pos rfl]
      cases ((record.get? "epoch").getD (.int 0)).toInt T with
      | error e => rfl
      | ok epoch => exact ih (max floor epoch)

/-- An order that is recorded raises the floor to its epoch. -/
theorem epochFloor_intent {T : PyText} {entry action reason : Json} {epoch floor : ℤ}
    {expiry : PyFloat} {k m : ℤ} (haction : action = .str "halt" ∨ action = .str "resume")
    (hentry : recordOf entry = .obj [("guard_intent", action), ("epoch", .int epoch),
      ("reason", .str (reason.toStr T)), ("expiry", .float expiry), ("k", .int k), ("m", .int m)]) :
    epochFloor T floor [entry] = .ok (max floor epoch) := by
  have hintent : isIntent (recordOf entry) = true := by
    rw [hentry, isIntent]
    simp only [Json.get?_obj, List.reverse_cons, List.reverse_nil, List.nil_append,
      List.cons_append, Dict.lookup, String.reduceEq, if_false, if_true]
    rw [Bool.or_eq_true, Json.pyEq_str_right, Json.pyEq_str_right]
    exact haction
  have hepoch : ((recordOf entry).get? "epoch").getD (.int 0) = .int epoch := by
    rw [hentry]
    simp only [Json.get?_obj, List.reverse_cons, List.reverse_nil, List.nil_append,
      List.cons_append, Dict.lookup, String.reduceEq, if_false, if_true, Option.getD_some]
  rw [epochFloor]
  show (if isIntent (recordOf entry) = true then _ else _) = _
  rw [if_pos hintent]
  show ((((recordOf entry).get? "epoch").getD (.int 0)).toInt T >>= _) = _
  rw [hepoch, Json.toInt_int, ok_bind]
  rfl

/-- The ledger's records give the floor `floor`. -/
def RecordedFloor (T : PyText) (pool : PoolLedger L) (h : GuardianHalt L) (floor : ℤ) : Prop :=
  ∃ l recs, h.ledger = some l ∧ pool.governanceRecords l = some recs
    ∧ epochFloor T 0 recs = .ok floor

theorem RecordedFloor.record {T : PyText} (hstores : Stores pool) {floor epoch : ℤ}
    (h' : RecordedFloor T pool h floor) (hle : floor ≤ epoch) {action reason : Json}
    (haction : action = .str "halt" ∨ action = .str "resume") {expiry : PyFloat} {deadline : PyFloat} :
    RecordedFloor T pool
      (record T pool action reason epoch expiry
        { h with lastEpoch := epoch, haltedUntil := deadline }) epoch := by
  obtain ⟨l, recs, hledger, hrecs, hfloor⟩ := h'
  obtain ⟨entry, hentries, hentry⟩ := hstores l recs (.obj [
    ("guard_intent", action), ("epoch", .int epoch), ("reason", .str (reason.toStr T)),
    ("expiry", .float expiry), ("k", .int h.gs.threshold), ("m", .int h.gs.members.length)]) hrecs
  refine ⟨_, recs ++ [entry], ?_, hentries, ?_⟩
  · unfold GuardianHalt.record
    rw [hledger]
    rfl
  · rw [epochFloor_append, hfloor, ok_bind, epochFloor_intent haction hentry, max_eq_right hle]

/-- The floor with which a controller is made. -/
theorem RecordedFloor.make {T : PyText} {floor : ℤ} (h' : RecordedFloor T pool h floor)
    {gs : GuardianSet} {maxHaltS : Json} {m : PyFloat} (hmax : maxHaltS.toFloat T = .ok m) :
    make T pool gs h.ledger maxHaltS
      = .ok { gs := gs, ledger := h.ledger, maxHaltS := m, haltedUntil := 0, lastEpoch := floor } := by
  obtain ⟨l, recs, hledger, hrecs, hfloor⟩ := h'
  unfold GuardianHalt.make
  rw [hmax, ok_bind, hledger]
  show (epochFloor T 0 ((pool.governanceRecords l).getD []) >>= _) = _
  rw [hrecs, Option.getD_some, hfloor, ok_bind]
  rfl

/-! ## The floor after a run -/

/-- The call is let through and carried out. -/
def CarriedOut (P : Platform) (h : GuardianHalt L) (c : SubmitCall) : Prop :=
  ∃ epoch, Authorised P h c epoch ∧ (c.action = .str "halt" → OrderArgs c)

/-- The call is let through and raises. -/
def Raises (P : Platform) (h : GuardianHalt L) (c : SubmitCall) : Prop :=
  ∃ epoch, Authorised P h c epoch ∧ c.action = .str "halt" ∧ ¬ OrderArgs c

/-- Every order that raised was followed by one that was carried out. -/
def LastCarriedOut (P : Platform) (hist : List (HaltEvent L)) : Prop :=
  ∀ before e after, hist = before ++ e :: after → Raises P e.before e.input →
    ∃ e' ∈ after, CarriedOut P e'.before e'.input

theorem LastCarriedOut.concat {hist : List (HaltEvent L)} {e : HaltEvent L}
    (hno : ¬ Raises P e.before e.input) (h' : LastCarriedOut P hist) :
    LastCarriedOut P (hist ++ [e]) := by
  intro before e₀ after heq hraises
  rcases List.eq_nil_or_concat after with rfl | ⟨after, e₁, rfl⟩
  · have hlast := List.append_inj' heq rfl
    cases hlast.2
    exact absurd hraises hno
  · rw [List.concat_eq_append, ← List.cons_append, ← List.append_assoc] at heq
    obtain ⟨hinit, hlast⟩ := List.append_inj' heq rfl
    obtain ⟨e', he', hcarried⟩ := h' before e₀ after hinit hraises
    rw [List.concat_eq_append]
    exact ⟨e', List.mem_append_left _ he', hcarried⟩

theorem LastCarriedOut.of_carriedOut (hist : List (HaltEvent L)) {e : HaltEvent L}
    (hcarried : CarriedOut P e.before e.input) : LastCarriedOut P (hist ++ [e]) := by
  intro before e₀ after heq hraises
  rcases List.eq_nil_or_concat after with rfl | ⟨after, e₁, rfl⟩
  · cases (List.append_inj' heq rfl).2
    obtain ⟨-, -, hhalt, hargs⟩ := hraises
    obtain ⟨-, -, hargs'⟩ := hcarried
    exact absurd (hargs' hhalt) hargs
  · rw [List.concat_eq_append, ← List.cons_append, ← List.append_assoc] at heq
    cases (List.append_inj' heq rfl).2
    rw [List.concat_eq_append]
    exact ⟨_, List.mem_append_right _ (List.mem_singleton_self _), hcarried⟩

theorem not_lastCarriedOut {hist : List (HaltEvent L)} {e : HaltEvent L}
    (hraises : Raises P e.before e.input) : ¬ LastCarriedOut P (hist ++ [e]) := by
  intro hlast
  obtain ⟨e', he', -⟩ := hlast hist e [] rfl hraises
  cases he'

theorem LastCarriedOut.of_concat {hist : List (HaltEvent L)} {e : HaltEvent L}
    (hno : ¬ CarriedOut P e.before e.input) (h' : LastCarriedOut P (hist ++ [e])) :
    LastCarriedOut P hist := by
  intro before e₀ after heq hraises
  obtain ⟨e', he', hcarried⟩ := h' before e₀ (after ++ [e]) (by rw [heq]; simp) hraises
  rcases List.mem_append.mp he' with he' | he'
  · exact ⟨e', he', hcarried⟩
  · rw [List.mem_singleton.mp he'] at hcarried
    exact absurd hcarried hno

/-- **What a run leaves on the ledger**: a floor not above the controller's, which is the
controller's exactly when no order raised after the last one that was carried out. -/
theorem recordedFloor_run (hstores : Stores pool) (h' : RecordedFloor P.toPyText pool h h.lastEpoch)
    (calls : List SubmitCall) :
    ∃ floor, RecordedFloor P.toPyText pool (final (step P pool) h calls) floor
      ∧ floor ≤ (final (step P pool) h calls).lastEpoch
      ∧ (floor = (final (step P pool) h calls).lastEpoch ↔
          LastCarriedOut P (history (step P pool) h calls)) := by
  induction calls using List.reverseRecOn with
  | nil =>
    refine ⟨h.lastEpoch, h', le_rfl, iff_of_true rfl fun before e after heq => ?_⟩
    rw [history_nil] at heq
    cases before <;> cases heq
  | append_singleton calls c ih =>
    rw [final_append, final_cons, final_nil, history_concat]
    obtain ⟨floor, hrecorded, hle, hiff⟩ := ih
    generalize final (step P pool) h calls = s at hrecorded hle hiff ⊢
    unfold event
    obtain ⟨out, hstep, hcases⟩ := step_cases P pool s c
    rw [hstep]
    cases hcases with
    | turnedAway out hno hout =>
      refine ⟨floor, hrecorded, hle, hiff.trans ⟨?_, ?_⟩⟩
      · exact .concat fun ⟨epoch, auth, _⟩ => hno epoch auth
      · exact .of_concat fun ⟨epoch, auth, _⟩ => hno epoch auth
    | halted epoch eff t₀ auth haction hargs heff hnow =>
      refine ⟨epoch, hrecorded.record hstores (hle.trans auth.fresh.le) (.inl rfl), le_rfl, ?_⟩
      exact iff_of_true rfl (.of_carriedOut _ ⟨epoch, auth, fun _ => hargs⟩)
    | resumed epoch auth haction =>
      refine ⟨epoch, hrecorded.record hstores (hle.trans auth.fresh.le) (.inr rfl), le_rfl, ?_⟩
      refine iff_of_true rfl (.of_carriedOut _ ⟨epoch, auth, fun hhalt => ?_⟩)
      exact absurd (haction.symm.trans hhalt) (by simp)
    | burned epoch e auth haction hargs =>
      refine ⟨floor, hrecorded, hle.trans auth.fresh.le, ?_⟩
      refine iff_of_false ?_ (not_lastCarriedOut ⟨epoch, auth, haction, hargs⟩)
      have hfresh := auth.fresh
      show ¬ floor = epoch
      omega

/-! ## Restarts -/

theorem clock_le_trans {a b d : PyFloat} (hab : PyFloat.le a b = true) (hbd : PyFloat.le b d = true) :
    PyFloat.le a d = true := by
  cases a <;> cases b <;> simp [PyFloat.le] at hab <;> cases d <;> simp [PyFloat.le] at hbd ⊢
  exact hab.trans hbd

theorem clock_lt_of_le {a b d : PyFloat} (hab : PyFloat.le a b = true)
    (hbd : PyFloat.lt b d = true) : PyFloat.lt a d = true := by
  cases a <;> cases b <;> simp [PyFloat.le] at hab <;> cases d <;> simp [PyFloat.lt] at hbd ⊢
  exact hab.trans_lt hbd

/-- The halt that a controller without a deadline reports: none, as the clock is not negative. -/
theorem isHalted_zero {t : PyFloat} (ht : PyFloat.le (.fin 0) t = true)
    (hzero : h.haltedUntil = .fin 0) : h.isHalted t = false := by
  unfold isHalted
  rw [hzero]
  cases t with
  | fin q =>
    rw [PyFloat.fin_le, decide_eq_true_eq] at ht
    rw [PyFloat.fin_lt, decide_eq_false (not_lt.mpr ht)]
  | inf => rfl
  | negInf => cases ht
  | nan => cases ht

/-- **What a restart keeps.** After any calls, a new controller on the same ledger has the same
floor, and reports the same from the time `t` on, exactly when no order raised after the last one
that was carried out and no halt is in force at that time. -/
theorem restart_keeps_iff {gs : GuardianSet} {l : L} {recs : List Json} {maxHaltS : Json}
    (hstores : Stores pool) (hrecs : pool.governanceRecords l = some recs)
    (hmake : make P.toPyText pool gs (some l) maxHaltS = .ok h) (calls : List SubmitCall)
    {t : PyFloat} (ht : PyFloat.le (.fin 0) t = true) :
    ∃ h', make P.toPyText pool gs (final (step P pool) h calls).ledger maxHaltS = .ok h' ∧
      ((h'.lastEpoch = (final (step P pool) h calls).lastEpoch ∧
          ∀ now, PyFloat.le t now = true →
            h'.isHalted now = (final (step P pool) h calls).isHalted now) ↔
        LastCarriedOut P (history (step P pool) h calls) ∧
          (final (step P pool) h calls).isHalted t = false) := by
  obtain ⟨m, hmax, hmake⟩ := bind_eq_ok.mp hmake
  obtain ⟨floor, hfloor, hmake⟩ := bind_eq_ok.mp hmake
  have hstart : RecordedFloor P.toPyText pool h h.lastEpoch := by
    cases hmake
    refine ⟨l, recs, rfl, hrecs, ?_⟩
    rw [Option.bind_some, hrecs, Option.getD_some] at hfloor
    exact hfloor
  obtain ⟨floor', hrecorded, -, hiff⟩ := recordedFloor_run (P := P) hstores hstart calls
  refine ⟨_, hrecorded.make hmax, ?_⟩
  have hself : PyFloat.le t t = true := by
    cases t with
    | fin q => simp
    | inf => rfl
    | negInf => cases ht
    | nan => cases ht
  constructor
  · rintro ⟨hsame, hreports⟩
    exact ⟨hiff.mp hsame, (hreports t hself).symm.trans (isHalted_zero ht rfl)⟩
  · rintro ⟨hlast, hquiet⟩
    refine ⟨hiff.mpr hlast, fun now hnow => ?_⟩
    rw [isHalted_zero (h := { gs := gs, ledger := _, maxHaltS := m, haltedUntil := 0, lastEpoch := _ })
      (t := now) ?_ rfl]
    · cases hhalted : (final (step P pool) h calls).isHalted now with
      | false => rfl
      | true =>
        unfold isHalted at hquiet hhalted
        rw [clock_lt_of_le hnow hhalted] at hquiet
        cases hquiet
    · exact clock_le_trans ht hnow

/-! ## A restart during a halt

One guardian halts the pool for sixty seconds at the time 100. -/

/-- A ledger that keeps every record. -/
def listLedger : PoolLedger (List Json) :=
  ⟨some, fun l record => l ++ [.obj [("record", record)]]⟩

theorem stores_listLedger : Stores listLedger := by
  intro l recs record hrecs
  cases hrecs
  exact ⟨_, rfl, rfl⟩

def recordingHalt : GuardianHalt (List Json) where
  gs := oneGuardian
  ledger := some []
  maxHaltS := .fin 3600
  haltedUntil := 0
  lastEpoch := 0

theorem make_recordingHalt : make Platform.ideal.toPyText listLedger oneGuardian (some [])
    (.float (.fin 3600)) = .ok recordingHalt := rfl

def sixtySeconds : SubmitCall :=
  signedCall Platform.ideal "g" "halt" 1 60 (.float (.fin 100)) (.int 60)

theorem sixtySeconds_authorised : Authorised Platform.ideal recordingHalt sixtySeconds 1 :=
  authorised_signedCall Platform.ideal_idealSigs (by simp [Platform.idealKeys]) (by decide) rfl
    (.inl rfl) (by decide) rfl

theorem sixtySeconds_asks : Asks sixtySeconds.durationS (.fin (60 : ℤ)) :=
  ⟨rfl, fun _ => ⟨_, Json.floatOfInt_of_lt (by norm_num)⟩⟩

theorem sixtySeconds_deadline :
    (final (step Platform.ideal listLedger) recordingHalt [sixtySeconds]).haltedUntil
      = .fin 160 := by
  have hshort : ¬ Longest (.fin 3600) (.fin ((60 : ℤ) : ℚ)) := by
    unfold Longest
    norm_num
  rw [final_cons, final_nil,
    haltedUntil_of_asks (t := .fin 100) sixtySeconds_authorised rfl rfl sixtySeconds_asks]
  show PyFloat.fin 100 + lengthOf (.fin 3600) _ = _
  rw [lengthOf, if_neg hshort]
  norm_num

theorem restart_keeps_expired :
    ∃ h', make Platform.ideal.toPyText listLedger oneGuardian
        (final (step Platform.ideal listLedger) recordingHalt [sixtySeconds]).ledger
        (.float (.fin 3600)) = .ok h' ∧
      h'.lastEpoch = (final (step Platform.ideal listLedger) recordingHalt [sixtySeconds]).lastEpoch ∧
      ∀ now, PyFloat.le (.fin 200) now = true → h'.isHalted now
        = (final (step Platform.ideal listLedger) recordingHalt [sixtySeconds]).isHalted now := by
  obtain ⟨h', hmake, hiff⟩ := restart_keeps_iff (P := Platform.ideal) stores_listLedger rfl
    make_recordingHalt [sixtySeconds] (t := .fin 200) (by norm_num)
  refine ⟨h', hmake, hiff.mpr ⟨?_, ?_⟩⟩
  · have hcarried : CarriedOut Platform.ideal recordingHalt sixtySeconds :=
      ⟨1, sixtySeconds_authorised, fun _ => ⟨⟨_, rfl⟩, _, sixtySeconds_asks⟩⟩
    exact LastCarriedOut.of_carriedOut []
      (e := event (step Platform.ideal listLedger) recordingHalt sixtySeconds) hcarried
  · unfold isHalted
    rw [sixtySeconds_deadline]
    norm_num

/-- **A restart lifts the halt** that the guardians ordered. -/
theorem restart_lifts_halt :
    ¬ ∀ (P : Platform) (pool : PoolLedger (List Json)) (gs : GuardianSet) (l recs : List Json)
        (maxHaltS : Json) (h h' : GuardianHalt (List Json)) (calls : List SubmitCall), Stores pool →
      pool.governanceRecords l = some recs →
      make P.toPyText pool gs (some l) maxHaltS = .ok h →
      make P.toPyText pool gs (final (step P pool) h calls).ledger maxHaltS = .ok h' →
      h'.lastEpoch = (final (step P pool) h calls).lastEpoch ∧
        ∀ now, PyFloat.le (.fin 100) now = true →
          h'.isHalted now = (final (step P pool) h calls).isHalted now := by
  intro hclaim
  obtain ⟨floor, hrecorded, -, -⟩ := recordedFloor_run (P := Platform.ideal) (h := recordingHalt)
    stores_listLedger ⟨[], [], rfl, rfl, rfl⟩ [sixtySeconds]
  have hreports := (hclaim Platform.ideal listLedger oneGuardian [] [] (.float (.fin 3600))
    recordingHalt _ [sixtySeconds] stores_listLedger rfl make_recordingHalt
    (hrecorded.make rfl)).2 (.fin 130) (by norm_num)
  unfold isHalted at hreports
  rw [sixtySeconds_deadline] at hreports
  have hlt : (PyFloat.fin 130).lt (PyFloat.fin 0) = (PyFloat.fin 130).lt (PyFloat.fin 160) :=
    hreports
  have hlow : ¬ (130 : ℚ) < 0 := by norm_num
  have hhigh : (130 : ℚ) < 160 := by norm_num
  simp only [PyFloat.lt, hlow, hhigh, decide_false, decide_true, Bool.false_eq_true] at hlt

end GuardianHalt

end NeuraHash
