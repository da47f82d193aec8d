import NeuraHash.Governance.Halt
import NeuraHash.Systems.History

/-!
# Runs of the halt controller

`SafeRun` is what the controller promises of a sequence of calls: the epoch floor moves with the
accepted orders and with nothing else, the pool is halted only inside the time an accepted halt
allows, and no signature counts for two accepted orders.

A halt whose duration or clock is no number breaks the first promise: `submit` moves the epoch
floor before it converts them (`Outcome.burned`). `safeRun_iff` says that nothing else does.
-/

namespace NeuraHash

open Py Systems

namespace GuardianHalt

variable {L : Type} {P : Platform} {pool : PoolLedger L}

/-! ## What a run should be -/

abbrev HaltEvent (L : Type) := Event (GuardianHalt L) SubmitCall (Except PyErr HaltReply)

/-- The call returned `True`. -/
def Accepted (e : HaltEvent L) : Prop := ∃ reply, e.output = .ok reply ∧ reply.ok = true

/-- An accepted halt that covers the time `t`, and no accepted resume after it. -/
def HaltedBy (P : Platform) (h : GuardianHalt L) (hist : List (HaltEvent L)) (t : PyFloat) :
    Prop :=
  ∃ before e after, hist = before ++ e :: after ∧ Accepted e ∧ e.input.action = .str "halt"
    ∧ h.gs.threshold ≤ (e.input.signers P h.gs).length
    ∧ (∃ t₀, e.input.now.asFloat = .ok t₀ ∧ PyFloat.lt t (t₀ + h.maxHaltS) = true)
    ∧ ∀ e' ∈ after, Accepted e' → e'.input.action ≠ .str "resume"

structure SafeRun (P : Platform) (pool : PoolLedger L) (h : GuardianHalt L)
    (calls : List SubmitCall) : Prop where
  floor : ∀ e ∈ history (step P pool) h calls,
    Accepted e ↔ e.before.lastEpoch < e.after.lastEpoch
  frame : ∀ e ∈ history (step P pool) h calls, ¬ Accepted e → e.after = e.before
  /-- In every state reached. -/
  halted : ∀ calls', calls' <+: calls → ∀ t, PyFloat.le (.fin 0) t = true →
    (final (step P pool) h calls').isHalted t = true →
      HaltedBy P h (history (step P pool) h calls') t
  authorised : ∀ e ∈ history (step P pool) h calls, Accepted e →
    (e.input.counted P h.gs).Nonempty
  once : (history (step P pool) h calls).Pairwise fun e e' => Accepted e → Accepted e' →
    Disjoint (e.input.counted P h.gs) (e'.input.counted P h.gs)

/-- No signature recovers to guardians over two texts. -/
def OneText (P : Platform) (members : List String) : Prop :=
  ∀ sig payload payload' who who', recoverBytes P payload sig = some who → P.lower who ∈ members →
    recoverBytes P payload' sig = some who' → P.lower who' ∈ members → payload = payload'

/-- An order the checks let through can be carried out. -/
def Clean (P : Platform) (h : GuardianHalt L) (c : SubmitCall) : Prop :=
  ∀ epoch, Authorised P h c epoch → c.action = .str "halt" → OrderArgs c

/-! ## One step -/

variable {h : GuardianHalt L} {c : SubmitCall}

theorem step_gs (h : GuardianHalt L) (c : SubmitCall) : (step P pool h c).2.gs = h.gs := by
  obtain ⟨out, hstep, hcases⟩ := step_cases P pool h c
  rw [hstep]
  cases hcases <;> rfl

theorem step_maxHaltS (h : GuardianHalt L) (c : SubmitCall) :
    (step P pool h c).2.maxHaltS = h.maxHaltS := by
  obtain ⟨out, hstep, hcases⟩ := step_cases P pool h c
  rw [hstep]
  cases hcases <;> rfl

/-- No call lowers the epoch floor. -/
theorem lastEpoch_le_step (h : GuardianHalt L) (c : SubmitCall) :
    h.lastEpoch ≤ (step P pool h c).2.lastEpoch := by
  obtain ⟨out, hstep, hcases⟩ := step_cases P pool h c
  rw [hstep]
  cases hcases with
  | turnedAway out hno hout => exact le_rfl
  | halted epoch eff t₀ auth haction hargs heff hnow => exact auth.fresh.le
  | resumed epoch auth haction => exact auth.fresh.le
  | burned epoch e auth haction hargs => exact auth.fresh.le

/-- An accepted call was an authorised order, and its epoch is the new floor. -/
theorem authorised_of_accepted (hacc : Accepted (event (step P pool) h c)) :
    Authorised P h c (step P pool h c).2.lastEpoch := by
  obtain ⟨reply, hreply, hok⟩ := hacc
  replace hreply : (step P pool h c).1 = .ok reply := hreply
  obtain ⟨out, hstep, hcases⟩ := step_cases P pool h c
  rw [hstep] at hreply ⊢
  cases hcases with
  | turnedAway out hno hout =>
    rw [hout reply hreply] at hok
    cases hok
  | halted epoch eff t₀ auth haction hargs heff hnow => exact auth
  | resumed epoch auth haction => exact auth
  | burned epoch e auth haction hargs => cases hreply

variable (pool) in
/-- **On a clean call the floor moves exactly when the call is accepted, and nothing changes
otherwise.** -/
theorem step_clean (hclean : Clean P h c) :
    (Accepted (event (step P pool) h c) ↔ h.lastEpoch < (step P pool h c).2.lastEpoch)
      ∧ (¬ Accepted (event (step P pool) h c) → (step P pool h c).2 = h) := by
  unfold Accepted event
  obtain ⟨out, hstep, hcases⟩ := step_cases P pool h c
  rw [hstep]
  cases hcases with
  | turnedAway out hno hout =>
    have hnot : ¬ ∃ reply, out = .ok reply ∧ reply.ok = true := by
      rintro ⟨reply, hreply, hok⟩
      rw [hout reply hreply] at hok
      cases hok
    exact ⟨⟨fun hacc => absurd hacc hnot, fun hlt => absurd hlt (lt_irrefl _)⟩, fun _ => rfl⟩
  | halted epoch eff t₀ auth haction hargs heff hnow =>
    have hacc : ∃ reply, Except.ok (HaltReply.halted eff epoch) = (.ok reply : Except PyErr _)
        ∧ reply.ok = true := ⟨_, rfl, rfl⟩
    exact ⟨⟨fun _ => auth.fresh, fun _ => hacc⟩, fun hnot => absurd hacc hnot⟩
  | resumed epoch auth haction =>
    have hacc : ∃ reply, Except.ok (HaltReply.resumed epoch) = (.ok reply : Except PyErr _)
        ∧ reply.ok = true := ⟨_, rfl, rfl⟩
    exact ⟨⟨fun _ => auth.fresh, fun _ => hacc⟩, fun hnot => absurd hacc hnot⟩
  | burned epoch e auth haction hargs => exact absurd (hclean epoch auth haction) hargs

variable (pool) in
/-- **A call that is not clean moves the floor and is not accepted.** -/
theorem step_burned (hclean : ¬ Clean P h c) :
    h.lastEpoch < (step P pool h c).2.lastEpoch ∧ ¬ Accepted (event (step P pool) h c) := by
  unfold Clean at hclean
  obtain ⟨epoch', hclean⟩ := not_forall.mp hclean
  obtain ⟨auth', hclean⟩ := Classical.not_imp.mp hclean
  obtain ⟨haction', hargs'⟩ := Classical.not_imp.mp hclean
  unfold Accepted event
  obtain ⟨out, hstep, hcases⟩ := step_cases P pool h c
  rw [hstep]
  cases hcases with
  | turnedAway out hno hout => exact absurd auth' (hno epoch')
  | halted epoch eff t₀ auth haction hargs heff hnow => exact absurd hargs hargs'
  | resumed epoch auth haction =>
    exact absurd (haction.symm.trans haction') (by simp)
  | burned epoch e auth haction hargs =>
    refine ⟨auth.fresh, ?_⟩
    rintro ⟨reply, hreply, _⟩
    cases hreply

/-! ## A run -/

variable {calls : List SubmitCall}

/-- A call that is no accepted resume leaves the pool's halt explained. -/
theorem HaltedBy.concat {hist : List (HaltEvent L)} {t : PyFloat} (hby : HaltedBy P h hist t)
    {e : HaltEvent L} (he : Accepted e → e.input.action ≠ .str "resume") :
    HaltedBy P h (hist ++ [e]) t := by
  obtain ⟨before, e₀, after, rfl, hacc, haction, hsigned, htime, hafter⟩ := hby
  refine ⟨before, e₀, after ++ [e], by simp, hacc, haction, hsigned, htime, ?_⟩
  intro e' he'
  rcases List.mem_append.mp he' with he' | he'
  · exact hafter e' he'
  · rw [List.mem_singleton.mp he']
    exact he

/-- **The pool is halted only by an accepted halt, and only for as long as it allows.** -/
theorem halted_run (hmax : h.maxHaltS ≠ .nan) (hstart : h.haltedUntil = .fin 0)
    (calls : List SubmitCall) {t : PyFloat} (ht : PyFloat.le (.fin 0) t = true)
    (hhalted : (final (step P pool) h calls).isHalted t = true) :
    HaltedBy P h (history (step P pool) h calls) t := by
  -- the clock is never below the deadline zero
  have hzero : PyFloat.lt t (.fin 0) = false := by
    cases t <;> first | (simpa using ht) | rfl | cases ht
  induction calls using List.reverseRecOn with
  | nil =>
    rw [isHalted, final_nil, hstart, hzero] at hhalted
    cases hhalted
  | append_singleton calls c ih =>
    rw [final_append, final_cons, final_nil] at hhalted
    rw [history_concat]
    have hgs : (final (step P pool) h calls).gs = h.gs := final_const step_gs h calls
    have hcap : (final (step P pool) h calls).maxHaltS = h.maxHaltS :=
      final_const step_maxHaltS h calls
    -- what the last call did to the state before it
    generalize final (step P pool) h calls = h' at hhalted ih hgs hcap ⊢
    unfold event
    obtain ⟨out, hstep, hcases⟩ := step_cases P pool h' c
    rw [hstep] at hhalted ⊢
    cases hcases with
    | turnedAway out hno hout =>
      refine (ih hhalted).concat ?_
      rintro ⟨reply, hreply, hok⟩
      rw [hout reply hreply] at hok
      cases hok
    | halted epoch eff t₀ auth haction hargs heff hnow =>
      obtain ⟨seconds, hseconds⟩ := SubmitCall.signed_duration auth.signed
      have hlt : PyFloat.lt t (t₀ + h.maxHaltS) = true := by
        rw [hcap] at heff
        exact lt_deadline hmax (haltSeconds_capped hseconds heff) hhalted
      refine ⟨_, _, [], rfl, ⟨_, rfl, rfl⟩, haction, ?_, ⟨t₀, hnow, hlt⟩, by simp⟩
      rw [← hgs]
      exact auth.signed
    | resumed epoch auth haction =>
      have hlt : PyFloat.lt t (.fin 0) = true := hhalted
      rw [hzero] at hlt
      cases hlt
    | burned epoch e auth haction hargs =>
      refine (ih hhalted).concat ?_
      rintro ⟨reply, hreply, _⟩
      cases hreply

/-- **No signature counts for two accepted orders**: the later order has the larger epoch, so its
text is another one. -/
theorem once_run (hsigs : OneText P h.gs.members) (calls : List SubmitCall) :
    (history (step P pool) h calls).Pairwise fun e e' => Accepted e → Accepted e' →
      Disjoint (e.input.counted P h.gs) (e'.input.counted P h.gs) := by
  refine (history_pairwise (m := lastEpoch) lastEpoch_le_step h calls).imp_of_mem ?_
  intro e e' he he' hle hacc hacc'
  have hauth : Authorised P e.before e.input e.after.lastEpoch := by
    rw [of_mem_history he] at hacc ⊢
    exact authorised_of_accepted hacc
  have hauth' : Authorised P e'.before e'.input e'.after.lastEpoch := by
    rw [of_mem_history he'] at hacc' ⊢
    exact authorised_of_accepted hacc'
  have hlt : e.after.lastEpoch < e'.after.lastEpoch := hle.trans_lt hauth'.fresh
  rw [Set.disjoint_left]
  rintro sig ⟨payload, _, hpayload, _, _, who, hwho, hmem⟩
    ⟨payload', _, hpayload', _, _, who', hwho', hmem'⟩
  have htext : payload = payload' := hsigs sig payload payload' who who' hwho hmem hwho' hmem'
  unfold SubmitCall.payload at hpayload hpayload'
  rw [hauth.epoch_eq, ok_bind] at hpayload
  rw [hauth'.epoch_eq, ok_bind] at hpayload'
  obtain ⟨seconds, _, hpayload⟩ := bind_eq_ok.mp hpayload
  obtain ⟨seconds', _, hpayload'⟩ := bind_eq_ok.mp hpayload'
  have hepoch := haltPayload_epoch
    ((Except.ok.inj hpayload).trans (htext.trans (Except.ok.inj hpayload').symm))
  exact hlt.ne hepoch

/-- **A run is safe exactly when every order its checks let through can be carried out.** -/
theorem safeRun_iff {gs : GuardianSet} {ledger : Option L} {maxHaltS : Json}
    (hmake : make P.toPyText pool gs ledger maxHaltS = .ok h) (hmax : h.maxHaltS ≠ .nan)
    (hsigs : OneText P gs.members) (calls : List SubmitCall) :
    SafeRun P pool h calls ↔ ∀ e ∈ history (step P pool) h calls, Clean P e.before e.input := by
  obtain ⟨_, _, hmake⟩ := bind_eq_ok.mp hmake
  obtain ⟨_, _, hmake⟩ := bind_eq_ok.mp hmake
  have hgs : h.gs = gs := by rw [← Except.ok.inj hmake]
  have hstart : h.haltedUntil = .fin 0 := by rw [← Except.ok.inj hmake]; rfl
  constructor
  · intro hsafe e he
    by_contra hburned
    have hfloor := hsafe.floor e he
    rw [of_mem_history he] at hfloor
    obtain ⟨hlt, hacc⟩ := step_burned pool hburned
    exact hacc (hfloor.mpr hlt)
  · intro hclean
    refine ⟨?_, ?_, ?_, ?_, once_run (by rw [hgs]; exact hsigs) calls⟩
    · intro e he
      have hstep := (step_clean pool (hclean e he)).1
      rw [← of_mem_history he] at hstep
      rw [hstep, of_mem_history he]
      rfl
    · intro e he hacc
      rw [of_mem_history he] at hacc ⊢
      exact (step_clean pool (hclean e he)).2 hacc
    · intro calls' _ t ht hhalted
      exact halted_run hmax hstart calls' ht hhalted
    · intro e he hacc
      rw [of_mem_history he] at hacc
      have hsigned := (authorised_of_accepted hacc).signed
      rw [before_const (f := GuardianHalt.gs) step_gs he] at hsigned
      exact SubmitCall.counted_nonempty hsigned

/-! ## Orders of one guardian -/

/-- An order signed by one account, as `build_order` assembles it; the duration it is submitted
with need not be spelled as it was signed. -/
def signedCall (P : Platform) (account action : String) (epoch seconds : ℤ)
    (now durationS : Json) : SubmitCall where
  action := .str action
  epoch := .int epoch
  signatures := .arr [.str (signBytes P account
    (haltPayload P.toPyText (.str action) epoch (.str "") seconds))]
  now := now
  reason := .str ""
  durationS := durationS

theorem authorised_signedCall {keys : Set String} (hkeys : IdealSigs P keys) {account : String}
    (haccount : account ∈ keys) (hmem : P.lower account ∈ h.gs.members)
    (hone : h.gs.threshold = 1) {action : String} (haction : action = "halt" ∨ action = "resume")
    {epoch seconds : ℤ} (hfresh : h.lastEpoch < epoch) {now durationS : Json}
    (hseconds : durationS.toInt P.toPyText = .ok seconds) :
    Authorised P h (signedCall P account action epoch seconds now durationS) epoch := by
  refine ⟨rfl, hfresh, ?_, ?_⟩
  · rcases haction with rfl | rfl
    · exact Or.inl rfl
    · exact Or.inr rfl
  · have hsigned : P.lower account ∈
        (signedCall P account action epoch seconds now durationS).signers P h.gs := by
      rw [signers_eq rfl hseconds rfl, GuardianSet.mem_distinctSigners]
      exact ⟨hmem, _, List.mem_singleton.mpr rfl, account,
        hkeys.recoverBytes_signBytes haccount _, rfl⟩
    have hpos := List.length_pos_of_mem hsigned
    omega

end GuardianHalt

namespace Platform

/-- A signature of the executable platform spells out its text. -/
theorem ideal_oneText (members : List String) : GuardianHalt.OneText ideal members := by
  intro sig payload payload' who who' hwho _ hwho' _
  have htext : ∀ msg msg' : Bytes, ∀ j : Json, idealRecover msg j = some who →
      idealRecover msg' j = some who' → msg = msg' := by
    intro msg msg' j h h'
    cases j with
    | str s =>
      unfold idealRecover at h h'
      dsimp only at h h'
      split at h
      swap
      · cases h
      next hr =>
      split at h'
      swap
      · cases h'
      next hr' =>
      exact latin1_injective (List.cons.inj (hr.symm.trans hr')).2
    | _ => cases h
  exact domainBytes_injective (htext _ _ _ hwho hwho')

end Platform

namespace GuardianHalt

/-- One guardian. -/
def oneGuardian : GuardianSet where
  members := ["g"]
  threshold := 1
  nodup := List.nodup_singleton "g"
  one_le := le_rfl
  le_length := by simp

/-- A ledger nobody reads. -/
def noLedger : PoolLedger Unit := ⟨fun _ => some [], fun l _ => l⟩

/-- The controller of one guardian, with no ledger and the default cap. -/
def oneGuardianHalt : GuardianHalt Unit where
  gs := oneGuardian
  ledger := none
  maxHaltS := .fin 3600
  haltedUntil := 0
  lastEpoch := 0

theorem make_oneGuardianHalt : make Platform.ideal.toPyText noLedger oneGuardian none
    (.float (.fin 3600)) = .ok oneGuardianHalt := rfl

theorem authorised_oneGuardian {now durationS : Json} {seconds : ℤ}
    (hseconds : durationS.toInt Platform.ideal.toPyText = .ok seconds) :
    Authorised Platform.ideal oneGuardianHalt
      (signedCall Platform.ideal "g" "halt" 1 seconds now durationS) 1 :=
  authorised_signedCall Platform.ideal_idealSigs (by simp [Platform.idealKeys])
    (by decide) rfl (Or.inl rfl) (by decide) hseconds

/-- A halt for sixty seconds, and the pool thirty seconds later. -/
theorem safeRun_oneGuardian :
    SafeRun Platform.ideal noLedger oneGuardianHalt
        [signedCall Platform.ideal "g" "halt" 1 60 (.float (.fin 100)) (.int 60)]
      ∧ (final (step Platform.ideal noLedger) oneGuardianHalt
          [signedCall Platform.ideal "g" "halt" 1 60 (.float (.fin 100)) (.int 60)]).isHalted
            (.fin 130) = true := by
  have hargs : OrderArgs
      (signedCall Platform.ideal "g" "halt" 1 60 (.float (.fin 100)) (.int 60)) :=
    ⟨⟨_, rfl⟩, _, rfl, fun _ => ⟨_, Json.floatOfInt_of_lt (by norm_num)⟩⟩
  constructor
  · refine (safeRun_iff make_oneGuardianHalt (by simp [oneGuardianHalt])
      (Platform.ideal_oneText _) _).mpr ?_
    intro e he _ _ _
    rw [List.mem_singleton.mp he]
    exact hargs
  · obtain ⟨out, hstep, hcases⟩ := step_cases Platform.ideal noLedger oneGuardianHalt
      (signedCall Platform.ideal "g" "halt" 1 60 (.float (.fin 100)) (.int 60))
    rw [final_cons, final_nil, hstep]
    cases hcases with
    | turnedAway out hno hout => exact absurd (authorised_oneGuardian rfl) (hno 1)
    | halted epoch eff t₀ auth haction hargs heff hnow =>
      have hlen : haltSeconds Platform.ideal.toPyText (.int 60) (.fin 3600) = .ok (.fin 60) := by
        show (do return FloatOps.min (← Json.floatOfInt 60) (.fin 3600)) = _
        rw [Json.floatOfInt_of_lt (by norm_num), ok_bind]
        exact congrArg Except.ok (by norm_num)
      cases hnow
      cases hlen.symm.trans heff
      show PyFloat.lt (.fin 130) (.fin 100 + .fin 60) = true
      norm_num
    | resumed epoch auth haction => exact absurd haction (by simp [signedCall])
    | burned epoch e auth haction hargs' => exact absurd hargs hargs'

theorem toInt_sixty : Json.toInt Platform.ideal.toPyText (.str "60") = .ok 60 := by
  have hparse : Platform.ideal.parseInt "60" = some 60 := Int.toInt?_repr 60
  simp only [Json.toInt]
  rw [hparse]

/-- **A halt whose duration is spelled as a text** takes its epoch and halts nothing. -/
theorem not_every_run_safe :
    ¬ ∀ (P : Platform) (pool : PoolLedger Unit) (gs : GuardianSet) (ledger : Option Unit)
        (maxHaltS : Json) (h : GuardianHalt Unit),
      make P.toPyText pool gs ledger maxHaltS = .ok h → h.maxHaltS ≠ .nan →
      OneText P gs.members → ∀ calls, SafeRun P pool h calls := by
  intro hclaim
  have hsafe := hclaim Platform.ideal noLedger oneGuardian none (.float (.fin 3600))
    oneGuardianHalt make_oneGuardianHalt (by simp [oneGuardianHalt]) (Platform.ideal_oneText _)
    [signedCall Platform.ideal "g" "halt" 1 60 (.float (.fin 100)) (.str "60")]
  have hburned : ¬ Clean Platform.ideal oneGuardianHalt
      (signedCall Platform.ideal "g" "halt" 1 60 (.float (.fin 100)) (.str "60")) := by
    intro hclean
    obtain ⟨d, hd, _⟩ := (hclean 1 (authorised_oneGuardian toInt_sixty) rfl).duration
    cases hd
  obtain ⟨hlt, hacc⟩ := step_burned noLedger hburned
  exact hacc ((hsafe.floor _ (List.mem_singleton.mpr rfl)).mpr hlt)

end GuardianHalt

end NeuraHash
