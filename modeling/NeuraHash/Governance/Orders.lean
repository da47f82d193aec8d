import NeuraHash.Governance.HaltRuns

/-!
# What an order says, and what it does

The guardians sign a whole number of seconds, `int(duration_s)`; a halt lasts `float(duration_s)`,
and for no positive number the longest time there is. Orders of one text may therefore halt for
different times, and `halt_length_iff` says which do.

An order file is read before anything in it is checked: `poll_quiet_iff` says which files
`poll_file` gets through.
-/

namespace NeuraHash

open Py Systems

/-- The call with another duration. -/
def GuardianHalt.SubmitCall.lasting (c : GuardianHalt.SubmitCall) (d : Json) :
    GuardianHalt.SubmitCall := { c with durationS := d }

namespace GuardianHalt

variable {L : Type} {P : Platform} {pool : PoolLedger L} {h : GuardianHalt L} {c : SubmitCall}

/-! ## Deadlines -/

/-- Deadlines that no clock tells apart. -/
def SameDeadline (a b : PyFloat) : Prop := ∀ t, PyFloat.lt t a = PyFloat.lt t b

theorem sameDeadline_fin {a : PyFloat} {q : ℚ} : SameDeadline a (.fin q) ↔ a = .fin q := by
  constructor
  · intro hsame
    cases a with
    | fin p =>
      have hp := hsame (.fin p)
      have hq := hsame (.fin q)
      rw [PyFloat.fin_lt, PyFloat.fin_lt, decide_eq_decide] at hp hq
      rcases lt_trichotomy p q with hlt | rfl | hlt
      · exact absurd (hp.mpr hlt) (lt_irrefl p)
      · rfl
      · exact absurd (hq.mp hlt) (lt_irrefl q)
    | inf =>
      have hq := hsame (.fin q)
      rw [PyFloat.fin_lt, decide_eq_false (lt_irrefl q)] at hq
      cases hq
    | negInf =>
      have hq := hsame (.fin (q - 1))
      rw [PyFloat.fin_lt, decide_eq_true (sub_one_lt q)] at hq
      cases hq
    | nan =>
      have hq := hsame (.fin (q - 1))
      rw [PyFloat.fin_lt, decide_eq_true (sub_one_lt q)] at hq
      cases hq
  · rintro rfl t
    rfl

theorem SameDeadline.symm {a b : PyFloat} (h : SameDeadline a b) : SameDeadline b a :=
  fun t => (h t).symm

/-- From one moment on, deadlines are as far apart as the times that lead to them. -/
theorem sameDeadline_add {t₀ q : ℚ} {a : PyFloat} :
    SameDeadline (.fin t₀ + a) (.fin t₀ + .fin q) ↔ a = .fin q := by
  rw [PyFloat.fin_add, sameDeadline_fin]
  cases a with
  | fin p => simp only [PyFloat.fin_add, PyFloat.fin.injEq, add_right_inj]
  | _ => exact iff_of_false (fun h => by cases h) (fun h => by cases h)

/-! ## The length of a halt -/

/-- The duration is the number `x`, as `submit` can use it: a positive one is converted. -/
def Asks (d : Json) (x : PyFloat) : Prop :=
  d.number? = some x ∧ (PyFloat.lt (.fin 0) x = true → ∃ y, d.asFloat = .ok y)

/-- A halt for `x` seconds lasts the longest time there is, `m`. -/
def Longest (m x : PyFloat) : Prop :=
  PyFloat.lt (.fin 0) x = false ∨ PyFloat.lt m x = true ∨ x = m

instance (m x : PyFloat) : Decidable (Longest m x) := by
  unfold Longest
  infer_instance

/-- A halt for `x` seconds lasts as long as one for `y` seconds. -/
def EquallyLong (m x y : PyFloat) : Prop := x = y ∨ Longest m x ∧ Longest m y

/-- The length of a halt for `x` seconds. -/
def lengthOf (m x : PyFloat) : PyFloat := if Longest m x then m else x

theorem lengthOf_eq_iff {m x y : PyFloat} : lengthOf m x = lengthOf m y ↔ EquallyLong m x y := by
  unfold lengthOf EquallyLong
  by_cases hx : Longest m x
  · rw [if_pos hx]
    by_cases hy : Longest m y
    · rw [if_pos hy]
      exact iff_of_true rfl (.inr ⟨hx, hy⟩)
    · rw [if_neg hy]
      refine iff_of_false (fun heq => hy (.inr (.inr heq.symm))) ?_
      rintro (rfl | ⟨-, hy'⟩)
      · exact hy hx
      · exact hy hy'
  · rw [if_neg hx]
    by_cases hy : Longest m y
    · rw [if_pos hy]
      refine iff_of_false (fun heq => hx (.inr (.inr heq))) ?_
      rintro (rfl | ⟨hx', -⟩)
      · exact hx hy
      · exact hx hx'
    · rw [if_neg hy]
      refine ⟨.inl, ?_⟩
      rintro (heq | ⟨hx', -⟩)
      · exact heq
      · exact absurd hx' hx

theorem asFloat_of_asks {d : Json} {x : PyFloat} (h : Asks d x)
    (hpos : PyFloat.lt (.fin 0) x = true) : d.asFloat = .ok x := by
  obtain ⟨hnumber, hfloat⟩ := h
  obtain ⟨y, hy⟩ := hfloat hpos
  cases d with
  | bool b =>
    cases hnumber
    rfl
  | int n =>
    cases hnumber
    have hy' : Json.floatOfInt n = .ok y := hy
    rw [Json.eq_of_floatOfInt hy'] at hy
    exact hy
  | float z =>
    cases hnumber
    rfl
  | _ => cases hnumber

theorem haltSeconds_of_asks {T : PyText} {d : Json} {m x : PyFloat} (h : Asks d x) :
    haltSeconds T d m = .ok (lengthOf m x) := by
  have hlt : Json.pyLt (.int 0) d = some (PyFloat.lt (.fin 0) x) := by
    cases d <;> first | (cases h.1; rfl) | cases h.1
  unfold haltSeconds lengthOf
  rw [hlt]
  cases hpos : PyFloat.lt (.fin 0) x with
  | false => exact (congrArg Except.ok (if_pos (.inl hpos))).symm
  | true =>
    dsimp only
    rw [toFloat_of_number h.1, asFloat_of_asks h hpos, ok_bind]
    show Except.ok (if PyFloat.lt m x = true then m else x) = _
    cases hcap : PyFloat.lt m x with
    | true => rw [if_pos rfl, if_pos (.inr (.inl hcap))]
    | false =>
      rw [if_neg (by simp)]
      split
      · next hlongest =>
        rcases hlongest with hlongest | hlongest | rfl
        · cases hpos.symm.trans hlongest
        · cases hcap.symm.trans hlongest
        · rfl
      · rfl

/-- A duration that is signed and a number is finite. -/
theorem finite_of_asks {T : PyText} {d : Json} {x : PyFloat} {n : ℤ} (h : Asks d x)
    (hint : d.toInt T = .ok n) : ∃ q, x = .fin q := by
  cases d with
  | bool b => exact ⟨_, (Option.some.inj h.1).symm⟩
  | int k => exact ⟨_, (Option.some.inj h.1).symm⟩
  | float y =>
    cases h.1
    cases x with
    | fin q => exact ⟨q, rfl⟩
    | _ => cases hint
  | _ => cases h.1

/-! ## The deadline an order sets -/

/-- An order that is let through as a halt, at the moment `t`, for `x` seconds. -/
theorem haltedUntil_of_asks {epoch : ℤ} {t x : PyFloat} (auth : Authorised P h c epoch)
    (haction : c.action = .str "halt") (hnow : c.now.asFloat = .ok t) (h' : Asks c.durationS x) :
    (step P pool h c).2.haltedUntil = t + lengthOf h.maxHaltS x := by
  unfold step
  rw [submit_of_authorised auth, haction, carryOut_halt, haltSeconds_of_asks h', hnow]
  rfl

/-- A halt without such a number raises, and the deadline stays. -/
theorem haltedUntil_of_not_asks {epoch : ℤ} (auth : Authorised P h c epoch)
    (haction : c.action = .str "halt") (h' : ¬ ∃ x, Asks c.durationS x) :
    (step P pool h c).2.haltedUntil = h.haltedUntil := by
  unfold step
  rw [submit_of_authorised auth, haction, carryOut_halt]
  cases hlength : haltSeconds P.toPyText c.durationS h.maxHaltS with
  | error e => rfl
  | ok eff => exact absurd (haltSeconds_isOk.mp ⟨eff, hlength⟩) h'

/-- An order that its epoch or its action turns away changes nothing. -/
theorem step_of_not_authorised (hno : ∀ epoch, ¬ Authorised P h c epoch) :
    (step P pool h c).2 = h := by
  unfold step
  rcases submit_of_not_authorised pool hno with ⟨reply, hrun, -⟩ | ⟨e, hrun⟩
  · rw [hrun]
  · rw [hrun]

/-- The order starts a halt, once its signatures are there. -/
def StartsHalt (P : Platform) (h : GuardianHalt L) (c : SubmitCall) : Prop :=
  c.action = .str "halt" ∧ ∃ epoch, c.epoch.toInt P.toPyText = .ok epoch ∧ h.lastEpoch < epoch

/-- Two durations for which a halt from `t₀` on ends at one moment: equally long ones, or two for
which the order raises, or one for which it raises while the pool is halted until that moment. -/
inductive SameHalt (h : GuardianHalt L) (t₀ : PyFloat) (d₁ d₂ : Json) : Prop where
  | lengths {x y : PyFloat} (hx : Asks d₁ x) (hy : Asks d₂ y) (h : EquallyLong h.maxHaltS x y)
  | neither (hx : ¬ ∃ x, Asks d₁ x) (hy : ¬ ∃ y, Asks d₂ y)
  | first {x : PyFloat} (hx : Asks d₁ x) (hy : ¬ ∃ y, Asks d₂ y)
      (h : SameDeadline h.haltedUntil (t₀ + lengthOf h.maxHaltS x))
  | second {y : PyFloat} (hx : ¬ ∃ x, Asks d₁ x) (hy : Asks d₂ y)
      (h : SameDeadline h.haltedUntil (t₀ + lengthOf h.maxHaltS y))

theorem asks_unique {d : Json} {x y : PyFloat} (hx : Asks d x) (hy : Asks d y) : x = y :=
  Option.some.inj (hx.1.symm.trans hy.1)

/-- Equally long halts, for durations that are signed. -/
theorem sameDeadline_lengths {T : PyText} {t₀ : ℚ} {m x y : PyFloat} {d₁ d₂ : Json} {n₁ n₂ : ℤ}
    (hx : Asks d₁ x) (hy : Asks d₂ y) (hn₁ : d₁.toInt T = .ok n₁) (hn₂ : d₂.toInt T = .ok n₂) :
    SameDeadline (.fin t₀ + lengthOf m x) (.fin t₀ + lengthOf m y) ↔ EquallyLong m x y := by
  obtain ⟨p, rfl⟩ := finite_of_asks hx hn₁
  obtain ⟨q, rfl⟩ := finite_of_asks hy hn₂
  rw [← lengthOf_eq_iff]
  unfold lengthOf
  by_cases hlongest : Longest m (.fin p)
  · by_cases hlongest' : Longest m (.fin q)
    · rw [if_pos hlongest, if_pos hlongest']
      exact iff_of_true (fun _ => rfl) rfl
    · rw [if_pos hlongest, if_neg hlongest', sameDeadline_add]
  · rw [if_neg hlongest]
    constructor
    · intro hsame
      exact (sameDeadline_add.mp hsame.symm).symm
    · intro heq t
      rw [heq]

/-- Two halts that are let through, alike but for their durations. -/
theorem sameDeadline_halts {epoch : ℤ} {t₀ : ℚ} {d₁ d₂ : Json}
    (auth₁ : Authorised P h (c.lasting d₁) epoch) (auth₂ : Authorised P h (c.lasting d₂) epoch)
    (haction : c.action = .str "halt") (hnow : c.now.asFloat = .ok (.fin t₀)) :
    SameDeadline (step P pool h (c.lasting d₁)).2.haltedUntil
        (step P pool h (c.lasting d₂)).2.haltedUntil ↔ SameHalt h (.fin t₀) d₁ d₂ := by
  obtain ⟨n₁, hn₁⟩ := SubmitCall.signed_duration auth₁.signed
  obtain ⟨n₂, hn₂⟩ := SubmitCall.signed_duration auth₂.signed
  by_cases hx : ∃ x, Asks d₁ x
  · obtain ⟨x, hx⟩ := hx
    rw [haltedUntil_of_asks auth₁ haction hnow hx]
    by_cases hy : ∃ y, Asks d₂ y
    · obtain ⟨y, hy⟩ := hy
      rw [haltedUntil_of_asks auth₂ haction hnow hy, sameDeadline_lengths hx hy hn₁ hn₂]
      constructor
      · exact fun hlong => .lengths hx hy hlong
      · intro hsame
        cases hsame with
        | lengths hx' hy' hlong =>
          cases asks_unique hx hx'
          cases asks_unique hy hy'
          exact hlong
        | neither hno => exact absurd ⟨x, hx⟩ hno
        | first _ hno => exact absurd ⟨y, hy⟩ hno
        | second hno => exact absurd ⟨x, hx⟩ hno
    · rw [haltedUntil_of_not_asks auth₂ haction hy]
      constructor
      · exact fun hsame => .first hx hy hsame.symm
      · intro hsame
        cases hsame with
        | lengths _ hy' => exact absurd ⟨_, hy'⟩ hy
        | neither hno => exact absurd ⟨x, hx⟩ hno
        | first hx' _ hsame =>
          cases asks_unique hx hx'
          exact hsame.symm
        | second hno => exact absurd ⟨x, hx⟩ hno
  · rw [haltedUntil_of_not_asks auth₁ haction hx]
    by_cases hy : ∃ y, Asks d₂ y
    · obtain ⟨y, hy⟩ := hy
      rw [haltedUntil_of_asks auth₂ haction hnow hy]
      constructor
      · exact fun hsame => .second hx hy hsame
      · intro hsame
        cases hsame with
        | lengths hx' => exact absurd ⟨_, hx'⟩ hx
        | neither _ hno => exact absurd ⟨y, hy⟩ hno
        | first hx' => exact absurd ⟨_, hx'⟩ hx
        | second _ hy' hsame =>
          cases asks_unique hy hy'
          exact hsame
    · rw [haltedUntil_of_not_asks auth₂ haction hy]
      exact iff_of_true (fun _ => rfl) (.neither hx hy)

/-- An order that starts no halt resumes the pool or changes nothing, whatever its duration. -/
theorem sameDeadline_of_no_halt {d₁ d₂ : Json} (hno : ¬ StartsHalt P h c)
    (h₁ : h.gs.threshold ≤ ((c.lasting d₁).signers P h.gs).length)
    (h₂ : h.gs.threshold ≤ ((c.lasting d₂).signers P h.gs).length) :
    SameDeadline (step P pool h (c.lasting d₁)).2.haltedUntil
      (step P pool h (c.lasting d₂)).2.haltedUntil := by
  by_cases hresumes : c.action = .str "resume" ∧
      ∃ epoch, c.epoch.toInt P.toPyText = .ok epoch ∧ h.lastEpoch < epoch
  · obtain ⟨haction, epoch, hepoch, hfresh⟩ := hresumes
    have hresumed : ∀ d, h.gs.threshold ≤ ((c.lasting d).signers P h.gs).length →
        (step P pool h (c.lasting d)).2.haltedUntil = 0 := by
      intro d hd
      have auth : Authorised P h (c.lasting d) epoch := ⟨hepoch, hfresh, .inr haction, hd⟩
      unfold step
      rw [submit_of_authorised auth, show (c.lasting d).action = .str "resume" from haction]
      rfl
    rw [hresumed d₁ h₁, hresumed d₂ h₂]
    exact fun _ => rfl
  · have hturned : ∀ d epoch, ¬ Authorised P h (c.lasting d) epoch := by
      intro d epoch auth
      rcases auth.known with haction | haction
      · exact hno ⟨haction, epoch, auth.epoch_eq, auth.fresh⟩
      · exact hresumes ⟨haction, epoch, auth.epoch_eq, auth.fresh⟩
    rw [step_of_not_authorised (hturned d₁), step_of_not_authorised (hturned d₂)]
    exact fun _ => rfl

/-- A signature that counts for two durations fixes the whole number of seconds. -/
theorem seconds_of_counted {d₁ d₂ : Json} (hsigs : OneText P h.gs.members)
    (hboth : ((c.lasting d₁).counted P h.gs ∩ (c.lasting d₂).counted P h.gs).Nonempty) :
    d₁.toInt P.toPyText = d₂.toInt P.toPyText := by
  obtain ⟨sig, ⟨payload₁, _, hpayload₁, _, _, who₁, hwho₁, hmem₁⟩,
    ⟨payload₂, _, hpayload₂, _, _, who₂, hwho₂, hmem₂⟩⟩ := hboth
  have htext := hsigs sig payload₁ payload₂ who₁ who₂ hwho₁ hmem₁ hwho₂ hmem₂
  obtain ⟨epoch₁, -, hpayload₁⟩ := bind_eq_ok.mp hpayload₁
  obtain ⟨n₁, hn₁, hpayload₁⟩ := bind_eq_ok.mp hpayload₁
  obtain ⟨epoch₂, -, hpayload₂⟩ := bind_eq_ok.mp hpayload₂
  obtain ⟨n₂, hn₂, hpayload₂⟩ := bind_eq_ok.mp hpayload₂
  have hbytes := (Except.ok.inj hpayload₁).trans (htext.trans (Except.ok.inj hpayload₂).symm)
  have hsame : n₁ = n₂ := haltPayload_duration hbytes
  have hn₁' : d₁.toInt P.toPyText = .ok n₁ := hn₁
  have hn₂' : d₂.toInt P.toPyText = .ok n₂ := hn₂
  rw [hn₁', hn₂', hsame]

/-- **What the duration of a signed order decides.** Two orders that differ in the duration and
reach the threshold set one deadline exactly when they start no halt, or their durations make halts
that end at one moment. A signature that counts for both fixes the whole number of seconds only. -/
theorem halt_length_iff (P : Platform) (pool : PoolLedger L) (h : GuardianHalt L) (c : SubmitCall)
    (d₁ d₂ : Json) {t₀ : ℚ} (hnow : c.now.asFloat = .ok (.fin t₀))
    (h₁ : h.gs.threshold ≤ ((c.lasting d₁).signers P h.gs).length)
    (h₂ : h.gs.threshold ≤ ((c.lasting d₂).signers P h.gs).length) :
    ((∀ t, (step P pool h (c.lasting d₁)).2.isHalted t = (step P pool h (c.lasting d₂)).2.isHalted t)
        ↔ (StartsHalt P h c → SameHalt h (.fin t₀) d₁ d₂))
      ∧ (OneText P h.gs.members →
          ((c.lasting d₁).counted P h.gs ∩ (c.lasting d₂).counted P h.gs).Nonempty →
          d₁.toInt P.toPyText = d₂.toInt P.toPyText) := by
  refine ⟨?_, fun hsigs hboth => seconds_of_counted hsigs hboth⟩
  show SameDeadline _ _ ↔ _
  by_cases hstarts : StartsHalt P h c
  · obtain ⟨haction, epoch, hepoch, hfresh⟩ := hstarts
    have auth₁ : Authorised P h (c.lasting d₁) epoch := ⟨hepoch, hfresh, .inl haction, h₁⟩
    have auth₂ : Authorised P h (c.lasting d₂) epoch := ⟨hepoch, hfresh, .inl haction, h₂⟩
    rw [sameDeadline_halts auth₁ auth₂ haction hnow]
    exact ⟨fun hsame _ => hsame, fun hsame => hsame ⟨haction, epoch, hepoch, hfresh⟩⟩
  · exact iff_of_true (sameDeadline_of_no_halt hstarts h₁ h₂) fun hstarts' =>
      absurd hstarts' hstarts

/-! ## Half a second

The guardian signs a halt for the longest time, `duration_s = 0`. Relayed with half a second, the
order has the same text. -/

/-- The order for no number of seconds, signed by one guardian. -/
def longestOrder : SubmitCall :=
  signedCall Platform.ideal "g" "halt" 1 0 (.float (.fin 100)) (.int 0)

theorem longestOrder_signed {d : Json} (hd : d.toInt Platform.ideal.toPyText = .ok 0) :
    oneGuardianHalt.gs.threshold
      ≤ ((longestOrder.lasting d).signers Platform.ideal oneGuardianHalt.gs).length :=
  have auth : Authorised Platform.ideal oneGuardianHalt (longestOrder.lasting d) 1 :=
    authorised_oneGuardian hd
  auth.signed

theorem halt_length_whole :
    (step Platform.ideal noLedger oneGuardianHalt (longestOrder.lasting (.int 0))).2.isHalted
        (.fin 200)
      = (step Platform.ideal noLedger oneGuardianHalt (longestOrder.lasting (.bool false))).2.isHalted
          (.fin 200) :=
  ((halt_length_iff Platform.ideal noLedger oneGuardianHalt longestOrder (.int 0) (.bool false) rfl
    (longestOrder_signed rfl) (longestOrder_signed rfl)).1).mpr
      (fun _ => .lengths ⟨rfl, fun hpos => by cases hpos⟩ ⟨rfl, fun _ => ⟨_, rfl⟩⟩ (.inl (by simp)))
      (.fin 200)

/-- **An order can be relayed for another duration** than the one it was signed for. -/
theorem relayed_for_less :
    ¬ ∀ (P : Platform) (pool : PoolLedger Unit) (h : GuardianHalt Unit) (c : SubmitCall)
        (d₁ d₂ : Json), OneText P h.gs.members →
      h.gs.threshold ≤ ((c.lasting d₁).signers P h.gs).length →
      h.gs.threshold ≤ ((c.lasting d₂).signers P h.gs).length →
      ∀ t, (step P pool h (c.lasting d₁)).2.isHalted t
        = (step P pool h (c.lasting d₂)).2.isHalted t := by
  intro hclaim
  have hhalf : (Json.float (.fin (1 / 2))).toInt Platform.ideal.toPyText = .ok 0 := by
    show Except.ok _ = _
    norm_num
  have hsame := hclaim Platform.ideal noLedger oneGuardianHalt longestOrder (.int 0)
    (.float (.fin (1 / 2))) (Platform.ideal_oneText _) (longestOrder_signed rfl)
    (longestOrder_signed hhalf) (.fin 200)
  have auth₁ : Authorised Platform.ideal oneGuardianHalt (longestOrder.lasting (.int 0)) 1 :=
    authorised_oneGuardian rfl
  have auth₂ : Authorised Platform.ideal oneGuardianHalt
      (longestOrder.lasting (.float (.fin (1 / 2)))) 1 := authorised_oneGuardian hhalf
  unfold isHalted at hsame
  rw [show (step Platform.ideal noLedger oneGuardianHalt (longestOrder.lasting (.int 0))).2.haltedUntil
      = _ from haltedUntil_of_asks auth₁ rfl rfl ⟨rfl, fun hpos => by cases hpos⟩,
    show (step Platform.ideal noLedger oneGuardianHalt
      (longestOrder.lasting (.float (.fin (1 / 2))))).2.haltedUntil
      = _ from haltedUntil_of_asks auth₂ rfl rfl ⟨rfl, fun _ => ⟨_, rfl⟩⟩] at hsame
  have hlong : Longest oneGuardianHalt.maxHaltS (.fin (0 : ℤ)) := .inl rfl
  have hshort : ¬ Longest oneGuardianHalt.maxHaltS (.fin (1 / 2)) := by
    unfold Longest oneGuardianHalt
    norm_num
  unfold lengthOf at hsame
  rw [if_pos hlong, if_neg hshort] at hsame
  revert hsame
  unfold oneGuardianHalt
  norm_num

/-! ## Order files -/

/-- What is at the path of the order. -/
inductive OrderFile where
  /-- `open` raises an `OSError`. -/
  | absent
  /-- The text is no JSON: a `ValueError`. -/
  | notJson
  /-- The text is nested deeper than the reader goes: a `RecursionError`. -/
  | tooDeep
  | json (order : Json)

/-- `load_order(path)`. -/
def loadOrder : OrderFile → Except PyErr Json
  | .absent => .ok .null
  | .notJson => .ok .null
  | .tooDeep => .error (.raised "RecursionError")
  | .json order => .ok order

/-- `poll_file(path, now)`, with what is at the path. -/
def pollPath (P : Platform) (pool : PoolLedger L) (file : OrderFile) (now : Json) :
    PyM (GuardianHalt L) (Option HaltReply) := do
  let order ← PyM.ofExcept (loadOrder file)
  pollFile P pool order now

/-- The call returns, and leaves the controller as it is unless it reports an applied order. -/
def PollsQuietly (P : Platform) (pool : PoolLedger L) (h : GuardianHalt L) (file : OrderFile)
    (now : Json) : Prop :=
  ∃ reply h', pollPath P pool file now h = .ok reply h' ∧
    ((∀ r, reply = some r → r.ok = false) → h' = h)

/-- The arguments with which `submit` returns: each is read only when those before it let the order
through. -/
def Submits (P : Platform) (h : GuardianHalt L) (c : SubmitCall) : Prop :=
  ∃ epoch, c.epoch.toInt P.toPyText = .ok epoch ∧
    (h.lastEpoch < epoch → c.action = .str "halt" ∨ c.action = .str "resume" →
      (∃ seconds, c.durationS.toInt P.toPyText = .ok seconds) ∧
      (∃ sigs, c.sigs = .ok sigs) ∧
      (c.action = .str "halt" → h.gs.threshold ≤ (c.signers P h.gs).length → OrderArgs c))

/-- The orders that `poll_file` gets through: an empty one, or an object with a readable epoch, and
if that is new, with arguments `submit` can use. -/
def ReadableOrder (P : Platform) (h : GuardianHalt L) (now order : Json) : Prop :=
  order.truthy = true → ∃ value epoch, order.getD "epoch" (.int 0) = .ok value ∧
    value.toInt P.toPyText = .ok epoch ∧ (h.lastEpoch < epoch → Submits P h (.ofOrder order now))

/-- The files that `poll_file` gets through. -/
def Readable (P : Platform) (h : GuardianHalt L) (now : Json) : OrderFile → Prop
  | .absent => True
  | .notJson => True
  | .tooDeep => False
  | .json order => ReadableOrder P h now order

/-- What a call that returns leaves behind. -/
theorem unchanged_of_submit {reply : HaltReply} {h' : GuardianHalt L}
    (hrun : submit P pool c.action c.epoch c.signatures c.now c.reason c.durationS h = .ok reply h')
    (hreply : reply.ok = false) : h' = h := by
  have hstep : step P pool h c = (.ok reply, h') := by
    unfold step
    rw [hrun]
  obtain ⟨out, hout, hcases⟩ := step_cases P pool h c
  rw [hstep] at hout
  subst hout
  cases hcases with
  | turnedAway => rfl
  | halted => cases hreply
  | resumed => cases hreply

/-- An order that is let through raises when its halt has no length, or the clock is no number. -/
theorem carryOut_returns_iff {epoch : ℤ}
    (hnamed : c.action = .str "halt" ∨ c.action = .str "resume") :
    (carryOut P.toPyText pool c.action epoch c.now c.reason c.durationS).Returns h ↔
      (c.action = .str "halt" → OrderArgs c) := by
  rcases hnamed with haction | haction
  · rw [haction]
    have hall : (Json.str "halt" = .str "halt" → OrderArgs c) ↔ OrderArgs c :=
      ⟨fun hargs => hargs rfl, fun hargs _ => hargs⟩
    rw [hall]
    constructor
    · rintro ⟨reply, h', hrun⟩
      rw [carryOut_halt] at hrun
      cases hlength : haltSeconds P.toPyText c.durationS h.maxHaltS with
      | error e =>
        rw [hlength] at hrun
        cases hrun
      | ok eff =>
        cases hnow : c.now.asFloat with
        | error e =>
          rw [hlength, hnow] at hrun
          cases hrun
        | ok t₀ => exact ⟨⟨t₀, hnow⟩, haltSeconds_isOk.mp ⟨eff, hlength⟩⟩
    · intro hargs
      obtain ⟨t₀, hnow⟩ := hargs.now
      obtain ⟨eff, hlength⟩ :=
        (haltSeconds_isOk (T := P.toPyText) (m := h.maxHaltS)).mpr hargs.duration
      unfold PyM.Returns
      rw [carryOut_halt, hlength, hnow]
      exact ⟨_, _, rfl⟩
  · rw [haction]
    exact iff_of_true ⟨_, _, rfl⟩ fun hhalt => absurd hhalt (by simp)

theorem submit_returns_iff (pool : PoolLedger L) :
    (submit P pool c.action c.epoch c.signatures c.now c.reason c.durationS).Returns h ↔
      Submits P h c := by
  unfold submit Submits
  cases hepoch : c.epoch.toInt P.toPyText with
  | error e =>
    refine iff_of_false (PyM.not_returns_bind (PyM.ofExcept_error e h)) ?_
    rintro ⟨epoch, hok, -⟩
    cases hok
  | ok epoch =>
    rw [PyM.returns_bind_ok (PyM.ofExcept_ok epoch h), PyM.returns_bind_ok (PyM.get_run h)]
    have hone : (∃ e, Except.ok epoch = (.ok e : Except PyErr ℤ) ∧ (h.lastEpoch < e →
        c.action = .str "halt" ∨ c.action = .str "resume" →
        (∃ seconds, c.durationS.toInt P.toPyText = .ok seconds) ∧ (∃ sigs, c.sigs = .ok sigs) ∧
        (c.action = .str "halt" → h.gs.threshold ≤ (c.signers P h.gs).length → OrderArgs c))) ↔
        (h.lastEpoch < epoch → c.action = .str "halt" ∨ c.action = .str "resume" →
        (∃ seconds, c.durationS.toInt P.toPyText = .ok seconds) ∧ (∃ sigs, c.sigs = .ok sigs) ∧
        (c.action = .str "halt" → h.gs.threshold ≤ (c.signers P h.gs).length → OrderArgs c)) := by
      constructor
      · rintro ⟨e, he, hrest⟩
        cases he
        exact hrest
      · exact fun hrest => ⟨epoch, rfl, hrest⟩
    rw [hone]
    by_cases hstale : epoch ≤ h.lastEpoch
    · rw [if_pos hstale]
      exact iff_of_true (PyM.returns_pure _ h) fun hfresh => absurd hfresh (not_lt.mpr hstale)
    rw [if_neg hstale]
    have hfresh := not_le.mp hstale
    cases hknown : Json.pyEq c.action (.str "halt") || Json.pyEq c.action (.str "resume") with
    | false =>
      refine iff_of_true (PyM.returns_pure _ h) fun _ hnamed => ?_
      rw [isOrder_iff.mpr hnamed] at hknown
      cases hknown
    | true =>
      have hnamed := isOrder_iff.mp hknown
      cases hseconds : c.durationS.toInt P.toPyText with
      | error e =>
        refine iff_of_false (PyM.not_returns_bind (PyM.ofExcept_error e h)) fun hrest => ?_
        obtain ⟨⟨seconds, hok⟩, -⟩ := hrest hfresh hnamed
        cases hok
      | ok seconds =>
        cases hsigs : c.sigs with
        | error e =>
          refine iff_of_false ?_ fun hrest => ?_
          · show ¬ ((PyM.ofExcept c.sigs : PyM (GuardianHalt L) _) >>= _).Returns h
            rw [hsigs]
            exact PyM.not_returns_bind (PyM.ofExcept_error e h)
          · obtain ⟨-, ⟨sigs, hok⟩, -⟩ := hrest hfresh hnamed
            cases hok
        | ok sigs =>
          have hargs : (h.lastEpoch < epoch → c.action = .str "halt" ∨ c.action = .str "resume" →
              (∃ s, Except.ok seconds = (.ok s : Except PyErr ℤ)) ∧
              (∃ ss, Except.ok sigs = (.ok ss : Except PyErr (List Json))) ∧
              (c.action = .str "halt" → h.gs.threshold ≤ (c.signers P h.gs).length →
                OrderArgs c)) ↔
              (c.action = .str "halt" → h.gs.threshold ≤ (c.signers P h.gs).length →
                OrderArgs c) :=
            ⟨fun hrest => (hrest hfresh hnamed).2.2, fun hrest _ _ => ⟨⟨_, rfl⟩, ⟨_, rfl⟩, hrest⟩⟩
          rw [hargs]
          show ((PyM.ofExcept c.sigs : PyM (GuardianHalt L) _) >>= _).Returns h ↔ _
          rw [hsigs, PyM.returns_bind_ok (PyM.ofExcept_ok sigs h),
            ← signers_eq (h := h) hepoch hseconds hsigs]
          by_cases henough : h.gs.threshold ≤ (c.signers P h.gs).length
          · rw [if_neg (not_lt.mpr henough)]
            rw [carryOut_returns_iff hnamed]
            exact ⟨fun hargs hhalt _ => hargs hhalt, fun hargs hhalt => hargs hhalt henough⟩
          · rw [if_pos (not_le.mp henough)]
            exact iff_of_true (PyM.returns_pure _ h) fun _ h' => absurd h' henough

/-- **The order files that `poll_file` gets through.** It returns, and changes the controller only
when it reports an applied order, exactly for the files that it can read. -/
theorem poll_quiet_iff (P : Platform) (pool : PoolLedger L) (h : GuardianHalt L) (file : OrderFile)
    (now : Json) : PollsQuietly P pool h file now ↔ Readable P h now file := by
  have hnothing : ∀ {order : Json}, order.truthy = false →
      pollFile P pool order now h = .ok none h := by
    intro order hfalse
    unfold pollFile
    rw [hfalse]
    rfl
  have hnull : pollFile P pool .null now h = .ok none h := hnothing rfl
  cases file with
  | absent => exact iff_of_true ⟨none, h, hnull, fun _ => rfl⟩ trivial
  | notJson => exact iff_of_true ⟨none, h, hnull, fun _ => rfl⟩ trivial
  | tooDeep => exact iff_of_false (fun ⟨_, _, hrun, _⟩ => by cases hrun) id
  | json order =>
    show _ ↔ ReadableOrder P h now order
    have hreturns : pollPath P pool (.json order) now = pollFile P pool order now := rfl
    unfold PollsQuietly ReadableOrder
    rw [hreturns]
    cases htruthy : order.truthy with
    | false =>
      exact iff_of_true ⟨none, h, hnothing htruthy, fun _ => rfl⟩ fun hfalse => absurd hfalse (by simp)
    | true =>
      have hall : ∀ {p : Prop}, (true = true → p) ↔ p := ⟨fun hp => hp rfl, fun hp _ => hp⟩
      rw [hall]
      unfold pollFile
      rw [htruthy]
      simp only [Bool.not_true, Bool.false_eq_true, if_false]
      cases hvalue : order.getD "epoch" (.int 0) with
      | error e =>
        refine iff_of_false (fun ⟨_, _, hrun, _⟩ => by cases hrun) ?_
        rintro ⟨value, epoch, hok, -⟩
        cases hok
      | ok value =>
        rw [PyM.bind_run_ok (PyM.ofExcept_ok value h)]
        cases hepoch : value.toInt P.toPyText with
        | error e =>
          refine iff_of_false (fun ⟨_, _, hrun, _⟩ => by cases hrun) ?_
          rintro ⟨value', epoch, hok, hint, -⟩
          cases hok
          cases hepoch.symm.trans hint
        | ok epoch =>
          rw [PyM.bind_run_ok (PyM.ofExcept_ok epoch h), PyM.bind_run_ok (PyM.get_run h)]
          by_cases hstale : epoch ≤ h.lastEpoch
          · rw [if_pos hstale]
            exact iff_of_true ⟨none, h, rfl, fun _ => rfl⟩
              ⟨value, epoch, rfl, hepoch, fun hfresh => absurd hfresh (not_lt.mpr hstale)⟩
          · rw [if_neg hstale]
            constructor
            · rintro ⟨reply, h', hrun, -⟩
              obtain ⟨r, h'', hsubmit, -⟩ := PyM.of_bind_ok hrun
              exact ⟨value, epoch, rfl, hepoch, fun _ => (submit_returns_iff pool).mp ⟨r, h'', hsubmit⟩⟩
            · rintro ⟨value', epoch', hok, hint, hsubmits⟩
              cases hok
              cases hepoch.symm.trans hint
              obtain ⟨r, h', hsubmit⟩ :=
                (submit_returns_iff pool).mpr (hsubmits (not_le.mp hstale))
              refine ⟨some r, h', ?_, fun hnot => unchanged_of_submit hsubmit (hnot r rfl)⟩
              rw [PyM.bind_run_ok hsubmit]
              rfl

/-- **A list in the order file** stops the loop that polls it. -/
theorem list_stops_the_poll :
    ¬ ∀ (P : Platform) (pool : PoolLedger Unit) (h : GuardianHalt Unit) (file : OrderFile)
        (now : Json), PollsQuietly P pool h file now := by
  intro hclaim
  obtain ⟨_, _, hrun, _⟩ :=
    hclaim Platform.ideal noLedger oneGuardianHalt (.json (.arr [.int 1])) (.float (.fin 100))
  cases hrun

end GuardianHalt

end NeuraHash
