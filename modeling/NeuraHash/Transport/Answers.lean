import NeuraHash.Transport.Coordinator

/-!
# Answers to a round (`neurahash/net_transport.py`)

`run_round` reads each ready socket once. `TCPCoordinator.runRound_received` says when that gives
exactly the answers that were received before the deadline: no frame is in flight at the deadline,
the first frame of each live worker is an answer in order, and no frame stands before the answer to
the round. `transport_run` carries it to every run of polls, heartbeats and rounds.
-/

namespace NeuraHash

open Py Systems

/-! ## What was received -/

/-- `msg.get("round") == round_id`. -/
def tagged (arrayIs : ArrayIs) (t : RoundTask) (msg : Wire) : Bool :=
  match msg.getItem "round" with
  | .ok round => decide (round.isInt arrayIs t.roundId = some true)
  | .error _ => false

/-- The message of the round that is received in full before the deadline. -/
def received (arrayIs : ArrayIs) (t : RoundTask) (pieces : List Piece) : Option Wire :=
  ((frames pieces).find? fun f => decide (f.1 < t.deadline) && tagged arrayIs t f.2).map Prod.snd

/-- A message of the round with this `sub` is received before the deadline. -/
def Received (arrayIs : ArrayIs) (t : RoundTask) (pieces : List Piece) (sub : Wire) : Prop :=
  ∃ msg, received arrayIs t pieces = some msg ∧ msg.item "sub" = .ok sub

/-- What `run_round` relies on of a worker's stream. -/
structure Prompt (arrayIs : ArrayIs) (t : RoundTask) (pieces : List Piece) : Prop where
  /-- No frame, and no end of the stream, is in flight at the deadline. -/
  settled : ∀ b, begins pieces = some b → b < t.deadline + 1 / 100 →
    ∃ time got, firstFrame pieces = some (time, got) ∧ time < t.deadline
  /-- A first frame before the deadline is a dict, with a `sub` if it is of the round. -/
  wellFormed : ∀ time msg, firstFrame pieces = some (time, some msg) → time < t.deadline →
    msg.items?.isSome = true ∧ (tagged arrayIs t msg = true → ∃ sub, msg.item "sub" = .ok sub)
  /-- No older frame stands before the answer. -/
  fresh : ∀ f ∈ frames pieces, f.1 < t.deadline → tagged arrayIs t f.2 = true →
    ∃ time msg, firstFrame pieces = some (time, some msg) ∧ tagged arrayIs t msg = true

variable {arrayIs : ArrayIs} {t : RoundTask} {pieces : List Piece}

/-- Only the first frame counts. -/
theorem Prompt.received_eq (h : Prompt arrayIs t pieces) {time : ℚ} {got : Option Wire}
    (hfirst : firstFrame pieces = some (time, got)) (htime : time < t.deadline) :
    received arrayIs t pieces = got.filter (tagged arrayIs t) := by
  have hhead := head?_frames pieces
  rw [hfirst] at hhead
  cases got with
  | none =>
    have hnil : frames pieces = [] := List.head?_eq_none_iff.mp hhead
    rw [received, hnil]
    rfl
  | some msg =>
    obtain ⟨fs, hfs⟩ := List.head?_eq_some_iff.mp hhead
    cases htag : tagged arrayIs t msg with
    | true =>
      rw [received, hfs, List.find?_cons_of_pos (by simp [htime, htag]), Option.filter_some]
      simp [htag]
    | false =>
      -- a frame of the round further back would have an older one before it
      have hnone : (frames pieces).find?
          (fun f => decide (f.1 < t.deadline) && tagged arrayIs t f.2) = none := by
        refine List.find?_eq_none.mpr fun f hf hboth => ?_
        obtain ⟨hbefore, hf2⟩ := Bool.and_eq_true_iff.mp hboth
        obtain ⟨time', msg', hfirst', htag'⟩ := h.fresh f hf (of_decide_eq_true hbefore) hf2
        rw [hfirst] at hfirst'
        cases hfirst'
        rw [htag] at htag'
        cases htag'
      rw [received, hnone, Option.filter_some]
      simp [htag]

/-- Nothing is received where nothing begins before the deadline. -/
theorem received_of_quiet (harr : Arriving pieces)
    (hquiet : ∀ b, begins pieces = some b → t.deadline ≤ b) :
    received arrayIs t pieces = none := by
  have hnone : (frames pieces).find?
      (fun f => decide (f.1 < t.deadline) && tagged arrayIs t f.2) = none := by
    refine List.find?_eq_none.mpr fun f hf hboth => ?_
    have hbefore : f.1 < t.deadline := of_decide_eq_true (Bool.and_eq_true_iff.mp hboth).1
    cases hb : begins pieces with
    | none =>
      rw [begins, Option.map_eq_none_iff, List.head?_eq_none_iff] at hb
      rw [hb] at hf
      cases hf
    | some b =>
      have hle := begins_le_frames harr hb f hf
      exact absurd hbefore (not_lt.mpr ((hquiet b hb).trans hle))
  rw [received, hnone]
  rfl

/-! ## One answer -/

/-- What a read comes to, for a stream that is received as such. -/
def AnswersAs (arrayIs : ArrayIs) (t : RoundTask) (pieces : List Piece) (ans : Answer) : Prop :=
  ∀ sub, Received arrayIs t pieces sub ↔ ans = .result sub

theorem answer_of_tagged {msg sub : Wire} (htag : tagged arrayIs t msg = true)
    (hsub : msg.item "sub" = .ok sub) :
    Collecting.answer arrayIs t (.ok msg) = .ok (.result sub) := by
  unfold tagged at htag
  cases hround : msg.getItem "round" with
  | error e =>
    rw [hround] at htag
    cases htag
  | ok round =>
    rw [hround] at htag
    show (msg.getItem "round" >>= fun round => _) = _
    rw [hround]
    rw [ok_bind, of_decide_eq_true htag]
    show (msg.item "sub" >>= fun sub => _) = _
    rw [hsub]
    rfl

theorem answer_of_untagged {msg : Wire} (hdict : msg.items?.isSome = true)
    (htag : tagged arrayIs t msg = false) :
    ∃ ans, Collecting.answer arrayIs t (.ok msg) = .ok ans ∧ ∀ sub, ans ≠ .result sub := by
  obtain ⟨d, hd⟩ := Option.isSome_iff_exists.mp hdict
  have hround : msg.getItem "round" = .ok ((d.get? "round").getD (.plain .null)) := by
    unfold Wire.getItem
    rw [hd]
  unfold tagged at htag
  rw [hround] at htag
  show ∃ ans, (msg.getItem "round" >>= fun round => _) = _ ∧ _
  rw [hround]
  cases hint : ((d.get? "round").getD (.plain .null)).isInt arrayIs t.roundId with
  | none =>
    refine ⟨.dropped, ?_, nofun⟩
    rw [ok_bind, hint]
    rfl
  | some same =>
    cases same with
    | true =>
      exfalso
      simp [hint] at htag
    | false =>
      refine ⟨.nothing, ?_, nofun⟩
      rw [ok_bind, hint]
      rfl

/-- **A first frame before the deadline is answered as it was received.** -/
theorem Prompt.answersAs (h : Prompt arrayIs t pieces) {time : ℚ} {got : Option Wire}
    (hfirst : firstFrame pieces = some (time, got)) (htime : time < t.deadline) :
    ∃ ans, Collecting.answer arrayIs t (frameOutcome got) = .ok ans ∧
      AnswersAs arrayIs t pieces ans := by
  have hreceived := h.received_eq hfirst htime
  cases got with
  | none =>
    refine ⟨.dropped, rfl, fun sub => ?_⟩
    refine iff_of_false (fun ⟨msg, hmsg, _⟩ => ?_) nofun
    rw [hreceived] at hmsg
    cases hmsg
  | some msg =>
    obtain ⟨hdict, hsub⟩ := h.wellFormed time msg hfirst htime
    cases htag : tagged arrayIs t msg with
    | true =>
      obtain ⟨sub, hitem⟩ := hsub htag
      refine ⟨.result sub, answer_of_tagged htag hitem, fun sub' => ?_⟩
      have hmsg : received arrayIs t pieces = some msg := by
        rw [hreceived, Option.filter_some, if_pos htag]
      constructor
      · rintro ⟨msg', hmsg', hitem'⟩
        rw [hmsg] at hmsg'
        cases hmsg'
        rw [hitem] at hitem'
        cases hitem'
        rfl
      · intro heq
        cases heq
        exact ⟨msg, hmsg, hitem⟩
    | false =>
      obtain ⟨ans, hans, hno⟩ := answer_of_untagged hdict htag
      refine ⟨ans, hans, fun sub => ?_⟩
      refine iff_of_false (fun ⟨msg', hmsg', _⟩ => ?_) (hno sub)
      rw [hreceived, Option.filter_some, if_neg (by simp [htag])] at hmsg'
      cases hmsg'

/-! ## The collection -/

section Collection

variable {start : TCPCoordinator} {live : List (DictKey × ℕ)}

/-- Every live worker has an address and a socket of its own. -/
def OwnSockets (live : List (DictKey × ℕ)) : Prop :=
  ∀ w ∈ live, ∀ w' ∈ live, w.1 = w'.1 ∨ w.2 = w'.2 → w = w'

/-- What holds while the answers come in: the results are the received ones of the workers that are
not pending, and the streams of the pending ones are unread. -/
structure Gathering (arrayIs : ArrayIs) (t : RoundTask) (start : TCPCoordinator)
    (live : List (DictKey × ℕ)) (c : Collecting) : Prop where
  sound : c.coord.Sound
  pending_live : ∀ w ∈ c.pending, w ∈ live
  nodup : c.pending.Nodup
  unread : ∀ w ∈ c.pending, c.coord.unread w.2 = start.unread w.2
  results : ∀ a sub, c.results.get? a = some sub ↔
    ∃ id, (a, id) ∈ live ∧ (a, id) ∉ c.pending ∧ Received arrayIs t (start.unread id) sub

/-- The clock does not matter to it. -/
theorem Gathering.at_time {c : Collecting} (h : Gathering arrayIs t start live c) (now : ℚ) :
    Gathering arrayIs t start live { c with now } :=
  ⟨h.sound, h.pending_live, h.nodup, h.unread, h.results⟩

theorem Gathering.no_result {c : Collecting} (h : Gathering arrayIs t start live c)
    (howns : OwnSockets live) {w : DictKey × ℕ} (hw : w ∈ c.pending) (sub : Wire) :
    c.results.get? w.1 ≠ some sub := by
  intro hsome
  obtain ⟨id, hlive, hread, -⟩ := (h.results w.1 sub).mp hsome
  have hsame : w = (w.1, id) := howns w (h.pending_live w hw) (w.1, id) hlive (.inl rfl)
  rw [← hsame] at hread
  exact hread hw

/-- The results, once the answer of a worker is in. -/
theorem Gathering.results_settle {c : Collecting} (h : Gathering arrayIs t start live c)
    (howns : OwnSockets live) {w : DictKey × ℕ} (hw : w ∈ c.pending) {ans : Answer}
    (hans : AnswersAs arrayIs t (start.unread w.2) ans) {results : Dict DictKey Wire}
    (hsame : ∀ a, a ≠ w.1 → results.get? a = c.results.get? a)
    (hnew : ∀ sub, results.get? w.1 = some sub ↔ ans = .result sub) (a : DictKey) (sub : Wire) :
    results.get? a = some sub ↔ ∃ id, (a, id) ∈ live ∧ (a, id) ∉ c.pending.erase w ∧
      Received arrayIs t (start.unread id) sub := by
  have hlive := h.pending_live w hw
  by_cases ha : a = w.1
  · subst ha
    rw [hnew, ← hans sub]
    constructor
    · intro hrec
      exact ⟨w.2, hlive, fun hmem => absurd rfl (h.nodup.mem_erase_iff.mp hmem).1, hrec⟩
    · rintro ⟨id, hid, -, hrec⟩
      have heq : w = (w.1, id) := howns w hlive (w.1, id) hid (.inl rfl)
      rw [congrArg Prod.snd heq]
      exact hrec
  · rw [hsame a ha, h.results a sub]
    have hother : ∀ id, (a, id) ≠ w := fun id heq => ha (congrArg Prod.fst heq)
    simp only [h.nodup.mem_erase_iff, ne_eq, hother, not_false_eq_true, true_and]

/-- **Reading on a socket, with the answer it comes to, keeps it.** -/
theorem Gathering.settle {c : Collecting} (h : Gathering arrayIs t start live c)
    (howns : OwnSockets live) {w : DictKey × ℕ} (hw : w ∈ c.pending) {rest : List Piece}
    (hrest : Arriving rest) {ans : Answer}
    (hans : AnswersAs arrayIs t (start.unread w.2) ans) (now : ℚ) :
    Gathering arrayIs t start live (Collecting.settle { c with
      now := now
      coord := { c.coord with unread := Function.update c.coord.unread w.2 rest } } w ans) := by
  have hsound : ({ c.coord with
      unread := Function.update c.coord.unread w.2 rest } : TCPCoordinator).Sound := by
    refine h.sound.mono (fun _ _ ha => ha) rfl fun id => ?_
    show Arriving (Function.update c.coord.unread w.2 rest id)
    by_cases hid : id = w.2
    · rw [hid, Function.update_self]
      exact hrest
    · rw [Function.update_of_ne hid]
      exact h.sound.arriving id
  have hlive : ∀ w' ∈ c.pending.erase w, w' ∈ live :=
    fun w' hw' => h.pending_live w' (List.mem_of_mem_erase hw')
  have hunread : ∀ w' ∈ c.pending.erase w,
      Function.update c.coord.unread w.2 rest w'.2 = start.unread w'.2 := by
    intro w' hw'
    obtain ⟨hne, hmem⟩ := h.nodup.mem_erase_iff.mp hw'
    have hid : w'.2 ≠ w.2 := fun heq =>
      hne (howns w' (h.pending_live w' hmem) w (h.pending_live w hw) (.inr heq))
    rw [Function.update_of_ne hid]
    exact h.unread w' hmem
  have hnodup := h.nodup.erase w
  have hresults := @Gathering.results_settle _ _ _ _ _ h howns w hw ans hans
  cases ans with
  | result sub =>
    refine ⟨hsound, hlive, hnodup, hunread, hresults (fun a ha => ?_) fun sub' => ?_⟩
    · exact Dict.get?_set_of_ne _ _ (Ne.symm ha)
    · show (c.results.set w.1 sub).get? w.1 = some sub' ↔ _
      rw [Dict.get?_set_self, Option.some_inj, Answer.result.injEq]
  | nothing =>
    refine ⟨hsound, hlive, hnodup, hunread, hresults (fun a ha => rfl) fun sub' => ?_⟩
    exact iff_of_false (h.no_result howns hw sub') nofun
  | dropped =>
    -- its connection goes, the others stay
    refine ⟨hsound.drop [w.1], hlive, hnodup, hunread, hresults (fun a ha => rfl) fun sub' => ?_⟩
    exact iff_of_false (h.no_result howns hw sub') nofun

/-- **Reading a worker whose first frame comes before the deadline.** -/
theorem Gathering.readOne {c : Collecting} (h : Gathering arrayIs t start live c)
    (howns : OwnSockets live) {w : DictKey × ℕ} (hw : w ∈ c.pending)
    (hprompt : Prompt arrayIs t (start.unread w.2)) (hnow : c.now < t.deadline) {b : ℚ}
    (hbegins : begins (start.unread w.2) = some b) (hb : b < t.deadline) :
    ∃ c', Collecting.readOne arrayIs t w c = .ok () c' ∧ Gathering arrayIs t start live c' ∧
      c'.pending = c.pending.erase w ∧ c'.now < t.deadline := by
  obtain ⟨time, got, hfirst, htime⟩ := hprompt.settled b hbegins (by linarith)
  obtain ⟨ans, hans, hfits⟩ := hprompt.answersAs hfirst htime
  have hunread := h.unread w hw
  have harr : Arriving (start.unread w.2) := hunread ▸ h.sound.arriving w.2
  -- the timeout reaches to the deadline, and the frame is complete by then
  have hread : recvMsg (max (1 / 20) (t.deadline - c.now)) c.now (c.coord.unread w.2)
      = (frameOutcome got, max c.now time, afterFirst (start.unread w.2)) := by
    rw [hunread]
    refine recvMsg_complete harr hfirst ?_
    have hmax : t.deadline - c.now ≤ max (1 / 20) (t.deadline - c.now) := le_max_right _ _
    linarith
  refine ⟨_, ?_, h.settle howns hw (arriving_afterFirst harr) hfits (max c.now time), ?_, ?_⟩
  · unfold Collecting.readOne
    dsimp only
    rw [hread, hans]
  · cases ans <;> rfl
  · have hlt : max c.now time < t.deadline := max_lt hnow htime
    cases ans <;> exact hlt

/-- Reading some ready sockets, one after the other. -/
theorem Gathering.readAll {batch : List (DictKey × ℕ)} {c : Collecting}
    (h : Gathering arrayIs t start live c) (howns : OwnSockets live) (hnodup : batch.Nodup)
    (hbatch : ∀ w ∈ batch, w ∈ c.pending ∧ Prompt arrayIs t (start.unread w.2) ∧
      ∃ b, begins (start.unread w.2) = some b ∧ b < t.deadline)
    (hnow : c.now < t.deadline) :
    ∃ c', batch.forM (Collecting.readOne arrayIs t) c = .ok () c' ∧
      Gathering arrayIs t start live c' ∧ c'.now < t.deadline ∧
      c'.pending.length + batch.length = c.pending.length := by
  induction batch generalizing c with
  | nil => exact ⟨c, rfl, h, hnow, rfl⟩
  | cons w ws ih =>
    obtain ⟨hw, hprompt, b, hbegins, hb⟩ := hbatch w List.mem_cons_self
    obtain ⟨c₁, hread, hg₁, hpending, hnow₁⟩ := h.readOne howns hw hprompt hnow hbegins hb
    obtain ⟨hnew, hnodup⟩ := List.nodup_cons.mp hnodup
    have hrest : ∀ w' ∈ ws, w' ∈ c₁.pending ∧ Prompt arrayIs t (start.unread w'.2) ∧
        ∃ b, begins (start.unread w'.2) = some b ∧ b < t.deadline := by
      intro w' hw'
      obtain ⟨hmem, hrest⟩ := hbatch w' (List.mem_cons_of_mem _ hw')
      have hne : w' ≠ w := fun heq => hnew (heq ▸ hw')
      rw [hpending]
      exact ⟨h.nodup.mem_erase_iff.mpr ⟨hne, hmem⟩, hrest⟩
    obtain ⟨c', hall, hg', hnow', hlen⟩ := ih hg₁ hnodup hrest hnow₁
    refine ⟨c', ?_, hg', hnow', ?_⟩
    · show (Collecting.readOne arrayIs t w >>= fun _ => ws.forM _) c = _
      rw [PyM.bind_run_ok hread]
      exact hall
    · rw [hpending, List.length_erase_of_mem hw] at hlen
      have hpos := List.length_pos_of_mem hw
      rw [List.length_cons]
      omega

/-- A worker that has nothing to read by the deadline has no answer. -/
theorem Gathering.quiet {c : Collecting} (h : Gathering arrayIs t start live c)
    (hquiet : ∀ w ∈ c.pending, ∀ b, begins (start.unread w.2) = some b → t.deadline ≤ b)
    (a : DictKey) (sub : Wire) : c.results.get? a = some sub ↔
      ∃ id, (a, id) ∈ live ∧ Received arrayIs t (start.unread id) sub := by
  rw [h.results a sub]
  constructor
  · rintro ⟨id, hlive, -, hrec⟩
    exact ⟨id, hlive, hrec⟩
  · rintro ⟨id, hlive, hrec⟩
    refine ⟨id, hlive, fun hpending => ?_, hrec⟩
    have harr : Arriving (start.unread id) := h.unread (a, id) hpending ▸ h.sound.arriving id
    obtain ⟨msg, hmsg, -⟩ := hrec
    rw [received_of_quiet harr (hquiet (a, id) hpending)] at hmsg
    cases hmsg

theorem collect_past {c : Collecting} (h : c.pending = [] ∨ t.deadline ≤ c.now) (n : ℕ) :
    Collecting.collect arrayIs t n c = .ok () c := by
  cases n with
  | zero => rfl
  | succ n =>
    unfold Collecting.collect
    rw [if_pos]
    rcases h with hnil | hpast
    · rw [hnil]
      rfl
    · simp [hpast]

/-- The first time a socket is ready is when the first of them is. -/
theorem nextReady_eq_some {c : Collecting} {b : ℚ} (h : c.nextReady = some b) :
    (∃ w ∈ c.pending, begins (c.coord.unread w.2) = some b) ∧
    ∀ w ∈ c.pending, ∀ b', begins (c.coord.unread w.2) = some b' → b ≤ b' := by
  obtain ⟨hmem, hmin⟩ := List.min?_eq_some_iff.mp h
  constructor
  · obtain ⟨w, hw, hb⟩ := List.mem_filterMap.mp hmem
    exact ⟨w, hw, hb⟩
  · exact fun w hw b' hb' => hmin b' (List.mem_filterMap.mpr ⟨w, hw, hb'⟩)

theorem nextReady_eq_none {c : Collecting} (h : c.nextReady = none) :
    ∀ w ∈ c.pending, begins (c.coord.unread w.2) = none := by
  intro w hw
  have hnil : (c.pending.filterMap fun w => begins (c.coord.unread w.2)) = [] :=
    List.min?_eq_none_iff.mp h
  exact List.filterMap_eq_nil_iff.mp hnil w hw

/-- **The collection ends with what was received**, given a pass for each worker and one more. -/
theorem Gathering.collect (hprompt : ∀ w ∈ live, Prompt arrayIs t (start.unread w.2))
    (howns : OwnSockets live) (n : ℕ) {c : Collecting} (h : Gathering arrayIs t start live c)
    (hnow : c.now < t.deadline) (hn : c.pending.length < n) :
    ∃ c', Collecting.collect arrayIs t n c = .ok () c' ∧ c'.coord.Sound ∧
      ∀ a sub, c'.results.get? a = some sub ↔
        ∃ id, (a, id) ∈ live ∧ Received arrayIs t (start.unread id) sub := by
  induction n generalizing c with
  | zero => omega
  | succ n ih =>
    by_cases hnil : c.pending = []
    · refine ⟨c, collect_past (.inl hnil) _, h.sound, h.quiet fun w hw => ?_⟩
      rw [hnil] at hw
      cases hw
    have hopen : (c.pending.isEmpty || decide (t.deadline ≤ c.now)) = false := by
      rw [Bool.or_eq_false_iff, List.isEmpty_eq_false_iff]
      exact ⟨hnil, decide_eq_false (not_le.mpr hnow)⟩
    -- the select that finds nothing reaches the deadline
    have hidle : ∀ now, t.deadline ≤ now →
        (∀ w ∈ c.pending, ∀ b, begins (start.unread w.2) = some b → t.deadline ≤ b) →
        c.select (max (1 / 100) (t.deadline - c.now)) = ([], now) → ∃ c',
          Collecting.collect arrayIs t (n + 1) c = .ok () c' ∧ c'.coord.Sound ∧
          ∀ a sub, c'.results.get? a = some sub ↔
            ∃ id, (a, id) ∈ live ∧ Received arrayIs t (start.unread id) sub := by
      intro now hpast hquiet hselect
      have hg := h.at_time now
      refine ⟨{ c with now }, ?_, hg.sound, hg.quiet hquiet⟩
      have hbatch : t.order [] = [] := (t.order_perm []).eq_nil
      unfold Collecting.collect
      rw [hopen, hselect]
      dsimp only
      rw [hbatch]
      exact collect_past (.inr hpast) n
    have hreach : t.deadline ≤ c.now + max (1 / 100) (t.deadline - c.now) := by
      have hmax : t.deadline - c.now ≤ max (1 / 100) (t.deadline - c.now) := le_max_right _ _
      linarith
    cases hnext : c.nextReady with
    | none =>
      refine hidle _ hreach (fun w hw b hb => ?_) (by rw [Collecting.select, hnext])
      rw [← h.unread w hw, nextReady_eq_none hnext w hw] at hb
      cases hb
    | some b =>
      obtain ⟨⟨w₀, hw₀, hb₀⟩, hmin⟩ := nextReady_eq_some hnext
      by_cases hlate : b ≤ c.now + max (1 / 100) (t.deadline - c.now)
      · -- what is ready then begins, and so ends, before the deadline
        have hgrace : b < t.deadline + 1 / 100 := by
          rcases max_choice (1 / 100 : ℚ) (t.deadline - c.now) with hmax | hmax
          · rw [hmax] at hlate
            linarith
          · rw [hmax] at hlate
            linarith
        have hbegins₀ : begins (start.unread w₀.2) = some b := h.unread w₀ hw₀ ▸ hb₀
        have harr₀ : Arriving (start.unread w₀.2) := h.unread w₀ hw₀ ▸ h.sound.arriving w₀.2
        obtain ⟨time, got, hfirst, htime⟩ :=
          (hprompt w₀ (h.pending_live w₀ hw₀)).settled b hbegins₀ hgrace
        have hb : b < t.deadline := (begins_le_firstFrame harr₀ hfirst b hbegins₀).trans_lt htime
        have hnow' : max c.now b < t.deadline := max_lt hnow hb
        have hperm := t.order_perm (c.ready (max c.now b))
        have hready : ∀ w ∈ t.order (c.ready (max c.now b)), w ∈ c.pending ∧
            Prompt arrayIs t (start.unread w.2) ∧
            ∃ b', begins (start.unread w.2) = some b' ∧ b' < t.deadline := by
          intro w hw
          obtain ⟨hpending, hany⟩ := List.mem_filter.mp (hperm.mem_iff.mp hw)
          obtain ⟨b', hb', hle⟩ := (Option.any_eq_true _ _).mp hany
          refine ⟨hpending, hprompt w (h.pending_live w hpending), b', ?_,
            lt_of_le_of_lt (of_decide_eq_true hle) hnow'⟩
          rw [← h.unread w hpending]
          exact hb'
        have hsome : 0 < (t.order (c.ready (max c.now b))).length := by
          refine List.length_pos_of_mem (hperm.mem_iff.mpr (List.mem_filter.mpr ⟨hw₀, ?_⟩))
          simp [hb₀]
        obtain ⟨c₁, hread, hg₁, hnow₁, hlen⟩ := (h.at_time (max c.now b)).readAll howns
          (hperm.nodup_iff.mpr (h.nodup.filter _)) hready hnow'
        have hless : c₁.pending.length < n := by
          have hpending : c₁.pending.length + (t.order (c.ready (max c.now b))).length
            = c.pending.length := hlen
          omega
        obtain ⟨c', hcollect, hend⟩ := ih hg₁ hnow₁ hless
        refine ⟨c', ?_, hend⟩
        unfold Collecting.collect
        rw [hopen, Collecting.select, hnext]
        dsimp only
        rw [if_pos hlate]
        exact (PyM.bind_run_ok hread).trans hcollect
      · refine hidle _ hreach (fun w hw b' hb' => ?_)
          (by rw [Collecting.select, hnext]; exact if_neg hlate)
        rw [← h.unread w hw] at hb'
        have hle := hmin w hw b' hb'
        linarith [not_le.mp hlate]

end Collection

/-! ## A round -/

theorem live_own {s : TCPCoordinator} (h : s.Sound) : OwnSockets (t.live s) := by
  intro w hw w' hw' hsame
  have hget : ∀ v ∈ t.live s, s.conns.get? v.1 = some v.2 := fun v hv =>
    Dict.mem_entries_iff.mp (List.mem_filter.mp hv).1
  have haddr : w.1 = w'.1 := by
    rcases hsame with haddr | hid
    · exact haddr
    · exact h.own w.1 w'.1 w.2 (hget w hw) (hid ▸ hget w' hw')
  have hid := hget w hw
  rw [haddr, hget w' hw'] at hid
  exact Prod.ext haddr (Option.some.inj hid).symm

/-- When a round goes right: it has time, and the stream of every live worker is prompt. -/
structure RoundTask.Clear (arrayIs : ArrayIs) (t : RoundTask) (s : TCPCoordinator) : Prop where
  time : 0 < t.timeout
  prompt : ∀ w ∈ t.live s, Prompt arrayIs t (s.unread w.2)

/-- The results of a round are the answers received before the deadline. -/
def ResultsRight (arrayIs : ArrayIs) (t : RoundTask) (s : TCPCoordinator)
    (results : Dict DictKey Wire) : Prop :=
  ∀ a sub, results.get? a = some sub ↔
    ∃ id, (a, id) ∈ t.live s ∧ Received arrayIs t (s.unread id) sub

/-- **A clear round returns what was received.** -/
theorem RoundTask.Clear.runRound {s : TCPCoordinator} (h : t.Clear arrayIs s) (hs : s.Sound) :
    ∃ results dropped s', s.runRound arrayIs t = .ok (results, dropped) s' ∧ s'.Sound ∧
      ResultsRight arrayIs t s results := by
  have hdropped := hs.drop (s.conns.keys.filter fun a => !(t.assigned a && t.sent a))
  have hstart : Gathering arrayIs t s (t.live s)
      ⟨s.drop (s.conns.keys.filter fun a => !(t.assigned a && t.sent a)), t.start, t.live s, ∅⟩ := by
    refine ⟨hdropped, fun _ hw => hw, ?_, fun _ _ => rfl, fun a sub => ?_⟩
    · exact (List.Nodup.of_map Prod.fst s.conns.nodup).filter _
    · exact iff_of_false nofun fun ⟨id, hlive, hread, _⟩ => hread hlive
  have htime : t.start < t.deadline := by
    have hpos := h.time
    unfold RoundTask.deadline
    linarith
  obtain ⟨c, hcollect, hsound, hresults⟩ :=
    hstart.collect h.prompt (live_own hs) ((t.live s).length + 1) htime (Nat.lt_succ_self _)
  refine ⟨c.results, ((t.live s).map Prod.fst).filter fun a => !c.results.contains a, c.coord, ?_,
    hsound, hresults⟩
  unfold TCPCoordinator.runRound
  dsimp only
  rw [hcollect]

/-! ## Runs -/

/-- What happens to the coordinator. -/
inductive TransportOp where
  | poll (cfg : AdmitConfig) (joiners : List Joiner)
  | heartbeat (skip sent : DictKey → Bool)
  | round (t : RoundTask)

inductive TransportOut where
  | admitted (new : List DictKey)
  | pinged
  | collected (results : Dict DictKey Wire) (dropped : List DictKey)

/-- What code returns or raises, with the state it leaves. -/
def ran {σ α β : Type} (f : α → β) : EStateM.Result PyErr σ α → Except PyErr β × σ
  | .ok a s => (.ok (f a), s)
  | .error e s => (.error e, s)

def transportStep (arrayIs : ArrayIs) (s : TCPCoordinator) :
    TransportOp → Except PyErr TransportOut × TCPCoordinator
  | .poll cfg joiners => ran .admitted (TCPCoordinator.pollNewWorkers cfg joiners s)
  | .heartbeat skip sent => (.ok .pinged, s.heartbeat skip sent)
  | .round t => ran (fun r => .collected r.1 r.2) (s.runRound arrayIs t)

/-- When a step goes right, whatever the peers do otherwise. -/
def StepClear (arrayIs : ArrayIs) (s : TCPCoordinator) : TransportOp → Prop
  | .poll cfg joiners => ∀ j ∈ joiners, j.tls = true → TCPCoordinator.Greets cfg j
  | .heartbeat _ _ => True
  | .round t => t.Clear arrayIs s

/-- What a step is to do: it returns; a poll ends as without any peers that are turned away, a
heartbeat keeps the workers it reaches, and a round returns what was received. -/
def StepRight (arrayIs : ArrayIs)
    (e : Event TCPCoordinator TransportOp (Except PyErr TransportOut)) : Prop :=
  match e.input with
  | .poll cfg joiners => (∃ new, e.output = .ok (.admitted new)) ∧
      ∀ keep : Joiner → Bool, (∀ j ∈ joiners, keep j = false →
        TCPCoordinator.Malformed cfg j ∨ TCPCoordinator.FailsAuth cfg j) →
      (e.output, e.after) = transportStep arrayIs e.before (.poll cfg (joiners.filter keep))
  | .heartbeat skip sent => e.output = .ok .pinged ∧
      ∀ a, skip a = true ∨ sent a = true → e.after.conns.get? a = e.before.conns.get? a
  | .round t => ∃ results dropped, e.output = .ok (.collected results dropped) ∧
      ResultsRight arrayIs t e.before results

theorem heartbeat_keeps (skip sent : DictKey → Bool) (s : TCPCoordinator) {a : DictKey}
    (ha : skip a = true ∨ sent a = true) :
    (s.heartbeat skip sent).conns.get? a = s.conns.get? a := by
  show ((s.conns.keys.filter fun a => !skip a && !sent a).foldl Dict.erase s.conns).get? a = _
  rw [Dict.get?_foldl_erase, if_neg]
  intro hmem
  have hlost := (List.mem_filter.mp hmem).2
  rcases ha with ha | ha
  · rw [ha] at hlost
    cases hlost
  · rw [ha, Bool.not_true, Bool.and_false] at hlost
    cases hlost

theorem sound_step {s : TCPCoordinator} {op : TransportOp} (hclear : StepClear arrayIs s op)
    (hs : s.Sound) : (transportStep arrayIs s op).2.Sound := by
  cases op with
  | poll cfg joiners =>
    have hpoll : ((TCPCoordinator.pollNewWorkers cfg joiners).after s).Sound :=
      hs.pollNewWorkers joiners
    unfold PyM.after at hpoll
    show (ran TransportOut.admitted (TCPCoordinator.pollNewWorkers cfg joiners s)).2.Sound
    cases hrun : TCPCoordinator.pollNewWorkers cfg joiners s with
    | ok new s' =>
      rw [hrun] at hpoll
      exact hpoll
    | error e s' =>
      rw [hrun] at hpoll
      exact hpoll
  | heartbeat skip sent => exact hs.drop _
  | round t =>
    obtain ⟨results, dropped, s', hrun, hsound, -⟩ := RoundTask.Clear.runRound hclear hs
    show (ran _ (s.runRound arrayIs t)).2.Sound
    rw [hrun]
    exact hsound

theorem stepRight_of_clear {s : TCPCoordinator} {op : TransportOp}
    (hclear : StepClear arrayIs s op) (hs : s.Sound) :
    StepRight arrayIs (event (transportStep arrayIs) s op) := by
  cases op with
  | poll cfg joiners =>
    obtain ⟨new, s', hrun⟩ := TCPCoordinator.returns_pollNewWorkers hclear s
    constructor
    · refine ⟨new, ?_⟩
      show (ran _ (TCPCoordinator.pollNewWorkers cfg joiners s)).1 = _
      rw [hrun]
      rfl
    · intro keep hkeep
      show transportStep arrayIs s (.poll cfg joiners) = _
      unfold transportStep
      dsimp only [event]
      rw [TCPCoordinator.pollNewWorkers_filter hclear hkeep s]
  | heartbeat skip sent => exact ⟨rfl, fun a ha => heartbeat_keeps skip sent s ha⟩
  | round t =>
    obtain ⟨results, dropped, s', hrun, -, hcollected⟩ := RoundTask.Clear.runRound hclear hs
    refine ⟨results, dropped, ?_, hcollected⟩
    show (ran _ (s.runRound arrayIs t)).1 = _
    rw [hrun]
    rfl

/-- **No peer stops the coordinator or costs another worker its round**, in a run whose steps are
all clear; and a peer that is turned away changes neither map, whatever else it sends. -/
theorem transport_run (arrayIs : ArrayIs) :
    (∀ ops,
      (∀ e ∈ history (transportStep arrayIs) .fresh ops, StepClear arrayIs e.before e.input) →
      ∀ e ∈ history (transportStep arrayIs) .fresh ops, StepRight arrayIs e) ∧
    ∀ cfg j, TCPCoordinator.Malformed cfg j ∨ TCPCoordinator.FailsAuth cfg j →
      ∀ s, (TCPCoordinator.admitPeer cfg j).after s = s :=
  ⟨fun _ hclear => (admissible_run (fun _ _ h hs => sound_step h hs)
      (fun _ _ h hs => stepRight_of_clear h hs) TCPCoordinator.sound_fresh hclear).2,
    fun _ _ hbad s => TCPCoordinator.admit_unchanged hbad s⟩

/-! ## A run that goes right, and runs that do not -/

namespace Transport

/-- A hello with this address. -/
def hello (address : Json) : Wire :=
  .dict [("type", .plain (.str "hello")), ("address", .plain address)]

/-- The answer to a round. -/
def result (round sub : ℤ) : Wire :=
  .dict [("type", .plain (.str "result")), ("sub", .plain (.int sub)),
    ("round", .plain (.int round))]

def config : AdmitConfig := ⟨false, 10, 90⟩

/-- Frames that are complete at these times. -/
def stream (sent : List (ℚ × Wire)) : List Piece := sent.map fun f => ⟨f.1, .last f.2⟩

/-- A peer that connects and sends these frames. -/
def peer (sent : List (ℚ × Wire)) (h : Arriving (stream sent)) : Joiner :=
  ⟨true, 0, stream sent, h, .passed 0, false, true⟩

/-- A round of five seconds that reaches every worker. -/
def fiveSeconds (r : ℤ) (start : ℚ) : RoundTask :=
  ⟨r, fun _ => true, fun _ => true, start, 5, id, fun _ => List.Perm.rfl⟩

/-- A worker that answers the first round after its deadline, and the second in time. -/
def lateWorker : Joiner :=
  peer [(0, hello (.str "0xA")), (7, result 1 10), (9, result 2 20)]
    (by unfold Arriving stream; decide +kernel)

/-- A worker that answers the first round in time. -/
def worker : Joiner :=
  peer [(0, hello (.str "0xA")), (2, result 1 10)] (by unfold Arriving stream; decide +kernel)

/-- A peer whose hello is `null`. -/
def nullPeer : Joiner :=
  peer [(0, .plain .null)] (by unfold Arriving stream; decide +kernel)

def noArrays : ArrayIs := fun _ _ => none

theorem greets_worker : TCPCoordinator.Greets config worker := by
  intro w hw
  have hhello : w = hello (.str "0xA") := by
    have hok : (TCPCoordinator.helloOf config worker).1 = .ok (hello (.str "0xA")) := by
      with_unfolding_all rfl
    exact Except.ok.inj (hw.symm.trans hok)
  subst hhello
  refine ⟨rfl, fun address haddress id => ?_⟩
  cases (Except.ok.inj haddress).symm
  rfl

theorem prompt_worker :
    Prompt noArrays (fiveSeconds 1 1) (stream [(2, result 1 10)]) := by
  refine ⟨fun b hb _ => ?_, fun time msg hfirst _ => ?_, fun f hf _ htag => ?_⟩
  · exact ⟨2, some (result 1 10), rfl, by unfold RoundTask.deadline fiveSeconds; norm_num⟩
  · cases (Option.some.inj hfirst)
    exact ⟨rfl, fun _ => ⟨.plain (.int 10), rfl⟩⟩
  · exact ⟨2, result 1 10, rfl, rfl⟩

/-- The worker's socket is the first one, and its answer is unread. -/
theorem joined_worker :
    (fiveSeconds 1 1).live (transportStep noArrays .fresh (.poll config [worker])).2
      = [(.text "0xA", 0)] ∧
    (transportStep noArrays .fresh (.poll config [worker])).2.unread 0
      = stream [(2, result 1 10)] := by
  constructor <;> with_unfolding_all rfl

/-- A worker joins and answers its round in time. -/
theorem transport_run_worker :
    ∀ e ∈ history (transportStep noArrays) .fresh
      [.poll config [worker], .round (fiveSeconds 1 1)], StepRight noArrays e := by
  refine (transport_run noArrays).1 _ fun e he => ?_
  rcases List.mem_cons.mp he with rfl | he
  · intro j hj _
    cases List.mem_singleton.mp hj
    exact greets_worker
  · cases List.mem_singleton.mp he
    refine ⟨by show (0 : ℚ) < 5; norm_num, fun w hw => ?_⟩
    have hlive : w ∈ (fiveSeconds 1 1).live
        (transportStep noArrays .fresh (.poll config [worker])).2 := hw
    rw [joined_worker.1] at hlive
    cases List.mem_singleton.mp hlive
    show Prompt noArrays (fiveSeconds 1 1)
      ((transportStep noArrays .fresh (.poll config [worker])).2.unread 0)
    rw [joined_worker.2]
    exact prompt_worker

/-- The state in which the second round of the late worker starts. -/
def afterFirstRound : TCPCoordinator :=
  final (transportStep noArrays) .fresh [.poll config [lateWorker], .round (fiveSeconds 1 1)]

/-- The workers that have a result. -/
def answered : Except PyErr TransportOut → List DictKey
  | .ok (.collected results _) => results.keys
  | _ => []

/-- **A late answer costs a worker its next round**, and a hello that is `null` stops the poll. -/
theorem late_answer_loses_round :
    (¬ ∀ ops, ∀ e ∈ history (transportStep noArrays) .fresh ops, StepRight noArrays e) ∧
    (transportStep noArrays .fresh (.poll config [nullPeer])).1 = .error .typeError := by
  constructor
  · intro hall
    have hright : StepRight noArrays (event (transportStep noArrays) afterFirstRound
        (.round (fiveSeconds 2 8))) := by
      refine hall
        [.poll config [lateWorker], .round (fiveSeconds 1 1), .round (fiveSeconds 2 8)] _ ?_
      exact List.mem_cons_of_mem _ (List.mem_cons_of_mem _ List.mem_cons_self)
    obtain ⟨results, dropped, hout, hcollected⟩ := hright
    have hlive : (fiveSeconds 2 8).live afterFirstRound = [(.text "0xA", 0)] := by decide +kernel
    have hreceived : Received noArrays (fiveSeconds 2 8) (afterFirstRound.unread 0)
        (.plain (.int 20)) :=
      ⟨result 2 20, by with_unfolding_all rfl, rfl⟩
    have hget := (hcollected (.text "0xA") (.plain (.int 20))).mpr
      ⟨0, hlive ▸ List.mem_singleton.mpr rfl, hreceived⟩
    -- the round came back without results, though the answer was there in time
    have hkeys : answered (event (transportStep noArrays) afterFirstRound
        (.round (fiveSeconds 2 8))).output = [] := by decide +kernel
    rw [hout] at hkeys
    have hnil : results.keys = [] := hkeys
    have hmem := Dict.mem_keys_iff.mpr ⟨_, hget⟩
    rw [hnil] at hmem
    cases hmem
  · with_unfolding_all rfl

end Transport

end NeuraHash
