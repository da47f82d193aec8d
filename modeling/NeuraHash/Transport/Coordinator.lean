import NeuraHash.Transport.Wire
import NeuraHash.Python.Mutation
import NeuraHash.Systems.History

/-!
# The TCP coordinator (`neurahash/net_transport.py`)

`TCPCoordinator` holds a socket for each admitted address. `pollNewWorkers` admits the peers that
wait, `heartbeat` pings the sockets and drops the ones that fail, and `runRound` sends a task to
every worker and reads one frame from each socket that becomes readable before the deadline.

A peer decides what arrives on its socket and when, so the operations take the pieces of each
stream, the outcome of every send and the order a selector reports ready sockets in as inputs.
-/

namespace NeuraHash

open Py

structure TCPCoordinator where
  /-- The socket of each address. -/
  conns : Dict DictKey ℕ
  workerMeta : Dict DictKey (Dict String Wire)
  /-- What arrives on a socket and is not read yet. -/
  unread : ℕ → List Piece
  nextSocket : ℕ

/-- What `auth_fn` does with a peer: it reads some pieces and accepts, declines, or raises. -/
inductive AuthResult where
  | passed (read : ℕ)
  | refused
  | raised
  deriving DecidableEq

/-- A peer that `accept` returned. -/
structure Joiner where
  /-- Whether the TLS handshake succeeded. -/
  tls : Bool
  acceptedAt : ℚ
  pieces : List Piece
  arriving : Arriving pieces
  auth : AuthResult
  /-- Whether `hello_payload_fn` returned `None`. -/
  declined : Bool
  /-- Whether the payload was sent. -/
  sent : Bool

structure AdmitConfig where
  authOn : Bool
  helloTimeout : ℚ
  admitTimeout : ℚ

namespace TCPCoordinator

def fresh : TCPCoordinator := ⟨∅, ∅, fun _ => [], 0⟩

/-- The hello and its address; `none` where `_admit` drops the peer. A hello that is no dict raises
`TypeError`, which the `except` does not name. -/
def readHello (got : Except PyErr Wire) : Except PyErr (Option (Wire × Wire)) :=
  match got with
  | .error _ => .ok none
  | .ok hello =>
    match hello.item "address" with
    | .ok addr => .ok (some (hello, addr))
    | .error .keyError => .ok none
    | .error e => .error e

/-- `recv_msg` of the hello. -/
def helloOf (cfg : AdmitConfig) (j : Joiner) : Except PyErr Wire × ℚ × List Piece :=
  recvMsg (max (1 / 20) (min cfg.helloTimeout cfg.admitTimeout)) j.acceptedAt j.pieces

/-- What is left on a peer's stream once it is authenticated; `none` drops it. -/
def authenticated (cfg : AdmitConfig) (j : Joiner) : Option (List Piece) :=
  match cfg.authOn, j.auth with
  | false, _ => some (helloOf cfg j).2.2
  | true, .passed n => some ((helloOf cfg j).2.2.drop n)
  | true, _ => none

/-- The address leaves both maps. -/
def forget (s : TCPCoordinator) (addr : DictKey) : TCPCoordinator :=
  { s with conns := s.conns.erase addr, workerMeta := s.workerMeta.erase addr }

/-- The socket of a new peer, with what is left to read on it. -/
def register (s : TCPCoordinator) (addr : DictKey) (hello : Wire) (rest : List Piece) :
    TCPCoordinator :=
  { conns := s.conns.set addr s.nextSocket
    workerMeta := s.workerMeta.set addr ((hello.items?.getD ∅).erase "type")
    unread := Function.update s.unread s.nextSocket rest
    nextSocket := s.nextSocket + 1 }

/-- `_admit`, once the address is known. -/
def enrol (cfg : AdmitConfig) (j : Joiner) (hello : Wire) (addr : DictKey) (s : TCPCoordinator) :
    Option DictKey × TCPCoordinator :=
  let replacing := s.conns.contains addr
  if replacing && !cfg.authOn then (none, s)
  else
    match authenticated cfg j with
    | none => (none, s)
    | some rest =>
      -- the stale socket of a peer that proved its identity is evicted
      let s := if replacing then s.forget addr else s
      let s := s.register addr hello rest
      if j.declined || !j.sent then (none, s.forget addr) else (some addr, s)

/-- `_admit`. An address that is no key raises `TypeError` at `addr in self.conns`. -/
def admitPeer (cfg : AdmitConfig) (j : Joiner) : PyM TCPCoordinator (Option DictKey) := fun s =>
  match readHello (helloOf cfg j).1 with
  | .error e => .error e s
  | .ok none => .ok none s
  | .ok (some (hello, address)) =>
    match address.key s.nextSocket with
    | none => .error .typeError s
    | some addr => .ok (enrol cfg j hello addr s).1 (enrol cfg j hello addr s).2

/-- One accepted peer of `poll_new_workers`. -/
def pollOne (cfg : AdmitConfig) (new : List DictKey) (j : Joiner) :
    PyM TCPCoordinator (List DictKey) :=
  if j.tls then do
    let addr ← admitPeer cfg j
    return new ++ addr.toList
  else pure new

/-- The metadata of workers that are not connected goes. -/
def prune (s : TCPCoordinator) : TCPCoordinator :=
  let gone := s.workerMeta.keys.filter fun a => !s.conns.contains a
  { s with workerMeta := gone.foldl Dict.erase s.workerMeta }

def pollNewWorkers (cfg : AdmitConfig) (joiners : List Joiner) :
    PyM TCPCoordinator (List DictKey) := do
  let new ← joiners.foldlM (pollOne cfg) []
  modify prune
  return new

/-- The sockets that failed are closed and forgotten. -/
def drop (s : TCPCoordinator) (lost : List DictKey) : TCPCoordinator :=
  { s with conns := lost.foldl Dict.erase s.conns }

/-- `heartbeat`: `sent` tells whose ping was sent. -/
def heartbeat (skip sent : DictKey → Bool) (s : TCPCoordinator) : TCPCoordinator :=
  s.drop (s.conns.keys.filter fun a => !skip a && !sent a)

end TCPCoordinator

/-! ## Sockets stay apart -/

namespace TCPCoordinator

/-- Every address has a socket of its own, and the streams arrive in order. -/
structure Sound (s : TCPCoordinator) : Prop where
  own : ∀ a b id, s.conns.get? a = some id → s.conns.get? b = some id → a = b
  known : ∀ a id, s.conns.get? a = some id → id < s.nextSocket
  arriving : ∀ id, Arriving (s.unread id)

theorem sound_fresh : Sound fresh where
  own _ _ _ h := nomatch h
  known _ _ h := nomatch h
  arriving _ := List.Pairwise.nil

variable {s : TCPCoordinator}

/-- Closing sockets and reading keep them apart. -/
theorem Sound.mono (h : s.Sound) {s' : TCPCoordinator}
    (hconns : ∀ a id, s'.conns.get? a = some id → s.conns.get? a = some id)
    (hnext : s'.nextSocket = s.nextSocket) (harr : ∀ id, Arriving (s'.unread id)) : s'.Sound where
  own a b id ha hb := h.own a b id (hconns a id ha) (hconns b id hb)
  known a id ha := hnext ▸ h.known a id (hconns a id ha)
  arriving := harr

theorem Sound.forget (h : s.Sound) (addr : DictKey) : (s.forget addr).Sound := by
  refine h.mono (fun a id ha => ?_) rfl h.arriving
  have hget : (s.conns.erase addr).get? a = some id := ha
  rw [Dict.get?_erase] at hget
  split at hget
  · cases hget
  · exact hget

theorem Sound.drop (h : s.Sound) (lost : List DictKey) : (s.drop lost).Sound := by
  refine h.mono (fun a id ha => ?_) rfl h.arriving
  have hget : (lost.foldl Dict.erase s.conns).get? a = some id := ha
  rw [Dict.get?_foldl_erase] at hget
  split at hget
  · cases hget
  · exact hget

/-- A new socket is nobody else's. -/
theorem Sound.register (h : s.Sound) (addr : DictKey) (hello : Wire) {rest : List Piece}
    (hrest : Arriving rest) : (s.register addr hello rest).Sound := by
  have hcase : ∀ a id, (s.register addr hello rest).conns.get? a = some id →
      (a = addr ∧ id = s.nextSocket) ∨ s.conns.get? a = some id := by
    intro a id ha
    have hget : (s.conns.set addr s.nextSocket).get? a = some id := ha
    rw [Dict.get?_set] at hget
    split at hget
    · rename_i hk
      exact .inl ⟨hk.symm, (Option.some.inj hget).symm⟩
    · exact .inr hget
  refine ⟨fun a b id ha hb => ?_, fun a id ha => ?_, fun id => ?_⟩
  · rcases hcase a id ha with ⟨rfl, rfl⟩ | ha'
    · rcases hcase b s.nextSocket hb with ⟨rfl, -⟩ | hb'
      · rfl
      · exact absurd (h.known b _ hb') (lt_irrefl _)
    · rcases hcase b id hb with ⟨rfl, rfl⟩ | hb'
      · exact absurd (h.known a _ ha') (lt_irrefl _)
      · exact h.own a b id ha' hb'
  · show id < s.nextSocket + 1
    rcases hcase a id ha with ⟨-, rfl⟩ | ha
    · omega
    · have hlt := h.known a id ha
      omega
  · show Arriving (Function.update s.unread s.nextSocket rest id)
    by_cases hid : id = s.nextSocket
    · rw [hid, Function.update_self]
      exact hrest
    · rw [Function.update_of_ne hid]
      exact h.arriving id

/-! ## Admission -/

variable {cfg : AdmitConfig} {j : Joiner}

/-- What `_admit` relies on of a hello that arrives: a dict, whose address can be a key. -/
def Greets (cfg : AdmitConfig) (j : Joiner) : Prop :=
  ∀ hello, (helloOf cfg j).1 = .ok hello → hello.items?.isSome = true ∧
    ∀ address, hello.item "address" = .ok address → ∀ id, (address.key id).isSome = true

/-- The hello does not arrive, or has no address that can be a key. -/
def Malformed (cfg : AdmitConfig) (j : Joiner) : Prop :=
  ∀ hello address, (helloOf cfg j).1 = .ok hello → hello.item "address" = .ok address →
    ∀ id, address.key id = none

/-- Authentication is on and the peer does not pass it. -/
def FailsAuth (cfg : AdmitConfig) (j : Joiner) : Prop :=
  cfg.authOn = true ∧ ∀ read, j.auth ≠ .passed read

theorem arriving_hello : Arriving (helloOf cfg j).2.2 := arriving_recvMsg j.arriving

theorem arriving_authenticated {rest : List Piece} (h : authenticated cfg j = some rest) :
    Arriving rest := by
  unfold authenticated at h
  split at h
  · cases h
    exact arriving_hello
  · cases h
    exact arriving_hello.drop
  · cases h

theorem Sound.enrol (h : s.Sound) (hello : Wire) (addr : DictKey) :
    (enrol cfg j hello addr s).2.Sound := by
  unfold TCPCoordinator.enrol
  dsimp only
  split
  · exact h
  · cases hauth : authenticated cfg j with
    | none => exact h
    | some rest =>
      have hrest := arriving_authenticated hauth
      have hevicted : (if s.conns.contains addr = true then s.forget addr else s).Sound := by
        split
        · exact h.forget addr
        · exact h
      have hnew := hevicted.register addr hello hrest
      dsimp only
      split
      · exact hnew.forget addr
      · exact hnew

theorem Sound.admitPeer (h : s.Sound) : ((admitPeer cfg j).after s).Sound := by
  unfold TCPCoordinator.admitPeer PyM.after
  dsimp only
  cases readHello (helloOf cfg j).1 with
  | error e => exact h
  | ok got =>
    cases got with
    | none => exact h
    | some pair =>
      obtain ⟨hello, address⟩ := pair
      dsimp only
      cases address.key s.nextSocket with
      | none => exact h
      | some addr => exact h.enrol hello addr

theorem Sound.pollNewWorkers (h : s.Sound) (joiners : List Joiner) :
    ((pollNewWorkers cfg joiners).after s).Sound := by
  unfold TCPCoordinator.pollNewWorkers
  refine PyM.after_bind (PyM.after_foldlM (fun new j s hs => ?_) joiners [] h) fun new s' hs' => ?_
  · unfold pollOne
    split
    · exact PyM.after_bind hs.admitPeer fun _ _ hs' => hs'
    · exact hs
  · -- the pruning leaves the sockets alone
    exact hs'.mono (fun _ _ ha => ha) rfl hs'.arriving

theorem readHello_eq_some {got : Except PyErr Wire} {hello address : Wire}
    (h : readHello got = .ok (some (hello, address))) :
    got = .ok hello ∧ hello.item "address" = .ok address := by
  unfold readHello at h
  cases got with
  | error e => cases h
  | ok w =>
    dsimp only at h
    cases hitem : w.item "address" with
    | ok addr =>
      rw [hitem] at h
      cases h
      exact ⟨rfl, hitem⟩
    | error e =>
      rw [hitem] at h
      cases e <;> cases h

theorem enrol_of_failsAuth (h : FailsAuth cfg j) (hello : Wire) (addr : DictKey)
    (s : TCPCoordinator) : enrol cfg j hello addr s = (none, s) := by
  have hnone : authenticated cfg j = none := by
    unfold authenticated
    rw [h.1]
    cases hauth : j.auth with
    | passed n => exact absurd hauth (h.2 n)
    | refused => rfl
    | raised => rfl
  unfold enrol
  rw [hnone]
  dsimp only
  split <;> rfl

/-- **A peer with a malformed hello or a failed check changes nothing.** -/
theorem admit_unchanged (h : Malformed cfg j ∨ FailsAuth cfg j) (s : TCPCoordinator) :
    (admitPeer cfg j).after s = s := by
  unfold admitPeer PyM.after
  dsimp only
  cases hread : readHello (helloOf cfg j).1 with
  | error e => rfl
  | ok got =>
    cases got with
    | none => rfl
    | some pair =>
      obtain ⟨hello, address⟩ := pair
      dsimp only
      cases hkey : address.key s.nextSocket with
      | none => rfl
      | some addr =>
        rcases h with hbad | hauth
        · obtain ⟨hgot, hitem⟩ := readHello_eq_some hread
          rw [hbad hello address hgot hitem] at hkey
          cases hkey
        · show (enrol cfg j hello addr s).2 = s
          rw [enrol_of_failsAuth hauth]

/-- A hello in order is read, or the peer is dropped. -/
theorem Greets.readHello_cases (h : Greets cfg j) :
    readHello (helloOf cfg j).1 = .ok none ∨
    ∃ hello address, readHello (helloOf cfg j).1 = .ok (some (hello, address)) ∧
      ∀ id, (address.key id).isSome = true := by
  cases hgot : (helloOf cfg j).1 with
  | error e => exact .inl rfl
  | ok hello =>
    obtain ⟨hdict, hkey⟩ := h hello hgot
    obtain ⟨d, hd⟩ := Option.isSome_iff_exists.mp hdict
    cases hget : d.get? "address" with
    | none =>
      left
      simp only [readHello, Wire.item, hd, hget]
    | some address =>
      have hitem : hello.item "address" = .ok address := by simp only [Wire.item, hd, hget]
      right
      refine ⟨hello, address, ?_, hkey address hitem⟩
      simp only [readHello, hitem]

theorem Greets.returns (h : Greets cfg j) (s : TCPCoordinator) : (admitPeer cfg j).Returns s := by
  unfold PyM.Returns admitPeer
  rcases h.readHello_cases with hnone | ⟨hello, address, hread, hkey⟩
  · rw [hnone]
    exact ⟨_, _, rfl⟩
  · obtain ⟨addr, haddr⟩ := Option.isSome_iff_exists.mp (hkey s.nextSocket)
    rw [hread]
    dsimp only
    rw [haddr]
    exact ⟨_, _, rfl⟩

/-- A peer that is turned away with its hello in order adds no address either. -/
theorem Greets.turned_away (h : Greets cfg j) (hbad : Malformed cfg j ∨ FailsAuth cfg j)
    (s : TCPCoordinator) : admitPeer cfg j s = .ok none s := by
  unfold admitPeer
  rcases h.readHello_cases with hnone | ⟨hello, address, hread, hkey⟩
  · rw [hnone]
  · obtain ⟨addr, haddr⟩ := Option.isSome_iff_exists.mp (hkey s.nextSocket)
    rw [hread]
    dsimp only
    rw [haddr]
    rcases hbad with hbad | hauth
    · obtain ⟨hgot, hitem⟩ := readHello_eq_some hread
      rw [hbad hello address hgot hitem] at haddr
      cases haddr
    · show EStateM.Result.ok (enrol cfg j hello addr s).1 (enrol cfg j hello addr s).2 = _
      rw [enrol_of_failsAuth hauth]

theorem returns_pollOne (hgreets : j.tls = true → Greets cfg j) (new : List DictKey)
    (s : TCPCoordinator) : (pollOne cfg new j).Returns s := by
  unfold pollOne
  split
  · rename_i htls
    obtain ⟨addr, s', hjoined⟩ := (hgreets htls).returns s
    exact ⟨new ++ addr.toList, s', PyM.bind_run_ok hjoined⟩
  · exact PyM.returns_pure new s

theorem pollOne_turned_away (hgreets : j.tls = true → Greets cfg j)
    (hbad : Malformed cfg j ∨ FailsAuth cfg j) (new : List DictKey) (s : TCPCoordinator) :
    pollOne cfg new j s = .ok new s := by
  unfold pollOne
  split
  · rename_i htls
    rw [PyM.bind_run_ok ((hgreets htls).turned_away hbad s)]
    exact congrArg (EStateM.Result.ok · s) (List.append_nil new)
  · rfl

/-- **A poll of peers whose hellos are in order returns.** -/
theorem returns_pollNewWorkers {joiners : List Joiner}
    (hgreets : ∀ j ∈ joiners, j.tls = true → Greets cfg j) (s : TCPCoordinator) :
    (pollNewWorkers cfg joiners).Returns s := by
  have hfold : ∀ (new : List DictKey) (s : TCPCoordinator),
      (joiners.foldlM (pollOne cfg) new).Returns s := by
    induction joiners with
    | nil => exact fun new s => PyM.returns_pure new s
    | cons j js ih =>
      intro new s
      rw [List.foldlM_cons]
      obtain ⟨new', s', hone⟩ := returns_pollOne (hgreets j List.mem_cons_self) new s
      rw [PyM.returns_bind_ok hone]
      exact ih (fun j' hj' => hgreets j' (List.mem_cons_of_mem _ hj')) new' s'
  obtain ⟨new, s', hnew⟩ := hfold [] s
  exact ⟨new, s'.prune, PyM.bind_run_ok hnew⟩

/-- **It ends as without the peers that are turned away.** -/
theorem pollNewWorkers_filter {joiners : List Joiner}
    (hgreets : ∀ j ∈ joiners, j.tls = true → Greets cfg j) {keep : Joiner → Bool}
    (hkeep : ∀ j ∈ joiners, keep j = false → Malformed cfg j ∨ FailsAuth cfg j)
    (s : TCPCoordinator) :
    pollNewWorkers cfg joiners s = pollNewWorkers cfg (joiners.filter keep) s := by
  have hfold : ∀ (new : List DictKey) (s : TCPCoordinator),
      joiners.foldlM (pollOne cfg) new s = (joiners.filter keep).foldlM (pollOne cfg) new s := by
    induction joiners with
    | nil => exact fun _ _ => rfl
    | cons j js ih =>
      intro new s
      have hrest := ih (fun j' hj' => hgreets j' (List.mem_cons_of_mem _ hj'))
        fun j' hj' => hkeep j' (List.mem_cons_of_mem _ hj')
      rw [List.foldlM_cons]
      cases hk : keep j with
      | true =>
        rw [List.filter_cons_of_pos hk, List.foldlM_cons, PyM.bind_run, PyM.bind_run]
        cases pollOne cfg new j s with
        | ok new' s' => exact hrest new' s'
        | error e s' => rfl
      | false =>
        have hbad := hkeep j List.mem_cons_self hk
        rw [List.filter_cons_of_neg (by simp [hk]),
          PyM.bind_run_ok (pollOne_turned_away (hgreets j List.mem_cons_self) hbad new s)]
        exact hrest new s
  unfold pollNewWorkers
  rw [PyM.bind_run, PyM.bind_run, hfold]

end TCPCoordinator

/-! ## A round -/

/-- A round: its task, whose task was sent, the clock after the sends, and the order a selector
reports ready sockets in. -/
structure RoundTask where
  roundId : ℤ
  assigned : DictKey → Bool
  sent : DictKey → Bool
  start : ℚ
  timeout : ℚ
  order : List (DictKey × ℕ) → List (DictKey × ℕ)
  order_perm : ∀ l, (order l).Perm l

namespace RoundTask

def deadline (t : RoundTask) : ℚ := t.start + t.timeout

/-- The workers the task was sent to. -/
def live (t : RoundTask) (s : TCPCoordinator) : List (DictKey × ℕ) :=
  s.conns.entries.filter fun w => t.assigned w.1 && t.sent w.1

end RoundTask

/-- The collection of a round. -/
structure Collecting where
  coord : TCPCoordinator
  now : ℚ
  pending : List (DictKey × ℕ)
  results : Dict DictKey Wire

/-- What an answer comes to: a result, nothing, or a worker that is dropped. -/
inductive Answer where
  | result (sub : Wire)
  | nothing
  | dropped

namespace Collecting

variable (arrayIs : ArrayIs) (t : RoundTask)

/-- An answer that is no dict raises `AttributeError`, and one of the round without a `sub` raises
`KeyError`; the `except` names neither. -/
def answer (got : Except PyErr Wire) : Except PyErr Answer :=
  match got with
  | .error _ => .ok .dropped
  | .ok msg => do
    let round ← msg.getItem "round"
    match round.isInt arrayIs t.roundId with
    | none => return .dropped
    | some false => return .nothing
    | some true => return .result (← msg.item "sub")

/-- What becomes of a worker whose answer was read. -/
def settle (c : Collecting) (w : DictKey × ℕ) (ans : Answer) : Collecting :=
  let c := { c with pending := c.pending.erase w }
  match ans with
  | .result sub => { c with results := c.results.set w.1 sub }
  | .nothing => c
  | .dropped => { c with coord := c.coord.drop [w.1] }

/-- Reading one ready socket. -/
def readOne (w : DictKey × ℕ) : PyM Collecting Unit := fun c =>
  let got := recvMsg (max (1 / 20) (t.deadline - c.now)) c.now (c.coord.unread w.2)
  let c := { c with
    now := got.2.1
    coord := { c.coord with unread := Function.update c.coord.unread w.2 got.2.2 } }
  match answer arrayIs t got.1 with
  | .error e => .error e c
  | .ok ans => .ok () (c.settle w ans)

/-- The sockets with something to read at a time. -/
def ready (c : Collecting) (time : ℚ) : List (DictKey × ℕ) :=
  c.pending.filter fun w => (begins (c.coord.unread w.2)).any fun b => decide (b ≤ time)

/-- The first time a socket has something to read. -/
def nextReady (c : Collecting) : Option ℚ :=
  (c.pending.filterMap fun w => begins (c.coord.unread w.2)).min?

/-- `sel.select(timeout)`: the ready sockets, at once or when there are some, and the time. -/
def select (c : Collecting) (timeout : ℚ) : List (DictKey × ℕ) × ℚ :=
  match c.nextReady with
  | none => ([], c.now + timeout)
  | some b =>
    if b ≤ c.now + timeout then (c.ready (max c.now b), max c.now b)
    else ([], c.now + timeout)

/-- The `while` of `run_round`. Each pass reads a socket or reaches the deadline, so as many passes
as there are workers, and one more, are enough (`collect_done`). -/
def collect : ℕ → PyM Collecting Unit
  | 0 => pure ()
  | n + 1 => fun c =>
    if c.pending.isEmpty || decide (t.deadline ≤ c.now) then .ok () c
    else
      let (batch, now) := c.select (max (1 / 100) (t.deadline - c.now))
      (do (t.order batch).forM (readOne arrayIs t)
          collect n) { c with now }

end Collecting

/-- `run_round`: the results, and the live workers without one. -/
def TCPCoordinator.runRound (arrayIs : ArrayIs) (t : RoundTask) :
    PyM TCPCoordinator (Dict DictKey Wire × List DictKey) := fun s =>
  let live := t.live s
  let s := s.drop (s.conns.keys.filter fun a => !(t.assigned a && t.sent a))
  match Collecting.collect arrayIs t (live.length + 1) ⟨s, t.start, live, ∅⟩ with
  | .ok _ c => .ok (c.results, (live.map Prod.fst).filter fun a => !c.results.contains a) c.coord
  | .error e c => .error e c.coord

end NeuraHash
