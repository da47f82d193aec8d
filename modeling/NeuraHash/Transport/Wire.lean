import NeuraHash.Python.Bytes
import Mathlib.Algebra.Order.Group.MinMax

/-!
# Frames on a socket (`neurahash/safe_codec.py`, `neurahash/net_transport.py`)

`Wire` is what `decode_msg` can return: JSON scalars, lists, tuples, dicts with text keys, arrays
and models, nested in any way. A peer's side of a connection is the list of the pieces that arrive
on it, each with its time: parts of a frame, the piece that completes a frame, and the end of the
stream.

`recvMsg` is `recv_msg` with the socket's timeout, which every piece starts anew.
`recvMsg_complete` says what it returns on a frame that completes in time.
-/

namespace NeuraHash

open Py

/-! ## Decoded values -/

structure NdArray where
  dtype : String
  shape : List ℕ
  data : Bytes
  deriving DecidableEq

inductive Wire where
  /-- The value of a `$v` node, passed through as `json.loads` read it. -/
  | plain (j : Json)
  | list (xs : List Wire)
  | tuple (xs : List Wire)
  | dict (kvs : List (String × Wire))
  | array (a : NdArray)
  /-- A reconstructed model, with its parameters. -/
  | model (params : List (String × Wire))

/-- A value as a key of a `dict`: numbers by value, a tuple as a chain. -/
inductive DictKey where
  | null
  | num (x : PyFloat)
  | text (s : String)
  | nil
  | cons (head tail : DictKey)
  /-- An object without an equality of its own, by identity. -/
  | object (id : ℕ)
  deriving DecidableEq

namespace Wire

mutual

/-- The key a value hashes to; `none` raises `TypeError`. -/
def key (id : ℕ) : Wire → Option DictKey
  | plain .null => some .null
  | plain (.str s) => some (.text s)
  | plain (.arr _) | plain (.obj _) => none
  | plain j => j.number?.map .num
  | tuple xs => keys id xs
  | model _ => some (.object id)
  | _ => none

def keys (id : ℕ) : List Wire → Option DictKey
  | [] => some .nil
  | x :: xs =>
    match key id x, keys id xs with
    | some k, some ks => some (.cons k ks)
    | _, _ => none

end

/-- The items of a dict; `none` for every other value. -/
def items? : Wire → Option (Dict String Wire)
  | plain (.obj kvs) => some (Dict.ofList (kvs.map fun p => (p.1, plain p.2)))
  | dict kvs => some (Dict.ofList kvs)
  | _ => none

/-- `w[k]` with a text key. -/
def item (w : Wire) (k : String) : Except PyErr Wire :=
  match w.items? with
  | some d => match d.get? k with
    | some v => .ok v
    | none => .error .keyError
  | none => match w with
    | array _ => .error (.raised "IndexError")
    | _ => .error .typeError

/-- `w.get(k)`. -/
def getItem (w : Wire) (k : String) : Except PyErr Wire :=
  match w.items? with
  | some d => .ok ((d.get? k).getD (plain .null))
  | none => .error .attributeError

end Wire

/-- `bool(a == n)` of an array; `none` raises `ValueError`, as an array of several items does. -/
abbrev ArrayIs := NdArray → ℤ → Option Bool

/-- `bool(w == n)` for an integer. -/
def Wire.isInt (arrayIs : ArrayIs) (w : Wire) (n : ℤ) : Option Bool :=
  match w with
  | .plain j => some (j.pyEq (.int n))
  | .array a => arrayIs a n
  | _ => some false

/-! ## Pieces of a stream -/

inductive PieceKind where
  /-- Bytes that complete no frame. -/
  | part
  /-- The bytes that complete a frame, which decodes to a value. -/
  | last (w : Wire)
  | eof

structure Piece where
  time : ℚ
  kind : PieceKind

/-- Pieces in the order they arrive in. -/
def Arriving (pieces : List Piece) : Prop := pieces.Pairwise (·.time ≤ ·.time)

/-- `recv_msg` with the socket's timeout: the outcome, the time it ends and what is left unread. -/
def recvMsg (timeout now : ℚ) : List Piece → Except PyErr Wire × ℚ × List Piece
  | [] => (.error (.raised "TimeoutError"), now + timeout, [])
  | p :: ps =>
    if now + timeout < p.time then
      (.error (.raised "TimeoutError"), now + timeout, p :: ps)
    else
      match p.kind with
      -- every piece starts the timeout anew
      | .part => recvMsg timeout (max now p.time) ps
      | .last w => (.ok w, max now p.time, ps)
      | .eof => (.error (.raised "ConnectionError"), max now p.time, p :: ps)

/-- The time the first frame is complete, with its value, or the stream ends. -/
def firstFrame : List Piece → Option (ℚ × Option Wire)
  | [] => none
  | p :: ps =>
    match p.kind with
    | .part => firstFrame ps
    | .last w => some (p.time, some w)
    | .eof => some (p.time, none)

/-- A frame that is complete, or `ConnectionError` at the end of the stream. -/
def frameOutcome : Option Wire → Except PyErr Wire
  | some w => .ok w
  | none => .error (.raised "ConnectionError")

/-- What follows the first frame. -/
def afterFirst : List Piece → List Piece
  | [] => []
  | p :: ps =>
    match p.kind with
    | .part => afterFirst ps
    | .last _ => ps
    | .eof => p :: ps

/-- The complete frames of a stream, each with the time it is complete. -/
def frames : List Piece → List (ℚ × Wire)
  | [] => []
  | p :: ps =>
    match p.kind with
    | .part => frames ps
    | .last w => (p.time, w) :: frames ps
    | .eof => []

/-- The time the first piece arrives. -/
def begins (pieces : List Piece) : Option ℚ := pieces.head?.map Piece.time

theorem head?_frames (pieces : List Piece) :
    (frames pieces).head? = (firstFrame pieces).bind fun f => f.2.map fun w => (f.1, w) := by
  induction pieces with
  | nil => rfl
  | cons p ps ih =>
    unfold frames firstFrame
    cases p.kind with
    | part => exact ih
    | last w => rfl
    | eof => rfl

/-- Without a first frame there is none. -/
theorem frames_eq_nil {pieces : List Piece} (h : ∀ t w, firstFrame pieces ≠ some (t, some w)) :
    frames pieces = [] := by
  cases hf : frames pieces with
  | nil => rfl
  | cons f fs =>
    exfalso
    have hhead := head?_frames pieces
    rw [hf, List.head?_cons] at hhead
    cases hfirst : firstFrame pieces with
    | none => rw [hfirst] at hhead; cases hhead
    | some g =>
      obtain ⟨t, ow⟩ := g
      cases ow with
      | none => rw [hfirst] at hhead; cases hhead
      | some w => exact h t w hfirst

theorem begins_le_firstFrame {pieces : List Piece} (h : Arriving pieces) {t : ℚ}
    {ow : Option Wire} (hfirst : firstFrame pieces = some (t, ow)) :
    ∀ b, begins pieces = some b → b ≤ t := by
  induction pieces with
  | nil => cases hfirst
  | cons p ps ih =>
    intro b hb
    obtain rfl : p.time = b := Option.some.inj hb
    unfold firstFrame at hfirst
    cases hk : p.kind with
    | part =>
      rw [hk] at hfirst
      cases ps with
      | nil => cases hfirst
      | cons r rs =>
        have hpr : p.time ≤ r.time := (List.pairwise_cons.mp h).1 r List.mem_cons_self
        exact hpr.trans (ih (List.pairwise_cons.mp h).2 hfirst r.time rfl)
    | last w =>
      rw [hk] at hfirst
      exact le_of_eq (congrArg Prod.fst (Option.some.inj hfirst))
    | eof =>
      rw [hk] at hfirst
      exact le_of_eq (congrArg Prod.fst (Option.some.inj hfirst))

/-- No frame is complete before the first piece arrives. -/
theorem begins_le_frames {pieces : List Piece} (h : Arriving pieces) {b : ℚ}
    (hbegins : begins pieces = some b) : ∀ f ∈ frames pieces, b ≤ f.1 := by
  have hall : ∀ (ps : List Piece), (∀ p ∈ ps, b ≤ p.time) → ∀ f ∈ frames ps, b ≤ f.1 := by
    intro ps
    induction ps with
    | nil => exact fun _ f hf => absurd hf List.not_mem_nil
    | cons p ps ih =>
      intro hps f hf
      have htail := ih fun q hq => hps q (List.mem_cons_of_mem _ hq)
      unfold frames at hf
      cases hk : p.kind with
      | part =>
        rw [hk] at hf
        exact htail f hf
      | last w =>
        rw [hk] at hf
        rcases List.mem_cons.mp hf with rfl | hf
        · exact hps p List.mem_cons_self
        · exact htail f hf
      | eof =>
        rw [hk] at hf
        cases hf
  cases pieces with
  | nil => cases hbegins
  | cons p ps =>
    obtain rfl : p.time = b := Option.some.inj hbegins
    refine hall (p :: ps) fun q hq => ?_
    rcases List.mem_cons.mp hq with rfl | hq
    · exact le_rfl
    · exact (List.pairwise_cons.mp h).1 q hq

/-- **A frame that is complete within the timeout is read whole**, and a stream that ends within it
raises `ConnectionError`. -/
theorem recvMsg_complete {timeout now : ℚ} {pieces : List Piece} (h : Arriving pieces) {t : ℚ}
    {ow : Option Wire} (hfirst : firstFrame pieces = some (t, ow)) (ht : t ≤ now + timeout) :
    recvMsg timeout now pieces
      = (frameOutcome ow, max now t, afterFirst pieces) := by
  induction pieces generalizing now with
  | nil => cases hfirst
  | cons p ps ih =>
    have hp : p.time ≤ t := begins_le_firstFrame h hfirst p.time rfl
    unfold recvMsg afterFirst
    rw [if_neg (not_lt.mpr (hp.trans ht))]
    unfold firstFrame at hfirst
    cases hk : p.kind with
    | part =>
      rw [hk] at hfirst
      have hnow : t ≤ max now p.time + timeout := ht.trans (by gcongr; exact le_max_left _ _)
      dsimp only
      rw [ih (List.pairwise_cons.mp h).2 hfirst hnow, max_assoc, max_eq_right hp]
    | last w =>
      rw [hk] at hfirst
      obtain ⟨rfl, rfl⟩ := Prod.mk.inj (Option.some.inj hfirst)
      rfl
    | eof =>
      rw [hk] at hfirst
      obtain ⟨rfl, rfl⟩ := Prod.mk.inj (Option.some.inj hfirst)
      rfl

theorem arriving_afterFirst {pieces : List Piece} (h : Arriving pieces) :
    Arriving (afterFirst pieces) := by
  induction pieces with
  | nil => exact List.Pairwise.nil
  | cons p ps ih =>
    have htail := (List.pairwise_cons.mp h).2
    unfold afterFirst
    cases p.kind with
    | part => exact ih htail
    | last w => exact htail
    | eof => exact h

/-- What a read leaves unread arrives in order too. -/
theorem arriving_recvMsg {timeout now : ℚ} {pieces : List Piece} (h : Arriving pieces) :
    Arriving (recvMsg timeout now pieces).2.2 := by
  induction pieces generalizing now with
  | nil => exact List.Pairwise.nil
  | cons p ps ih =>
    have htail := (List.pairwise_cons.mp h).2
    unfold recvMsg
    split
    · exact h
    · cases p.kind with
      | part => exact ih htail
      | last w => exact htail
      | eof => exact h

end NeuraHash
