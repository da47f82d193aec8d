import NeuraHash.Codec.SafeRoundTrip

/-!
# Hostile frames

`walk` lists the nodes of the metadata in the order `dec` comes to them, each with what is left of
the depth there. `dec` is one pass over that list (`dec_walk`), so a frame fails at the first node
at which something is wrong. Where that node has a value of the wrong type under a tag, what is
raised is no `ValueError` (`decodeMsg_refuses_iff`).
-/

namespace NeuraHash.SafeCodec

open Py

/-! ## The order of the nodes -/

def Node.children : Node → List Json
  | .value _ => []
  | .array _ => []
  | .dict kvs => kvs.map Prod.snd
  | .tuple xs => xs
  | .list xs => xs
  | .moelm _ p => [p]

/-- The items of what is iterated over. -/
def items (x : Json) : List Json :=
  match x.toList with
  | .ok xs => xs
  | .error _ => []

/-- The nodes directly inside a node with these members. -/
def insideOf (node : Dict String Json) : List Json :=
  if let some _ := node.get? "$v" then []
  else if node.contains "$nd" then []
  else if let some x := node.get? "$d" then
    match x with
    | .obj kvs => (Json.dictOf kvs).values
    | _ => []
  else if let some x := node.get? "$t" then items x
  else if let some x := node.get? "$l" then items x
  else if let some x := node.get? "$moelm" then (x.get? "p").toList
  else []

def inside : Json → List Json
  | .obj kvs => insideOf (Json.dictOf kvs)
  | _ => []

/-- The nodes in the order they are read, each with what is left of the depth. -/
def walk : ℕ → Json → List (ℕ × Json)
  | 0, j => [(0, j)]
  | left + 1, j => (left + 1, j) :: (inside j).flatMap (walk left)

/-- What is counted at a node, and whether it is read. -/
def enter (lim : Limits) (buffers : List Bytes) (b : Budget) (v : ℕ × Json) : Except PyErr Budget :=
  match v.1 with
  | 0 => .error .valueError
  | _ + 1 => do
    let (_, b) ← openNode lim buffers v.2 b
    return b

section order

variable {lim : Limits} {buffers : List Bytes} {b b' : Budget} {node : Dict String Json} {n : Node}

/-- The tag that decides, with what is under it. -/
inductive Tag (node : Dict String Json) : Prop where
  | value (x : Json) (hv : node.get? "$v" = some x)
  | array (hv : node.get? "$v" = none) (hnd : node.contains "$nd" = true)
  | dict (x : Json) (hv : node.get? "$v" = none) (hnd : node.contains "$nd" = false)
      (hd : node.get? "$d" = some x)
  | tuple (x : Json) (hv : node.get? "$v" = none) (hnd : node.contains "$nd" = false)
      (hd : node.get? "$d" = none) (ht : node.get? "$t" = some x)
  | list (x : Json) (hv : node.get? "$v" = none) (hnd : node.contains "$nd" = false)
      (hd : node.get? "$d" = none) (ht : node.get? "$t" = none) (hl : node.get? "$l" = some x)
  | moelm (x : Json) (hv : node.get? "$v" = none) (hnd : node.contains "$nd" = false)
      (hd : node.get? "$d" = none) (ht : node.get? "$t" = none) (hl : node.get? "$l" = none)
      (hm : node.get? "$moelm" = some x)
  | unknown (hv : node.get? "$v" = none) (hnd : node.contains "$nd" = false)
      (hd : node.get? "$d" = none) (ht : node.get? "$t" = none) (hl : node.get? "$l" = none)
      (hm : node.get? "$moelm" = none)

theorem tag (node : Dict String Json) : Tag node := by
  cases hv : node.get? "$v" with
  | some x => exact .value x hv
  | none =>
    cases hnd : node.contains "$nd" with
    | true => exact .array hv hnd
    | false =>
      cases hd : node.get? "$d" with
      | some x => exact .dict x hv hnd hd
      | none =>
        cases ht : node.get? "$t" with
        | some x => exact .tuple x hv hnd hd ht
        | none =>
          cases hl : node.get? "$l" with
          | some x => exact .list x hv hnd hd ht hl
          | none =>
            cases hm : node.get? "$moelm" with
            | some x => exact .moelm x hv hnd hd ht hl hm
            | none => exact .unknown hv hnd hd ht hl hm

theorem get?_of_item {x p : Json} {k : String} (h : x.item k = .ok p) : x.get? k = some p := by
  unfold Json.item at h
  unfold Json.get?
  split at h
  · split at h
    · next heq =>
      cases h
      exact heq
    · cases h
  · cases h

theorem openMoelm_inside {x p : Json} {hp : Hyper} (h : openMoelm lim x = .ok (hp, p)) :
    x.get? "p" = some p := by
  unfold openMoelm at h
  obtain ⟨hp', -, h⟩ := bind_eq_ok.mp h
  obtain ⟨h', -, h⟩ := bind_eq_ok.mp h
  obtain ⟨_, -, h⟩ := bind_eq_ok.mp h
  obtain ⟨p', hitem, h⟩ := bind_eq_ok.mp h
  cases h
  exact get?_of_item hitem

theorem openArray_ok (h : openArray lim buffers node b = .ok (n, b')) :
    ∃ a dtype ds, node.getD "dtype" .null = .str dtype ∧
      described? buffers dtype (node.getD "shape" .null) (node.getD "$nd" .null) = some (a, ds) ∧
      b.elems + a.shape.prod ≤ lim.maxElems ∧ n = .array a ∧
      b' = { b with elems := b.elems + a.shape.prod } ∧ reshape lim a ds = .ok a := by
  unfold openArray at h
  split at h
  · next dtype hdtype =>
    split at h
    · cases h
    · next a ds hdescribed =>
      dsimp only at h
      split at h
      · cases h
      · next hle =>
        obtain ⟨a', hreshape, h⟩ := bind_eq_ok.mp h
        have hsame : a' = a := by
          unfold reshape at hreshape
          split at hreshape
          · cases hreshape
          · split at hreshape
            · exact (Except.ok.inj hreshape).symm
            · cases hreshape
        cases h
        exact ⟨a, dtype, ds, hdtype, hdescribed, not_lt.mp hle, by rw [hsame], rfl, hsame ▸ hreshape⟩
  · cases h
  · cases h
  · cases h

theorem items_of_toList {x : Json} {xs : List Json} (h : x.toList = .ok xs) : items x = xs := by
  unfold items
  rw [h]

theorem openTagged_inside (h : openTagged lim buffers node b = .ok (n, b')) :
    n.children = insideOf node := by
  cases tag node with
  | value x hv =>
    rw [openTagged_value hv] at h
    cases h
    unfold insideOf
    rw [hv]
    rfl
  | array hv hnd =>
    rw [openTagged_array hv hnd] at h
    obtain ⟨a, -, -, -, -, -, rfl, -⟩ := openArray_ok h
    unfold insideOf
    rw [hv, hnd]
    rfl
  | dict x hv hnd hd =>
    rw [openTagged_dict hv hnd hd] at h
    unfold openDict at h
    split at h
    · next kvs =>
      cases h
      unfold insideOf
      rw [hv, hnd, hd]
      rfl
    · cases h
  | tuple x hv hnd hd ht =>
    rw [openTagged_tuple hv hnd hd ht] at h
    obtain ⟨xs, hxs, h⟩ := bind_eq_ok.mp h
    cases h
    unfold insideOf
    rw [hv, hnd, hd, ht]
    exact (items_of_toList hxs).symm
  | list x hv hnd hd ht hl =>
    rw [openTagged_list hv hnd hd ht hl] at h
    obtain ⟨xs, hxs, h⟩ := bind_eq_ok.mp h
    cases h
    unfold insideOf
    rw [hv, hnd, hd, ht, hl]
    exact (items_of_toList hxs).symm
  | moelm x hv hnd hd ht hl hm =>
    rw [openTagged_moelm hv hnd hd ht hl hm] at h
    obtain ⟨⟨hp, p⟩, hopen, h⟩ := bind_eq_ok.mp h
    cases h
    unfold insideOf
    rw [hv, hnd, hd, ht, hl, hm]
    show [p] = (x.get? "p").toList
    rw [openMoelm_inside hopen]
    rfl
  | unknown hv hnd hd ht hl hm =>
    rw [openTagged_unknown hv hnd hd ht hl hm] at h
    cases h

theorem openNode_inside {j : Json} (h : openNode lim buffers j b = .ok (n, b')) :
    n.children = inside j := by
  unfold openNode at h
  dsimp only at h
  split at h
  · cases h
  split at h
  · next kvs =>
    split at h
    · cases h
    · exact openTagged_inside h
  · cases h

/-! ## Decoding as a pass over the nodes -/

/-- What is counted when a step returns. -/
def counted {α : Type} (x : Except PyErr (α × Budget)) : Except PyErr Budget := x.map Prod.snd

theorem counted_bind {α β : Type} (x : Except PyErr (α × Budget))
    (f : α × Budget → Except PyErr (β × Budget)) (g : Budget → Except PyErr Budget)
    (h : ∀ a b, counted (f (a, b)) = g b) : counted (x >>= f) = counted x >>= g := by
  cases x with
  | error e => rfl
  | ok r => exact h r.1 r.2

theorem decAll_walk {left : ℕ} {js : List Json} (b : Budget)
    (h : ∀ j b, counted (dec lim buffers left j b) = (walk left j).foldlM (enter lim buffers) b) :
    counted (decAll (dec lim buffers left) js b)
      = (js.flatMap (walk left)).foldlM (enter lim buffers) b := by
  induction js generalizing b with
  | nil => rfl
  | cons j js ih =>
    rw [decAll, List.flatMap_cons, List.foldlM_append, ← h]
    refine counted_bind _ _ _ fun o b => ?_
    dsimp only
    rw [← ih]
    cases decAll (dec lim buffers left) js b with
    | error e => rfl
    | ok r => rfl

/-- **`dec` reads the nodes one after the other.** -/
theorem dec_walk (left : ℕ) (j : Json) (b : Budget) :
    counted (dec lim buffers left j b) = (walk left j).foldlM (enter lim buffers) b := by
  induction left generalizing j b with
  | zero => rfl
  | succ left ih =>
    have hstep : enter lim buffers b (left + 1, j) = counted (openNode lim buffers j b) := by
      unfold enter
      cases openNode lim buffers j b with
      | error e => rfl
      | ok r => rfl
    rw [dec, walk, List.foldlM_cons, hstep]
    cases hopen : openNode lim buffers j b with
    | error e => rfl
    | ok r =>
      obtain ⟨n, b'⟩ := r
      rw [← openNode_inside hopen]
      show _ = (n.children.flatMap (walk left)).foldlM (enter lim buffers) b'
      rw [← decAll_walk b' ih, ok_bind]
      cases n with
      | value v => rfl
      | array a => rfl
      | dict kvs =>
        dsimp only [Node.children]
        cases decAll (dec lim buffers left) (kvs.map Prod.snd) b' <;> rfl
      | tuple xs =>
        dsimp only [Node.children]
        cases decAll (dec lim buffers left) xs b' <;> rfl
      | list xs =>
        dsimp only [Node.children]
        cases decAll (dec lim buffers left) xs b' <;> rfl
      | moelm hp p =>
        dsimp only [Node.children]
        rw [decAll]
        cases dec lim buffers left p b' <;> rfl

/-! ## What is wrong at a node -/

/-- A step returns in the one case, raises something else than `ValueError` in the other, and
`ValueError` where neither holds. -/
structure Sorts {α : Type} (x : Except PyErr α) (fine fault : Prop) : Prop where
  returns_iff : (∃ a, x = .ok a) ↔ fine
  raises_iff : (∃ e, x = .error e ∧ e ≠ .valueError) ↔ fault

namespace Sorts

variable {α β : Type} {x : Except PyErr α} {fine fault fine' fault' : Prop}

theorem ok {a : α} (h : fine) (h' : ¬ fault) : Sorts (.ok a) fine fault :=
  ⟨iff_of_true ⟨a, rfl⟩ h, iff_of_false (fun ⟨e, he, _⟩ => by cases he) h'⟩

theorem refused (h : ¬ fine) (h' : ¬ fault) : Sorts (.error .valueError : Except PyErr α) fine fault :=
  ⟨iff_of_false (fun ⟨a, ha⟩ => by cases ha) h, iff_of_false (fun ⟨e, he, hne⟩ => by
    cases he
    exact hne rfl) h'⟩

theorem raised {e : PyErr} (he : e ≠ .valueError) (h : ¬ fine) (h' : fault) :
    Sorts (.error e : Except PyErr α) fine fault :=
  ⟨iff_of_false (fun ⟨a, ha⟩ => by cases ha) h, iff_of_true ⟨e, rfl, he⟩ h'⟩

theorem congr (h : Sorts x fine fault) (hfine : fine ↔ fine') (hfault : fault ↔ fault') :
    Sorts x fine' fault' :=
  ⟨h.returns_iff.trans hfine, h.raises_iff.trans hfault⟩

/-- What follows and only returns changes neither case. -/
theorem andThen (h : Sorts x fine fault) (f : α → β) :
    Sorts (x >>= fun a => .ok (f a)) fine fault := by
  cases x with
  | ok a =>
    exact ⟨(iff_of_true ⟨_, rfl⟩ ⟨a, rfl⟩).trans h.returns_iff,
      (iff_of_false (fun ⟨e, he, _⟩ => by cases he) fun ⟨e, he, _⟩ => by cases he).trans h.raises_iff⟩
  | error e =>
    refine ⟨(iff_of_false (fun ⟨a, ha⟩ => by cases ha) fun ⟨a, ha⟩ => by cases ha).trans
      h.returns_iff, Iff.trans ⟨?_, ?_⟩ h.raises_iff⟩
    · rintro ⟨e', he', hne⟩
      exact ⟨e', congrArg Except.error (Except.error.inj he'), hne⟩
    · rintro ⟨e', he', hne⟩
      exact ⟨e', congrArg Except.error (Except.error.inj he'), hne⟩

end Sorts

def iterable : Json → Bool
  | .str _ => true
  | .arr _ => true
  | .obj _ => true
  | _ => false

theorem sorts_toList (x : Json) : Sorts x.toList (iterable x = true) (iterable x = false) := by
  cases x <;>
    first
      | exact .ok rfl Bool.noConfusion
      | exact .raised (by decide) Bool.noConfusion rfl

/-- A hyperparameter: an integer, or a `bool`, from 1 to 100000. -/
def inRange? : Json → Option ℤ
  | .int n => if 1 ≤ n ∧ n ≤ 100000 then some n else none
  | .bool b => if b then some 1 else none
  | _ => none

def hyper? (hp : Json) (f : String) : Option ℤ := (hp.get? f).bind inRange?

/-- The hyperparameters of a model that is not too large. -/
def hypers? (lim : Limits) (hp : Json) : Option Hyper := do
  let C ← hyper? hp "C"
  let Demb ← hyper? hp "Demb"
  let H ← hyper? hp "H"
  let Do ← hyper? hp "Do"
  let E ← hyper? hp "E"
  if moelmParamEstimate ⟨C, Demb, H, Do, E⟩ ≤ lim.maxParams then some ⟨C, Demb, H, Do, E⟩ else none

/-- A dimension of the model's arrays that is a `bool`. -/
def boolDimension (hp : Json) : Bool :=
  ["Demb", "H", "Do", "E"].any fun f => (hp.get? f).any isBool

/-- A model can be built and has parameters. -/
def MoelmFine (lim : Limits) (x : Json) : Prop :=
  ∃ hp, x.get? "hp" = some hp ∧ (∃ h, hypers? lim hp = some h) ∧ boolDimension hp = false ∧
    ∃ p, x.get? "p" = some p

/-- There are no hyperparameters, they are no object, or they are in range but one that is a
dimension is a `bool` or the parameters are missing. -/
def MoelmFault (lim : Limits) (x : Json) : Prop :=
  x.get? "hp" = none ∨ ∃ hp, x.get? "hp" = some hp ∧
    (hp.isObj = false ∨
      (∃ h, hypers? lim hp = some h) ∧ (boolDimension hp = true ∨ x.get? "p" = none))

theorem item_eq {x : Json} {k : String} :
    (∃ p, x.item k = .ok p ∧ x.get? k = some p) ∨
      ∃ e, x.item k = .error e ∧ e ≠ .valueError ∧ x.get? k = none := by
  unfold Json.item Json.get?
  split
  · split
    · next heq => exact .inl ⟨_, rfl, heq⟩
    · next heq => exact .inr ⟨_, rfl, by decide, heq⟩
  · exact .inr ⟨_, rfl, by decide, rfl⟩

theorem hyper_eq {hp : Json} (hobj : hp.isObj = true) (f : String) :
    hyper hp f = match hyper? hp f with
      | some n => .ok n
      | none => .error .valueError := by
  cases hp with
  | obj kvs =>
    have hget : Json.get? (.obj kvs) f = (Json.dictOf kvs).get? f := rfl
    have hgetD : Json.getD (.obj kvs) f .null = .ok (((Json.dictOf kvs).get? f).getD .null) := rfl
    unfold hyper hyper?
    rw [hget, hgetD, ok_bind]
    cases (Json.dictOf kvs).get? f with
    | none => rfl
    | some x =>
      cases x with
      | int n =>
        show (if 1 ≤ n ∧ n ≤ 100000 then Except.ok n else .error PyErr.valueError)
          = match (if 1 ≤ n ∧ n ≤ 100000 then some n else none) with
            | some n => .ok n
            | none => .error .valueError
        split <;> rfl
      | bool b => cases b <;> rfl
      | _ => rfl
  | _ => cases hobj

theorem hyper_of_not_obj {hp : Json} (hobj : hp.isObj = false) (f : String) :
    hyper hp f = .error .attributeError := by
  unfold hyper
  cases hp with
  | obj kvs => cases hobj
  | _ => rfl

theorem readHypers_eq {hp : Json} (hobj : hp.isObj = true) :
    readHypers lim hp = match hypers? lim hp with
      | some h => .ok h
      | none => .error .valueError := by
  unfold readHypers hypers?
  simp only [hyper_eq hobj]
  cases hyper? hp "C" with
  | none => rfl
  | some C =>
    cases hyper? hp "Demb" with
    | none => rfl
    | some Demb =>
      cases hyper? hp "H" with
      | none => rfl
      | some H =>
        cases hyper? hp "Do" with
        | none => rfl
        | some Do =>
          cases hyper? hp "E" with
          | none => rfl
          | some E =>
            by_cases hle : moelmParamEstimate ⟨C, Demb, H, Do, E⟩ ≤ lim.maxParams
            · simp only [ok_bind, Option.bind_eq_bind, Option.bind_some, if_pos hle]
            · simp only [ok_bind, Option.bind_eq_bind, Option.bind_some, if_neg hle]

theorem sorts_openMoelm (x : Json) :
    Sorts (openMoelm lim x) (MoelmFine lim x) (MoelmFault lim x) := by
  unfold openMoelm
  rcases item_eq (x := x) (k := "hp") with ⟨hp, hitem, hget⟩ | ⟨e, hitem, hne, hget⟩
  swap
  · rw [hitem]
    exact .raised hne (fun ⟨hp, hhp, _⟩ => by rw [hget] at hhp; cases hhp) (.inl hget)
  have hfine : (∃ h, hypers? lim hp = some h) ∧ boolDimension hp = false ∧
      (∃ p, x.get? "p" = some p) ↔ MoelmFine lim x := by
    refine ⟨fun h => ⟨hp, hget, h⟩, ?_⟩
    rintro ⟨hp', hhp', h⟩
    cases hget.symm.trans hhp'
    exact h
  have hfault : hp.isObj = false ∨ (∃ h, hypers? lim hp = some h) ∧
      (boolDimension hp = true ∨ x.get? "p" = none) ↔ MoelmFault lim x := by
    refine ⟨fun h => .inr ⟨hp, hget, h⟩, ?_⟩
    rintro (hnone | ⟨hp', hhp', h⟩)
    · cases hget.symm.trans hnone
    · cases hget.symm.trans hhp'
      exact h
  refine Sorts.congr ?_ hfine hfault
  rw [hitem, ok_bind]
  cases hobj : hp.isObj with
  | false =>
    have hread : readHypers lim hp = .error .attributeError := by
      unfold readHypers
      rw [hyper_of_not_obj hobj]
      rfl
    have hnone : hypers? lim hp = none := by
      cases hp with
      | obj kvs => cases hobj
      | _ => rfl
    rw [hread, hnone]
    exact .raised (by decide) (fun ⟨⟨h, hh⟩, _⟩ => by cases hh) (.inl rfl)
  | true =>
    rw [readHypers_eq hobj]
    cases hypers? lim hp with
    | none =>
      refine .refused (fun ⟨⟨h, hh⟩, _⟩ => by cases hh) ?_
      rintro (h | ⟨⟨h, hh⟩, -⟩)
      · cases h
      · cases hh
    | some h =>
      rw [ok_bind]
      unfold construct
      cases hbool : boolDimension hp with
      | true =>
        rw [if_pos (show ["Demb", "H", "Do", "E"].any _ = true from hbool)]
        exact .raised (by decide) (fun h => by cases h.2.1) (.inr ⟨⟨h, rfl⟩, .inl rfl⟩)
      | false =>
        have hints : ¬ ["Demb", "H", "Do", "E"].any (fun f => (hp.get? f).any isBool) = true :=
          fun h => by cases hbool.symm.trans h
        rw [if_neg hints, ok_bind]
        rcases item_eq (x := x) (k := "p") with ⟨p, hp, hgetp⟩ | ⟨e, hp, hne, hgetp⟩
        · rw [hp]
          refine .ok ⟨⟨h, rfl⟩, rfl, p, hgetp⟩ ?_
          rintro (hfalse | ⟨-, hfalse | hnone⟩)
          · cases hfalse
          · cases hfalse
          · cases hgetp.symm.trans hnone
        · rw [hp]
          refine .raised hne ?_ (.inr ⟨⟨h, rfl⟩, .inr hgetp⟩)
          rintro ⟨-, -, p, hp'⟩
          cases hgetp.symm.trans hp'

/-! ## Arrays -/

/-- The array of a node, with its dimensions as they are written. -/
def arrayAt? (buffers : List Bytes) (node : Dict String Json) : Option (NdArray × List Json) :=
  match node.getD "dtype" .null with
  | .str dtype => described? buffers dtype (node.getD "shape" .null) (node.getD "$nd" .null)
  | _ => none

/-- The type of the elements is a list or a dict, or a dimension of an array is a `bool`. -/
def ArrayFault (buffers : List Bytes) (node : Dict String Json) : Prop :=
  (∃ xs, node.getD "dtype" .null = .arr xs) ∨ (∃ kvs, node.getD "dtype" .null = .obj kvs) ∨
    ∃ a ds, arrayAt? buffers node = some (a, ds) ∧ ds.any isBool = true

def ArrayFine (lim : Limits) (buffers : List Bytes) (node : Dict String Json) : Prop :=
  ∃ a ds, arrayAt? buffers node = some (a, ds) ∧ ds.any isBool = false ∧ lim.canShape a.shape = true

/-- The elements of the array at a node. -/
def elemsOf (buffers : List Bytes) (node : Dict String Json) : ℕ :=
  if (node.get? "$v").isSome then 0
  else if node.contains "$nd" then (arrayAt? buffers node).elim 0 fun a => a.1.shape.prod
  else 0

theorem sorts_openArray (hv : node.get? "$v" = none) (hnd : node.contains "$nd" = true)
    (hb : b.elems ≤ lim.maxElems) :
    Sorts (openArray lim buffers node b)
      (ArrayFine lim buffers node ∧ b.elems + elemsOf buffers node ≤ lim.maxElems)
      (ArrayFault buffers node ∧ b.elems + elemsOf buffers node ≤ lim.maxElems) := by
  have helems : elemsOf buffers node = (arrayAt? buffers node).elim 0 fun a => a.1.shape.prod := by
    unfold elemsOf
    rw [hv, hnd]
    rfl
  cases hdtype : node.getD "dtype" .null with
  | str dtype =>
    have hat : arrayAt? buffers node
        = described? buffers dtype (node.getD "shape" .null) (node.getD "$nd" .null) := by
      unfold arrayAt?
      rw [hdtype]
    unfold openArray ArrayFault ArrayFine
    rw [helems, hdtype]
    dsimp only
    rw [← hat]
    cases arrayAt? buffers node with
    | none =>
      refine .refused (fun ⟨⟨a, ds, h, _⟩, _⟩ => by cases h) ?_
      rintro ⟨⟨xs, h⟩ | ⟨kvs, h⟩ | ⟨a, ds, h, -⟩, -⟩ <;> cases h
    | some r =>
      obtain ⟨a, ds⟩ := r
      dsimp only [Option.elim]
      by_cases hle : b.elems + a.shape.prod ≤ lim.maxElems
      swap
      · rw [if_pos (not_le.mp hle)]
        exact .refused (fun h => hle h.2) fun h => hle h.2
      rw [if_neg (not_lt.mpr hle)]
      unfold reshape
      cases hbool : ds.any isBool with
      | true =>
        refine .raised (by decide) ?_ ⟨.inr (.inr ⟨a, ds, rfl, hbool⟩), hle⟩
        rintro ⟨⟨a', ds', h, hfalse, -⟩, -⟩
        cases h
        cases hbool.symm.trans hfalse
      | false =>
        have hnot : ¬ ((∃ xs, Json.str dtype = .arr xs) ∨ (∃ kvs, Json.str dtype = .obj kvs) ∨
            ∃ a' ds', some (a, ds) = some (a', ds') ∧ ds'.any isBool = true) := by
          rintro (⟨xs, h⟩ | ⟨kvs, h⟩ | ⟨a', ds', h, htrue⟩)
          · cases h
          · cases h
          · cases h
            cases hbool.symm.trans htrue
        cases hcan : lim.canShape a.shape with
        | true => exact .ok ⟨⟨a, ds, rfl, hbool, hcan⟩, hle⟩ fun h => hnot h.1
        | false =>
          refine .refused ?_ fun h => hnot h.1
          rintro ⟨⟨a', ds', h, -, htrue⟩, -⟩
          cases h
          cases hcan.symm.trans htrue
  | arr xs =>
    have hat : arrayAt? buffers node = none := by
      unfold arrayAt?
      rw [hdtype]
    unfold openArray
    rw [helems, hdtype, hat]
    exact .raised (by decide) (fun ⟨⟨a, ds, h, _⟩, _⟩ => by cases hat.symm.trans h)
      ⟨.inl ⟨xs, hdtype⟩, hb⟩
  | obj kvs =>
    have hat : arrayAt? buffers node = none := by
      unfold arrayAt?
      rw [hdtype]
    unfold openArray
    rw [helems, hdtype, hat]
    exact .raised (by decide) (fun ⟨⟨a, ds, h, _⟩, _⟩ => by cases hat.symm.trans h)
      ⟨.inr (.inl ⟨kvs, hdtype⟩), hb⟩
  | _ =>
    have hat : arrayAt? buffers node = none := by
      unfold arrayAt?
      rw [hdtype]
    unfold openArray
    rw [hdtype]
    refine .refused (fun ⟨⟨a, ds, h, _⟩, _⟩ => by cases hat.symm.trans h) ?_
    rintro ⟨⟨xs, h⟩ | ⟨kvs, h⟩ | ⟨a, ds, h, -⟩, -⟩
    · cases hdtype.symm.trans h
    · cases hdtype.symm.trans h
    · cases hat.symm.trans h

/-! ## A node is read, raises, or is refused -/

/-- A node that is read, but for what has been counted before it. -/
def Fine (lim : Limits) (buffers : List Bytes) (node : Dict String Json) : Prop :=
  match node.get? "$v" with
  | some _ => True
  | none =>
    if node.contains "$nd" then ArrayFine lim buffers node
    else match node.get? "$d" with
      | some x => x.isObj = true
      | none => match node.get? "$t" with
        | some x => iterable x = true
        | none => match node.get? "$l" with
          | some x => iterable x = true
          | none => match node.get? "$moelm" with
            | some x => MoelmFine lim x
            | none => False

/-- A node with a value of the wrong type where the code expects another. -/
def TypeFault (lim : Limits) (buffers : List Bytes) (node : Dict String Json) : Prop :=
  match node.get? "$v" with
  | some _ => False
  | none =>
    if node.contains "$nd" then ArrayFault buffers node
    else match node.get? "$d" with
      | some x => x.isObj = false
      | none => match node.get? "$t" with
        | some x => iterable x = false
        | none => match node.get? "$l" with
          | some x => iterable x = false
          | none => match node.get? "$moelm" with
            | some x => MoelmFault lim x
            | none => False

theorem elemsOf_of_not_array (hnd : node.contains "$nd" = false) : elemsOf buffers node = 0 := by
  unfold elemsOf
  rw [hnd]
  split <;> rfl

theorem sorts_openDict (x : Json) (b : Budget) :
    Sorts (openDict x b) (x.isObj = true) (x.isObj = false) := by
  cases x with
  | obj kvs => exact .ok rfl Bool.noConfusion
  | _ => exact .raised (by decide) Bool.noConfusion rfl

theorem sorts_openTagged (hb : b.elems ≤ lim.maxElems) :
    Sorts (openTagged lim buffers node b)
      (Fine lim buffers node ∧ b.elems + elemsOf buffers node ≤ lim.maxElems)
      (TypeFault lim buffers node ∧ b.elems + elemsOf buffers node ≤ lim.maxElems) := by
  unfold Fine TypeFault
  cases tag node with
  | value x hv =>
    have hnone : elemsOf buffers node = 0 := by
      unfold elemsOf
      rw [hv]
      rfl
    rw [openTagged_value hv, hnone, hv]
    exact .ok ⟨trivial, hb⟩ fun h => h.1
  | array hv hnd =>
    rw [openTagged_array hv hnd]
    have hsorts : Sorts (openArray lim buffers node b) _ _ := sorts_openArray hv hnd hb
    rw [hv, hnd]
    exact hsorts
  | dict x hv hnd hd =>
    have hnone : elemsOf buffers node = 0 := elemsOf_of_not_array hnd
    rw [openTagged_dict hv hnd hd, hnone, hv, hnd, hd]
    exact (sorts_openDict x b).congr (and_iff_left hb).symm (and_iff_left hb).symm
  | tuple x hv hnd hd ht =>
    have hnone : elemsOf buffers node = 0 := elemsOf_of_not_array hnd
    rw [openTagged_tuple hv hnd hd ht, hnone, hv, hnd, hd, ht]
    exact ((sorts_toList x).andThen fun xs => (Node.tuple xs, b)).congr (and_iff_left hb).symm
      (and_iff_left hb).symm
  | list x hv hnd hd ht hl =>
    have hnone : elemsOf buffers node = 0 := elemsOf_of_not_array hnd
    rw [openTagged_list hv hnd hd ht hl, hnone, hv, hnd, hd, ht, hl]
    exact ((sorts_toList x).andThen fun xs => (Node.list xs, b)).congr (and_iff_left hb).symm
      (and_iff_left hb).symm
  | moelm x hv hnd hd ht hl hm =>
    have hnone : elemsOf buffers node = 0 := elemsOf_of_not_array hnd
    rw [openTagged_moelm hv hnd hd ht hl hm, hnone, hv, hnd, hd, ht, hl, hm]
    exact ((sorts_openMoelm x).andThen fun r => (Node.moelm r.1 r.2, b)).congr (and_iff_left hb).symm
      (and_iff_left hb).symm
  | unknown hv hnd hd ht hl hm =>
    rw [openTagged_unknown hv hnd hd ht hl hm, hv, hnd, hd, ht, hl, hm]
    exact .refused (fun h => h.1) fun h => h.1

/-- What is counted at a node that is read. -/
theorem openTagged_counted (h : openTagged lim buffers node b = .ok (n, b')) :
    b' = ⟨b.nodes, b.elems + elemsOf buffers node⟩ := by
  cases tag node with
  | value x hv =>
    have hnone : elemsOf buffers node = 0 := by
      unfold elemsOf
      rw [hv]
      rfl
    rw [openTagged_value hv] at h
    cases h
    rw [hnone]
    rfl
  | array hv hnd =>
    rw [openTagged_array hv hnd] at h
    obtain ⟨a, dtype, ds, hdtype, hdescribed, -, -, rfl, -⟩ := openArray_ok h
    have helems : elemsOf buffers node = a.shape.prod := by
      unfold elemsOf arrayAt?
      rw [hv, hnd, hdtype]
      dsimp only
      rw [hdescribed]
      rfl
    rw [helems]
  | dict x hv hnd hd =>
    rw [openTagged_dict hv hnd hd] at h
    unfold openDict at h
    split at h
    · cases h
      rw [elemsOf_of_not_array hnd]
      rfl
    · cases h
  | tuple x hv hnd hd ht =>
    rw [openTagged_tuple hv hnd hd ht] at h
    obtain ⟨xs, -, h⟩ := bind_eq_ok.mp h
    cases h
    rw [elemsOf_of_not_array hnd]
    rfl
  | list x hv hnd hd ht hl =>
    rw [openTagged_list hv hnd hd ht hl] at h
    obtain ⟨xs, -, h⟩ := bind_eq_ok.mp h
    cases h
    rw [elemsOf_of_not_array hnd]
    rfl
  | moelm x hv hnd hd ht hl hm =>
    rw [openTagged_moelm hv hnd hd ht hl hm] at h
    obtain ⟨r, -, h⟩ := bind_eq_ok.mp h
    cases h
    rw [elemsOf_of_not_array hnd]
    rfl
  | unknown hv hnd hd ht hl hm =>
    rw [openTagged_unknown hv hnd hd ht hl hm] at h
    cases h

/-! ## A pass over the nodes -/

/-- The members of a node; no members where there is no object. -/
def members : Json → Dict String Json
  | .obj kvs => Json.dictOf kvs
  | _ => ∅

/-- A node within the depth that is read. -/
def FineAt (lim : Limits) (buffers : List Bytes) (v : ℕ × Json) : Prop :=
  v.1 ≠ 0 ∧ Fine lim buffers (members v.2)

/-- A node within the depth with a value of the wrong type. -/
def FaultAt (lim : Limits) (buffers : List Bytes) (v : ℕ × Json) : Prop :=
  v.1 ≠ 0 ∧ TypeFault lim buffers (members v.2)

def elemsAt (buffers : List Bytes) (v : ℕ × Json) : ℕ := elemsOf buffers (members v.2)

/-- The elements of the arrays at nodes. -/
def elemsIn (buffers : List Bytes) (vs : List (ℕ × Json)) : ℕ := (vs.map (elemsAt buffers)).sum

theorem fine_empty : ¬ Fine lim buffers ∅ := id

theorem typeFault_empty : ¬ TypeFault lim buffers ∅ := id

theorem sorts_openNode {j : Json} (hb : b.elems ≤ lim.maxElems) :
    Sorts (openNode lim buffers j b)
      (Fine lim buffers (members j) ∧ b.nodes + 1 ≤ lim.maxNodes ∧
        b.elems + elemsOf buffers (members j) ≤ lim.maxElems)
      (TypeFault lim buffers (members j) ∧ b.nodes + 1 ≤ lim.maxNodes ∧
        b.elems + elemsOf buffers (members j) ≤ lim.maxElems) := by
  unfold openNode
  dsimp only
  by_cases hnodes : b.nodes + 1 ≤ lim.maxNodes
  swap
  · rw [if_pos (not_le.mp hnodes)]
    exact .refused (fun h => hnodes h.2.1) fun h => hnodes h.2.1
  rw [if_neg (not_lt.mpr hnodes)]
  cases j with
  | obj kvs =>
    dsimp only
    by_cases hnil : kvs = []
    · subst hnil
      exact .refused (fun h => fine_empty h.1) fun h => typeFault_empty h.1
    · rw [if_neg hnil]
      have hsorts : Sorts (openTagged lim buffers (Json.dictOf kvs) ⟨b.nodes + 1, b.elems⟩) _ _ :=
        sorts_openTagged hb
      exact hsorts.congr (and_congr_right fun _ => (and_iff_right hnodes).symm)
        (and_congr_right fun _ => (and_iff_right hnodes).symm)
  | _ => exact .refused (fun h => fine_empty h.1) fun h => typeFault_empty h.1

theorem openNode_counted {j : Json} (h : openNode lim buffers j b = .ok (n, b')) :
    b' = ⟨b.nodes + 1, b.elems + elemsOf buffers (members j)⟩ := by
  unfold openNode at h
  dsimp only at h
  split at h
  · cases h
  split at h
  · split at h
    · cases h
    · exact openTagged_counted h
  · cases h

theorem sorts_enter {v : ℕ × Json} (hb : b.elems ≤ lim.maxElems) :
    Sorts (enter lim buffers b v)
      (FineAt lim buffers v ∧ b.nodes + 1 ≤ lim.maxNodes ∧
        b.elems + elemsAt buffers v ≤ lim.maxElems)
      (FaultAt lim buffers v ∧ b.nodes + 1 ≤ lim.maxNodes ∧
        b.elems + elemsAt buffers v ≤ lim.maxElems) := by
  obtain ⟨left, j⟩ := v
  cases left with
  | zero => exact .refused (fun h => h.1.1 rfl) fun h => h.1.1 rfl
  | succ left =>
    have hsorts : Sorts (openNode lim buffers j b) _ _ := sorts_openNode hb
    exact (hsorts.andThen Prod.snd).congr
      (and_congr_left' (and_iff_right (Nat.succ_ne_zero left)).symm)
      (and_congr_left' (and_iff_right (Nat.succ_ne_zero left)).symm)

theorem enter_counted {v : ℕ × Json} (h : enter lim buffers b v = .ok b') :
    b' = ⟨b.nodes + 1, b.elems + elemsAt buffers v⟩ := by
  obtain ⟨left, j⟩ := v
  cases left with
  | zero => cases h
  | succ left =>
    obtain ⟨r, hopen, h⟩ := bind_eq_ok.mp h
    cases h
    exact openNode_counted hopen

/-- Nodes before the first that is not read, which has a value of the wrong type. -/
def Reached (lim : Limits) (buffers : List Bytes) (b : Budget) (vs : List (ℕ × Json)) : Prop :=
  ∃ before v after, vs = before ++ v :: after ∧ (∀ u ∈ before, FineAt lim buffers u) ∧
    FaultAt lim buffers v ∧ b.nodes + before.length + 1 ≤ lim.maxNodes ∧
    b.elems + elemsIn buffers (before ++ [v]) ≤ lim.maxElems

theorem reached_cons {v : ℕ × Json} {vs : List (ℕ × Json)} :
    Reached lim buffers b (v :: vs) ↔
      (FaultAt lim buffers v ∧ b.nodes + 1 ≤ lim.maxNodes ∧
          b.elems + elemsAt buffers v ≤ lim.maxElems) ∨
        FineAt lim buffers v ∧ Reached lim buffers ⟨b.nodes + 1, b.elems + elemsAt buffers v⟩ vs := by
  constructor
  · rintro ⟨before, w, after, heq, hfine, hfault, hnodes, helems⟩
    cases before with
    | nil =>
      cases heq
      exact .inl ⟨hfault, hnodes, by simpa [elemsIn] using helems⟩
    | cons u before =>
      cases heq
      refine .inr ⟨hfine v List.mem_cons_self, before, w, after, rfl,
        fun u hu => hfine u (List.mem_cons_of_mem v hu), hfault, ?_, ?_⟩
      · rw [List.length_cons] at hnodes
        show b.nodes + 1 + _ + 1 ≤ _
        omega
      · unfold elemsIn at helems ⊢
        rw [List.cons_append, List.map_cons, List.sum_cons] at helems
        show b.elems + elemsAt buffers v + _ ≤ _
        omega
  · rintro (⟨hfault, hnodes, helems⟩ | ⟨hfine, before, w, after, rfl, hbefore, hfault, hnodes, helems⟩)
    · refine ⟨[], v, vs, rfl, fun u hu => absurd hu List.not_mem_nil, hfault, hnodes, ?_⟩
      simpa [elemsIn] using helems
    · refine ⟨v :: before, w, after, rfl, List.forall_mem_cons.mpr ⟨hfine, hbefore⟩, hfault, ?_, ?_⟩
      · rw [List.length_cons]
        have : b.nodes + 1 + before.length + 1 ≤ lim.maxNodes := hnodes
        omega
      · unfold elemsIn at helems ⊢
        rw [List.cons_append, List.map_cons, List.sum_cons]
        have : b.elems + elemsAt buffers v + _ ≤ lim.maxElems := helems
        omega

theorem Reached.first {v : ℕ × Json} {vs : List (ℕ × Json)}
    (h : Reached lim buffers ⟨b.nodes + 1, b.elems + elemsAt buffers v⟩ vs) :
    b.nodes + 1 ≤ lim.maxNodes ∧ b.elems + elemsAt buffers v ≤ lim.maxElems := by
  obtain ⟨before, w, after, -, -, -, hnodes, helems⟩ := h
  have h₁ : b.nodes + 1 + before.length + 1 ≤ lim.maxNodes := hnodes
  have h₂ : b.elems + elemsAt buffers v + _ ≤ lim.maxElems := helems
  omega

/-- **A pass raises something else than `ValueError` where it reaches a value of the wrong type.** -/
theorem foldlM_enter_raises_iff {vs : List (ℕ × Json)} (hb : b.elems ≤ lim.maxElems) :
    (∃ e, vs.foldlM (enter lim buffers) b = .error e ∧ e ≠ .valueError)
      ↔ Reached lim buffers b vs := by
  induction vs generalizing b with
  | nil =>
    refine iff_of_false (fun ⟨e, he, _⟩ => by cases he) ?_
    rintro ⟨before, v, after, heq, -⟩
    cases before <;> cases heq
  | cons v vs ih =>
    have hsorts : Sorts (enter lim buffers b v) _ _ := sorts_enter hb
    rw [List.foldlM_cons, reached_cons]
    cases henter : enter lim buffers b v with
    | error e =>
      rw [henter] at hsorts
      refine hsorts.raises_iff.trans (or_iff_left ?_).symm
      rintro ⟨hfine, hreached⟩
      obtain ⟨a, ha⟩ := hsorts.returns_iff.mpr ⟨hfine, hreached.first⟩
      cases ha
    | ok b₁ =>
      rw [henter] at hsorts
      have hcounted := enter_counted henter
      subst hcounted
      obtain ⟨hfine, -, helems⟩ := hsorts.returns_iff.mp ⟨_, rfl⟩
      refine (ih helems).trans ⟨fun h => .inr ⟨hfine, h⟩, ?_⟩
      rintro (hfault | ⟨-, h⟩)
      · obtain ⟨e, he, -⟩ := hsorts.raises_iff.mpr hfault
        cases he
      · exact h

end order

/-! ## Frames that are refused -/

section frames

variable {T : PyText} {H : Hmac} {lim : Limits} {data : Bytes} {key : Option Bytes}

/-- Nothing but `ValueError` is raised. -/
def OnlyValueError {α : Type} (x : Except PyErr α) : Prop := ∀ e, x = .error e → e = .valueError

theorem OnlyValueError.bind {α β : Type} {x : Except PyErr α} {f : α → Except PyErr β}
    (h : OnlyValueError x) (hf : ∀ a, x = .ok a → OnlyValueError (f a)) : OnlyValueError (x >>= f) := by
  intro e he
  cases x with
  | error e' => exact h e (congrArg Except.error (Except.error.inj he))
  | ok a => exact hf a rfl e he

theorem onlyValueError_authenticate : OnlyValueError (authenticate H data key) := by
  intro e h
  unfold authenticate at h
  split at h
  · cases h
  · split at h
    · exact (Except.error.inj h).symm
    · split at h
      · cases h
      · exact (Except.error.inj h).symm

theorem onlyValueError_loads (text : String) : OnlyValueError (Json.loads T text) := by
  intro e h
  unfold Json.loads at h
  split at h
  · split at h
    · cases h
    · exact (Except.error.inj h).symm
  · exact (Except.error.inj h).symm

theorem onlyValueError_readBuffers (rest : Bytes) : OnlyValueError (readBuffers rest) := by
  induction rest using readBuffers.induct with
  | case1 rest h n hlt =>
    intro e he
    rw [readBuffers, dif_pos h, if_pos hlt] at he
    exact (Except.error.inj he).symm
  | case2 rest h n hlt ih =>
    rw [readBuffers, dif_pos h, if_neg hlt]
    exact ih.bind fun bs _ e he => by cases he
  | case3 rest h =>
    intro e he
    rw [readBuffers, dif_neg h] at he
    cases he

theorem onlyValueError_openFrame : OnlyValueError (openFrame T data) := by
  have hbuffers : ∀ (rest : Bytes) (j : Json),
      OnlyValueError (readBuffers rest >>= fun bs => Except.ok (j, bs)) := fun rest j =>
    (onlyValueError_readBuffers rest).bind fun bs _ e he => by cases he
  unfold openFrame
  by_cases hshort : data.length < 4
  · rw [if_pos hshort]
    exact fun e he => (Except.error.inj he).symm
  rw [if_neg hshort]
  by_cases hlong : data.length - 4 < unpack (data.take 4)
  · rw [if_pos hlong]
    exact fun e he => (Except.error.inj he).symm
  rw [if_neg hlong]
  dsimp only
  cases decodeUtf8 ((data.drop 4).take (unpack (data.take 4))) with
  | none => exact fun e he => (Except.error.inj he).symm
  | some text => exact (onlyValueError_loads text).bind fun j _ => hbuffers _ j

/-- Something else than `ValueError` is raised where the pass over the metadata reaches a value of the
wrong type. -/
theorem dec_raises_iff {buffers : List Bytes} {j : Json} :
    (∃ e, dec lim buffers (maxDepth + 1) j ⟨0, 0⟩ = .error e ∧ e ≠ .valueError)
      ↔ Reached lim buffers ⟨0, 0⟩ (walk (maxDepth + 1) j) := by
  have hempty : (⟨0, 0⟩ : Budget).elems ≤ lim.maxElems := Nat.zero_le _
  rw [← foldlM_enter_raises_iff hempty, ← dec_walk]
  cases dec lim buffers (maxDepth + 1) j ⟨0, 0⟩ with
  | ok r => exact iff_of_false (fun ⟨e, he, _⟩ => by cases he) fun ⟨e, he, _⟩ => by cases he
  | error e =>
    constructor
    · rintro ⟨e', he', hne⟩
      exact ⟨e', congrArg Except.error (Except.error.inj he'), hne⟩
    · rintro ⟨e', he', hne⟩
      exact ⟨e', congrArg Except.error (Except.error.inj he'), hne⟩

end frames

/-! ## What a decoded value holds -/

/-- The value under `$v`, which is passed through. -/
def value? (node : Dict String Json) : Option Obj := (node.get? "$v").map ofJson

/-- The nodes of the value that a node of the metadata stands for, without those inside. -/
def weight (v : ℕ × Json) : ℕ := (value? (members v.2)).elim 1 Obj.nodes

/-- How deep the value at a node is nested, without the nodes inside. -/
def heightAt (v : ℕ × Json) : ℕ := (value? (members v.2)).elim 1 Obj.height

section sizes

variable {lim : Limits} {buffers : List Bytes} {b b' : Budget} {left : ℕ} {j : Json} {o : Obj}

/-- What a value made of the nodes `vs` holds, with `left` of the depth at its top. -/
structure MadeOf (buffers : List Bytes) (left : ℕ) (vs : List (ℕ × Json)) (o : Obj) : Prop where
  nodes_eq : o.nodes = (vs.map weight).sum
  elems_eq : o.elems = elemsIn buffers vs
  height_le : ∀ n, o.height ≤ n ↔ ∀ v ∈ vs, left - v.1 + heightAt v ≤ n

theorem elemsItems_eq_zero {xs : List Obj} (h : ∀ x ∈ xs, x.elems = 0) : Obj.elemsItems xs = 0 := by
  induction xs with
  | nil => rfl
  | cons x xs ih =>
    rw [Obj.elemsItems, h x List.mem_cons_self, ih fun y hy => h y (List.mem_cons_of_mem x hy)]

mutual

/-- A value of `json.loads` has no arrays inside. -/
theorem ofJson_elems : ∀ j, (ofJson j).elems = 0
  | .null => by rw [ofJson, Obj.elems]
  | .bool b => by rw [ofJson, Obj.elems]
  | .int n => by rw [ofJson, Obj.elems]
  | .float x => by rw [ofJson, Obj.elems]
  | .str s => by rw [ofJson, Obj.elems]
  | .arr xs => by
    rw [ofJson, Obj.elems]
    exact elemsItems_eq_zero (ofJsonItems_elems xs)
  | .obj kvs => by
    rw [ofJson, Obj.elems, Obj.elemsMembers_eq]
    refine elemsItems_eq_zero fun x hx => ?_
    obtain ⟨e, he, rfl⟩ := List.mem_map.mp hx
    -- an entry is one of the members that were read
    have hget := Dict.mem_entries_iff.mp he
    rw [Dict.get?_ofList] at hget
    exact ofJsonMembers_elems kvs e (List.mem_reverse.mp (Dict.mem_of_lookup hget))

theorem ofJsonItems_elems : ∀ xs, ∀ x ∈ ofJsonItems xs, x.elems = 0
  | [], x, hx => by
    rw [ofJsonItems] at hx
    exact absurd hx List.not_mem_nil
  | y :: ys, x, hx => by
    rw [ofJsonItems] at hx
    rcases List.mem_cons.mp hx with rfl | hx
    · exact ofJson_elems y
    · exact ofJsonItems_elems ys x hx

theorem ofJsonMembers_elems : ∀ kvs, ∀ e ∈ ofJsonMembers kvs, e.2.elems = 0
  | [], e, he => by
    rw [ofJsonMembers] at he
    exact absurd he List.not_mem_nil
  | (k, v) :: kvs, e, he => by
    rw [ofJsonMembers] at he
    rcases List.mem_cons.mp he with rfl | he
    · exact ofJson_elems v
    · exact ofJsonMembers_elems kvs e he

end

theorem le_of_mem_walk : ∀ {left : ℕ} {j : Json} {v : ℕ × Json}, v ∈ walk left j → v.1 ≤ left
  | 0, j, v, h => by
    rw [walk, List.mem_singleton] at h
    rw [h]
  | left + 1, j, v, h => by
    rw [walk, List.mem_cons] at h
    rcases h with rfl | h
    · exact Nat.le_refl _
    · obtain ⟨j', -, h⟩ := List.mem_flatMap.mp h
      exact (le_of_mem_walk h).trans (Nat.le_succ left)

/-- The same for the values of a list. -/
structure MadeOfItems (buffers : List Bytes) (left : ℕ) (vs : List (ℕ × Json)) (os : List Obj) :
    Prop where
  nodes_eq : Obj.nodesItems os = (vs.map weight).sum
  elems_eq : Obj.elemsItems os = elemsIn buffers vs
  height_le : ∀ n, Obj.heightItems os ≤ n ↔ ∀ v ∈ vs, left - v.1 + heightAt v ≤ n

theorem madeOfItems {js : List Json} {os : List Obj} (hrun : decAll (dec lim buffers left) js b
      = .ok (os, b')) (h : ∀ {j b o b'}, dec lim buffers left j b = .ok (o, b') →
        MadeOf buffers left (walk left j) o) :
    MadeOfItems buffers left (js.flatMap (walk left)) os ∧ os.length = js.length := by
  induction js generalizing b os with
  | nil =>
    cases hrun
    exact ⟨⟨rfl, rfl, fun n => iff_of_true (Nat.zero_le n) fun v hv => absurd hv List.not_mem_nil⟩, rfl⟩
  | cons j js ih =>
    rw [decAll] at hrun
    obtain ⟨⟨o, b₁⟩, hfirst, hrun⟩ := bind_eq_ok.mp hrun
    obtain ⟨⟨os', b₂⟩, hrest, hrun⟩ := bind_eq_ok.mp hrun
    cases hrun
    have ho := h hfirst
    obtain ⟨hos, hlen⟩ := ih hrest
    refine ⟨⟨?_, ?_, fun n => ?_⟩, congrArg Nat.succ hlen⟩
    · rw [Obj.nodesItems, ho.nodes_eq, hos.nodes_eq, List.flatMap_cons, List.map_append, List.sum_append]
    · rw [Obj.elemsItems, ho.elems_eq, hos.elems_eq, List.flatMap_cons]
      unfold elemsIn
      rw [List.map_append, List.sum_append]
    · rw [Obj.heightItems, Nat.max_le, ho.height_le, hos.height_le, List.flatMap_cons,
        List.forall_mem_append]

/-- A node with others inside it. -/
theorem MadeOfItems.inside {vs : List (ℕ × Json)} {os : List Obj}
    (h : MadeOfItems buffers left vs os) (hvs : ∀ v ∈ vs, v.1 ≤ left)
    (hvalue : value? (members j) = none) (helems : elemsOf buffers (members j) = 0)
    (hnodes : o.nodes = Obj.nodesItems os + 1) (hcount : o.elems = Obj.elemsItems os)
    (hheight : o.height = Obj.heightItems os + 1) :
    MadeOf buffers (left + 1) ((left + 1, j) :: vs) o := by
  have hweight : weight (left + 1, j) = 1 := by
    unfold weight
    rw [hvalue]
    rfl
  have htop : heightAt (left + 1, j) = 1 := by
    unfold heightAt
    rw [hvalue]
    rfl
  refine ⟨?_, ?_, fun n => ?_⟩
  · rw [hnodes, h.nodes_eq, List.map_cons, List.sum_cons, hweight, Nat.add_comm]
  · rw [hcount, h.elems_eq]
    unfold elemsIn
    rw [List.map_cons, List.sum_cons, show elemsAt buffers (left + 1, j) = 0 from helems, Nat.zero_add]
  · rw [hheight, List.forall_mem_cons, htop]
    cases n with
    | zero => exact iff_of_false (by omega) fun hle => by have := hle.1; omega
    | succ n =>
      rw [Nat.succ_le_succ_iff, h.height_le]
      constructor
      · intro hall
        refine ⟨by omega, fun v hv => ?_⟩
        have h₁ := hall v hv
        have h₂ := hvs v hv
        omega
      · rintro ⟨-, hall⟩ v hv
        have h₁ := hall v hv
        have h₂ := hvs v hv
        omega

/-- The members a node that is read as `n` has. -/
def ReadAs (buffers : List Bytes) (node : Dict String Json) : Node → Prop
  | .value x => node.get? "$v" = some x
  | .array a => node.get? "$v" = none ∧ elemsOf buffers node = a.shape.prod
  | _ => node.get? "$v" = none ∧ elemsOf buffers node = 0

theorem openTagged_readAs {node : Dict String Json} {n : Node}
    (h : openTagged lim buffers node b = .ok (n, b')) : ReadAs buffers node n := by
  cases tag node with
  | value x hv =>
    rw [openTagged_value hv] at h
    cases h
    exact hv
  | array hv hnd =>
    have hcounted := openTagged_counted h
    rw [openTagged_array hv hnd] at h
    obtain ⟨a, -, -, -, -, -, rfl, rfl, -⟩ := openArray_ok h
    have helems : b.elems + a.shape.prod = b.elems + elemsOf buffers node :=
      (Budget.mk.injEq .. ▸ hcounted).2
    exact ⟨hv, by omega⟩
  | dict x hv hnd hd =>
    rw [openTagged_dict hv hnd hd] at h
    unfold openDict at h
    split at h
    · cases h
      exact ⟨hv, elemsOf_of_not_array hnd⟩
    · cases h
  | tuple x hv hnd hd ht =>
    rw [openTagged_tuple hv hnd hd ht] at h
    obtain ⟨xs, -, h⟩ := bind_eq_ok.mp h
    cases h
    exact ⟨hv, elemsOf_of_not_array hnd⟩
  | list x hv hnd hd ht hl =>
    rw [openTagged_list hv hnd hd ht hl] at h
    obtain ⟨xs, -, h⟩ := bind_eq_ok.mp h
    cases h
    exact ⟨hv, elemsOf_of_not_array hnd⟩
  | moelm x hv hnd hd ht hl hm =>
    rw [openTagged_moelm hv hnd hd ht hl hm] at h
    obtain ⟨r, -, h⟩ := bind_eq_ok.mp h
    cases h
    exact ⟨hv, elemsOf_of_not_array hnd⟩
  | unknown hv hnd hd ht hl hm =>
    rw [openTagged_unknown hv hnd hd ht hl hm] at h
    cases h

theorem openNode_readAs {n : Node} (h : openNode lim buffers j b = .ok (n, b')) :
    ReadAs buffers (members j) n := by
  unfold openNode at h
  dsimp only at h
  split at h
  · cases h
  split at h
  · split at h
    · cases h
    · exact openTagged_readAs h
  · cases h

/-- **What is decoded is made of the nodes of the metadata.** -/
theorem madeOf_of_dec (h : dec lim buffers left j b = .ok (o, b')) :
    MadeOf buffers left (walk left j) o := by
  induction left generalizing j b o b' with
  | zero => cases h
  | succ left ih =>
    rw [dec] at h
    obtain ⟨⟨n, b₁⟩, hopen, h⟩ := bind_eq_ok.mp h
    have hread := openNode_readAs hopen
    have hchildren := openNode_inside hopen
    have hdepth : ∀ v ∈ (inside j).flatMap (walk left), v.1 ≤ left := by
      intro v hv
      obtain ⟨j', -, hv⟩ := List.mem_flatMap.mp hv
      exact le_of_mem_walk hv
    rw [walk]
    rw [← hchildren] at hdepth ⊢
    cases n with
    | value x =>
      cases h
      have hvalue : value? (members j) = some (ofJson x) := congrArg (Option.map ofJson) hread
      have helems : elemsOf buffers (members j) = 0 := by
        unfold elemsOf
        rw [show (members j).get? "$v" = some x from hread]
        rfl
      have hweight : weight (left + 1, j) = (ofJson x).nodes := by
        unfold weight
        rw [hvalue]
        rfl
      have htop : heightAt (left + 1, j) = (ofJson x).height := by
        unfold heightAt
        rw [hvalue]
        rfl
      refine ⟨?_, ?_, fun n => ?_⟩
      · show _ = ([(left + 1, j)].map weight).sum
        rw [List.map_singleton, List.sum_singleton, hweight]
      · show _ = elemsIn buffers [(left + 1, j)]
        unfold elemsIn elemsAt
        rw [List.map_singleton, List.sum_singleton, helems, ofJson_elems]
      · show _ ↔ ∀ v ∈ [(left + 1, j)], _
        rw [List.forall_mem_singleton, htop, Nat.sub_self, Nat.zero_add]
    | array a =>
      cases h
      obtain ⟨hv, helems⟩ := hread
      have hvalue : value? (members j) = none := congrArg (Option.map ofJson) hv
      refine ⟨?_, ?_, fun n => ?_⟩
      · show _ = ([(left + 1, j)].map weight).sum
        unfold weight
        rw [List.map_singleton, List.sum_singleton, hvalue, Obj.nodes]
        rfl
      · show _ = elemsIn buffers [(left + 1, j)]
        unfold elemsIn elemsAt
        rw [List.map_singleton, List.sum_singleton, helems, Obj.elems]
      · show _ ↔ ∀ v ∈ [(left + 1, j)], _
        unfold heightAt
        rw [List.forall_mem_singleton, hvalue, Nat.sub_self, Nat.zero_add, Obj.height]
        rfl
    | dict kvs =>
      obtain ⟨⟨os, b₂⟩, hitems, h⟩ := bind_eq_ok.mp h
      cases h
      obtain ⟨hmade, hlen⟩ := madeOfItems hitems ih
      rw [List.length_map] at hlen
      have hsnd : ((kvs.map Prod.fst).zip os).map Prod.snd = os :=
        List.map_snd_zip (by rw [List.length_map, hlen])
      refine hmade.inside hdepth (congrArg (Option.map ofJson) hread.1) hread.2 ?_ ?_ ?_
      · rw [Obj.nodes, Obj.nodesMembers_eq, hsnd]
      · rw [Obj.elems, Obj.elemsMembers_eq, hsnd]
      · rw [Obj.height, Obj.heightMembers_eq, hsnd]
    | tuple xs =>
      obtain ⟨⟨os, b₂⟩, hitems, h⟩ := bind_eq_ok.mp h
      cases h
      obtain ⟨hmade, -⟩ := madeOfItems hitems ih
      exact hmade.inside hdepth (congrArg (Option.map ofJson) hread.1) hread.2
        (by rw [Obj.nodes]) (by rw [Obj.elems]) (by rw [Obj.height])
    | list xs =>
      obtain ⟨⟨os, b₂⟩, hitems, h⟩ := bind_eq_ok.mp h
      cases h
      obtain ⟨hmade, -⟩ := madeOfItems hitems ih
      exact hmade.inside hdepth (congrArg (Option.map ofJson) hread.1) hread.2
        (by rw [Obj.nodes]) (by rw [Obj.elems]) (by rw [Obj.height])
    | moelm hp p =>
      obtain ⟨⟨o', b₂⟩, hone, h⟩ := bind_eq_ok.mp h
      cases h
      have hitems : decAll (dec lim buffers left) [p] b₁ = .ok ([o'], b') := by
        rw [decAll, hone]
        rfl
      obtain ⟨hmade, -⟩ := madeOfItems hitems ih
      refine hmade.inside hdepth (congrArg (Option.map ofJson) hread.1) hread.2 ?_ ?_ ?_
      · rw [Obj.nodes, Obj.nodesItems, Obj.nodesItems]
      · rw [Obj.elems, Obj.elemsItems, Obj.elemsItems, Nat.add_zero]
      · rw [Obj.height, Obj.heightItems, Obj.heightItems, Nat.max_zero]

/-- A pass that comes to its end has counted every node, within the budget. -/
theorem foldlM_enter_counted {vs : List (ℕ × Json)} (hb : b.elems ≤ lim.maxElems)
    (h : vs.foldlM (enter lim buffers) b = .ok b') :
    b' = ⟨b.nodes + vs.length, b.elems + elemsIn buffers vs⟩ ∧ b'.elems ≤ lim.maxElems := by
  induction vs generalizing b with
  | nil =>
    cases h
    exact ⟨rfl, hb⟩
  | cons v vs ih =>
    rw [List.foldlM_cons] at h
    obtain ⟨b₁, henter, h⟩ := bind_eq_ok.mp h
    have hsorts : Sorts (enter lim buffers b v) _ _ := sorts_enter hb
    obtain ⟨-, -, helems⟩ := hsorts.returns_iff.mp ⟨b₁, henter⟩
    obtain rfl := enter_counted henter
    obtain ⟨heq, hle⟩ := ih helems h
    refine ⟨heq.trans ?_, hle⟩
    unfold elemsIn
    rw [List.length_cons, List.map_cons, List.sum_cons]
    dsimp only
    rw [Nat.add_assoc b.nodes, Nat.add_comm 1, Nat.add_assoc b.elems]

/-- The limits on what is decoded: nodes, nesting, elements of arrays. -/
structure Bounded (lim : Limits) (o : Obj) : Prop where
  nodes : o.nodes ≤ lim.maxNodes
  height : o.height ≤ maxDepth + 1
  elems : o.elems ≤ lim.maxElems

/-- The metadata is within the limits when what `$v` carries is counted with all that it holds. -/
structure ValuesBounded (lim : Limits) (j : Json) : Prop where
  nodes : ((walk (maxDepth + 1) j).map weight).sum ≤ lim.maxNodes
  height : ∀ v ∈ walk (maxDepth + 1) j, maxDepth + 1 - v.1 + heightAt v ≤ maxDepth + 1

end sizes

section decoded

variable {T : PyText} {H : Hmac} {lim : Limits} {data : Bytes} {key : Option Bytes} {o : Obj}

end decoded

/-! ## A list in a value -/

/-- `_MAX_NODES`, `_MAX_ELEMS` and `_MAX_PARAMS` as they are when the environment is silent. -/
def defaultLimits : Limits := ⟨5000000, 400000000, 200000000, fun _ => true⟩

/-- Lists in lists. -/
def nested : ℕ → Json
  | 0 => .arr []
  | n + 1 => .arr [nested n]

end NeuraHash.SafeCodec
