import NeuraHash.Python.Float
import NeuraHash.Python.Dict

/-!
# JSON values as Python sees them

`Json` is what `json.loads` can return. An object is kept as the list of its members; every
accessor reads it as the Python `dict` that list builds (a repeated key keeps its last value),
so any `Json` term denotes a Python value. Floats include `NaN` and the infinities, which
Python's parser accepts.

`PyText` collects the text conversions of the interpreter that depend on tables this
development does not spell out (Unicode case folding and whitespace, decimal parsing and
printing of floats, the `repr` of containers). A definition that uses them takes a `PyText`
and every theorem holds for each one that satisfies the stated laws.
-/

namespace Py

inductive Json where
  | null
  | bool (b : Bool)
  | int (n : ℤ)
  | float (x : PyFloat)
  | str (s : String)
  | arr (xs : List Json)
  | obj (kvs : List (String × Json))
  deriving Inhabited

/-! ## Text conversions of the interpreter -/

/-- The characters of a decimal literal. -/
def numericChar (c : Char) : Bool :=
  c.isDigit || c == '-' || c == '+' || c == '.' || c == 'e'

/-- An integer of a JSON text: no leading zero, and a minus sign also before zero. -/
def isIntLiteral (l : List Char) : Bool :=
  match (String.ofList l).toInt? with
  | some n => n.repr.toList == l || l == ['-', '0']
  | none => false

/-- One digit or more. -/
def isDigits (l : List Char) : Bool := !l.isEmpty && l.all Char.isDigit

/-- The exponent of a JSON text. -/
def isExponent : List Char → Bool
  | c :: '+' :: l => (c == 'e' || c == 'E') && isDigits l
  | c :: '-' :: l => (c == 'e' || c == 'E') && isDigits l
  | c :: l => (c == 'e' || c == 'E') && isDigits l
  | [] => false

/-- What follows the integer in a JSON number that is read as a float. -/
def isFraction : List Char → Bool
  | '.' :: l =>
    let (d, e) := l.span Char.isDigit
    isDigits d && (e.isEmpty || isExponent e)
  | l => isExponent l

/-- A number of a JSON text that is read as a float. -/
def isFloatLiteral (l : List Char) : Bool :=
  let (n, f) := l.span (fun c => c != '.' && c != 'e' && c != 'E')
  isIntLiteral n && isFraction f

structure PyText where
  /-- `str.lower`. -/
  lower : String → String
  lower_lower : ∀ s, lower (lower s) = lower s
  /-- `str.strip`. -/
  strip : String → String
  lower_strip : ∀ s, lower (strip s) = strip (lower s)
  /-- `float(s)` on a string; `none` raises `ValueError`. -/
  parseFloat : String → Option PyFloat
  /-- `int(s)` on a string; `none` raises `ValueError`. -/
  parseInt : String → Option ℤ
  /-- `repr(x)` of a finite float, as `json.dumps` prints it. -/
  reprFloat : ℚ → String
  parseFloat_reprFloat : ∀ q, parseFloat (reprFloat q) = some (.fin q)
  reprFloat_numeric : ∀ q, ∀ c ∈ (reprFloat q).toList, numericChar c = true
  reprFloat_ne_nil : ∀ q, (reprFloat q).toList ≠ []
  reprFloat_ne_int : ∀ q (n : ℤ), reprFloat q ≠ n.repr
  reprFloat_literal : ∀ q, isFloatLiteral (reprFloat q).toList = true
  /-- `format(x, ".17g")` of a finite float. -/
  format17g : ℚ → String
  parseFloat_format17g : ∀ q, parseFloat (format17g q) = some (.fin q)
  /-- `format(x, ".8g")`. -/
  format8g : PyFloat → String
  /-- `str(x)` of a list or a dict. -/
  strContainer : Json → String

theorem PyText.reprFloat_injective (T : PyText) {a b : ℚ}
    (h : T.reprFloat a = T.reprFloat b) : a = b := by
  have ha := T.parseFloat_reprFloat a
  rw [h, T.parseFloat_reprFloat b] at ha
  exact (PyFloat.fin.inj (Option.some.inj ha)).symm

theorem PyText.format17g_injective (T : PyText) {a b : ℚ}
    (h : T.format17g a = T.format17g b) : a = b := by
  have ha := T.parseFloat_format17g a
  rw [h, T.parseFloat_format17g b] at ha
  exact (PyFloat.fin.inj (Option.some.inj ha)).symm

/-! ## Reading a value -/

namespace Json

/-- The dictionary an object denotes. -/
def dictOf (kvs : List (String × Json)) : Dict String Json := Dict.ofList kvs

/-- The member `k` of an object; `none` when it is absent or the value is no object. -/
def get? (j : Json) (k : String) : Option Json :=
  match j with
  | obj kvs => (dictOf kvs).get? k
  | _ => none

/-- `j[k]` with a string key. -/
def item (j : Json) (k : String) : Except PyErr Json :=
  match j with
  | obj kvs => match (dictOf kvs).get? k with
    | some v => .ok v
    | none => .error .keyError
  | _ => .error .typeError

/-- `j.get(k, default)`. -/
def getD (j : Json) (k : String) (default : Json) : Except PyErr Json :=
  match j with
  | obj kvs => .ok ((dictOf kvs).getD k default)
  | _ => .error .attributeError

/-- `k in j` for a text `k`: a member's key, an item, or a part of the text. -/
def hasKey (j : Json) (k : String) : Except PyErr Bool :=
  match j with
  | obj kvs => .ok ((dictOf kvs).contains k)
  | arr xs => .ok (xs.any (fun x => match x with
    | str s => s == k
    | _ => false))
  | str s => .ok (decide (k.toList <:+: s.toList))
  | _ => .error .typeError

def isObj : Json → Bool
  | obj _ => true
  | _ => false

/-- `bool(j)`. -/
def truthy : Json → Bool
  | null => false
  | bool b => b
  | int n => n != 0
  | float x => !(PyFloat.eq x (.fin 0))
  | str s => s != ""
  | arr xs => !xs.isEmpty
  | obj kvs => !kvs.isEmpty

/-- `j is not None`. -/
def notNone : Json → Bool
  | null => false
  | _ => true

/-- `j is False`. -/
def isFalse : Json → Bool
  | bool b => !b
  | _ => false

theorem isFalse_iff {j : Json} : j.isFalse = true ↔ j = bool false := by
  cases j <;> simp [isFalse]

/-- `a or b`. -/
def orElse (a b : Json) : Json := if a.truthy then a else b

/-- `len(j)`. -/
def len : Json → Except PyErr ℕ
  | str s => .ok s.length
  | arr xs => .ok xs.length
  | obj kvs => .ok (dictOf kvs).size
  | _ => .error .typeError

/-- `list(j)`: the items, the characters or the keys. -/
def toList : Json → Except PyErr (List Json)
  | str s => .ok (s.toList.map (fun c => str (String.singleton c)))
  | arr xs => .ok xs
  | obj kvs => .ok ((dictOf kvs).keys.map str)
  | _ => .error .typeError

theorem orElse_obj (kvs : List (String × Json)) : (obj kvs).orElse (obj []) = obj kvs := by
  unfold orElse
  cases kvs <;> simp [truthy]

theorem toList_orElse_arr (xs : List Json) : ((arr xs).orElse (arr [])).toList = .ok xs := by
  cases xs <;> rfl

/-- The object with the member `k` replaced by `v`; a later member wins. -/
def withMember (j : Json) (k : String) (v : Json) : Json :=
  match j with
  | obj kvs => obj (kvs ++ [(k, v)])
  | j => j

theorem get?_withMember (kvs : List (String × Json)) (k k' : String) (v : Json) :
    ((obj kvs).withMember k v).get? k' = if k = k' then some v else (obj kvs).get? k' := by
  simp only [withMember, get?, dictOf, Dict.get?_ofList, List.reverse_append, List.reverse_cons,
    List.reverse_nil, List.nil_append, List.cons_append, Dict.lookup]

/-- `get?` on an object written out, as a search from its end. -/
theorem get?_obj (kvs : List (String × Json)) (k : String) :
    (obj kvs).get? k = Dict.lookup k kvs.reverse := Dict.get?_ofList kvs k

theorem item_obj (kvs : List (String × Json)) (k : String) :
    (obj kvs).item k = match Dict.lookup k kvs.reverse with
      | some v => .ok v
      | none => .error .keyError := by
  simp only [item, dictOf, Dict.get?_ofList]

theorem getD_obj (kvs : List (String × Json)) (k : String) (default : Json) :
    (obj kvs).getD k default = .ok ((Dict.lookup k kvs.reverse).getD default) := by
  simp only [getD, dictOf, Dict.getD, Dict.get?_ofList]

theorem item_eq_ok {j v : Json} {k : String} : j.item k = .ok v ↔ j.get? k = some v := by
  unfold item get?
  cases j with
  | obj kvs =>
    dsimp only
    cases (dictOf kvs).get? k <;> simp
  | _ => simp

/-- A member that is there is what `get` returns. -/
theorem getD_of_item {j v default : Json} {k : String} (h : j.item k = .ok v) :
    j.getD k default = .ok v := by
  rw [item_eq_ok] at h
  cases j with
  | obj kvs =>
    rw [getD, Dict.getD, show (dictOf kvs).get? k = some v from h]
    rfl
  | _ => cases h

/-- `j.get(k, default)` of a dict. -/
theorem getD_of_isObj {j : Json} (h : j.isObj = true) (k : String) (default : Json) :
    j.getD k default = .ok ((j.get? k).getD default) := by
  cases j with
  | obj kvs => rfl
  | _ => cases h

theorem isObj_of_get? {j : Json} {k : String} (h : (j.get? k).isSome = true) : j.isObj = true := by
  cases j with
  | obj kvs => rfl
  | _ => cases h

theorem isObj_of_item {j v : Json} {k : String} (h : j.item k = .ok v) : ∃ kvs, j = obj kvs := by
  cases j with
  | obj kvs => exact ⟨kvs, rfl⟩
  | _ => simp [item] at h

/-! ## Conversions -/

/-- `int(j)`. A float is truncated towards zero. -/
def toInt (T : PyText) : Json → Except PyErr ℤ
  | bool b => .ok (if b then 1 else 0)
  | int n => .ok n
  | float (.fin q) => .ok (if 0 ≤ q then ⌊q⌋ else ⌈q⌉)
  | float .nan => .error .valueError
  | float _ => .error .overflowError
  | str s => match T.parseInt s with
    | some n => .ok n
    | none => .error .valueError
  | _ => .error .typeError

/-- The float of an integer; one that would round to an infinity raises. -/
def floatOfInt (n : ℤ) : Except PyErr PyFloat :=
  if |n| < 2 ^ 1024 - 2 ^ 970 then .ok (.fin n) else .error .overflowError

/-- The float of a number, as arithmetic with a float converts it. -/
def asFloat : Json → Except PyErr PyFloat
  | bool b => .ok (.fin (if b then 1 else 0))
  | int n => floatOfInt n
  | float x => .ok x
  | _ => .error .typeError

/-- `float(j)`. -/
def toFloat (T : PyText) : Json → Except PyErr PyFloat
  | bool b => .ok (.fin (if b then 1 else 0))
  | int n => floatOfInt n
  | float x => .ok x
  | str s => match T.parseFloat s with
    | some x => .ok x
    | none => .error .valueError
  | _ => .error .typeError

/-- `str(j)`. -/
def toStr (T : PyText) : Json → String
  | null => "None"
  | bool b => if b then "True" else "False"
  | int n => n.repr
  | float (.fin q) => T.reprFloat q
  | float .inf => "inf"
  | float .negInf => "-inf"
  | float .nan => "nan"
  | str s => s
  | j => T.strContainer j

/-- A small integer is its own float. -/
theorem floatOfInt_of_lt {n : ℤ} (h : |n| < 2 ^ 53) : floatOfInt n = .ok (.fin n) := by
  have hbound : (2 : ℤ) ^ 53 ≤ 2 ^ 1024 - 2 ^ 970 := by decide +kernel
  exact if_pos (h.trans_le hbound)

theorem eq_of_floatOfInt {n : ℤ} {x : PyFloat} (h : floatOfInt n = .ok x) : x = .fin n := by
  unfold floatOfInt at h
  split at h
  · exact (Except.ok.inj h).symm
  · cases h

theorem toFloat_one (T : PyText) : toFloat T (int 1) = .ok (.fin 1) := by
  show floatOfInt 1 = .ok (.fin 1)
  rw [floatOfInt_of_lt (by norm_num), Int.cast_one]

@[simp] theorem toStr_str (T : PyText) (s : String) : (str s).toStr T = s := rfl
@[simp] theorem toInt_int (T : PyText) (n : ℤ) : (int n).toInt T = .ok n := rfl

/-- The number a numeric value stands for. -/
def number? : Json → Option PyFloat
  | bool b => some (.fin (if b then 1 else 0))
  | int n => some (.fin n)
  | float x => some x
  | _ => none

/-! ## Equality -/

mutual

/-- `a == b`: numbers by value (`1 == 1.0 == True`), lists item by item, dicts member by
member whatever the order. -/
def pyEq : Json → Json → Bool
  | null, null => true
  | str a, str b => a == b
  | arr xs, arr ys => pyEqItems xs ys
  | obj kvs, b => match b with
    | obj kvs' => (dictOf kvs).size == (dictOf kvs').size && pyEqMembers kvs kvs'
    | _ => false
  | a, b => match a.number?, b.number? with
    | some x, some y => PyFloat.eq x y
    | _, _ => false

def pyEqItems : List Json → List Json → Bool
  | [], [] => true
  | x :: xs, y :: ys => pyEq x y && pyEqItems xs ys
  | _, _ => false

/-- Every member of the first list that a later one does not replace has an equal partner. -/
def pyEqMembers : List (String × Json) → List (String × Json) → Bool
  | [], _ => true
  | (k, v) :: t, kvs' =>
    (t.any (fun p => p.1 == k) || match (dictOf kvs').get? k with
      | some w => pyEq v w
      | none => false) && pyEqMembers t kvs'

end

@[simp] theorem pyEq_str_right {a : Json} {s : String} :
    pyEq a (str s) = true ↔ a = str s := by
  cases a <;> simp [pyEq, number?]

/-! ## Order -/

mutual

/-- `a < b`; `none` when Python raises `TypeError`. -/
def pyLt : Json → Json → Option Bool
  | str a, str b => some (decide (a < b))
  | arr xs, arr ys => pyLtItems xs ys
  | a, b => match a.number?, b.number? with
    | some x, some y => some (PyFloat.lt x y)
    | _, _ => none

/-- Lists compare at the first position where they differ. -/
def pyLtItems : List Json → List Json → Option Bool
  | [], [] => some false
  | [], _ :: _ => some true
  | _ :: _, [] => some false
  | x :: xs, y :: ys => if pyEq x y then pyLtItems xs ys else pyLt x y

end

/-- The two values can be ordered by `<`. -/
def comparable (a b : Json) : Bool := (pyLt a b).isSome && (pyLt b a).isSome

/-- `a <= b` of two comparable values, as a sort uses it. -/
def sortLe (a b : Json) : Prop := pyLt b a ≠ some true

instance : DecidableRel sortLe := fun a b => inferInstanceAs (Decidable (pyLt b a ≠ some true))

/-- `sorted(xs)`. A sort compares neighbours of its result, so it raises `TypeError` as soon
as the list holds two values that `<` cannot compare. -/
def sorted (xs : List Json) : Except PyErr (List Json) :=
  if xs.Pairwise (fun a b => comparable a b = true) then .ok (xs.insertionSort sortLe)
  else .error .typeError

end Json

/-! ## Hashable values -/

/-- A dictionary key: a hashable JSON value, with `1 == 1.0 == True` identified. -/
inductive Key where
  | none
  | num (x : PyFloat)
  | str (s : String)
  deriving DecidableEq

/-- `hash(j)`: lists and dicts raise `TypeError`. -/
def Key.ofJson : Json → Except PyErr Key
  | .null => .ok .none
  | .str s => .ok (.str s)
  | j => match j.number? with
    | some x => .ok (.num x)
    | Option.none => .error .typeError

end Py
