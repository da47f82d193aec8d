import NeuraHash.Python.Json

/-!
# `json.dumps` — printing, and why the text determines the value

`dumps T pad j` is `json.dumps(j, sort_keys=True)`: keys are sorted, everything outside
printable ASCII is escaped, and `pad` is the blank Python writes after `,` and `:` (one space
by default, none with `separators=(",", ":")`). `dumpsStrict` is the `allow_nan=False` variant,
which raises on a non-finite float.

The headline is `dumps_injective`: two values with the same text are the same value up to the
order of object members (`sortKeys`). A signature or a hash over such a text therefore binds
every member of the object (`get?_eq_of_dumps_eq`).

The proof reads a text from the left. `render_append_inj` says that a printed value followed by
a delimiter can be split off in one way only; the scalars are handled by the character class of
their text, strings by decoding one escape at a time (`unescape_escapeChar`).
-/

namespace Py

namespace Json

/-! ## Sorting the members -/

/-- Sort members by key. -/
def sortMembers (kvs : List (String × Json)) : List (String × Json) :=
  kvs.insertionSort (fun a b => a.1 ≤ b.1)

mutual

/-- The value with every object replaced by its dictionary, members in key order. -/
def sortKeys : Json → Json
  | arr xs => arr (sortKeysItems xs)
  | obj kvs => obj (sortMembers (Dict.ofList (sortKeysMembers kvs)).entries)
  | j => j

def sortKeysItems : List Json → List Json
  | [] => []
  | x :: xs => sortKeys x :: sortKeysItems xs

def sortKeysMembers : List (String × Json) → List (String × Json)
  | [] => []
  | (k, v) :: t => (k, sortKeys v) :: sortKeysMembers t

end

/-! ## Printing -/

def hexDigit (n : ℕ) : Char := "0123456789abcdef".toList.getD n '0'

/-- Four hexadecimal digits. -/
def hex4 (n : ℕ) : List Char :=
  [hexDigit (n / 4096 % 16), hexDigit (n / 256 % 16), hexDigit (n / 16 % 16), hexDigit (n % 16)]

def uEscape (n : ℕ) : List Char := '\\' :: 'u' :: hex4 n

/-- One character of a string literal, as `ensure_ascii=True` prints it. -/
def escapeChar (c : Char) : List Char :=
  if c = '"' then ['\\', '"']
  else if c = '\\' then ['\\', '\\']
  else if c = '\n' then ['\\', 'n']
  else if c = '\r' then ['\\', 'r']
  else if c = '\t' then ['\\', 't']
  else if c.toNat = 12 then ['\\', 'f']
  else if c.toNat = 8 then ['\\', 'b']
  else if 32 ≤ c.toNat ∧ c.toNat ≤ 126 then [c]
  else if c.toNat < 65536 then uEscape c.toNat
  else -- a surrogate pair
    uEscape (0xD800 + (c.toNat - 65536) / 1024) ++ uEscape (0xDC00 + (c.toNat - 65536) % 1024)

def escapeBody (cs : List Char) : List Char := cs.flatMap escapeChar

/-- A string literal after its opening quote. -/
def closeString (s : String) : List Char := escapeBody s.toList ++ ['"']

def floatText (T : PyText) : PyFloat → List Char
  | .fin q => (T.reprFloat q).toList
  | .inf => "Infinity".toList
  | .negInf => "-Infinity".toList
  | .nan => "NaN".toList

/-- The text of a value that is neither a string nor a container. -/
def scalarText (T : PyText) : Json → List Char
  | null => "null".toList
  | bool b => if b then "true".toList else "false".toList
  | int n => n.repr.toList
  | float x => floatText T x
  | _ => []

mutual

def render (T : PyText) (pad : List Char) : Json → List Char
  | str s => '"' :: closeString s
  | arr xs => '[' :: renderItems T pad true xs
  | obj kvs => '\x7b' :: renderMembers T pad true kvs
  | null => scalarText T null
  | bool b => scalarText T (bool b)
  | int n => scalarText T (int n)
  | float x => scalarText T (float x)

/-- The items up to the closing bracket; all but the first are preceded by a comma. -/
def renderItems (T : PyText) (pad : List Char) : Bool → List Json → List Char
  | _, [] => [']']
  | first, x :: xs =>
    (if first then [] else ',' :: pad) ++ (render T pad x ++ renderItems T pad false xs)

def renderMembers (T : PyText) (pad : List Char) : Bool → List (String × Json) → List Char
  | _, [] => ['\x7d']
  | first, (k, v) :: t =>
    (if first then [] else ',' :: pad) ++ ('"' :: (closeString k ++
      (':' :: pad ++ (render T pad v ++ renderMembers T pad false t))))

end

/-- `json.dumps(j, sort_keys=True)`. -/
def dumps (T : PyText) (pad : List Char) (j : Json) : String :=
  String.ofList (render T pad (sortKeys j))

mutual

/-- No float inside is `NaN` or infinite. -/
def allFinite : Json → Bool
  | float x => x.isFinite
  | arr xs => allFiniteItems xs
  | obj kvs => allFiniteMembers kvs
  | _ => true

def allFiniteItems : List Json → Bool
  | [] => true
  | x :: xs => allFinite x && allFiniteItems xs

def allFiniteMembers : List (String × Json) → Bool
  | [] => true
  | (_, v) :: t => allFinite v && allFiniteMembers t

end

/-- `json.dumps(j, sort_keys=True, allow_nan=False)` with the default separators. -/
def dumpsStrict (T : PyText) (j : Json) : Except PyErr String :=
  if allFinite j then .ok (dumps T [' '] j) else .error .valueError

/-! ## Escapes can be read back -/

def hexValue (c : Char) : ℕ := "0123456789abcdef".toList.findIdx (· == c)

theorem hexValue_hexDigit : ∀ n, n < 16 → hexValue (hexDigit n) = n := by decide

/-- Read four hexadecimal digits. -/
def readHex4 (a b c d : Char) : ℕ :=
  hexValue a * 4096 + hexValue b * 256 + hexValue c * 16 + hexValue d

theorem readHex4_hex4 {n : ℕ} (h : n < 65536) :
    readHex4 (hexDigit (n / 4096 % 16)) (hexDigit (n / 256 % 16)) (hexDigit (n / 16 % 16))
      (hexDigit (n % 16)) = n := by
  unfold readHex4
  rw [hexValue_hexDigit _ (Nat.mod_lt _ (by norm_num)),
    hexValue_hexDigit _ (Nat.mod_lt _ (by norm_num)),
    hexValue_hexDigit _ (Nat.mod_lt _ (by norm_num)),
    hexValue_hexDigit _ (Nat.mod_lt _ (by norm_num))]
  omega

/-- Read one escaped character off a text, giving its code point. -/
def unescape : List Char → Option (ℕ × List Char)
  | '\\' :: 'u' :: a :: b :: c :: d :: r =>
    let n := readHex4 a b c d
    if 0xD800 ≤ n ∧ n < 0xDC00 then
      match r with
      | _ :: _ :: a' :: b' :: c' :: d' :: r' =>
        some (65536 + (n - 0xD800) * 1024 + (readHex4 a' b' c' d' - 0xDC00), r')
      | _ => none
    else some (n, r)
  | '\\' :: c :: r =>
    some (if c = 'n' then 10 else if c = 'r' then 13 else if c = 't' then 9
      else if c = 'f' then 12 else if c = 'b' then 8 else c.toNat, r)
  | c :: r => some (c.toNat, r)
  | [] => none

theorem unescape_plain {c : Char} (h : c ≠ '\\') (r : List Char) :
    unescape (c :: r) = some (c.toNat, r) := by
  unfold unescape
  split
  · next heq => simp only [List.cons.injEq] at heq; exact absurd heq.1 h
  · next heq => simp only [List.cons.injEq] at heq; exact absurd heq.1 h
  · next heq => simp only [List.cons.injEq] at heq; rw [heq.1, heq.2]
  · next heq => simp at heq

theorem unescape_uEscape {n : ℕ} (h : n < 65536) (hns : ¬ (0xD800 ≤ n ∧ n < 0xDC00))
    (r : List Char) : unescape (uEscape n ++ r) = some (n, r) := by
  simp only [uEscape, hex4, List.cons_append, List.nil_append, unescape, readHex4_hex4 h]
  rw [if_neg hns]

/-- A character code is no surrogate. -/
theorem toNat_not_surrogate (c : Char) : ¬ (0xD800 ≤ c.toNat ∧ c.toNat < 0xE000) := by
  have h := c.valid
  simp only [UInt32.isValidChar, Nat.isValidChar] at h
  show ¬ (0xD800 ≤ c.val.toNat ∧ c.val.toNat < 0xE000)
  omega

theorem toNat_lt (c : Char) : c.toNat < 0x110000 := by
  have h := c.valid
  simp only [UInt32.isValidChar, Nat.isValidChar] at h
  show c.val.toNat < 0x110000
  omega

/-- **One escape is read back.** -/
theorem unescape_escapeChar (c : Char) (r : List Char) :
    unescape (escapeChar c ++ r) = some (c.toNat, r) := by
  unfold escapeChar
  split
  · next h => subst h; rfl
  split
  · next h => subst h; rfl
  split
  · next h => subst h; rfl
  split
  · next h => subst h; rfl
  split
  · next h => subst h; rfl
  split
  · next h => rw [h]; rfl
  split
  · next h => rw [h]; rfl
  split
  · next hbs _ _ _ _ _ _ => exact unescape_plain hbs r
  split
  · next h =>
    have hs := toNat_not_surrogate c
    exact unescape_uEscape h (by omega) r
  · next h =>
    -- the pair's high half lies in the surrogate range, which selects the second branch
    have hlt := toNat_lt c
    have h1 : 0xD800 + (c.toNat - 65536) / 1024 < 65536 := by omega
    have h2 : 0xDC00 + (c.toNat - 65536) % 1024 < 65536 := by omega
    simp only [uEscape, hex4, List.cons_append, List.nil_append, unescape, readHex4_hex4 h1,
      readHex4_hex4 h2]
    rw [if_pos (by omega)]
    simp only [Option.some.injEq, Prod.mk.injEq, and_true]
    omega

theorem escapeChar_append_inj {c d : Char} {r s : List Char}
    (h : escapeChar c ++ r = escapeChar d ++ s) : c = d ∧ r = s := by
  have hc := unescape_escapeChar c r
  rw [h, unescape_escapeChar d s] at hc
  simp only [Option.some.injEq, Prod.mk.injEq] at hc
  exact ⟨Char.toNat_inj.mp hc.1.symm, hc.2.symm⟩

/-- An escape never starts with the closing quote. -/
theorem escapeChar_head (c : Char) : ∃ d t, escapeChar c = d :: t ∧ d ≠ '"' := by
  unfold escapeChar
  repeat' split
  all_goals first
    | exact ⟨_, _, rfl, by decide⟩
    | exact ⟨c, [], rfl, by assumption⟩

theorem closeString_append_inj {cs ds r s : List Char}
    (h : escapeBody cs ++ '"' :: r = escapeBody ds ++ '"' :: s) : cs = ds ∧ r = s := by
  induction cs generalizing ds with
  | nil =>
    cases ds with
    | nil => simpa [escapeBody] using h
    | cons d ds =>
      obtain ⟨e, t, he, hne⟩ := escapeChar_head d
      simp only [escapeBody, List.flatMap_nil, List.nil_append, List.flatMap_cons, he,
        List.cons_append, List.cons.injEq] at h
      exact absurd h.1.symm hne
  | cons c cs ih =>
    cases ds with
    | nil =>
      obtain ⟨e, t, he, hne⟩ := escapeChar_head c
      simp only [escapeBody, List.flatMap_nil, List.nil_append, List.flatMap_cons, he,
        List.cons_append, List.cons.injEq] at h
      exact absurd h.1 hne
    | cons d ds =>
      simp only [escapeBody, List.flatMap_cons, List.append_assoc] at h
      obtain ⟨rfl, h'⟩ := escapeChar_append_inj h
      obtain ⟨rfl, rfl⟩ := ih h'
      exact ⟨rfl, rfl⟩

/-! ## Scalars are told apart by their text -/

/-- The characters a scalar's text is made of: letters and those of a decimal literal. -/
def tokenChar (c : Char) : Bool := numericChar c || c.isAlpha

/-- The value is printed by `scalarText`. -/
def isScalar : Json → Bool
  | str _ => false
  | arr _ => false
  | obj _ => false
  | _ => true

/-- What a scalar's text is: a keyword, or a numeral with its value. -/
inductive ScalarKind where
  | keyword (text : List Char)
  | intNumeral (n : ℤ)
  | floatNumeral (q : ℚ)
  deriving DecidableEq

def scalarKind : Json → ScalarKind
  | int n => .intNumeral n
  | float (.fin q) => .floatNumeral q
  | null => .keyword "null".toList
  | bool true => .keyword "true".toList
  | bool false => .keyword "false".toList
  | float .inf => .keyword "Infinity".toList
  | float .negInf => .keyword "-Infinity".toList
  | float .nan => .keyword "NaN".toList
  | _ => .keyword []

def ScalarKind.text (T : PyText) : ScalarKind → List Char
  | .keyword k => k
  | .intNumeral n => n.repr.toList
  | .floatNumeral q => (T.reprFloat q).toList

theorem scalarText_eq_kind (T : PyText) (j : Json) :
    scalarText T j = (scalarKind j).text T := by
  cases j with
  | bool b => cases b <;> rfl
  | float x => cases x <;> rfl
  | _ => rfl

def keywords : List (List Char) :=
  ["null", "true", "false", "Infinity", "-Infinity", "NaN"].map String.toList

theorem scalarKind_keyword_mem {j : Json} {k : List Char} (hj : isScalar j = true)
    (h : scalarKind j = .keyword k) : k ∈ keywords := by
  cases j with
  | bool b => cases b <;> (simp only [scalarKind, ScalarKind.keyword.injEq] at h; subst h; decide)
  | null => simp only [scalarKind, ScalarKind.keyword.injEq] at h; subst h; decide
  | float x =>
    cases x with
    | fin q => simp [scalarKind] at h
    | _ => simp only [scalarKind, ScalarKind.keyword.injEq] at h; subst h; decide
  | int n => simp [scalarKind] at h
  | str s => simp [isScalar] at hj
  | arr xs => simp [isScalar] at hj
  | obj kvs => simp [isScalar] at hj

theorem keywords_token : ∀ k ∈ keywords, k ≠ [] ∧ k.all tokenChar = true := by decide +kernel

/-- Every keyword holds a letter that no numeral holds. -/
theorem keywords_not_numeric : ∀ k ∈ keywords, k.any (fun c => !numericChar c) = true := by
  decide +kernel

theorem mem_intText {n : ℤ} {c : Char} (h : c ∈ n.repr.toList) : numericChar c = true := by
  have hnat : ∀ (m : ℕ) (c : Char), c ∈ m.repr.toList → numericChar c = true := by
    intro m c hc
    rw [Nat.toList_repr] at hc
    simp [numericChar, Nat.isDigit_of_mem_toDigits (by norm_num) (by norm_num) hc]
  rw [Int.repr_eq_if] at h
  split at h
  · exact hnat _ _ h
  · rw [String.toList_append] at h
    rcases List.mem_append.mp h with h | h
    · have : c = '-' := by simpa using h
      subst this; rfl
    · exact hnat _ _ h

theorem intText_ne_nil (n : ℤ) : n.repr.toList ≠ [] := by
  rw [Int.repr_eq_if]
  split
  · rw [Nat.toList_repr]
    exact Nat.toDigits_ne_nil
  · simp

theorem scalarText_token (T : PyText) {j : Json} (hj : isScalar j = true) :
    scalarText T j ≠ [] ∧ ∀ c ∈ scalarText T j, tokenChar c = true := by
  rw [scalarText_eq_kind]
  cases hk : scalarKind j with
  | keyword k =>
    obtain ⟨hne, hall⟩ := keywords_token k (scalarKind_keyword_mem hj hk)
    exact ⟨hne, List.all_eq_true.mp hall⟩
  | intNumeral n =>
    refine ⟨intText_ne_nil n, fun c hc => ?_⟩
    simp [tokenChar, mem_intText hc]
  | floatNumeral q =>
    refine ⟨T.reprFloat_ne_nil q, fun c hc => ?_⟩
    simp [tokenChar, T.reprFloat_numeric q c hc]

/-- A text of decimal-literal characters only is no keyword. -/
theorem ne_keyword_of_numeric {l k : List Char} (hl : ∀ c ∈ l, numericChar c = true)
    (hk : k ∈ keywords) : l ≠ k := by
  rintro rfl
  obtain ⟨c, hc, hn⟩ := List.any_eq_true.mp (keywords_not_numeric l hk)
  simp [hl c hc] at hn

theorem scalarKind_injective {a b : Json} (ha : isScalar a = true) (hb : isScalar b = true)
    (h : scalarKind a = scalarKind b) : a = b := by
  cases a with
  | str s => simp [isScalar] at ha
  | arr xs => simp [isScalar] at ha
  | obj kvs => simp [isScalar] at ha
  | null =>
    cases b with
    | bool y => cases y <;> simp_all [scalarKind]
    | float y => cases y <;> simp_all [scalarKind]
    | _ => simp_all [scalarKind, isScalar]
  | bool x =>
    cases b with
    | bool y => cases x <;> cases y <;> simp_all [scalarKind]
    | float y => cases x <;> cases y <;> simp_all [scalarKind]
    | _ => cases x <;> simp_all [scalarKind, isScalar]
  | int n =>
    cases b with
    | bool y => cases y <;> simp_all [scalarKind]
    | float y => cases y <;> simp_all [scalarKind]
    | _ => simp_all [scalarKind, isScalar]
  | float x =>
    cases b with
    | bool y => cases x <;> cases y <;> simp_all [scalarKind]
    | float y => cases x <;> cases y <;> simp_all [scalarKind]
    | _ => cases x <;> simp_all [scalarKind, isScalar]

theorem int_repr_injective {m n : ℤ} (h : m.repr = n.repr) : m = n := by
  have hm := Int.toInt?_repr m
  rw [h, Int.toInt?_repr n] at hm
  exact (Option.some.inj hm).symm

/-- **A scalar is determined by its text.** -/
theorem scalarText_injective (T : PyText) {a b : Json} (ha : isScalar a = true)
    (hb : isScalar b = true) (h : scalarText T a = scalarText T b) : a = b := by
  rw [scalarText_eq_kind, scalarText_eq_kind] at h
  refine scalarKind_injective ha hb ?_
  have hint : ∀ n : ℤ, ∀ c ∈ n.repr.toList, numericChar c = true := fun n c hc => mem_intText hc
  have hflt := T.reprFloat_numeric
  cases hka : scalarKind a with
  | keyword k =>
    have hk := scalarKind_keyword_mem ha hka
    cases hkb : scalarKind b with
    | keyword k' => rw [hka, hkb] at h; exact congrArg _ h
    | intNumeral n => rw [hka, hkb] at h; exact absurd h.symm (ne_keyword_of_numeric (hint n) hk)
    | floatNumeral q => rw [hka, hkb] at h; exact absurd h.symm (ne_keyword_of_numeric (hflt q) hk)
  | intNumeral n =>
    cases hkb : scalarKind b with
    | keyword k' =>
      rw [hka, hkb] at h
      exact absurd h (ne_keyword_of_numeric (hint n) (scalarKind_keyword_mem hb hkb))
    | intNumeral m =>
      rw [hka, hkb] at h
      rw [int_repr_injective (String.toList_injective h)]
    | floatNumeral q =>
      rw [hka, hkb] at h
      exact absurd (String.toList_injective h.symm) (T.reprFloat_ne_int q n)
  | floatNumeral q =>
    cases hkb : scalarKind b with
    | keyword k' =>
      rw [hka, hkb] at h
      exact absurd h (ne_keyword_of_numeric (hflt q) (scalarKind_keyword_mem hb hkb))
    | intNumeral m =>
      rw [hka, hkb] at h
      exact absurd (String.toList_injective h) (T.reprFloat_ne_int q m)
    | floatNumeral q' =>
      rw [hka, hkb] at h
      rw [T.reprFloat_injective (String.toList_injective h)]

/-! ## A printed value can be split off in one way -/

/-- What may follow a printed value: nothing, a comma or a closing bracket. -/
def Delimited : List Char → Prop
  | [] => True
  | c :: _ => c = ',' ∨ c = ']' ∨ c = '\x7d'

theorem Delimited.head_not_token {c : Char} {r : List Char} (h : Delimited (c :: r)) :
    tokenChar c = false := by
  rcases h with rfl | rfl | rfl <;> rfl

/-- Two token texts followed by delimited rests are equal piece by piece. -/
theorem token_append_inj {k l r s : List Char} (hk : ∀ c ∈ k, tokenChar c = true)
    (hl : ∀ c ∈ l, tokenChar c = true) (hr : Delimited r) (hs : Delimited s)
    (h : k ++ r = l ++ s) : k = l ∧ r = s := by
  induction k generalizing l with
  | nil =>
    cases l with
    | nil => exact ⟨rfl, h⟩
    | cons d l =>
      rw [List.nil_append, List.cons_append] at h
      subst h
      have := hr.head_not_token
      rw [hl d (by simp)] at this
      exact absurd this (by decide)
  | cons c k ih =>
    cases l with
    | nil =>
      rw [List.nil_append, List.cons_append] at h
      subst h
      have := hs.head_not_token
      rw [hk c (by simp)] at this
      exact absurd this (by decide)
    | cons d l =>
      simp only [List.cons_append, List.cons.injEq] at h
      obtain ⟨rfl, h⟩ := h
      obtain ⟨rfl, rfl⟩ := ih (fun c hc => hk c (by simp [hc])) (fun c hc => hl c (by simp [hc])) h
      exact ⟨rfl, rfl⟩

/-- A scalar's text never starts with a quote or an opening bracket. -/
theorem scalarText_head (T : PyText) {j : Json} (hj : isScalar j = true) (r : List Char) :
    ∃ c t, scalarText T j ++ r = c :: t ∧ tokenChar c = true := by
  obtain ⟨hne, htok⟩ := scalarText_token T hj
  cases h : scalarText T j with
  | nil => exact absurd h hne
  | cons c t => exact ⟨c, t ++ r, rfl, htok c (by simp [h])⟩

theorem render_scalar (T : PyText) (pad : List Char) {j : Json} (hj : isScalar j = true) :
    render T pad j = scalarText T j := by
  cases j with
  | str s => simp [isScalar] at hj
  | arr xs => simp [isScalar] at hj
  | obj kvs => simp [isScalar] at hj
  | _ => simp only [render]

/-- A scalar and a string or container never print the same. -/
theorem scalar_ne_render (T : PyText) (pad : List Char) {a b : Json} (ha : isScalar a = true)
    (hb : isScalar b = false) {r s : List Char}
    (h : render T pad a ++ r = render T pad b ++ s) : False := by
  rw [render_scalar T pad ha] at h
  obtain ⟨c, t, hc, htok⟩ := scalarText_head T ha r
  rw [hc] at h
  cases b with
  | str y =>
    simp only [render, List.cons_append, List.cons.injEq] at h
    rw [h.1] at htok; exact absurd htok (by decide)
  | arr ys =>
    simp only [render, List.cons_append, List.cons.injEq] at h
    rw [h.1] at htok; exact absurd htok (by decide)
  | obj ys =>
    simp only [render, List.cons_append, List.cons.injEq] at h
    rw [h.1] at htok; exact absurd htok (by decide)
  | _ => simp [isScalar] at hb

theorem scalar_append_inj (T : PyText) (pad : List Char) {a b : Json} {r s : List Char}
    (ha : isScalar a = true) (hr : Delimited r) (hs : Delimited s)
    (h : render T pad a ++ r = render T pad b ++ s) : a = b ∧ r = s := by
  cases hb : isScalar b with
  | false => exact (scalar_ne_render T pad ha hb h).elim
  | true =>
    rw [render_scalar T pad ha, render_scalar T pad hb] at h
    obtain ⟨htext, hrest⟩ := token_append_inj (scalarText_token T ha).2 (scalarText_token T hb).2
      hr hs h
    exact ⟨scalarText_injective T ha hb htext, hrest⟩

theorem delimited_renderItems (T : PyText) (pad : List Char) (xs : List Json) (r : List Char) :
    Delimited (renderItems T pad false xs ++ r) := by
  cases xs <;> simp [renderItems, Delimited]

theorem delimited_renderMembers (T : PyText) (pad : List Char) (kvs : List (String × Json))
    (r : List Char) : Delimited (renderMembers T pad false kvs ++ r) := by
  cases kvs with
  | nil => simp [renderMembers, Delimited]
  | cons p t => obtain ⟨k, v⟩ := p; simp [renderMembers, Delimited]

/-- The first character of a printed value. -/
theorem render_head_ne (T : PyText) (pad : List Char) (j : Json) :
    ∃ c t, render T pad j = c :: t ∧ c ≠ ']' := by
  cases hj : isScalar j with
  | true =>
    obtain ⟨c, t, hc, htok⟩ := scalarText_head T hj []
    rw [List.append_nil] at hc
    refine ⟨c, t, by rw [render_scalar T pad hj, hc], ?_⟩
    rintro rfl
    exact absurd htok (by decide)
  | false =>
    cases j with
    | str s => exact ⟨'"', _, rfl, by decide⟩
    | arr xs => exact ⟨'[', _, rfl, by decide⟩
    | obj kvs => exact ⟨'\x7b', _, rfl, by decide⟩
    | _ => simp [isScalar] at hj

mutual

/-- **A printed value followed by a delimiter determines the value and the rest.** -/
theorem render_append_inj (T : PyText) (pad : List Char) :
    ∀ (a b : Json) {r s : List Char}, Delimited r → Delimited s →
      render T pad a ++ r = render T pad b ++ s → a = b ∧ r = s
  | str x, b, r, s, hr, hs, h => by
    cases b with
    | str y =>
      simp only [render, closeString, List.cons_append, List.append_assoc, List.nil_append,
        List.cons.injEq, true_and] at h
      obtain ⟨hxy, hrs⟩ := closeString_append_inj h
      exact ⟨by rw [String.toList_injective hxy], hrs⟩
    | arr ys => simp [render] at h
    | obj ys => simp [render] at h
    | _ => exact (scalar_ne_render T pad (by rfl) (by rfl) h.symm).elim
  | arr xs, b, r, s, hr, hs, h => by
    cases b with
    | arr ys =>
      simp only [render, List.cons_append, List.cons.injEq, true_and] at h
      obtain ⟨rfl, hrs⟩ := renderItems_append_inj T pad true xs ys h
      exact ⟨rfl, hrs⟩
    | str y => simp [render] at h
    | obj ys => simp [render] at h
    | _ => exact (scalar_ne_render T pad (by rfl) (by rfl) h.symm).elim
  | obj kvs, b, r, s, hr, hs, h => by
    cases b with
    | obj kvs' =>
      simp only [render, List.cons_append, List.cons.injEq, true_and] at h
      obtain ⟨rfl, hrs⟩ := renderMembers_append_inj T pad true kvs kvs' h
      exact ⟨rfl, hrs⟩
    | str y => simp [render] at h
    | arr ys => simp [render] at h
    | _ => exact (scalar_ne_render T pad (by rfl) (by rfl) h.symm).elim
  | null, b, r, s, hr, hs, h => scalar_append_inj T pad rfl hr hs h
  | bool x, b, r, s, hr, hs, h => scalar_append_inj T pad rfl hr hs h
  | int x, b, r, s, hr, hs, h => scalar_append_inj T pad rfl hr hs h
  | float x, b, r, s, hr, hs, h => scalar_append_inj T pad rfl hr hs h

theorem renderItems_append_inj (T : PyText) (pad : List Char) :
    ∀ (first : Bool) (xs ys : List Json) {r s : List Char},
      renderItems T pad first xs ++ r = renderItems T pad first ys ++ s → xs = ys ∧ r = s
  | first, [], ys, r, s, h => by
    cases ys with
    | nil => simpa [renderItems] using h
    | cons y ys =>
      -- the closing bracket against a comma, or against the first character of a value
      obtain ⟨c, t, hc, hne⟩ := render_head_ne T pad y
      cases first
      · simp [renderItems] at h
      · simp only [renderItems, if_true, List.nil_append, hc, List.cons_append,
          List.cons.injEq] at h
        exact absurd h.1.symm hne
  | first, x :: xs, ys, r, s, h => by
    cases ys with
    | nil =>
      obtain ⟨c, t, hc, hne⟩ := render_head_ne T pad x
      cases first
      · simp [renderItems] at h
      · simp only [renderItems, if_true, List.nil_append, hc, List.cons_append,
          List.cons.injEq] at h
        exact absurd h.1 hne
    | cons y ys =>
      simp only [renderItems, List.append_assoc] at h
      have h' := List.append_cancel_left h
      obtain ⟨rfl, h''⟩ := render_append_inj T pad x y (delimited_renderItems T pad xs r)
        (delimited_renderItems T pad ys s) h'
      obtain ⟨rfl, hrs⟩ := renderItems_append_inj T pad false xs ys h''
      exact ⟨rfl, hrs⟩

theorem renderMembers_append_inj (T : PyText) (pad : List Char) :
    ∀ (first : Bool) (xs ys : List (String × Json)) {r s : List Char},
      renderMembers T pad first xs ++ r = renderMembers T pad first ys ++ s → xs = ys ∧ r = s
  | first, [], ys, r, s, h => by
    cases ys with
    | nil => simpa [renderMembers] using h
    | cons q ys => obtain ⟨k, v⟩ := q; cases first <;> simp [renderMembers] at h
  | first, (k, v) :: xs, ys, r, s, h => by
    cases ys with
    | nil => cases first <;> simp [renderMembers] at h
    | cons q ys =>
      obtain ⟨k', v'⟩ := q
      simp only [renderMembers, closeString, List.append_assoc, List.cons_append,
        List.nil_append] at h
      have h' := List.append_cancel_left h
      simp only [List.cons.injEq, true_and] at h'
      obtain ⟨hk, h''⟩ := closeString_append_inj h'
      simp only [List.cons.injEq, true_and] at h''
      have h3 := List.append_cancel_left h''
      obtain ⟨rfl, h4⟩ := render_append_inj T pad v v' (delimited_renderMembers T pad xs r)
        (delimited_renderMembers T pad ys s) h3
      obtain ⟨rfl, hrs⟩ := renderMembers_append_inj T pad false xs ys h4
      exact ⟨by rw [String.toList_injective hk], hrs⟩

end

/-- **The text determines the value up to the order of members.** -/
theorem dumps_injective (T : PyText) (pad : List Char) {a b : Json}
    (h : dumps T pad a = dumps T pad b) : sortKeys a = sortKeys b := by
  have hnil : Delimited [] := trivial
  have h' : render T pad (sortKeys a) ++ [] = render T pad (sortKeys b) ++ [] := by
    rw [List.append_nil, List.append_nil, ← String.toList_ofList (l := render T pad (sortKeys a)),
      ← String.toList_ofList (l := render T pad (sortKeys b))]
    exact congrArg String.toList h
  exact (render_append_inj T pad _ _ hnil hnil h').1

/-! ## Members of equal texts -/

theorem lookup_perm {α β : Type} [DecidableEq α] {l l' : List (α × β)} (hp : l.Perm l')
    (hnd : (l.map Prod.fst).Nodup) (k : α) : Dict.lookup k l = Dict.lookup k l' := by
  have hnd' : (l'.map Prod.fst).Nodup := (hp.map Prod.fst).nodup_iff.mp hnd
  cases h : Dict.lookup k l with
  | some v =>
    exact (Dict.lookup_eq_some_of_mem hnd' (hp.mem_iff.mp (Dict.mem_of_lookup h))).symm
  | none =>
    rw [Dict.lookup_eq_none_iff] at h
    exact (Dict.lookup_eq_none_iff.mpr (fun hmem => h ((hp.map Prod.fst).mem_iff.mpr hmem))).symm

theorem lookup_sortKeysMembers (k : String) (kvs : List (String × Json)) :
    Dict.lookup k (sortKeysMembers kvs) = (Dict.lookup k kvs).map sortKeys := by
  induction kvs with
  | nil => rfl
  | cons p t ih =>
    obtain ⟨a, v⟩ := p
    by_cases hak : a = k <;> simp [sortKeysMembers, Dict.lookup, hak, ih]

theorem sortKeysMembers_append (l m : List (String × Json)) :
    sortKeysMembers (l ++ m) = sortKeysMembers l ++ sortKeysMembers m := by
  induction l with
  | nil => rfl
  | cons p t ih => obtain ⟨a, v⟩ := p; simp [sortKeysMembers, ih]

theorem sortKeysMembers_reverse (l : List (String × Json)) :
    sortKeysMembers l.reverse = (sortKeysMembers l).reverse := by
  induction l with
  | nil => rfl
  | cons p t ih =>
    obtain ⟨a, v⟩ := p
    simp [sortKeysMembers, sortKeysMembers_append, ih]

/-- Looking a member up in the sorted value gives the sorted member. -/
theorem get?_sortKeys (j : Json) (k : String) :
    (sortKeys j).get? k = (j.get? k).map sortKeys := by
  cases j with
  | obj kvs =>
    set d := Dict.ofList (sortKeysMembers kvs) with hd
    have hperm : (sortMembers d.entries).Perm d.entries := List.perm_insertionSort _ _
    have hnd : ((sortMembers d.entries).map Prod.fst).Nodup :=
      (hperm.map Prod.fst).nodup_iff.mpr d.nodup
    calc (sortKeys (obj kvs)).get? k
        = (Dict.ofList (sortMembers d.entries)).get? k := by rw [sortKeys]; rfl
      _ = Dict.lookup k (sortMembers d.entries) := by
          rw [Dict.get?, Dict.entries_ofList hnd]
      _ = d.get? k := lookup_perm hperm hnd k
      _ = ((dictOf kvs).get? k).map sortKeys := by
          rw [hd, Dict.get?_ofList, dictOf, Dict.get?_ofList, ← sortKeysMembers_reverse,
            lookup_sortKeysMembers]
  | _ => rfl

/-- **Equal texts agree on every member.** -/
theorem get?_eq_of_dumps_eq (T : PyText) (pad : List Char) {a b : Json}
    (h : dumps T pad a = dumps T pad b) (k : String) :
    (a.get? k).map sortKeys = (b.get? k).map sortKeys := by
  rw [← get?_sortKeys, ← get?_sortKeys, dumps_injective T pad h]

end Json

end Py
