import NeuraHash.Python.JsonRead

/-!
# The platform a node runs on

Every definition of the model takes a `Platform`: the interpreter's text conversions together with
the two cryptographic packages the code calls, `hashlib.sha256` and `eth_account.Account`, and the
finality module it imports but does not contain. Nothing is assumed about them in the structure; the
two assumptions a security statement may use are named here:

* `CollisionFree` — distinct byte strings have distinct digests;
* `IdealSigs P keys` — a signature made with one of the `keys` recovers to its address over the
  message it was made for, and recovers to no key over another message.
-/

namespace NeuraHash

open Py

/-- `neura_l1.finality`, which the state machine imports: votes and the check that two of them are a
slashable fault. -/
structure Finality where
  Vote : Type
  /-- `Vote.from_dict`. -/
  fromDict : Json → Except PyErr Vote
  /-- `vote.vote_id()`. -/
  voteId : Vote → String
  /-- `verify_vote_fault(validator, vote_a, vote_b, registered)`: a verdict and its kind. -/
  verifyVoteFault : Json → Vote → Vote → String → Except PyErr (Bool × String)

structure Platform extends PyText where
  /-- `hashlib.sha256(b).hexdigest()`. -/
  sha256 : Bytes → String
  /-- `Account.recover_message(encode_defunct(primitive=b), signature=sig)`: the checksummed
  address, or `none` when it raises. -/
  recoverMessage : Bytes → Json → Option String
  /-- `Account.sign_message(encode_defunct(primitive=b), key)` as hexadecimal text, for the key
  of the given address. -/
  signMessage : String → Bytes → String
  /-- Whether `neura_l1.pool_sequencer` can be imported; the settlement module guards it. -/
  poolSequencer : Bool
  finality : Finality

/-! ## Domain separation (`neura_l1/signing.py`) -/

/-- `_domain_bytes`: the signed bytes carry the domain tag, the chain id and the kind. -/
def domainBytes (kind : String) (data : Bytes) : Bytes :=
  utf8 ("NRH/v1|neurahash-l1-testnet-0|" ++ kind ++ "|") ++ data

theorem domainBytes_injective {kind : String} {a b : Bytes}
    (h : domainBytes kind a = domainBytes kind b) : a = b :=
  List.append_cancel_left h

/-- A hexadecimal signature may come without its `0x`. -/
def hexSig : Json → Json
  | .str s => if s.startsWith "0x" then .str s else .str ("0x" ++ s)
  | j => j

/-- `sign_bytes(account, data)`, by the account of the given address. -/
def signBytes (P : Platform) (account : String) (data : Bytes) : String :=
  P.signMessage account (domainBytes "bytes" data)

/-- `recover_bytes(data, sig)`; `none` when it raises. -/
def recoverBytes (P : Platform) (data : Bytes) (sig : Json) : Option String :=
  P.recoverMessage (domainBytes "bytes" data) (hexSig sig)

/-! ## Numbers at a boundary (`neura_l1/block_state.py`) -/

/-- `_finite`: `float(x)` that rejects the non-finite values. -/
def finite (T : PyText) (x : Json) : Except PyErr PyFloat := do
  let xf ← x.toFloat T
  if xf.isFinite then .ok xf else .error .valueError

/-- `_canon`: the text of a finite float, at full precision. -/
def canon (T : PyText) : PyFloat → Except PyErr String
  | .fin q => .ok (T.format17g q)
  | _ => .error .valueError

theorem canon_injective {T : PyText} {x y : PyFloat} {t : String}
    (hx : canon T x = .ok t) (hy : canon T y = .ok t) : x = y := by
  cases x with
  | fin a =>
    cases y with
    | fin b =>
      have h : T.format17g a = T.format17g b := by
        simp only [canon, Except.ok.injEq] at hx hy
        rw [hx, hy]
      rw [T.format17g_injective h]
    | _ => simp [canon] at hy
  | _ => simp [canon] at hx

/-! ## The cryptographic assumptions -/

def CollisionFree (P : Platform) : Prop := Function.Injective P.sha256

structure IdealSigs (P : Platform) (keys : Set String) : Prop where
  recover_sign : ∀ a ∈ keys, ∀ msg,
    P.recoverMessage msg (hexSig (.str (P.signMessage a msg))) = some a
  unforgeable : ∀ a ∈ keys, ∀ b ∈ keys, ∀ msg msg',
    P.recoverMessage msg' (hexSig (.str (P.signMessage a msg))) = some b → b = a ∧ msg' = msg

theorem IdealSigs.mono {P : Platform} {keys keys' : Set String} (h : IdealSigs P keys)
    (hsub : keys' ⊆ keys) : IdealSigs P keys' :=
  ⟨fun a ha => h.recover_sign a (hsub ha), fun a ha b hb => h.unforgeable a (hsub ha) b (hsub hb)⟩

theorem IdealSigs.recoverBytes_signBytes {P : Platform} {keys : Set String}
    (h : IdealSigs P keys) {a : String} (ha : a ∈ keys) (data : Bytes) :
    recoverBytes P data (.str (signBytes P a data)) = some a :=
  h.recover_sign a ha _

theorem IdealSigs.of_recoverBytes {P : Platform} {keys : Set String}
    (h : IdealSigs P keys) {a b : String} (ha : a ∈ keys) (hb : b ∈ keys) {data data' : Bytes}
    (hrec : recoverBytes P data' (.str (signBytes P a data)) = some b) :
    b = a ∧ data' = data := by
  obtain ⟨hba, hmsg⟩ := h.unforgeable a ha b hb _ _ hrec
  exact ⟨hba, domainBytes_injective hmsg⟩

/-! ## An executable platform

ASCII text, rationals printed as a numerator and a denominator, a digest that spells the bytes
out in hexadecimal after a first byte `ff`, and signatures that name their signer and their
message. It satisfies both assumptions,
and prints integers the way Python does. -/

namespace Platform

/-- One character a byte. -/
def latin1 (b : Bytes) : List Char := b.map (fun x => Char.ofNat x.toNat)

theorem latin1_injective {a b : Bytes} (h : latin1 a = latin1 b) : a = b := by
  refine List.map_injective_iff.mpr ?_ h
  intro x y hxy
  have hval : ∀ z : UInt8, (Char.ofNat z.toNat).toNat = z.toNat := by
    intro z
    have hz : z.toNat < 256 := z.toNat_lt
    rw [Char.toNat_ofNat, if_pos (Or.inl (by omega))]
  have := congrArg Char.toNat hxy
  rw [hval, hval] at this
  exact UInt8.toNat_inj.mp this

/-- Two hexadecimal digits a byte. -/
def hexlify (b : Bytes) : List Char :=
  b.flatMap (fun x => [Json.hexDigit (x.toNat / 16), Json.hexDigit (x.toNat % 16)])

theorem hexlify_injective {a b : Bytes} (h : hexlify a = hexlify b) : a = b := by
  induction a generalizing b with
  | nil => cases b with
    | nil => rfl
    | cons y b => simp [hexlify] at h
  | cons x a ih => cases b with
    | nil => simp [hexlify] at h
    | cons y b =>
      simp only [hexlify, List.flatMap_cons, List.cons_append, List.nil_append,
        List.cons.injEq] at h
      obtain ⟨hhi, hlo, hrest⟩ := h
      have hx : x.toNat < 256 := x.toNat_lt
      have hy : y.toNat < 256 := y.toNat_lt
      have hdiv := congrArg Json.hexValue hhi
      have hmod := congrArg Json.hexValue hlo
      rw [Json.hexValue_hexDigit _ (by omega), Json.hexValue_hexDigit _ (by omega)] at hdiv hmod
      rw [ih hrest, show x = y from UInt8.toNat_inj.mp (by omega)]

/-- `num` or `num.den`. -/
def ratText (q : ℚ) : String := if q.den = 1 then q.num.repr else q.num.repr ++ "." ++ q.den.repr

/-- Read a text written by `ratText`, or an integer followed by `.0`. -/
def parseRat (s : String) : Option PyFloat :=
  let (a, r) := s.toList.span (· ≠ '.')
  match (String.ofList a).toInt?, r with
  | some n, [] => some (.fin n)
  | some n, _ :: b => match (String.ofList b).toNat? with
    | some 0 => some (.fin n)
    | some d => some (.fin (n / d))
    | none => none
  | none, _ => none

theorem dot_not_mem_int (n : ℤ) : ∀ c ∈ n.repr.toList, decide (c ≠ '.') = true := by
  intro c hc
  have hdigit : ∀ m : ℕ, '.' ∉ m.repr.toList := by
    intro m hm
    rw [Nat.toList_repr] at hm
    exact absurd (Nat.isDigit_of_mem_toDigits (by norm_num) (by norm_num) hm) (by decide)
  rw [Int.repr_eq_if] at hc
  simp only [ne_eq, decide_not, Bool.not_eq_true', decide_eq_false_iff_not]
  rintro rfl
  split at hc
  · exact hdigit _ hc
  · rw [String.toList_append] at hc
    rcases List.mem_append.mp hc with h | h
    · exact absurd h (by decide)
    · exact hdigit _ h

theorem letter_not_mem_int (n : ℤ) : 'e' ∉ n.repr.toList := by
  have hdigit : ∀ m : ℕ, 'e' ∉ m.repr.toList := by
    intro m hm
    rw [Nat.toList_repr] at hm
    exact absurd (Nat.isDigit_of_mem_toDigits (by norm_num) (by norm_num) hm) (by decide)
  intro hc
  rw [Int.repr_eq_if] at hc
  split at hc
  · exact hdigit _ hc
  · rw [String.toList_append] at hc
    rcases List.mem_append.mp hc with h | h
    · exact absurd h (by decide)
    · exact hdigit _ h

theorem span_int (n : ℤ) (b : List Char) :
    (n.repr.toList ++ '.' :: b).span (· ≠ '.') = (n.repr.toList, '.' :: b) := by
  rw [List.span_eq_takeWhile_dropWhile, List.takeWhile_append_of_pos (dot_not_mem_int n),
    List.dropWhile_append_of_pos (dot_not_mem_int n)]
  simp

/-- An integer numeral is read back, with or without a fraction of zero. -/
theorem parseRat_int (n : ℤ) : parseRat n.repr = some (.fin n) := by
  have hspan : n.repr.toList.span (· ≠ '.') = (n.repr.toList, []) := by
    rw [List.span_eq_takeWhile_dropWhile, List.takeWhile_eq_self_iff.mpr (dot_not_mem_int n),
      List.dropWhile_eq_nil_iff.mpr (dot_not_mem_int n)]
  unfold parseRat
  rw [hspan]
  simp [Int.toInt?_repr]

theorem parseRat_frac (n : ℤ) (d : ℕ) :
    parseRat (n.repr ++ "." ++ d.repr) = some (.fin (if d = 0 then n else n / d)) := by
  have htext : (n.repr ++ "." ++ d.repr).toList = n.repr.toList ++ '.' :: d.repr.toList := by
    simp [String.toList_append]
  unfold parseRat
  rw [htext, span_int]
  simp only [String.ofList_toList, Int.toInt?_repr, Nat.toNat?_repr]
  cases d with
  | zero => rfl
  | succ d => rfl

theorem parseRat_ratText (q : ℚ) : parseRat (ratText q) = some (.fin q) := by
  unfold ratText
  split
  · next h => rw [parseRat_int, (Rat.den_eq_one_iff q).mp h]
  · rw [parseRat_frac, if_neg q.den_ne_zero, Rat.num_div_den]

/-- A float is printed with a fraction: `10.0`. -/
def floatRepr (q : ℚ) : String :=
  if q.den = 1 then q.num.repr ++ "." ++ (0 : ℕ).repr else ratText q

theorem floatRepr_eq (q : ℚ) : ∃ d : ℕ, floatRepr q = q.num.repr ++ "." ++ d.repr := by
  unfold floatRepr ratText
  split
  · exact ⟨0, rfl⟩
  · exact ⟨q.den, rfl⟩

theorem parseRat_floatRepr (q : ℚ) : parseRat (floatRepr q) = some (.fin q) := by
  unfold floatRepr
  split
  · next h => rw [parseRat_frac, if_pos rfl, (Rat.den_eq_one_iff q).mp h]
  · exact parseRat_ratText q

theorem floatRepr_numeric (q : ℚ) : ∀ c ∈ (floatRepr q).toList, numericChar c = true := by
  obtain ⟨d, hd⟩ := floatRepr_eq q
  intro c hc
  rw [hd, String.toList_append, String.toList_append] at hc
  rcases List.mem_append.mp hc with h | h
  · rcases List.mem_append.mp h with h | h
    · exact Json.mem_intText h
    · have : c = '.' := by simpa using h
      subst this; rfl
  · have hnat : (d : ℤ).repr = d.repr := rfl
    rw [← hnat] at h
    exact Json.mem_intText h

theorem floatRepr_ne_int (q : ℚ) (n : ℤ) : floatRepr q ≠ n.repr := by
  obtain ⟨d, hd⟩ := floatRepr_eq q
  intro h
  have hdot : '.' ∈ n.repr.toList := by
    rw [← h, hd, String.toList_append, String.toList_append]
    simp
  exact absurd (dot_not_mem_int n _ hdot) (by decide)

theorem isDigits_repr (d : ℕ) : isDigits d.repr.toList = true := by
  have hne := Json.intText_ne_nil d
  unfold isDigits
  rw [Bool.and_eq_true, List.all_eq_true]
  constructor
  · cases h : d.repr.toList with
    | nil => exact absurd h hne
    | cons c l => rfl
  · intro c hc
    rw [Nat.toList_repr] at hc
    exact Nat.isDigit_of_mem_toDigits (by norm_num) (by norm_num) hc

theorem floatRepr_literal (q : ℚ) : isFloatLiteral (floatRepr q).toList = true := by
  obtain ⟨d, hd⟩ := floatRepr_eq q
  have hint : ∀ c ∈ q.num.repr.toList, (c != '.' && c != 'e' && c != 'E') = true := by
    intro c hc
    have hchar := Json.mem_intText hc
    have hdot := dot_not_mem_int q.num c hc
    have hletter : ∀ c' : Char, numericChar c' = true → c' ≠ '.' → c' ≠ 'e' →
        (c' != '.' && c' != 'e' && c' != 'E') = true := by
      intro c' hnum hne hne'
      have hE : c' ≠ 'E' := by
        rintro rfl
        exact absurd hnum (by decide)
      simp [hne, hne', hE]
    refine hletter c hchar (by simpa using hdot) ?_
    rintro rfl
    exact letter_not_mem_int q.num hc
  have htext : (floatRepr q).toList = q.num.repr.toList ++ '.' :: d.repr.toList := by
    simp [hd, String.toList_append]
  have hspan : d.repr.toList.span Char.isDigit = (d.repr.toList, []) := by
    have hall : ∀ c ∈ d.repr.toList, c.isDigit = true :=
      List.all_eq_true.mp (Bool.and_eq_true _ _ ▸ isDigits_repr d).2
    rw [List.span_eq_takeWhile_dropWhile, List.takeWhile_eq_self_iff.mpr hall,
      List.dropWhile_eq_nil_iff.mpr hall]
  have hfraction : isFraction ('.' :: d.repr.toList) = true := by
    show (let (n, e) := d.repr.toList.span Char.isDigit
      isDigits n && (e.isEmpty || isExponent e)) = true
    rw [hspan]
    dsimp only
    rw [isDigits_repr]
    rfl
  unfold isFloatLiteral
  rw [htext, List.span_eq_takeWhile_dropWhile, List.takeWhile_append_of_pos hint,
    List.dropWhile_append_of_pos hint]
  show (isIntLiteral (q.num.repr.toList ++ []) && isFraction ('.' :: d.repr.toList)) = true
  rw [List.append_nil, Json.isIntLiteral_repr, hfraction]
  rfl

/-- Lower the ASCII letters. -/
def asciiLower (s : String) : String := String.ofList (s.toList.map Char.toLower)

/-- Drop ASCII blanks on both sides. -/
def asciiStrip (s : String) : String :=
  String.ofList (((s.toList.dropWhile isAsciiSpace).reverse.dropWhile isAsciiSpace).reverse)

/-- Lowering a letter makes no blank of it. -/
theorem isAsciiSpace_toLower (c : Char) : isAsciiSpace c.toLower = isAsciiSpace c := by
  by_cases hup : c.val ≥ 'A'.val ∧ c.val ≤ 'Z'.val
  · have hletters : ∀ n < 91, 65 ≤ n →
        isAsciiSpace (Char.ofNat n).toLower = isAsciiSpace (Char.ofNat n) := by decide
    have hcode : 65 ≤ c.toNat ∧ c.toNat < 91 := ⟨hup.1, Nat.lt_succ_of_le hup.2⟩
    have hletter := hletters c.toNat hcode.2 hcode.1
    rwa [Char.ofNat_toNat] at hletter
  · rw [Char.toLower, dif_neg hup]

theorem asciiLower_asciiStrip (s : String) : asciiLower (asciiStrip s) = asciiStrip (asciiLower s) := by
  have hspace : isAsciiSpace ∘ Char.toLower = isAsciiSpace := funext isAsciiSpace_toLower
  simp only [asciiLower, asciiStrip, String.toList_ofList, List.dropWhile_map, hspace,
    ← List.map_reverse]

/-- A signature that spells out its signer and its message. -/
def idealSign (a : String) (msg : Bytes) : String := "0x" ++ a ++ "|" ++ String.ofList (latin1 msg)

def idealRecover (msg : Bytes) : Json → Option String
  | .str s =>
    let (a, r) := (s.toList.drop 2).span (· ≠ '|')
    if r = '|' :: latin1 msg then some (String.ofList a) else none
  | _ => none

def ideal : Platform where
  lower := asciiLower
  lower_lower s := by
    simp [asciiLower, List.map_map, Function.comp_def]
  strip := asciiStrip
  lower_strip := asciiLower_asciiStrip
  parseFloat := parseRat
  parseInt := String.toInt?
  reprFloat := floatRepr
  parseFloat_reprFloat := parseRat_floatRepr
  reprFloat_numeric := floatRepr_numeric
  reprFloat_ne_nil q := by
    obtain ⟨d, hd⟩ := floatRepr_eq q
    simp [hd, String.toList_append]
  reprFloat_ne_int := floatRepr_ne_int
  reprFloat_literal := floatRepr_literal
  format17g := ratText
  parseFloat_format17g := parseRat_ratText
  format8g
    | .fin q => ratText q
    | .inf => "inf"
    | .negInf => "-inf"
    | .nan => "nan"
  strContainer _ := "[...]"
  sha256 b := String.ofList ('f' :: 'f' :: hexlify b)
  recoverMessage := idealRecover
  signMessage := idealSign
  poolSequencer := true
  finality :=
    { Vote := Unit
      fromDict _ := .error .valueError
      voteId _ := ""
      verifyVoteFault _ _ _ _ := .ok (false, "") }

theorem ideal_collisionFree : CollisionFree ideal := by
  intro a b h
  have h' : 'f' :: 'f' :: hexlify a = 'f' :: 'f' :: hexlify b := String.ofList_injective h
  simp only [List.cons.injEq, true_and] at h'
  exact hexlify_injective h'

/-- Every digest of the executable platform starts with `ff`. -/
theorem ideal_sha256_ne {b : Bytes} {s : String} (hs : s.toList.head? ≠ some 'f') :
    ideal.sha256 b ≠ s := by
  rintro rfl
  have htext : ideal.sha256 b = String.ofList ('f' :: 'f' :: hexlify b) := rfl
  rw [htext, String.toList_ofList] at hs
  exact hs rfl

/-- The keys of the executable platform: addresses without the separator. -/
def idealKeys : Set String := {a | '|' ∉ a.toList}

theorem idealRecover_idealSign {a : String} (ha : a ∈ idealKeys) (msg msg' : Bytes) :
    idealRecover msg' (hexSig (.str (idealSign a msg)))
      = if msg = msg' then some a else none := by
  have htext : (idealSign a msg).toList = '0' :: 'x' :: (a.toList ++ '|' :: latin1 msg) := by
    simp [idealSign, String.toList_append]
  have hhex : hexSig (.str (idealSign a msg)) = .str (idealSign a msg) := by
    have hstart : (idealSign a msg).startsWith "0x" = true := by
      rw [String.startsWith_string_iff, htext]
      exact ⟨_, rfl⟩
    simp only [hexSig, hstart, if_true]
  have hne : ∀ c ∈ a.toList, decide (c ≠ '|') = true := by
    intro c hc
    simp only [ne_eq, decide_not, Bool.not_eq_true', decide_eq_false_iff_not]
    rintro rfl
    exact ha hc
  rw [hhex, idealRecover, htext]
  simp only [List.drop_succ_cons, List.drop_zero]
  rw [List.span_eq_takeWhile_dropWhile, List.takeWhile_append_of_pos hne,
    List.dropWhile_append_of_pos hne]
  by_cases hm : msg = msg'
  · simp [hm]
  · have : latin1 msg ≠ latin1 msg' := fun h => hm (latin1_injective h)
    simp [hm, this]

theorem ideal_idealSigs : IdealSigs ideal idealKeys where
  recover_sign a ha msg := by
    show idealRecover msg (hexSig (.str (idealSign a msg))) = some a
    rw [idealRecover_idealSign ha, if_pos rfl]
  unforgeable a ha b _ msg msg' h := by
    have h' : idealRecover msg' (hexSig (.str (idealSign a msg))) = some b := h
    rw [idealRecover_idealSign ha] at h'
    split at h'
    · next hm => exact ⟨(Option.some.inj h').symm, hm.symm⟩
    · simp at h'

end Platform

/-! ## Hexadecimal -/

/-- `b.hex()`. -/
def hex (b : Bytes) : String := String.ofList (Platform.hexlify b)

theorem fromHexChars_hexlify (b : Bytes) : fromHexChars (Platform.hexlify b) = some b := by
  induction b with
  | nil => rfl
  | cons x b ih =>
    have hnibble : ∀ n < 16, hexNibble (Json.hexDigit n) = some n := by decide
    have hspace : ∀ n < 16, isAsciiSpace (Json.hexDigit n) = false := by decide
    have hx := x.toNat_lt
    show fromHexChars (Json.hexDigit (x.toNat / 16) :: Json.hexDigit (x.toNat % 16)
      :: Platform.hexlify b) = _
    rw [fromHexChars, hspace _ (by omega), hnibble _ (by omega), hnibble _ (by omega), ih]
    have hbyte : x.toNat / 16 * 16 + x.toNat % 16 = x.toNat := by omega
    simp [hbyte]

@[simp] theorem fromHex_hex (b : Bytes) : fromHex (hex b) = some b := by
  rw [fromHex, hex, String.toList_ofList, fromHexChars_hexlify]

theorem hex_injective {a b : Bytes} (h : hex a = hex b) : a = b := by
  have hbytes := congrArg fromHex h
  rw [fromHex_hex, fromHex_hex] at hbytes
  exact Option.some.inj hbytes

theorem length_hex (b : Bytes) : (hex b).length = 2 * b.length := by
  have hlen : (Platform.hexlify b).length = 2 * b.length := by
    induction b with
    | nil => rfl
    | cons x b ih =>
      show (Platform.hexlify b).length + 1 + 1 = 2 * (b.length + 1)
      omega
  rw [hex, String.length_ofList, hlen]

/-- A digest of the executable platform decodes. -/
theorem Platform.fromHex_ideal (b : Bytes) : fromHex (ideal.sha256 b) = some (255 :: b) :=
  fromHex_hex (255 :: b)

end NeuraHash
