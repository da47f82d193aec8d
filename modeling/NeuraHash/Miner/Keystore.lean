import NeuraHash.Commitments.Checkpoint

/-!
# The Argon2id keystore (`neurahash/wallet.py`)

A private key is encrypted under a password: Argon2id stretches it into a derived key, whose first
sixteen bytes are the cipher key of AES-128-CTR and whose next sixteen key the MAC over the
ciphertext. The object that results is JSON, and whoever holds the file may edit it.

`keystore_opens_right_iff` says for which edits an attempt still opens to the same key or raises
`ValueError`. The MAC leaves out the initial counter block, its key is shorter than sixteen bytes
where the edited `dklen` is, and the cost fields are converted outside of the `try`.
-/

namespace NeuraHash

open Py

/-- What Argon2id is called with. -/
structure KdfArgs where
  secret : Bytes
  salt : Bytes
  timeCost : ℤ
  memoryCost : ℤ
  parallelism : ℤ
  hashLen : ℤ
  deriving DecidableEq

/-- The packages the keystore calls. -/
structure KeystorePackages where
  /-- `hash_secret_raw` of `argon2.low_level`. Costs it does not take raise. -/
  hashSecretRaw : KdfArgs → Except PyErr Bytes
  length_hash : ∀ {a dk}, hashSecretRaw a = .ok dk → (dk.length : ℤ) = a.hashLen
  keccak : Bytes → Bytes
  /-- The keystream of AES in counter mode, from a key and an initial counter block. -/
  keystream : Bytes → Bytes → ℕ → UInt8

def encKey (dk : Bytes) : Bytes := dk.take 16

def macKey (dk : Bytes) : Bytes := (dk.drop 16).take 16

/-- No two inputs of Argon2id share the sixteen bytes that key a MAC. -/
def KeystorePackages.CollisionFree (K : KeystorePackages) : Prop :=
  ∀ {a b : KdfArgs} {da db : Bytes}, K.hashSecretRaw a = .ok da → K.hashSecretRaw b = .ok db →
    32 ≤ a.hashLen → 32 ≤ b.hashLen → macKey da = macKey db → a = b

/-! ## The cipher -/

def xorStream (stream : ℕ → UInt8) (data : Bytes) : Bytes := data.mapIdx fun i b => b ^^^ stream i

@[simp] theorem length_xorStream (stream : ℕ → UInt8) (data : Bytes) :
    (xorStream stream data).length = data.length :=
  List.length_mapIdx

@[simp] theorem xorStream_xorStream (stream : ℕ → UInt8) (data : Bytes) :
    xorStream stream (xorStream stream data) = data := by
  unfold xorStream
  rw [List.mapIdx_mapIdx]
  apply List.mapIdx_eq_iff.mpr
  intro i
  cases data[i]? with
  | none => rfl
  | some b =>
    show some b = some (b ^^^ stream i ^^^ stream i)
    rw [UInt8.xor_assoc, UInt8.xor_self, UInt8.xor_zero]

theorem xorStream_eq_comm {stream : ℕ → UInt8} {data text : Bytes} :
    xorStream stream data = text ↔ data = xorStream stream text := by
  constructor
  · rintro rfl
    exact (xorStream_xorStream stream data).symm
  · rintro rfl
    exact xorStream_xorStream stream text

/-- Two keystreams encrypt a text alike when they agree on its length. -/
theorem xorStream_congr {stream stream' : ℕ → UInt8} {data : Bytes} :
    xorStream stream data = xorStream stream' data ↔ ∀ i < data.length, stream i = stream' i := by
  constructor
  · intro h i hi
    have hbyte : (xorStream stream data)[i]? = (xorStream stream' data)[i]? := by rw [h]
    simp only [xorStream, List.getElem?_mapIdx, List.getElem?_eq_getElem hi, Option.map_some,
      Option.some.injEq] at hbyte
    exact (UInt8.xor_right_inj data[i]).mp hbyte
  · intro h
    apply List.mapIdx_eq_iff.mpr
    intro i
    by_cases hi : i < data.length
    · simp [xorStream, List.getElem?_eq_getElem hi, h i hi]
    · simp [xorStream, List.getElem?_eq_none (not_lt.mp hi)]

/-- `_aes128ctr(key, iv, data)`; a key or an initial block of another size raises `ValueError`. -/
def aes128ctr (K : KeystorePackages) (key iv data : Bytes) : Except PyErr Bytes :=
  if key.length = 16 ∨ key.length = 24 ∨ key.length = 32 then
    if iv.length = 16 then .ok (xorStream (K.keystream key iv) data) else .error .valueError
  else .error .valueError

/-! ## The keystore object -/

/-- A private key as the caller has it: bytes, or hexadecimal text with or without its `0x`. -/
inductive PrivKey where
  | bytes (b : Bytes)
  | text (s : String)

def PrivKey.key : PrivKey → Except PyErr Bytes
  | .bytes b => .ok b
  | .text s =>
    match fromHexChars (if "0x".toList <+: s.toList then s.toList.drop 2 else s.toList) with
    | some b => .ok b
    | none => .error .valueError

/-- The fields of a keystore object that opening it reads. -/
structure KeystoreFields where
  timeCost : Json
  memoryCost : Json
  parallelism : Json
  dklen : Json
  salt : Bytes
  ciphertext : Bytes
  iv : Bytes
  mac : Bytes

namespace KeystoreFields

/-- The cost fields, in the order they are converted in. -/
def costs (f : KeystoreFields) : List Json := [f.timeCost, f.memoryCost, f.parallelism, f.dklen]

/-- The arguments of the key derivation. -/
def args (T : PyText) (f : KeystoreFields) (password : String) : Except PyErr KdfArgs := do
  let timeCost ← f.timeCost.toInt T
  let memoryCost ← f.memoryCost.toInt T
  let parallelism ← f.parallelism.toInt T
  let hashLen ← f.dklen.toInt T
  return ⟨utf8 password, f.salt, timeCost, memoryCost, parallelism, hashLen⟩

end KeystoreFields

/-- `bytes.fromhex(j)`. -/
def hexField : Json → Except PyErr Bytes
  | .str s => match fromHex s with
    | some b => .ok b
    | none => .error .valueError
  | _ => .error .typeError

@[simp] theorem hexField_hex (b : Bytes) : hexField (.str (hex b)) = .ok b := by
  simp [hexField]

/-- The body of the `try`. -/
def readFields (crypto : Json) : Except PyErr KeystoreFields := do
  let kdfparams ← crypto.item "kdfparams"
  let timeCost ← kdfparams.item "time_cost"
  let memoryCost ← kdfparams.item "memory_cost"
  let parallelism ← kdfparams.item "parallelism"
  let dklen ← kdfparams.getD "dklen" (.int 32)
  let salt ← hexField (← kdfparams.item "salt")
  let ciphertext ← hexField (← crypto.item "ciphertext")
  let iv ← hexField (← (← crypto.item "cipherparams").item "iv")
  let mac ← hexField (← crypto.item "mac")
  return ⟨timeCost, memoryCost, parallelism, dklen, salt, ciphertext, iv, mac⟩

/-- `except (KeyError, TypeError, ValueError)`. -/
def malformed {α : Type} : Except PyErr α → Except PyErr α
  | .error .keyError | .error .typeError | .error .valueError => .error .valueError
  | r => r

def argon2idEncrypt (K : KeystorePackages) (salt iv : Bytes) (privkey : PrivKey)
    (password : String) (timeCost memoryCost parallelism : ℤ) : Except PyErr Json := do
  if password = "" then throw .valueError
  let key ← privkey.key
  let dk ← K.hashSecretRaw ⟨utf8 password, salt, timeCost, memoryCost, parallelism, 32⟩
  let ciphertext ← aes128ctr K (encKey dk) iv key
  let mac := K.keccak (macKey dk ++ ciphertext)
  return .obj [
    ("cipher", .str "aes-128-ctr"),
    ("cipherparams", .obj [("iv", .str (hex iv))]),
    ("ciphertext", .str (hex ciphertext)),
    ("kdf", .str "argon2id"),
    ("kdfparams", .obj [("time_cost", .int timeCost), ("memory_cost", .int memoryCost),
      ("parallelism", .int parallelism), ("dklen", .int 32), ("salt", .str (hex salt))]),
    ("mac", .str (hex mac))]

def argon2idDecrypt (K : KeystorePackages) (T : PyText) (crypto : Json) :
    Option String → Except PyErr Bytes
  | none => .error .valueError
  | some password => do
    let f ← malformed (readFields crypto)
    -- the conversions and the derivation stand outside of the `try`
    let dk ← K.hashSecretRaw (← f.args T password)
    if K.keccak (macKey dk ++ f.ciphertext) = f.mac then
      aes128ctr K (encKey dk) f.iv f.ciphertext
    else .error .valueError

/-- An attempt raises `ValueError` or returns the key. -/
def OpensRight (key : Bytes) : Except PyErr Bytes → Prop
  | .ok k => k = key
  | .error e => e = .valueError

/-! ## Reading an object back -/

/-- The fields of the object one encryption writes. -/
def writtenFields (K : KeystorePackages) (salt iv key dk : Bytes)
    (timeCost memoryCost parallelism : ℤ) : KeystoreFields :=
  let ciphertext := xorStream (K.keystream (encKey dk) iv) key
  ⟨.int timeCost, .int memoryCost, .int parallelism, .int 32, salt, ciphertext, iv,
    K.keccak (macKey dk ++ ciphertext)⟩

theorem argon2idEncrypt_eq_ok {K : KeystorePackages} {salt iv : Bytes} {privkey : PrivKey}
    {password : String} {timeCost memoryCost parallelism : ℤ} {crypto : Json}
    (h : argon2idEncrypt K salt iv privkey password timeCost memoryCost parallelism = .ok crypto) :
    ∃ key dk, privkey.key = .ok key ∧ iv.length = 16
      ∧ K.hashSecretRaw ⟨utf8 password, salt, timeCost, memoryCost, parallelism, 32⟩ = .ok dk
      ∧ readFields crypto
          = .ok (writtenFields K salt iv key dk timeCost memoryCost parallelism) := by
  unfold argon2idEncrypt at h
  by_cases hp : password = ""
  · rw [if_pos hp] at h
    cases h
  rw [if_neg hp] at h
  obtain ⟨key, hkey, h⟩ := bind_eq_ok.mp h
  obtain ⟨dk, hdk, h⟩ := bind_eq_ok.mp h
  obtain ⟨ciphertext, hcipher, h⟩ := bind_eq_ok.mp h
  have hlen : (dk.length : ℤ) = 32 := K.length_hash hdk
  have henc : (encKey dk).length = 16 := by
    rw [encKey, List.length_take]
    omega
  unfold aes128ctr at hcipher
  rw [if_pos (Or.inl henc)] at hcipher
  by_cases hiv : iv.length = 16
  · rw [if_pos hiv] at hcipher
    have hct := Except.ok.inj hcipher
    refine ⟨key, dk, hkey, hiv, hdk, ?_⟩
    rw [← Except.ok.inj h]
    simp [readFields, writtenFields, Json.item_obj, Json.getD_obj, Dict.lookup, hct]
  · rw [if_neg hiv] at hcipher
    cases hcipher

/-- The exceptions the `except` clause names. -/
def Caught (e : PyErr) : Prop := e = .keyError ∨ e = .typeError ∨ e = .valueError

theorem malformed_of_caught {α : Type} {r : Except PyErr α} (h : ∀ e, r = .error e → Caught e) :
    (∃ a, r = .ok a ∧ malformed r = .ok a) ∨ malformed r = .error .valueError := by
  cases r with
  | ok a => exact Or.inl ⟨a, rfl, rfl⟩
  | error e =>
    right
    rcases h e rfl with rfl | rfl | rfl <;> rfl

theorem item_caught {j : Json} {k : String} {e : PyErr} (h : j.item k = .error e) : Caught e := by
  unfold Json.item at h
  split at h
  · split at h
    · cases h
    · exact Or.inl (Except.error.inj h).symm
  · exact Or.inr (Or.inl (Except.error.inj h).symm)

theorem hexField_caught {j : Json} {e : PyErr} (h : hexField j = .error e) : Caught e := by
  unfold hexField at h
  split at h
  · split at h
    · cases h
    · exact Or.inr (Or.inr (Except.error.inj h).symm)
  · exact Or.inr (Or.inl (Except.error.inj h).symm)

/-- A sequence of two steps that raises. -/
theorem bind_eq_error {α β : Type} {x : Except PyErr α} {f : α → Except PyErr β} {e : PyErr} :
    (x >>= f) = .error e ↔ x = .error e ∨ ∃ a, x = .ok a ∧ f a = .error e := by
  cases x with
  | error e' => simp
  | ok a => simp

theorem readFields_caught {crypto : Json} {e : PyErr} (h : readFields crypto = .error e) :
    Caught e := by
  unfold readFields at h
  rcases bind_eq_error.mp h with h | ⟨kdfparams, -, h⟩
  · exact item_caught h
  rcases bind_eq_error.mp h with h | ⟨timeCost, htime, h⟩
  · exact item_caught h
  -- the cost fields are read first, so the default of `dklen` is asked of an object
  have hobj : ∃ kvs, kdfparams = .obj kvs := Json.isObj_of_item htime
  rcases bind_eq_error.mp h with h | ⟨memoryCost, -, h⟩
  · exact item_caught h
  rcases bind_eq_error.mp h with h | ⟨parallelism, -, h⟩
  · exact item_caught h
  rcases bind_eq_error.mp h with h | ⟨dklen, -, h⟩
  · obtain ⟨kvs, rfl⟩ := hobj
    cases h
  rcases bind_eq_error.mp h with h | ⟨saltText, -, h⟩
  · exact item_caught h
  rcases bind_eq_error.mp h with h | ⟨salt, -, h⟩
  · exact hexField_caught h
  rcases bind_eq_error.mp h with h | ⟨cipherText, -, h⟩
  · exact item_caught h
  rcases bind_eq_error.mp h with h | ⟨ciphertext, -, h⟩
  · exact hexField_caught h
  rcases bind_eq_error.mp h with h | ⟨cipherparams, -, h⟩
  · exact item_caught h
  rcases bind_eq_error.mp h with h | ⟨ivText, -, h⟩
  · exact item_caught h
  rcases bind_eq_error.mp h with h | ⟨iv, -, h⟩
  · exact hexField_caught h
  rcases bind_eq_error.mp h with h | ⟨macText, -, h⟩
  · exact item_caught h
  rcases bind_eq_error.mp h with h | ⟨mac, -, h⟩
  · exact hexField_caught h
  cases h

/-! ## Converting the costs -/

/-- `int(j)` raises. -/
def refused (T : PyText) (j : Json) : Bool := !(j.toInt T).isOk

/-- A value on which `int` raises something else than `ValueError`. -/
def noInteger : Json → Bool
  | .null | .arr _ | .obj _ | .float .inf | .float .negInf => true
  | _ => false

theorem toInt_valueError_iff {T : PyText} {j : Json} {e : PyErr} (h : j.toInt T = .error e) :
    e = .valueError ↔ noInteger j = false := by
  cases j with
  | null | arr _ | obj _ =>
    rw [← Except.error.inj h]
    simp [noInteger]
  | bool b => cases h
  | int n => cases h
  | float x =>
    cases x with
    | fin q => cases h
    | inf | negInf | nan =>
      rw [← Except.error.inj h]
      simp [noInteger]
  | str s =>
    unfold Json.toInt at h
    dsimp only at h
    split at h
    · cases h
    · rw [← Except.error.inj h]
      simp [noInteger]

/-- The derivation's arguments raise what the first refused cost raises. -/
theorem args_eq_error {T : PyText} {f : KeystoreFields} {password : String} {e : PyErr}
    (h : f.args T password = .error e) :
    ∃ j, f.costs.find? (refused T) = some j ∧ j.toInt T = .error e := by
  unfold KeystoreFields.args at h
  unfold KeystoreFields.costs refused
  rcases bind_eq_error.mp h with hj | ⟨timeCost, htime, h⟩
  · exact ⟨_, by simp [hj, Except.isOk, Except.toBool], hj⟩
  rcases bind_eq_error.mp h with hj | ⟨memoryCost, hmemory, h⟩
  · exact ⟨_, by simp [htime, hj, Except.isOk, Except.toBool], hj⟩
  rcases bind_eq_error.mp h with hj | ⟨parallelism, hpar, h⟩
  · exact ⟨_, by simp [htime, hmemory, hj, Except.isOk, Except.toBool], hj⟩
  rcases bind_eq_error.mp h with hj | ⟨hashLen, hlen, h⟩
  · exact ⟨_, by simp [htime, hmemory, hpar, hj, Except.isOk, Except.toBool], hj⟩
  cases h

theorem args_error_of_find {T : PyText} {f : KeystoreFields} {password : String} {j : Json}
    (h : f.costs.find? (refused T) = some j) :
    ∃ e, f.args T password = .error e ∧ j.toInt T = .error e := by
  cases ha : f.args T password with
  | error e =>
    obtain ⟨j', hj', he⟩ := args_eq_error ha
    rw [h] at hj'
    cases hj'
    exact ⟨e, rfl, he⟩
  | ok a =>
    exfalso
    unfold KeystoreFields.args at ha
    obtain ⟨timeCost, htime, ha⟩ := bind_eq_ok.mp ha
    obtain ⟨memoryCost, hmemory, ha⟩ := bind_eq_ok.mp ha
    obtain ⟨parallelism, hpar, ha⟩ := bind_eq_ok.mp ha
    obtain ⟨hashLen, hlen, ha⟩ := bind_eq_ok.mp ha
    simp [KeystoreFields.costs, refused, htime, hmemory, hpar, hlen, Except.isOk,
      Except.toBool] at h

/-! ## An attempt -/

variable {K : KeystorePackages} {T : PyText}

theorem decrypt_of_read {crypto : Json} {f : KeystoreFields} (h : readFields crypto = .ok f)
    (p : String) :
    argon2idDecrypt K T crypto (some p) = f.args T p >>= fun a => K.hashSecretRaw a >>= fun dk =>
      if K.keccak (macKey dk ++ f.ciphertext) = f.mac then
        aes128ctr K (encKey dk) f.iv f.ciphertext
      else .error .valueError := by
  show (malformed (readFields crypto) >>= fun f => f.args T p >>= fun a => K.hashSecretRaw a
    >>= fun dk => if K.keccak (macKey dk ++ f.ciphertext) = f.mac then
        aes128ctr K (encKey dk) f.iv f.ciphertext else .error .valueError) = _
  rw [h]
  rfl

/-- An attempt that gets as far as the MAC: the fields it read, the arguments it derived with and
the derived key. -/
structure Derives (K : KeystorePackages) (T : PyText) (crypto : Json) (password : Option String)
    (f : KeystoreFields) (a : KdfArgs) (dk : Bytes) : Prop where
  read : readFields crypto = .ok f
  args : ∃ p, password = some p ∧ f.args T p = .ok a
  derived : K.hashSecretRaw a = .ok dk

variable {crypto : Json} {password : Option String} {f : KeystoreFields} {a : KdfArgs} {dk : Bytes}

theorem Derives.length (h : Derives K T crypto password f a dk) : (dk.length : ℤ) = a.hashLen :=
  K.length_hash h.derived

/-- What an attempt returns once the key is derived. -/
theorem Derives.decrypt (h : Derives K T crypto password f a dk) :
    argon2idDecrypt K T crypto password
      = if K.keccak (macKey dk ++ f.ciphertext) = f.mac then
          aes128ctr K (encKey dk) f.iv f.ciphertext
        else .error .valueError := by
  obtain ⟨p, rfl, hargs⟩ := h.args
  rw [decrypt_of_read h.read, hargs, ok_bind, h.derived, ok_bind]

/-- An attempt whose MAC is right opens to the key when the ciphertext is the key's, or the cipher
refuses the derived key or the initial block. -/
theorem aes_opensRight_iff {key data iv : Bytes} {dk : Bytes} :
    OpensRight key (aes128ctr K (encKey dk) iv data)
      ↔ (16 ≤ dk.length → iv.length = 16 →
          data = xorStream (K.keystream (encKey dk) iv) key) := by
  have hlen : (encKey dk).length = min 16 dk.length := List.length_take
  unfold aes128ctr
  rw [hlen]
  by_cases hdk : 16 ≤ dk.length
  · rw [if_pos (by omega)]
    by_cases hiv : iv.length = 16
    · rw [if_pos hiv]
      show xorStream _ data = key ↔ _
      rw [xorStream_eq_comm]
      simp [hdk, hiv]
    · rw [if_neg hiv]
      simp [OpensRight, hiv]
  · rw [if_neg (by omega)]
    simp [OpensRight, hdk]

theorem Derives.opensRight_iff (h : Derives K T crypto password f a dk) (key : Bytes) :
    OpensRight key (argon2idDecrypt K T crypto password)
      ↔ (f.mac = K.keccak (macKey dk ++ f.ciphertext) → 16 ≤ a.hashLen → f.iv.length = 16 →
          f.ciphertext = xorStream (K.keystream (encKey dk) f.iv) key) := by
  rw [h.decrypt]
  have hlen := h.length
  by_cases hmac : K.keccak (macKey dk ++ f.ciphertext) = f.mac
  · rw [if_pos hmac, aes_opensRight_iff]
    have hbound : 16 ≤ dk.length ↔ 16 ≤ a.hashLen := by omega
    simp [hmac, hbound]
  · rw [if_neg hmac]
    simp [OpensRight, Ne.symm hmac]

/-- The object one encryption writes opens to its key under the same password. -/
theorem argon2idDecrypt_encrypt {salt iv key : Bytes} {privkey : PrivKey} {p : String}
    {timeCost memoryCost parallelism : ℤ} (hkey : privkey.key = .ok key)
    (henc : argon2idEncrypt K salt iv privkey p timeCost memoryCost parallelism = .ok crypto) :
    argon2idDecrypt K T crypto (some p) = .ok key := by
  obtain ⟨key', dk, hkey', hiv, hdk, hread⟩ := argon2idEncrypt_eq_ok henc
  rw [hkey] at hkey'
  cases hkey'
  have hd : Derives K T crypto (some p) (writtenFields K salt iv key dk timeCost memoryCost
      parallelism) ⟨utf8 p, salt, timeCost, memoryCost, parallelism, 32⟩ dk :=
    ⟨hread, ⟨p, rfl, rfl⟩, hdk⟩
  have hlen : (encKey dk).length = 16 := by
    have hsize := hd.length
    rw [encKey, List.length_take]
    dsimp only at hsize
    omega
  have hmac : K.keccak (macKey dk
      ++ (writtenFields K salt iv key dk timeCost memoryCost parallelism).ciphertext)
        = (writtenFields K salt iv key dk timeCost memoryCost parallelism).mac := rfl
  rw [hd.decrypt, if_pos hmac]
  show aes128ctr K (encKey dk) iv (xorStream (K.keystream (encKey dk) iv) key) = .ok key
  rw [aes128ctr, if_pos (Or.inl hlen), if_pos hiv]
  exact congrArg Except.ok (xorStream_xorStream _ key)

/-! ## Edited objects -/

/-- When an attempt on an edited object opens to the key of the original one or is refused with a
`ValueError`. -/
structure SafeEdit (K : KeystorePackages) (T : PyText) (key : Bytes) (orig : KeystoreFields)
    (own : KdfArgs) (edited : Json) (attempt : Option String) : Prop where
  /-- The first cost that is no integer is a text or a `NaN`. -/
  costs : ∀ p f, attempt = some p → readFields edited = .ok f →
    ∀ j, f.costs.find? (refused T) = some j → noInteger j = false
  /-- Argon2 takes the costs. -/
  accepted : ∀ p f a, attempt = some p → readFields edited = .ok f → f.args T p = .ok a →
    ∀ e, K.hashSecretRaw a = .error e → e = .valueError
  /-- Under the original MAC and a full derived key, the initial block gives the same keystream. -/
  macKept : ∀ f a dk, Derives K T edited attempt f a dk → f.mac = orig.mac → 32 ≤ a.hashLen →
    a = own → f.ciphertext = orig.ciphertext → f.iv.length = 16 →
    ∀ i < key.length, K.keystream (encKey dk) f.iv i = K.keystream (encKey dk) orig.iv i
  /-- Where an edited MAC, or one under a short derived key, is right, the ciphertext is the key's. -/
  macEdited : ∀ f a dk, Derives K T edited attempt f a dk →
    ¬ (f.mac = orig.mac ∧ 32 ≤ a.hashLen) → f.mac = K.keccak (macKey dk ++ f.ciphertext) →
    16 ≤ a.hashLen → f.iv.length = 16 →
    f.ciphertext = xorStream (K.keystream (encKey dk) f.iv) key

theorem length_macKey {a : KdfArgs} {dk : Bytes} (h : K.hashSecretRaw a = .ok dk)
    (hlen : 32 ≤ a.hashLen) : (macKey dk).length = 16 := by
  have hdk := K.length_hash h
  rw [macKey, List.length_take, List.length_drop]
  omega

/-- The original MAC under a full derived key is right for the original arguments and ciphertext
only. -/
theorem own_of_mac (hkeccak : Function.Injective K.keccak) (hargon : K.CollisionFree)
    {own a : KdfArgs} {dkOwn dk ctOwn ct : Bytes} (hown : K.hashSecretRaw own = .ok dkOwn)
    (h : K.hashSecretRaw a = .ok dk) (hlenOwn : 32 ≤ own.hashLen) (hlen : 32 ≤ a.hashLen)
    (hmac : K.keccak (macKey dkOwn ++ ctOwn) = K.keccak (macKey dk ++ ct)) :
    a = own ∧ ct = ctOwn := by
  have hbytes : macKey dkOwn ++ ctOwn = macKey dk ++ ct := hkeccak hmac
  have hsize : (macKey dkOwn).length = (macKey dk).length := by
    rw [length_macKey hown hlenOwn, length_macKey h hlen]
  obtain ⟨hkeys, hcts⟩ := List.append_inj hbytes hsize
  exact ⟨(hargon hown h hlenOwn hlen hkeys).symm, hcts.symm⟩

/-- **What an attempt on an edited keystore opens to.** With Argon2id and keccak collision-free, it
raises `ValueError` or returns the key that was encrypted exactly for the safe edits. -/
theorem keystore_opens_right_iff (hkeccak : Function.Injective K.keccak) (hargon : K.CollisionFree)
    {salt iv key : Bytes} {privkey : PrivKey} {password : String}
    {timeCost memoryCost parallelism : ℤ} {crypto : Json} {orig : KeystoreFields}
    (hkey : privkey.key = .ok key)
    (henc : argon2idEncrypt K salt iv privkey password timeCost memoryCost parallelism = .ok crypto)
    (horig : readFields crypto = .ok orig) (edited : Json) (attempt : Option String) :
    OpensRight key (argon2idDecrypt K T edited attempt)
      ↔ SafeEdit K T key orig ⟨utf8 password, salt, timeCost, memoryCost, parallelism, 32⟩
          edited attempt := by
  obtain ⟨key', dkOwn, hkey', hivOwn, hown, hwritten⟩ := argon2idEncrypt_eq_ok henc
  rw [hkey] at hkey'
  cases hkey'
  rw [horig] at hwritten
  cases hwritten
  constructor
  · intro hright
    refine ⟨?_, ?_, ?_, ?_⟩
    · rintro p f rfl hread j hfind
      obtain ⟨e, hargs, hj⟩ := @args_error_of_find T f p j hfind
      rw [decrypt_of_read hread, hargs, error_bind] at hright
      exact (toInt_valueError_iff hj).mp hright
    · rintro p f a rfl hread hargs e hhash
      rw [decrypt_of_read hread, hargs, ok_bind, hhash, error_bind] at hright
      exact hright
    · intro f a dk hd hmac hlen ha hct hiv
      have hdk : dk = dkOwn := by
        have hderived := hd.derived
        rw [ha, hown] at hderived
        exact (Except.ok.inj hderived).symm
      subst hdk
      have hplain := (hd.opensRight_iff key).mp hright (by rw [hmac, hct]; rfl) (by omega) hiv
      rw [hct] at hplain
      exact xorStream_congr.mp hplain.symm
    · intro f a dk hd _ hmac hlen hiv
      exact (hd.opensRight_iff key).mp hright hmac hlen hiv
  · intro hsafe
    cases attempt with
    | none => rfl
    | some p =>
      rcases malformed_of_caught (fun e he => @readFields_caught edited e he) with
        ⟨f, hread, -⟩ | hbad
      · cases hargs : f.args T p with
        | error e =>
          obtain ⟨j, hfind, hj⟩ := args_eq_error hargs
          rw [decrypt_of_read hread, hargs, error_bind]
          exact (toInt_valueError_iff hj).mpr (hsafe.costs p f rfl hread j hfind)
        | ok a =>
          cases hhash : K.hashSecretRaw a with
          | error e =>
            rw [decrypt_of_read hread, hargs, ok_bind, hhash, error_bind]
            exact hsafe.accepted p f a rfl hread hargs e hhash
          | ok dk =>
            have hd : Derives K T edited (some p) f a dk := ⟨hread, ⟨p, rfl, hargs⟩, hhash⟩
            rw [hd.opensRight_iff]
            intro hmac hlen hiv
            by_cases hkept : f.mac = (writtenFields K salt iv key dkOwn timeCost memoryCost
                parallelism).mac ∧ 32 ≤ a.hashLen
            · -- the original MAC leaves only the initial block to be edited
              obtain ⟨rfl, hct⟩ := own_of_mac hkeccak hargon hown hhash
                (show (32 : ℤ) ≤ 32 from le_rfl) hkept.2 (hkept.1.symm.trans hmac)
              rw [hown] at hhash
              obtain rfl := Except.ok.inj hhash
              rw [hct]
              exact (xorStream_congr.mpr
                (hsafe.macKept f _ dkOwn hd hkept.1 hkept.2 rfl hct hiv)).symm
            · exact hsafe.macEdited f a dk hd hkept hmac hlen hiv
      · show OpensRight key (malformed (readFields edited) >>= _)
        rw [hbad]
        rfl

/-- Argon2 over one password and salt, which refuses every other input. -/
def oneArgon (a : KdfArgs) : Except PyErr Bytes :=
  if a = ⟨utf8 "pw", List.replicate 16 7, 3, 65536, 4, 32⟩ then .ok ((List.range 32).map UInt8.ofNat)
  else .error (.raised "HashingError")

/-- Packages of one derived key, whose digests spell the bytes. -/
def onePackages : KeystorePackages where
  hashSecretRaw := oneArgon
  length_hash := by
    intro a dk h
    unfold oneArgon at h
    split at h
    · next ha =>
      rw [← Except.ok.inj h, ha]
      rfl
    · cases h
  keccak := id
  keystream := fun _ iv i => iv.getD (i % 16) 0

theorem onePackages_collisionFree : onePackages.CollisionFree := by
  have hone : ∀ {a da}, oneArgon a = .ok da
      → a = ⟨utf8 "pw", List.replicate 16 7, 3, 65536, 4, 32⟩ := by
    intro a da h
    unfold oneArgon at h
    split at h
    · assumption
    · cases h
  intro a b da db ha hb _ _ _
  rw [hone ha, hone hb]

/-- The object of a key of 32 bytes, with its initial block and its time cost open to edits. -/
def oneObject (iv : Bytes) (timeCost : Json) : Json :=
  .obj [
    ("cipher", .str "aes-128-ctr"),
    ("cipherparams", .obj [("iv", .str (hex iv))]),
    ("ciphertext", .str (hex (List.replicate 32 5))),
    ("kdf", .str "argon2id"),
    ("kdfparams", .obj [("time_cost", timeCost), ("memory_cost", .int 65536),
      ("parallelism", .int 4), ("dklen", .int 32), ("salt", .str (hex (List.replicate 16 7)))]),
    ("mac", .str (hex (((List.range 16).map fun i => UInt8.ofNat (i + 16))
      ++ List.replicate 32 5)))]

theorem oneObject_encrypt :
    argon2idEncrypt onePackages (List.replicate 16 7) (List.replicate 16 4)
      (.bytes (List.replicate 32 1)) "pw" 3 65536 4
        = .ok (oneObject (List.replicate 16 4) (.int 3)) := by
  rfl

/-- With another initial block the same password opens the object to another key, and a `null` time
cost raises `TypeError`. -/
theorem keystore_edit_opens_wrong :
    argon2idEncrypt onePackages (List.replicate 16 7) (List.replicate 16 4)
        (.bytes (List.replicate 32 1)) "pw" 3 65536 4
          = .ok (oneObject (List.replicate 16 4) (.int 3))
      ∧ argon2idDecrypt onePackages Platform.ideal.toPyText
          (oneObject (List.replicate 16 0) (.int 3)) (some "pw") = .ok (List.replicate 32 5)
      ∧ argon2idDecrypt onePackages Platform.ideal.toPyText
          (oneObject (List.replicate 16 4) .null) (some "pw") = .error .typeError := by
  refine ⟨oneObject_encrypt, ?_⟩
  decide +kernel

/-- The unedited object is a safe edit of itself. -/
theorem keystore_opens_right_own :
    SafeEdit onePackages Platform.ideal.toPyText (List.replicate 32 1)
      (writtenFields onePackages (List.replicate 16 7) (List.replicate 16 4) (List.replicate 32 1)
        ((List.range 32).map UInt8.ofNat) 3 65536 4)
      ⟨utf8 "pw", List.replicate 16 7, 3, 65536, 4, 32⟩
      (oneObject (List.replicate 16 4) (.int 3)) (some "pw") := by
  apply (keystore_opens_right_iff Function.injective_id onePackages_collisionFree rfl
    oneObject_encrypt rfl _ _).mp
  have hopens : argon2idDecrypt onePackages Platform.ideal.toPyText
      (oneObject (List.replicate 16 4) (.int 3)) (some "pw") = .ok (List.replicate 32 1) := by
    decide +kernel
  rw [hopens]
  rfl

end NeuraHash
