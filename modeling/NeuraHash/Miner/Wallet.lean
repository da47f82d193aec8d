import NeuraHash.Miner.Keystore

/-!
# The miner's wallet (`neurahash/wallet.py`)

A wallet holds a key, or the address of a key that is elsewhere. `save` writes it as a JSON document:
encrypted under a password, in plaintext where that is allowed, or as an address alone. `load` reads a
document back and checks the address it declares against the key.

`load_keyedDoc` is the round trip: the document of a key opens to that key under its password.
-/

namespace NeuraHash

open Py

/-- The packages the wallet calls. -/
structure WalletPackages extends KeystorePackages where
  /-- The address of a private key; `none` when `account_from_key` raises. -/
  address : Bytes → Option String
  /-- `key.hex()`. -/
  keyText : Bytes → String
  /-- The key that `account_from_key` takes from a field of a document. -/
  readKey : Json → Option Bytes
  /-- `Account.encrypt(key, password, kdf)`, by the randomness it draws. -/
  encrypt : String → ℕ → Bytes → String → Option Json
  /-- `Account.decrypt(crypto, password)`. -/
  decrypt : Json → String → Option Bytes
  /-- `normalize_address(address)`. -/
  normalize : Json → Option String
  address_prefix : ∀ {k a}, address k = some a → "0x".toList <+: a.toList
  readKey_keyText : ∀ {k a}, address k = some a → readKey (.str (keyText k)) = some k
  decrypt_encrypt : ∀ {kdf r k p crypto}, encrypt kdf r k p = some crypto → decrypt crypto p = some k

/-- Without `argon2-cffi` every derivation raises. -/
def KeystorePackages.withArgon2 (K : KeystorePackages) : Bool → KeystorePackages
  | true => K
  | false =>
    { K with
      hashSecretRaw := fun _ => .error .valueError
      length_hash := fun h => by cases h }

/-- A key with the address it derives. -/
structure KeyAccount (W : WalletPackages) where
  key : Bytes
  address : String
  derives : W.address key = some address

inductive Wallet (W : WalletPackages) where
  | keyed (account : KeyAccount W)
  | watchOnly (address : String) (signer : Json)

section wallet

variable (P : Platform) (W : WalletPackages)

/-- `Wallet.from_key(privkey)`. -/
def fromKey (key : Bytes) : Except PyErr (KeyAccount W) :=
  match h : W.address key with
  | some a => .ok ⟨key, a, h⟩
  | none => .error .valueError

/-- `_verify_declared_address(declared, derived, path)`. -/
def verifyDeclaredAddress (declared : Json) (derived : String) : Except PyErr Unit :=
  if !declared.truthy then .ok ()
  else
    let text := declared.toStr P.toPyText
    let d := if "0x".toList <+: text.toList then text else "0x" ++ text
    if P.lower d = P.lower derived then .ok () else .error .valueError

/-! ## Loading -/

/-- The key of a document that carries one. -/
def documentKey (argon2 : Bool) (doc format : Json) (password : Option String) :
    Except PyErr Bytes := do
  if Json.pyEq format (.str "plaintext") then
    match W.readKey (← doc.item "privkey") with
    | some key => return key
    | none => throw .valueError
  else if Json.pyEq format (.str "neurahash-argon2id-v1") then
    argon2idDecrypt (W.toKeystorePackages.withArgon2 argon2) P.toPyText (← doc.item "crypto") password
  else
    let crypto ← if Json.pyEq format (.str "eth-keystore-v3") then doc.item "crypto" else pure doc
    match password with
    | none => throw .valueError
    | some p => match W.decrypt crypto p with
      | some key => return key
      | none => throw .valueError

/-- `Wallet.load(path, password)` of the document in the file. -/
def load (argon2 : Bool) (doc : Json) (password : Option String) : Except PyErr (Wallet W) := do
  let format ← doc.getD "format" .null
  if Json.pyEq format (.str "neurahash-watchonly-v1") then
    match W.normalize (← doc.item "address") with
    | some a => return .watchOnly a (← doc.getD "signer" .null)
    | none => throw .valueError
  else
    let account ← fromKey W (← documentKey P W argon2 doc format password)
    verifyDeclaredAddress P (← doc.getD "address" .null) account.address
    return .keyed account

/-! ## Saving -/

/-- `ARGON2ID_TIME_COST`. -/
def argon2idTimeCost : ℤ := 3

/-- `ARGON2ID_MEMORY_COST`. -/
def argon2idMemoryCost : ℤ := 65536

/-- `ARGON2ID_PARALLELISM`. -/
def argon2idParallelism : ℤ := 4

/-- The randomness of an encryption: what `eth_account` draws, and `os.urandom(16)` twice. -/
structure Randomness where
  seed : ℕ
  salt : Bytes
  iv : Bytes
  length_iv : iv.length = 16

/-- The crypto part of a document under a password, and its format. -/
def encryptKey (argon2 : Bool) (kdf : String) (r : Randomness) (key : Bytes) (password : String) :
    Except PyErr (String × Json) :=
  if kdf = "argon2id" then do
    let crypto ← argon2idEncrypt (W.toKeystorePackages.withArgon2 argon2) r.salt r.iv (.bytes key)
      password argon2idTimeCost argon2idMemoryCost argon2idParallelism
    return ("neurahash-argon2id-v1", crypto)
  else if kdf = "scrypt" ∨ kdf = "pbkdf2" then
    match W.encrypt kdf r.seed key password with
    | some crypto => .ok ("eth-keystore-v3", crypto)
    | none => .error .valueError
  else .error .valueError

/-- The document of an unencrypted key. -/
def plaintextDoc (allowPlaintext : Bool) (account : KeyAccount W) : Except PyErr Json :=
  if allowPlaintext then
    .ok (.obj [("format", .str "plaintext"), ("address", .str account.address),
      ("privkey", .str (W.keyText account.key))])
  else .error .valueError

/-- The document of a key; an empty password counts as none. -/
def keyedDoc (argon2 : Bool) (kdf : String) (allowPlaintext : Bool) (r : Randomness)
    (password : Option String) (account : KeyAccount W) : Except PyErr Json :=
  match password with
  | some p =>
    if p = "" then plaintextDoc W allowPlaintext account
    else do
      let (format, crypto) ← encryptKey W argon2 kdf r account.key p
      return .obj [("format", .str format), ("address", .str account.address), ("crypto", crypto)]
  | none => plaintextDoc W allowPlaintext account

/-- The document `save` writes. -/
def keystoreDoc (argon2 : Bool) (kdf : String) (allowPlaintext : Bool) (r : Randomness)
    (password : Option String) : Wallet W → Except PyErr Json
  | .watchOnly address signer =>
    .ok (.obj ([("format", .str "neurahash-watchonly-v1"), ("address", .str address)]
      ++ if signer.truthy then [("signer", signer)] else []))
  | .keyed account => keyedDoc W argon2 kdf allowPlaintext r password account

end wallet

/-! ## What is saved loads -/

section roundTrip

variable {P : Platform} {W : WalletPackages}

theorem fromKey_key (account : KeyAccount W) : fromKey W account.key = .ok account := by
  unfold fromKey
  split
  · rename_i a h
    have ha : a = account.address := Option.some.inj (h.symm.trans account.derives)
    subst ha
    rfl
  · rename_i h
    rw [account.derives] at h
    cases h

theorem verifyDeclaredAddress_self (account : KeyAccount W) :
    verifyDeclaredAddress P (.str account.address) account.address = .ok () := by
  unfold verifyDeclaredAddress
  split
  · rfl
  · dsimp only [Json.toStr]
    rw [if_pos (W.address_prefix account.derives), if_pos rfl]

/-- A document that declares the address of its key opens to it. -/
theorem load_of_documentKey {argon2 : Bool} {format : String} {fields : List (String × Json)}
    {password : Option String} (account : KeyAccount W)
    (hformat : format ≠ "neurahash-watchonly-v1")
    (hfields : (Json.obj fields).get? "format" = some (.str format))
    (haddress : (Json.obj fields).get? "address" = some (.str account.address))
    (hkey : documentKey P W argon2 (.obj fields) (.str format) password = .ok account.key) :
    load P W argon2 (.obj fields) password = .ok (.keyed account) := by
  unfold load
  rw [Json.getD_of_isObj rfl, hfields, ok_bind, Option.getD_some]
  have hno : Json.pyEq (.str format) (.str "neurahash-watchonly-v1") = false := by
    rw [← Bool.not_eq_true, Json.pyEq_str_right]
    exact fun h => hformat (Json.str.inj h)
  rw [hno, hkey, ok_bind, fromKey_key, ok_bind, if_neg Bool.false_ne_true,
    Json.getD_of_isObj rfl, haddress, ok_bind, Option.getD_some, verifyDeclaredAddress_self, ok_bind]
  rfl

theorem load_plaintextDoc {allowPlaintext : Bool} {password : Option String}
    {account : KeyAccount W} {doc : Json} (h : plaintextDoc W allowPlaintext account = .ok doc) :
    load P W true doc password = .ok (.keyed account) := by
  unfold plaintextDoc at h
  split at h
  · cases h
    refine load_of_documentKey account (by decide) rfl rfl ?_
    show (match W.readKey (.str (W.keyText account.key)) with
      | some key => Except.ok key
      | none => .error PyErr.valueError) = _
    rw [W.readKey_keyText account.derives]
  · cases h

/-- Without `argon2-cffi` nothing is encrypted under Argon2id. -/
theorem argon2idEncrypt_of_missing {K : KeystorePackages} {salt iv : Bytes} {privkey : PrivKey}
    {p : String} {timeCost memoryCost parallelism : ℤ} {crypto : Json} :
    argon2idEncrypt (K.withArgon2 false) salt iv privkey p timeCost memoryCost parallelism
      ≠ .ok crypto := by
  intro h
  obtain ⟨_, _, -, -, hhash, -⟩ := argon2idEncrypt_eq_ok h
  cases hhash

/-- The key can be encrypted under the password: by a derivation that is known and that its package
performs. -/
def Encrypts (W : WalletPackages) (argon2 : Bool) (kdf : String) (r : Randomness) (key : Bytes)
    (p : String) : Prop :=
  p ≠ "" ∧ ((kdf = "argon2id" ∧ argon2 = true
      ∧ (W.hashSecretRaw ⟨utf8 p, r.salt, argon2idTimeCost, argon2idMemoryCost, argon2idParallelism,
          32⟩).isOk = true)
    ∨ ((kdf = "scrypt" ∨ kdf = "pbkdf2") ∧ (W.encrypt kdf r.seed key p).isSome = true))

theorem encryptKey_of_encrypts {argon2 : Bool} {kdf : String} {r : Randomness} {key : Bytes}
    {p : String} (h : Encrypts W argon2 kdf r key p) :
    ∃ format crypto, encryptKey W argon2 kdf r key p = .ok (format, crypto) := by
  obtain ⟨hp, hkdf⟩ := h
  unfold encryptKey
  rcases hkdf with ⟨rfl, rfl, hhash⟩ | ⟨hkdf, henc⟩
  · rw [if_pos rfl]
    cases hdk : W.hashSecretRaw ⟨utf8 p, r.salt, argon2idTimeCost, argon2idMemoryCost,
        argon2idParallelism, 32⟩ with
    | error e =>
      rw [hdk] at hhash
      cases hhash
    | ok dk =>
      have hsize : (dk.length : ℤ) = 32 := W.length_hash hdk
      have hlen : (encKey dk).length = 16 := by
        rw [encKey, List.length_take]
        omega
      unfold argon2idEncrypt
      rw [if_neg hp]
      show ∃ format crypto, (W.hashSecretRaw _ >>= _) >>= _ = _
      rw [hdk, ok_bind, aes128ctr, if_pos (Or.inl hlen), if_pos r.length_iv]
      exact ⟨_, _, rfl⟩
  · have hargon : kdf ≠ "argon2id" := by
      rcases hkdf with rfl | rfl <;> decide
    rw [if_neg hargon, if_pos hkdf]
    obtain ⟨crypto, hcrypto⟩ := Option.isSome_iff_exists.mp henc
    rw [hcrypto]
    exact ⟨_, _, rfl⟩

/-- What encrypted a key decrypts it. -/
theorem documentKey_encryptKey {argon2 : Bool} {kdf : String} {r : Randomness} {key : Bytes}
    {p format : String} {crypto address : Json}
    (h : encryptKey W argon2 kdf r key p = .ok (format, crypto)) :
    format ≠ "neurahash-watchonly-v1" ∧ documentKey P W true
      (.obj [("format", .str format), ("address", address), ("crypto", crypto)]) (.str format)
      (some p) = .ok key := by
  unfold encryptKey at h
  split at h
  · obtain ⟨crypto', henc, h⟩ := bind_eq_ok.mp h
    cases h
    cases argon2 with
    | false => exact absurd henc argon2idEncrypt_of_missing
    | true => exact ⟨by decide, argon2idDecrypt_encrypt rfl henc⟩
  · split at h
    · split at h
      · rename_i henc
        cases h
        refine ⟨by decide, ?_⟩
        show (match W.decrypt crypto p with
          | some key => Except.ok key
          | none => .error PyErr.valueError) = _
        rw [W.decrypt_encrypt henc]
      · cases h
    · cases h

/-- **The document of a key opens to that key** under the password it was written with, where
`argon2-cffi` is at hand. -/
theorem load_keyedDoc {argon2 : Bool} {kdf : String} {allowPlaintext : Bool} {r : Randomness}
    {password : Option String} {account : KeyAccount W} {doc : Json}
    (h : keyedDoc W argon2 kdf allowPlaintext r password account = .ok doc) :
    load P W true doc password = .ok (.keyed account) := by
  unfold keyedDoc at h
  cases password with
  | none => exact load_plaintextDoc h
  | some p =>
    dsimp only at h
    split at h
    · exact load_plaintextDoc h
    · obtain ⟨⟨format, crypto⟩, hcrypto, h⟩ := bind_eq_ok.mp h
      cases h
      obtain ⟨hformat, hkey⟩ := @documentKey_encryptKey P W _ _ _ _ _ _ _ (.str account.address) hcrypto
      exact load_of_documentKey account hformat rfl rfl hkey

end roundTrip

end NeuraHash
