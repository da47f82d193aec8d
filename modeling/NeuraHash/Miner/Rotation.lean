import NeuraHash.Miner.Wallet
import NeuraHash.Systems.History

/-!
# Rotating a key (`neurahash/wallet.py`)

`rotate` loads the keystore, refuses what it will not re-encrypt, moves the file to an archive name
with the time in it and saves a fresh key in its place. Between the move and the save the path is
empty, and a file that stands under the archive name is replaced.

`rotations_keep_keys` is about whole runs of rotations: where no save fails after a move and no move
buries the last copy of a key, a rotation that raises leaves the path alone and every key that was
ever current loads from the path or from an archive.
-/

namespace NeuraHash.Rotation

open Py Systems

/-! ## Files -/

/-- What stands under a name: a document, or what `json.load` does not read. -/
abbrev Disk := String → Option (Option Json)

def tmpName (path : String) : String := path ++ ".tmp"

def archiveName (path ts : String) : String := path ++ ".rotated_" ++ ts

/-- How `save` fares. -/
structure SaveEnv where
  random : Randomness
  makedirs : Bool
  /-- The document is written. -/
  written : Bool
  /-- What a write that breaks off leaves. -/
  left : Option (Option Json)
  replaced : Bool
  /-- `_lock_down` returns. -/
  lockedDown : Bool

section commands

variable (P : Platform) (W : WalletPackages) (path : String)

/-- `wallet.save(path, password, kdf, allow_plaintext)`. -/
def save (argon2 : Bool) (wallet : Wallet W) (password : Option String) (kdf : String)
    (allowPlaintext : Bool) (env : SaveEnv) (disk : Disk) : Except PyErr Unit × Disk :=
  if !env.makedirs then (.error (.raised "OSError"), disk)
  else match keystoreDoc W argon2 kdf allowPlaintext env.random password wallet with
    | .error e => (.error e, disk)
    | .ok doc =>
      if !env.written then
        (.error (.raised "OSError"), Function.update disk (tmpName path) env.left)
      else if !env.replaced then
        (.error (.raised "OSError"), Function.update disk (tmpName path) (some (some doc)))
      else
        (if env.lockedDown then .ok () else .error (.raised "TimeoutExpired"),
          Function.update (Function.update disk (tmpName path) none) path (some (some doc)))

/-- `Wallet.load(path, password)`; `opens` is whether the file can be read. -/
def loadFile (argon2 opens : Bool) (disk : Disk) (name : String) (password : Option String) :
    Except PyErr (Wallet W) :=
  match disk name with
  | some (some doc) => if opens then load P W argon2 doc password else .error (.raised "OSError")
  | some none => .error .valueError
  | none => .error (.raised "FileNotFoundError")

/-- One rotate command, with what its environment does. -/
structure Command where
  password : Option String
  kdf : String
  allowPlaintext : Bool
  /-- `argon2-cffi` is installed. -/
  argon2 : Bool
  opens : Bool
  /-- The text of the clock reading, to the second. -/
  ts : String
  /-- `shutil.move` returns. -/
  moved : Bool
  /-- The account `gen_account` draws. -/
  fresh : KeyAccount W
  env : SaveEnv

variable {W}

/-- The disk after the move. -/
def archive (disk : Disk) (ts : String) : Disk :=
  Function.update (Function.update disk (archiveName path ts) (disk path)) path none

/-- The last part of the command: the fresh key is saved as the old one was. -/
def saveFresh (disk : Disk) (c : Command W) : Except PyErr Unit × Disk :=
  match c.password with
  | some p => save W path c.argon2 (.keyed c.fresh) (some p) c.kdf false c.env disk
  | none => save W path c.argon2 (.keyed c.fresh) none "scrypt" true c.env disk

/-- `_cmd_rotate(args)`. -/
def rotate (disk : Disk) (c : Command W) : Except PyErr Unit × Disk :=
  match loadFile P W c.argon2 c.opens disk path c.password with
  | .error e => (.error e, disk)
  | .ok (.watchOnly ..) => (.error .valueError, disk)
  | .ok (.keyed _) =>
    if c.password.isNone && !c.allowPlaintext then (.error .valueError, disk)
    else if !c.moved then (.error (.raised "OSError"), disk)
    else saveFresh path (archive path disk c.ts) c

/-! ## Keys on the disk -/

/-- The key loads from the file under some password. -/
def Loads (disk : Disk) (name : String) (key : Bytes) : Prop :=
  ∃ password account, loadFile P W true true disk name password = .ok (.keyed account)
    ∧ account.key = key

/-- The key loads from the path or from an archived file. -/
def Kept (disk : Disk) (key : Bytes) : Prop :=
  Loads P (W := W) disk path key ∨ ∃ ts, Loads P (W := W) disk (archiveName path ts) key

/-! ## The condition -/

/-- The command gets past its checks and moves the file. -/
def Moves (disk : Disk) (c : Command W) : Prop :=
  (∃ account, loadFile P W c.argon2 c.opens disk path c.password = .ok (.keyed account))
    ∧ (c.password.isSome = true ∨ c.allowPlaintext = true) ∧ c.moved = true

/-- The save goes through. -/
structure SaveGoes (c : Command W) : Prop where
  /-- Under a password, the fresh key can be encrypted. -/
  encrypts : ∀ p, c.password = some p → Encrypts W c.argon2 c.kdf c.env.random c.fresh.key p
  makedirs : c.env.makedirs = true
  written : c.env.written = true
  replaced : c.env.replaced = true
  lockedDown : c.env.lockedDown = true

/-- What the move replaces is no last copy: its keys load from the path or from another archive. -/
def ArchiveSpare (disk : Disk) (c : Command W) : Prop :=
  ∀ key, Loads P (W := W) disk (archiveName path c.ts) key →
    Loads P (W := W) disk path key
      ∨ ∃ ts, ts ≠ c.ts ∧ Loads P (W := W) disk (archiveName path ts) key

/-- A command that moves the file saves the fresh key, and its archive name is spare. -/
def Safe (disk : Disk) (c : Command W) : Prop :=
  Moves P path disk c → SaveGoes c ∧ ArchiveSpare P path disk c

end commands

/-! ## One command -/

section step

variable {P : Platform} {W : WalletPackages} {path : String} {disk : Disk} {c : Command W}

theorem archiveName_ne (path ts : String) : archiveName path ts ≠ path := by
  intro h
  have hlen := congrArg String.length h
  unfold archiveName at hlen
  rw [String.length_append, String.length_append] at hlen
  have hten : ".rotated_".length = 9 := by decide
  omega

theorem archiveName_injective (path : String) : Function.Injective (archiveName path) := by
  intro ts ts' h
  have htext := congrArg String.toList h
  unfold archiveName at htext
  simp only [String.toList_append] at htext
  exact String.toList_injective (List.append_cancel_left htext)

theorem archiveName_ne_tmpName (path ts : String) : archiveName path ts ≠ tmpName path := by
  unfold archiveName tmpName
  intro h
  have htext := congrArg String.toList h
  simp [String.toList_append] at htext

theorem loadFile_congr {disk' : Disk} {name name' : String} (h : disk name = disk' name')
    (argon2 opens : Bool) (password : Option String) :
    loadFile P W argon2 opens disk name password = loadFile P W argon2 opens disk' name' password := by
  unfold loadFile
  rw [h]

theorem Loads.congr {disk' : Disk} {name name' : String} {key : Bytes}
    (h : Loads P (W := W) disk name key) (hdisk : disk name = disk' name') :
    Loads P (W := W) disk' name' key := by
  obtain ⟨password, account, hload, hkey⟩ := h
  exact ⟨password, account, by rw [← loadFile_congr hdisk, hload], hkey⟩

/-- A save leaves the archives alone. -/
theorem save_archive (argon2 : Bool) (wallet : Wallet W) (password : Option String) (kdf : String)
    (allowPlaintext : Bool) (env : SaveEnv) (disk : Disk) (ts : String) :
    (save W path argon2 wallet password kdf allowPlaintext env disk).2 (archiveName path ts)
      = disk (archiveName path ts) := by
  have htmp := archiveName_ne_tmpName path ts
  have hpath := archiveName_ne path ts
  unfold save
  split
  · rfl
  · split
    · rfl
    · split
      · exact Function.update_of_ne htmp _ _
      · split
        · exact Function.update_of_ne htmp _ _
        · dsimp only
          rw [Function.update_of_ne hpath, Function.update_of_ne htmp]

theorem saveFresh_archive (disk : Disk) (c : Command W) (ts : String) :
    (saveFresh path disk c).2 (archiveName path ts) = disk (archiveName path ts) := by
  unfold saveFresh
  split <;> exact save_archive ..

/-- The move leaves the other archives alone. -/
theorem archive_other {ts ts' : String} (h : ts' ≠ ts) (disk : Disk) :
    archive path disk ts (archiveName path ts') = disk (archiveName path ts') := by
  unfold archive
  rw [Function.update_of_ne (archiveName_ne path ts'),
    Function.update_of_ne fun heq => h (archiveName_injective path heq)]

/-- **What a command does**: it is refused with the disk as it was, or it has moved the file and
goes on to save. -/
theorem rotate_cases (disk : Disk) (c : Command W) :
    (¬ Moves P path disk c ∧ ∃ e, rotate P path disk c = (.error e, disk))
      ∨ (Moves P path disk c
          ∧ rotate P path disk c = saveFresh path (archive path disk c.ts) c) := by
  unfold rotate Moves
  cases hload : loadFile P W c.argon2 c.opens disk path c.password with
  | error e =>
    left
    exact ⟨fun h => (by simpa using h.1), e, rfl⟩
  | ok w =>
    cases w with
    | watchOnly address signer =>
      left
      exact ⟨fun h => (by simpa using h.1), _, rfl⟩
    | keyed account =>
      dsimp only
      by_cases hchecks : c.password.isSome = true ∨ c.allowPlaintext = true
      · have hno : (c.password.isNone && !c.allowPlaintext) = false := by
          rcases hchecks with h | h
          · rw [Option.isNone_eq_false_iff.mpr h, Bool.false_and]
          · rw [h, Bool.not_true, Bool.and_false]
        rw [hno, if_neg Bool.false_ne_true]
        cases hmoved : c.moved with
        | false => exact Or.inl ⟨fun h => Bool.false_ne_true h.2.2, _, rfl⟩
        | true => exact Or.inr ⟨⟨⟨account, rfl⟩, hchecks, rfl⟩, rfl⟩
      · left
        refine ⟨fun h => hchecks h.2.1, .valueError, if_pos ?_⟩
        rw [not_or, Bool.not_eq_true, Bool.not_eq_true] at hchecks
        rw [hchecks.2, Option.isSome_eq_false_iff.mp hchecks.1]
        rfl

/-- A command leaves the archives of other seconds alone. -/
theorem rotate_other {ts : String} (h : ts ≠ c.ts) :
    (rotate P path disk c).2 (archiveName path ts) = disk (archiveName path ts) := by
  rcases @rotate_cases P W path disk c with ⟨-, e, hrun⟩ | ⟨-, hrun⟩
  · rw [hrun]
  · rw [hrun, saveFresh_archive, archive_other h]

/-- The fresh key is saved where the save goes. -/
theorem saveFresh_of_goes (h : SaveGoes c) (disk : Disk) :
    ∃ doc, (saveFresh path disk c).1 = .ok () ∧ (saveFresh path disk c).2 path = some (some doc)
      ∧ ∃ password, load P W true doc password = .ok (.keyed c.fresh) := by
  have hsave : ∀ {password kdf allowPlaintext doc},
      keyedDoc W c.argon2 kdf allowPlaintext c.env.random password c.fresh = .ok doc →
      save W path c.argon2 (.keyed c.fresh) password kdf allowPlaintext c.env disk
        = (.ok (), Function.update (Function.update disk (tmpName path) none) path
            (some (some doc))) := by
    intro password kdf allowPlaintext doc hdoc
    unfold save
    rw [h.makedirs, h.written, h.replaced, h.lockedDown]
    show (match keyedDoc W c.argon2 kdf allowPlaintext c.env.random password c.fresh with
      | .error e => (Except.error e, disk)
      | .ok doc => _) = _
    rw [hdoc]
    rfl
  unfold saveFresh
  cases hpassword : c.password with
  | none =>
    dsimp only
    rw [hsave rfl]
    exact ⟨_, rfl, Function.update_self .., none, @load_plaintextDoc P W true _ _ _ rfl⟩
  | some p =>
    obtain ⟨format, crypto, henc⟩ := encryptKey_of_encrypts (h.encrypts p hpassword)
    have hdoc : keyedDoc W c.argon2 c.kdf false c.env.random (some p) c.fresh
        = .ok (.obj [("format", .str format), ("address", .str c.fresh.address),
            ("crypto", crypto)]) := by
      unfold keyedDoc
      dsimp only
      rw [if_neg (h.encrypts p hpassword).1, henc]
      rfl
    dsimp only
    rw [hsave hdoc]
    exact ⟨_, rfl, Function.update_self .., some p, load_keyedDoc hdoc⟩

/-- **A safe command keeps every key**, and where it raises it has changed nothing. -/
theorem rotate_of_safe (h : Safe P path disk c) :
    (∀ key, Kept P (W := W) path disk key → Kept P (W := W) path (rotate P path disk c).2 key)
      ∧ ((∃ e, rotate P path disk c = (.error e, disk))
        ∨ ((rotate P path disk c).1 = .ok ()
          ∧ Loads P (W := W) (rotate P path disk c).2 path c.fresh.key)) := by
  rcases @rotate_cases P W path disk c with ⟨-, e, hrun⟩ | ⟨hmoves, hrun⟩
  · rw [hrun]
    exact ⟨fun key hkey => hkey, Or.inl ⟨e, rfl⟩⟩
  obtain ⟨hgoes, hspare⟩ := h hmoves
  rw [hrun]
  constructor
  · intro key hkey
    -- an archived copy of the key stays, and the one at the path becomes one
    have hpath : Loads P (W := W) disk path key →
        Loads P (W := W) (archive path disk c.ts) (archiveName path c.ts) key := by
      intro hkey
      refine hkey.congr ?_
      unfold archive
      rw [Function.update_of_ne (archiveName_ne path c.ts), Function.update_self]
    have hother : ∀ ts, ts ≠ c.ts → Loads P (W := W) disk (archiveName path ts) key →
        Loads P (W := W) (archive path disk c.ts) (archiveName path ts) key := by
      intro ts hts hkey
      exact hkey.congr (archive_other hts disk).symm
    have harchived : ∃ ts, Loads P (W := W) (archive path disk c.ts) (archiveName path ts) key := by
      rcases hkey with hkey | ⟨ts, hkey⟩
      · exact ⟨c.ts, hpath hkey⟩
      · by_cases hts : ts = c.ts
        · rw [hts] at hkey
          rcases hspare key hkey with hkey | ⟨ts', hts', hkey⟩
          · exact ⟨c.ts, hpath hkey⟩
          · exact ⟨ts', hother ts' hts' hkey⟩
        · exact ⟨ts, hother ts hts hkey⟩
    obtain ⟨ts, hkey⟩ := harchived
    exact Or.inr ⟨ts, hkey.congr (saveFresh_archive _ c ts).symm⟩
  · right
    obtain ⟨doc, hok, hdoc, password, hload⟩ := saveFresh_of_goes hgoes (archive path disk c.ts)
    refine ⟨hok, password, c.fresh, ?_, rfl⟩
    unfold loadFile
    rw [hdoc]
    exact hload

/-! ## Whole runs -/

/-- **Rotations lose and strand no key**, in a run of safe commands: a command that raises leaves the
path as it was, a command that returns makes the fresh key current, and every key that was current
at the path loads from the path or from an archive at the end. -/
theorem rotations_keep_keys (P : Platform) (W : WalletPackages) (path : String) (disk : Disk)
    (cs : List (Command W))
    (hsafe : ∀ e ∈ history (rotate P path) disk cs, Safe P path e.before e.input) :
    (∀ e ∈ history (rotate P path) disk cs,
      (∀ err, e.output = .error err → e.after path = e.before path)
        ∧ (e.output = .ok () → Loads P (W := W) e.after path e.input.fresh.key))
      ∧ ∀ before after key, cs = before ++ after →
          Loads P (W := W) (final (rotate P path) disk before) path key →
          Kept P (W := W) path (final (rotate P path) disk cs) key := by
  constructor
  · intro e he
    obtain ⟨-, hrun⟩ := rotate_of_safe (hsafe e he)
    have hevent := of_mem_history he
    rw [hevent]
    unfold event
    rcases hrun with ⟨err, hrun⟩ | ⟨hok, hfresh⟩
    · rw [hrun]
      exact ⟨fun _ _ => rfl, fun h => by cases h⟩
    · dsimp only
      rw [hok]
      exact ⟨fun _ h => (by cases h), fun _ => hfresh⟩
  · rintro before after key rfl hkey
    rw [final_append]
    rw [history_append] at hsafe
    have hkept := @admissible_run _ _ _ (rotate P path) (fun disk => Kept P (W := W) path disk key)
      (fun disk c => Safe P path disk c) (fun _ _ hok hkey => (rotate_of_safe hok).1 key hkey)
      (fun _ => True) (fun _ _ _ _ => trivial) _ (Or.inl hkey) _
      (fun e he => hsafe e (List.mem_append_right _ he))
    exact hkept.1

end step

/-! ## Commands that lose a key -/

/-- Packages whose documents spell the key. -/
def plainPackages : WalletPackages where
  toKeystorePackages := onePackages
  address key := some ("0x" ++ hex key)
  keyText := hex
  readKey
    | .str s => fromHex s
    | _ => none
  encrypt _ _ key p := some (.obj [("password", .str p), ("key", .str (hex key))])
  decrypt crypto p :=
    match crypto.get? "password", crypto.get? "key" with
    | some (.str q), some (.str s) => if q = p then fromHex s else none
    | _, _ => none
  normalize _ := none
  address_prefix := by
    rintro k a h
    cases h
    rw [String.toList_append]
    exact List.prefix_append _ _
  readKey_keyText _ := fromHex_hex _
  decrypt_encrypt := by
    rintro kdf r k p crypto h
    cases h
    show (if p = p then fromHex (hex k) else none) = some k
    rw [if_pos rfl, fromHex_hex]

def plainAccount (key : Bytes) : KeyAccount plainPackages := ⟨key, "0x" ++ hex key, rfl⟩

/-- The document of an unencrypted key. -/
def plainDoc (key : Bytes) : Json :=
  .obj [("format", .str "plaintext"), ("address", .str ("0x" ++ hex key)),
    ("privkey", .str (hex key))]

/-- A disk with the keystore of the first key. -/
def firstDisk : Disk := fun name => if name = "w.json" then some (some (plainDoc [1])) else none

theorem firstDisk_archive (ts : String) : firstDisk (archiveName "w.json" ts) = none :=
  if_neg (archiveName_ne "w.json" ts)

/-- A command all of whose calls return. -/
def plainCommand (password : Option String) (ts : String) (fresh : Bytes) : Command plainPackages where
  password
  kdf := "scrypt"
  allowPlaintext := true
  argon2 := false
  opens := true
  ts
  moved := true
  fresh := plainAccount fresh
  env := ⟨⟨0, [], List.replicate 16 0, rfl⟩, true, true, none, true, true⟩

theorem loads_plainDoc {disk : Disk} {name : String} {key' : Bytes} (key : Bytes)
    (hdisk : disk name = some (some (plainDoc key)))
    (h : Loads Platform.ideal (W := plainPackages) disk name key') : key' = key := by
  obtain ⟨password, account, hload, rfl⟩ := h
  have hplain : loadFile Platform.ideal plainPackages true true disk name password
      = .ok (.keyed (plainAccount key)) := by
    unfold loadFile
    rw [hdisk]
    exact @load_plaintextDoc _ plainPackages true _ (plainAccount key) _ rfl
  rw [hplain] at hload
  cases hload
  rfl

theorem not_loads_none {disk : Disk} {name : String} {key : Bytes} (hdisk : disk name = none) :
    ¬ Loads Platform.ideal (W := plainPackages) disk name key := by
  rintro ⟨password, account, hload, -⟩
  unfold loadFile at hload
  rw [hdisk] at hload
  cases hload

/-- A rotation of a plaintext keystore under an empty password raises and leaves no file at the path;
and of two rotations in one second, the second buries the first key. -/
theorem rotate_strands_and_buries :
    ((rotate Platform.ideal "w.json" firstDisk (plainCommand (some "") "t" [2])).1
        = .error .valueError
      ∧ firstDisk "w.json" = some (some (plainDoc [1]))
      ∧ (rotate Platform.ideal "w.json" firstDisk (plainCommand (some "") "t" [2])).2 "w.json" = none)
    ∧ Loads Platform.ideal (W := plainPackages) firstDisk "w.json" [1]
    ∧ ¬ Kept Platform.ideal (W := plainPackages) "w.json"
        (final (rotate Platform.ideal "w.json") firstDisk
          [plainCommand none "t" [2], plainCommand none "t" [3]]) [1] := by
  refine ⟨⟨by decide +kernel, rfl, rfl⟩, ⟨none, plainAccount [1], ?_, rfl⟩, ?_⟩
  · exact @load_plaintextDoc _ plainPackages true _ (plainAccount [1]) _ rfl
  · rintro (h | ⟨ts, h⟩)
    · exact absurd (loads_plainDoc [3] rfl h) (by decide)
    · by_cases hts : ts = "t"
      · rw [hts] at h
        exact absurd (loads_plainDoc [2] rfl h) (by decide)
      · refine not_loads_none ?_ h
        rw [final_cons, final_cons, final_nil, rotate_other hts, rotate_other hts]
        exact firstDisk_archive ts

theorem rotations_keep_keys_one :
    Kept Platform.ideal (W := plainPackages) "w.json"
      (final (rotate Platform.ideal "w.json") firstDisk [plainCommand (some "pw") "t" [2]]) [1] := by
  refine (rotations_keep_keys Platform.ideal plainPackages "w.json" firstDisk
    [plainCommand (some "pw") "t" [2]] ?_).2 [] [plainCommand (some "pw") "t" [2]] [1] rfl ?_
  · intro e he
    cases List.mem_singleton.mp he
    refine fun _ => ⟨⟨?_, rfl, rfl, rfl, rfl⟩, fun key hkey => ?_⟩
    · intro p hp
      cases hp
      exact ⟨by decide, Or.inr ⟨Or.inl rfl, rfl⟩⟩
    · exact absurd hkey (not_loads_none (firstDisk_archive "t"))
  · exact ⟨none, plainAccount [1],
      @load_plaintextDoc _ plainPackages true _ (plainAccount [1]) _ rfl, rfl⟩

end NeuraHash.Rotation
