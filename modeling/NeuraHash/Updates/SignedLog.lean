import NeuraHash.Signing
import NeuraHash.Corpus.Buckets
import NeuraHash.Systems.HashChain

/-!
# The signed log of the coordinator (`tools/bundle_pointer.py`)

A miner takes the bundle pointer from a log whose entries are signed by the coordinator and chained by
hash: an entry names the digest of the one before it, and its own digest is over that head, the bytes
that were signed and the text of the signature. `verify_signed_log` replays the chain against a pinned
address. The log is untrusted JSON of any shape.

`verify_signed_log_iff` says for which logs the verifier is total and sound: lists whose entries carry
no signature that is no text, and non-empty texts and objects, which are refused.
-/

namespace NeuraHash.SignedLog

open Py Systems

/-! ## The verifier -/

/-- `_GENESIS`. -/
def genesisHead : String := "0000000000000000000000000000000000000000000000000000000000000000"

/-- The fields of an entry but `sig` and `hash`; the verifier has refused what is no dict. -/
def body : Json → Json
  | .obj kvs => .obj (((Json.dictOf kvs).erase "sig").erase "hash").entries
  | _ => .obj []

/-- `_canon(body)`. -/
def entryBytes (P : Platform) (e : Json) : Bytes := utf8 (Json.dumps P.toPyText [] (body e))

inductive LogReason where
  /-- `no pinned address supplied` -/
  | noPin
  /-- `entry {i}: not a dict` -/
  | notDict (i : ℕ)
  /-- `entry {i}: broken chain (prev != head)` -/
  | brokenChain (i : ℕ)
  /-- `entry {i}: bad entry/signature ({ex})` -/
  | badEntry (i : ℕ) (ex : PyErr)
  /-- `entry {i}: signed by {signer}, not the pinned address {expected_address}` -/
  | wrongSigner (i : ℕ) (signer expected : String)
  /-- `entry {i}: hash mismatch (tampered)` -/
  | hashMismatch (i : ℕ)
  deriving DecidableEq

section verify

variable (P : Platform) (expected : String)

/-- The `try` block: who signed the entry. -/
def entrySigner (e : Json) : Except PyErr String := do
  let sig ← e.item "sig"
  let scheme ← e.getD "scheme" .null
  recoverBytesScheme P (entryBytes P e) sig scheme

/-- The body of the loop: the next head, or the reason for the refusal. -/
def verifyEntry (i : ℕ) (head : String) (e : Json) : Except PyErr (Except LogReason String) :=
  if !e.isObj then .ok (.error (.notDict i))
  else if !Json.pyEq ((e.get? "prev").getD .null) (.str head) then .ok (.error (.brokenChain i))
  else match entrySigner P e with
    | .error ex => .ok (.error (.badEntry i ex))
    | .ok signer =>
      if P.lower signer ≠ P.lower expected then .ok (.error (.wrongSigner i signer expected))
      else match e.get? "sig" with
        | some (.str sig) =>
          let h := P.sha256 (utf8 head ++ entryBytes P e ++ utf8 sig)
          if !Json.pyEq ((e.get? "hash").getD .null) (.str h) then .ok (.error (.hashMismatch i))
          else .ok (.ok h)
        -- `e["sig"].encode()` outside the `try`
        | _ => .error .attributeError

def verifyEntries : ℕ → String → List Json → Except PyErr (Except LogReason Unit)
  | _, _, [] => .ok (.ok ())
  | i, head, e :: es => do
    match ← verifyEntry P expected i head e with
    | .error r => return .error r
    | .ok h => verifyEntries (i + 1) h es

/-- `verify_signed_log(log, expected_address)`. -/
def verifySignedLog (log : Json) : Except PyErr (Except LogReason Unit) :=
  if expected = "" then .ok (.error .noPin)
  else do
    let es ← (log.orElse (.arr [])).toList
    verifyEntries P expected 0 genesisHead es

end verify

/-! ## One entry -/

section entry

variable (P : Platform) (expected : String)

/-- The text of the signature. -/
def sigText (e : Json) : String :=
  match e.get? "sig" with
  | some (.str sig) => sig
  | _ => ""

/-- The head after an entry. -/
def chainHash (head : String) (e : Json) : String :=
  P.sha256 (utf8 head ++ entryBytes P e ++ utf8 (sigText e))

/-- The entry names the head and its signature recovers to the pinned address. -/
structure SignedAt (head : String) (e : Json) : Prop where
  prev : e.get? "prev" = some (.str head)
  signer : ∃ a, entrySigner P e = .ok a ∧ P.lower a = P.lower expected

/-- All that the verifier asks of an entry. -/
structure Passes (head : String) (e : Json) : Prop extends SignedAt P expected head e where
  sig : e.get? "sig" = some (.str (sigText e))
  hash : e.get? "hash" = some (.str (chainHash P head e))

/-- The signature recovers to the pinned address and is no text, so that it cannot be encoded. -/
structure Stuck (head : String) (e : Json) : Prop extends SignedAt P expected head e where
  noText : ∀ sig, e.get? "sig" ≠ some (.str sig)

variable {P expected}

theorem pyEq_getD_str {j : Option Json} {s : String} :
    Json.pyEq (j.getD .null) (.str s) = true ↔ j = some (.str s) := by
  rw [Json.pyEq_str_right]
  cases j <;> simp

theorem isObj_of_prev {head : String} {e : Json} (h : e.get? "prev" = some (.str head)) :
    e.isObj = true := by
  cases e with
  | obj kvs => rfl
  | _ => cases h

/-- **One turn of the loop.** -/
theorem verifyEntry_cases (i : ℕ) (head : String) (e : Json) :
    (Passes P expected head e ∧ verifyEntry P expected i head e = .ok (.ok (chainHash P head e)))
      ∨ (Stuck P expected head e ∧ verifyEntry P expected i head e = .error .attributeError)
      ∨ (¬ Passes P expected head e ∧ ¬ Stuck P expected head e
          ∧ ∃ r, verifyEntry P expected i head e = .ok (.error r)) := by
  by_cases hsigned : SignedAt P expected head e
  · -- the entry is reached with the head it names and the pinned signer
    obtain ⟨a, hsigner, hlower⟩ := hsigned.signer
    have hobj := isObj_of_prev hsigned.prev
    have hprev := pyEq_getD_str.mpr hsigned.prev
    unfold verifyEntry
    simp only [hobj, hprev, Bool.not_true, Bool.false_eq_true, if_false, hsigner, hlower, ne_eq,
      not_true]
    by_cases htext : ∃ sig, e.get? "sig" = some (.str sig)
    · obtain ⟨sig, hsig⟩ := htext
      have hsigText : sigText e = sig := by unfold sigText; rw [hsig]
      have hno : ¬ Stuck P expected head e := fun h => h.noText sig hsig
      rw [hsig]
      dsimp only
      rw [← hsigText]
      by_cases hhash : e.get? "hash" = some (.str (chainHash P head e))
      · left
        refine ⟨⟨hsigned, by rw [hsigText, hsig], hhash⟩, ?_⟩
        have heq := pyEq_getD_str.mpr hhash
        unfold chainHash at heq ⊢
        rw [heq]
        rfl
      · right
        right
        refine ⟨fun h => hhash h.hash, hno, .hashMismatch i, ?_⟩
        have hne := mt pyEq_getD_str.mp hhash
        unfold chainHash at hne
        rw [Bool.not_eq_true] at hne
        rw [hne]
        rfl
    · have hstuck : Stuck P expected head e := ⟨hsigned, fun sig hsig => htext ⟨sig, hsig⟩⟩
      right
      left
      refine ⟨hstuck, ?_⟩
      split
      · rename_i sig hsig
        exact absurd hsig (hstuck.noText sig)
      · rfl
  · right
    right
    refine ⟨fun h => hsigned h.toSignedAt, fun h => hsigned h.toSignedAt, ?_⟩
    unfold verifyEntry
    by_cases hobj : e.isObj = true
    · by_cases hprev : e.get? "prev" = some (.str head)
      · simp only [hobj, pyEq_getD_str.mpr hprev, Bool.not_true, Bool.false_eq_true, if_false]
        cases hsigner : entrySigner P e with
        | error ex => exact ⟨_, rfl⟩
        | ok a =>
          have hlower : P.lower a ≠ P.lower expected := fun h => hsigned ⟨hprev, a, hsigner, h⟩
          exact ⟨_, if_pos hlower⟩
      · have hne := mt pyEq_getD_str.mp hprev
        rw [Bool.not_eq_true] at hne
        simp only [hobj, hne, Bool.not_true, Bool.false_eq_true, if_false, Bool.not_false, if_true]
        exact ⟨_, rfl⟩
    · rw [Bool.not_eq_true] at hobj
      rw [hobj]
      exact ⟨_, rfl⟩

end entry

/-! ## The whole log -/

section log

variable (P : Platform) (expected : String)

/-- Every entry passes at the head the ones before it lead to. -/
def AllPass : String → List Json → Prop
  | _, [] => True
  | head, e :: es => Passes P expected head e ∧ AllPass (chainHash P head e) es

/-- No entry that is reached gets the verifier stuck. -/
def NoneStuck (head : String) (es : List Json) : Prop :=
  ∀ a e b, es = a ++ e :: b → AllPass P expected head a →
    ¬ Stuck P expected (a.foldl (chainHash P) head) e

variable {P expected}

theorem verifyEntries_ok_iff (i : ℕ) (head : String) (es : List Json) :
    verifyEntries P expected i head es = .ok (.ok ()) ↔ AllPass P expected head es := by
  induction es generalizing i head with
  | nil => exact iff_of_true rfl trivial
  | cons e es ih =>
    unfold verifyEntries AllPass
    rcases @verifyEntry_cases P expected i head e with
      ⟨hpass, hrun⟩ | ⟨hstuck, hrun⟩ | ⟨hfail, -, r, hrun⟩
    · rw [hrun, ok_bind]
      dsimp only
      rw [ih]
      exact (and_iff_right hpass).symm
    · rw [hrun]
      exact iff_of_false (fun h => by cases h) fun h => hstuck.noText _ h.1.sig
    · rw [hrun]
      exact iff_of_false (fun h => by cases h) fun h => hfail h.1

theorem noneStuck_cons {head : String} {e : Json} {es : List Json} :
    NoneStuck P expected head (e :: es) ↔ ¬ Stuck P expected head e
      ∧ (Passes P expected head e → NoneStuck P expected (chainHash P head e) es) := by
  constructor
  · intro h
    refine ⟨h [] e es rfl trivial, fun hpass a e' b hes ha => ?_⟩
    exact h (e :: a) e' b (by rw [hes, List.cons_append]) ⟨hpass, ha⟩
  · rintro ⟨hfirst, hrest⟩ a e' b hes ha
    cases a with
    | nil =>
      cases hes
      exact hfirst
    | cons x a =>
      cases hes
      exact hrest ha.1 a e' b rfl ha.2

theorem verifyEntries_returns_iff (i : ℕ) (head : String) (es : List Json) :
    (∃ r, verifyEntries P expected i head es = .ok r) ↔ NoneStuck P expected head es := by
  induction es generalizing i head with
  | nil =>
    refine iff_of_true ⟨_, rfl⟩ fun a e b hes => ?_
    simp at hes
  | cons e es ih =>
    rw [noneStuck_cons]
    unfold verifyEntries
    rcases @verifyEntry_cases P expected i head e with
      ⟨hpass, hrun⟩ | ⟨hstuck, hrun⟩ | ⟨hfail, hno, r, hrun⟩
    · rw [hrun, ok_bind]
      dsimp only
      rw [ih]
      have hno : ¬ Stuck P expected head e := fun h => h.noText _ hpass.sig
      exact ⟨fun h => ⟨hno, fun _ => h⟩, fun h => h.2 hpass⟩
    · rw [hrun]
      exact iff_of_false (fun ⟨r, h⟩ => by cases h) fun h => h.1 hstuck
    · rw [hrun]
      exact iff_of_true ⟨_, rfl⟩ ⟨hno, fun h => absurd h hfail⟩

theorem AllPass.at {head : String} {a b : List Json} {e : Json}
    (h : AllPass P expected head (a ++ e :: b)) :
    Passes P expected (a.foldl (chainHash P) head) e := by
  induction a generalizing head with
  | nil => exact h.1
  | cons x a ih => exact ih h.2

/-- The head an entry names. -/
def prevOf (e : Json) : Option String :=
  match e.get? "prev" with
  | some (.str head) => some head
  | _ => none

theorem AllPass.linked {head : String} {es : List Json} (h : AllPass P expected head es) :
    Systems.Linked prevOf (chainHash P) head es := by
  induction es generalizing head with
  | nil => trivial
  | cons e es ih => exact ⟨by unfold prevOf; rw [h.1.prev], ih h.2⟩

/-- What the digest of an entry is over besides the head: its body, up to the order of the members,
and the text of its signature. -/
def signedContent (e : Json) : Json × String := (Json.sortKeys (body e), sigText e)

theorem body_eq_obj (e : Json) : ∃ kvs, body e = .obj kvs := by
  cases e <;> exact ⟨_, rfl⟩

theorem get?_body {e : Json} (he : e.isObj = true) {k : String} (hsig : "sig" ≠ k)
    (hhash : "hash" ≠ k) : (body e).get? k = e.get? k := by
  cases e with
  | obj kvs =>
    show (Dict.ofList (((Json.dictOf kvs).erase "sig").erase "hash").entries).get? k = _
    rw [Dict.get?, Dict.entries_ofList (((Json.dictOf kvs).erase "sig").erase "hash").nodup,
      ← Dict.get?, Dict.get?_erase, if_neg hhash, Dict.get?_erase, if_neg hsig]
    rfl
  | _ => cases he

/-- The characters a digest is taken over. -/
theorem chainHash_eq (P : Platform) (head : String) (e : Json) :
    chainHash P head e = P.sha256 (utf8 (head ++ Json.dumps P.toPyText [] (body e) ++ sigText e)) := by
  rw [utf8_append, utf8_append]
  rfl

/-- The first brace splits a text in one way. -/
theorem append_brace_inj {l l' r r' : List Char} (hl : '\x7b' ∉ l) (hl' : '\x7b' ∉ l')
    (h : l ++ '\x7b' :: r = l' ++ '\x7b' :: r') : l = l' ∧ r = r' := by
  have htake : ∀ {l r : List Char}, '\x7b' ∉ l →
      (l ++ '\x7b' :: r).takeWhile (fun c => c != '\x7b') = l := by
    intro l r hl
    have hall : ∀ c ∈ l, (c != '\x7b') = true := by
      intro c hc
      rw [bne_iff_ne]
      rintro rfl
      exact hl hc
    rw [List.takeWhile_append_of_pos hall]
    simp
  have hleft : l = l' := by rw [← htake (r := r) hl, h, htake hl']
  subst hleft
  exact ⟨rfl, List.tail_eq_of_cons_eq (List.append_cancel_left h)⟩

/-- **A digest binds the head and the content of its entry**, for digests in hexadecimal. -/
theorem binding (hcoll : CollisionFree P) (hhex : HexDigests P)
    (hfresh : ∀ b, P.sha256 b ≠ genesisHead) :
    Binding (chainHash P) signedContent (fun head => '\x7b' ∉ head.toList) genesisHead where
  first_isHead := by decide
  next_isHead head e hmem := by
    have hdigit := (hhex _).2 _ hmem
    exact absurd hdigit (by decide)
  fresh head e := hfresh _
  inj head head' e e' hhead hhead' h := by
    rw [chainHash_eq, chainHash_eq] at h
    have htext := congrArg String.toList (utf8_injective (hcoll h))
    obtain ⟨kvs, hbody⟩ := body_eq_obj e
    obtain ⟨kvs', hbody'⟩ := body_eq_obj e'
    unfold signedContent
    rw [hbody, hbody'] at htext ⊢
    simp only [Json.dumps, Json.sortKeys, Json.render, String.toList_append, String.toList_ofList,
      List.append_assoc, List.cons_append] at htext
    -- the first brace ends the head, and the text of an object ends itself
    obtain ⟨hheads, hrest⟩ := append_brace_inj hhead hhead' htext
    obtain ⟨hmembers, hsig⟩ := Json.renderMembers_append_inj P.toPyText [] true _ _ hrest
    refine ⟨String.toList_injective hheads, ?_⟩
    rw [Json.sortKeys, Json.sortKeys, hmembers, String.toList_injective hsig]

end log

/-! ## Totality and soundness -/

/-- Whatever recovers to the pinned address was signed by its key. -/
def Unforgeable (P : Platform) (expected : String) (signed : Set Bytes) : Prop :=
  ∀ msg sig a, P.recoverMessage msg sig = some a → P.lower a = P.lower expected → msg ∈ signed

section soundness

variable (P : Platform) (expected : String) (signed : Set Bytes)

/-- The verifier accepts the log. -/
def Verifies (es : List Json) : Prop := verifySignedLog P expected (.arr es) = .ok (.ok ())

/-- The body of every entry was signed by the pinned key and contains as `prev` the chain hash of the
entry before it. -/
def Authentic (es : List Json) : Prop :=
  ∀ a e b, es = a ++ e :: b →
    (body e).get? "prev" = some (.str (a.foldl (chainHash P) genesisHead))
      ∧ domainBytes "bytes" (entryBytes P e) ∈ signed

/-- What has been done to a log shows: an entry put in or taken out before one that stays, another
order, an edit before an entry that stays, and a body the pinned key has not signed. -/
structure TamperEvident (es : List Json) : Prop where
  inserted : ∀ a b x, es = a ++ b → b ≠ [] → ¬ Verifies P expected (a ++ x :: b)
  dropped : ∀ a x b, es = a ++ x :: b → b ≠ [] → ¬ Verifies P expected (a ++ b)
  reordered : ∀ es', es'.Perm es → es' ≠ es → ¬ Verifies P expected es'
  edited : ∀ a x y b, es = a ++ x :: b → b ≠ [] → signedContent y ≠ signedContent x →
    ¬ Verifies P expected (a ++ y :: b)
  unsigned : ∀ a x y b, es = a ++ x :: b → domainBytes "bytes" (entryBytes P y) ∉ signed →
    ¬ Verifies P expected (a ++ y :: b)

/-- The verifier returns, and what it accepts is an authentic log that shows tampering. -/
structure TotalAndSound (log : Json) : Prop where
  returns : ∃ r, verifySignedLog P expected log = .ok r
  sound : verifySignedLog P expected log = .ok (.ok ()) →
    ∃ es, log = .arr es ∧ Authentic P signed es ∧ TamperEvident P expected signed es

/-- A list none of whose entries that are reached has a signature that is no text and recovers to
the pinned address; or a text or an object that is not empty. -/
def Refusable : Json → Prop
  | .arr es => NoneStuck P expected genesisHead es
  | .str s => s ≠ ""
  | .obj kvs => kvs ≠ []
  | _ => False

variable {P expected signed}

theorem verifySignedLog_of_ne {log : Json} (hpin : expected ≠ "") :
    verifySignedLog P expected log
      = (log.orElse (.arr [])).toList >>= verifyEntries P expected 0 genesisHead :=
  if_neg hpin

theorem verifySignedLog_arr (hpin : expected ≠ "") (es : List Json) :
    verifySignedLog P expected (.arr es) = verifyEntries P expected 0 genesisHead es := by
  rw [verifySignedLog_of_ne hpin, Json.toList_orElse_arr, ok_bind]

theorem verifies_iff (hpin : expected ≠ "") (es : List Json) :
    Verifies P expected es ↔ AllPass P expected genesisHead es := by
  unfold Verifies
  rw [verifySignedLog_arr hpin, verifyEntries_ok_iff]

theorem SignedAt.mem_signed (hsigned : Unforgeable P expected signed) {head : String} {e : Json}
    (h : SignedAt P expected head e) : domainBytes "bytes" (entryBytes P e) ∈ signed := by
  obtain ⟨a, hsigner, hlower⟩ := h.signer
  unfold entrySigner at hsigner
  obtain ⟨sig, -, hsigner⟩ := bind_eq_ok.mp hsigner
  obtain ⟨scheme, -, hsigner⟩ := bind_eq_ok.mp hsigner
  unfold recoverBytesScheme at hsigner
  obtain ⟨s, -, hsigner⟩ := bind_eq_ok.mp hsigner
  split at hsigner
  · cases hrecover : recoverBytes P (entryBytes P e) sig with
    | none =>
      rw [hrecover] at hsigner
      cases hsigner
    | some a' =>
      rw [hrecover] at hsigner
      cases hsigner
      exact hsigned _ _ _ hrecover hlower
  · cases hsigner

theorem AllPass.authentic (hsigned : Unforgeable P expected signed) {es : List Json}
    (h : AllPass P expected genesisHead es) : Authentic P signed es := by
  rintro a e b rfl
  have hpass := h.at
  refine ⟨?_, hpass.toSignedAt.mem_signed hsigned⟩
  rw [get?_body (isObj_of_prev hpass.prev) (by decide) (by decide), hpass.prev]

/-- **A verified log shows tampering.** -/
theorem tamperEvident (hcoll : CollisionFree P) (hhex : HexDigests P)
    (hfresh : ∀ b, P.sha256 b ≠ genesisHead) (hsigned : Unforgeable P expected signed)
    (hpin : expected ≠ "") {es : List Json} (h : Verifies P expected es) :
    TamperEvident P expected signed es := by
  have hbinding := binding hcoll hhex hfresh
  have hlinked : ∀ {es}, Verifies P expected es → Systems.Linked prevOf (chainHash P) genesisHead es :=
    fun h => ((verifies_iff hpin _).mp h).linked
  constructor
  · rintro a b x rfl hb h'
    exact hbinding.not_inserted x hb (hlinked h) (hlinked h')
  · rintro a x b rfl hb h'
    exact hbinding.not_inserted x hb (hlinked h') (hlinked h)
  · intro es' hperm hne h'
    exact hne (hbinding.eq_of_perm hperm (hlinked h) (hlinked h'))
  · rintro a x y b rfl hb hne h'
    exact hne (hbinding.content_of_edited hb (hlinked h') (hlinked h))
  · rintro a x y b - hno h'
    exact hno (((verifies_iff hpin _).mp h').authentic hsigned a y b rfl).2

/-- What counts as false is taken for the empty log. -/
theorem verifySignedLog_of_falsy (hpin : expected ≠ "") {log : Json} (h : log.truthy = false) :
    verifySignedLog P expected log = .ok (.ok ()) := by
  rw [verifySignedLog_of_ne hpin, Json.orElse, h]
  rfl

theorem verifySignedLog_of_truthy (hpin : expected ≠ "") {log : Json} (h : log.truthy = true) :
    verifySignedLog P expected log = log.toList >>= verifyEntries P expected 0 genesisHead := by
  rw [verifySignedLog_of_ne hpin, Json.orElse, if_pos h]

/-- What is neither a list, a text nor an object is accepted where it counts as false, and makes the
verifier raise elsewhere. -/
theorem not_totalAndSound (hpin : expected ≠ "") {log : Json} (hlist : ∀ es, log ≠ .arr es)
    (h : log.truthy = true → log.toList = .error .typeError) :
    ¬ TotalAndSound P expected signed log := by
  intro hlog
  cases htruthy : log.truthy with
  | false =>
    obtain ⟨es, hes, -⟩ := hlog.sound (verifySignedLog_of_falsy hpin htruthy)
    exact hlist es hes
  | true =>
    obtain ⟨r, hr⟩ := hlog.returns
    rw [verifySignedLog_of_truthy hpin htruthy, h htruthy] at hr
    cases hr

/-- A text or an object that is not empty is refused at its first character or key. -/
theorem totalAndSound_of_refused (hpin : expected ≠ "") {log e : Json} {es : List Json}
    (htruthy : log.truthy = true) (h : log.toList = .ok (e :: es)) (he : e.isObj = false) :
    TotalAndSound P expected signed log := by
  have hrun : verifySignedLog P expected log = .ok (.error (.notDict 0)) := by
    rw [verifySignedLog_of_truthy hpin htruthy, h, ok_bind]
    unfold verifyEntries verifyEntry
    rw [he]
    rfl
  refine ⟨⟨_, hrun⟩, fun hok => ?_⟩
  rw [hrun] at hok
  cases hok

/-- **When the signed-log verifier is total and sound.** -/
theorem verify_signed_log_iff (P : Platform) (expected : String) (signed : Set Bytes)
    (hcoll : CollisionFree P) (hhex : HexDigests P)
    (hfresh : ∀ b, P.sha256 b ≠ genesisHead) (hsigned : Unforgeable P expected signed)
    (hpin : expected ≠ "") (log : Json) :
    TotalAndSound P expected signed log ↔ Refusable P expected log := by
  cases log with
  | arr es =>
    show _ ↔ NoneStuck P expected genesisHead es
    rw [← verifyEntries_returns_iff 0, ← verifySignedLog_arr hpin]
    refine ⟨fun h => h.returns, fun h => ⟨h, fun hok => ⟨es, rfl, ?_, ?_⟩⟩⟩
    · exact ((verifies_iff hpin es).mp hok).authentic hsigned
    · exact tamperEvident hcoll hhex hfresh hsigned hpin hok
  | str s =>
    by_cases hs : s = ""
    · refine iff_of_false (not_totalAndSound hpin (fun es h => by cases h) fun h => ?_) (not_not.mpr hs)
      rw [hs] at h
      cases h
    · refine iff_of_true ?_ hs
      cases hchars : s.toList with
      | nil => exact absurd (String.toList_eq_nil_iff.mp hchars) hs
      | cons c cs =>
        have hitems : (Json.str s).toList = .ok (.str (String.singleton c) ::
            cs.map fun c => .str (String.singleton c)) := by
          show Except.ok (s.toList.map _) = _
          rw [hchars, List.map_cons]
        exact totalAndSound_of_refused hpin (bne_iff_ne.mpr hs) hitems rfl
  | obj kvs =>
    cases kvs with
    | nil =>
      refine iff_of_false (not_totalAndSound hpin (fun es h => by cases h) fun h => ?_) fun h => h rfl
      cases h
    | cons p kvs =>
      refine iff_of_true ?_ (List.cons_ne_nil p kvs)
      cases hkeys : (Json.dictOf (p :: kvs)).keys with
      | nil =>
        have hnone : (Json.dictOf (p :: kvs)).get? p.1 = none := by
          rw [Dict.get?_eq_none_iff, hkeys]
          exact List.not_mem_nil
        rw [Json.dictOf, Dict.get?_ofList, Dict.lookup_eq_none_iff] at hnone
        exact absurd (by simp) hnone
      | cons k ks =>
        have hitems : (Json.obj (p :: kvs)).toList = .ok (.str k :: ks.map .str) := by
          show Except.ok ((Json.dictOf (p :: kvs)).keys.map Json.str) = _
          rw [hkeys, List.map_cons]
        exact totalAndSound_of_refused hpin rfl hitems rfl
  | _ => exact iff_of_false (not_totalAndSound hpin (fun es h => by cases h) fun _ => rfl) id

/-- The first entry of a log, signed by `alice`. -/
def firstEntry : Json :=
  let body := [("prev", Json.str genesisHead), ("kind", .str "bundle_canonical")]
  let sig := signBytes Platform.ideal "alice" (utf8 (Json.dumps Platform.ideal.toPyText [] (.obj body)))
  .obj (body ++ [("sig", .str sig),
    ("hash", .str (chainHash Platform.ideal genesisHead (.obj (body ++ [("sig", .str sig)]))))])

/-- The first entry passes: its fields are read back without evaluating a digest or a signature. -/
theorem passes_firstEntry : Passes Platform.ideal "alice" genesisHead firstEntry := by
  have hbody : ∀ a b c d : Json, body (.obj [("prev", a), ("kind", b), ("sig", c), ("hash", d)])
      = .obj [("prev", a), ("kind", b)] := fun _ _ _ _ => rfl
  have hunhashed : ∀ a b c : Json, body (.obj [("prev", a), ("kind", b), ("sig", c)])
      = .obj [("prev", a), ("kind", b)] := fun _ _ _ => rfl
  have hitem : ∀ a b c d : Json,
      (Json.obj [("prev", a), ("kind", b), ("sig", c), ("hash", d)]).item "sig" = .ok c :=
    fun _ _ _ _ => rfl
  have hscheme : ∀ a b c d : Json,
      (Json.obj [("prev", a), ("kind", b), ("sig", c), ("hash", d)]).getD "scheme" .null = .ok .null :=
    fun _ _ _ _ => rfl
  have hhash : ∀ a b c d : Json,
      (Json.obj [("prev", a), ("kind", b), ("sig", c), ("hash", d)]).get? "hash" = some d :=
    fun _ _ _ _ => rfl
  have hsig : ∀ (a b : Json) (c : String) (d : Json),
      sigText (.obj [("prev", a), ("kind", b), ("sig", .str c), ("hash", d)]) = c := fun _ _ _ _ => rfl
  have hunhashedSig : ∀ (a b : Json) (c : String),
      sigText (.obj [("prev", a), ("kind", b), ("sig", .str c)]) = c := fun _ _ _ => rfl
  have hkey : "alice" ∈ Platform.idealKeys := by
    show '|' ∉ "alice".toList
    decide
  refine ⟨⟨rfl, "alice", ?_, rfl⟩, rfl, ?_⟩
  · unfold firstEntry
    dsimp only [List.cons_append, List.nil_append]
    unfold entrySigner
    rw [hitem, ok_bind, hscheme, ok_bind, recoverBytesScheme_null]
    unfold entryBytes
    rw [hbody]
    exact Platform.ideal_idealSigs.recoverBytes_signBytes hkey _
  · unfold firstEntry
    dsimp only [List.cons_append, List.nil_append]
    rw [hhash]
    -- the digest is over the entry as it was before it had one
    unfold chainHash entryBytes
    rw [hbody, hunhashed, hsig, hunhashedSig]

theorem verify_signed_log_first :
    Verifies Platform.ideal "alice" [firstEntry]
      ∧ TotalAndSound Platform.ideal "alice" Set.univ (.arr [firstEntry]) := by
  have hrun : Verifies Platform.ideal "alice" [firstEntry] :=
    (verifies_iff (by decide) [firstEntry]).mpr ⟨passes_firstEntry, trivial⟩
  refine ⟨hrun, (verify_signed_log_iff Platform.ideal "alice" Set.univ Platform.ideal_collisionFree
    ideal_hexDigests (fun b => Platform.ideal_sha256_ne (by decide)) (fun _ _ _ _ _ => trivial)
    (by decide) (.arr [firstEntry])).mpr ?_⟩
  show NoneStuck Platform.ideal "alice" genesisHead [firstEntry]
  rw [← verifyEntries_returns_iff 0, ← verifySignedLog_arr (by decide)]
  exact ⟨_, hrun⟩

/-- `true` makes the verifier raise, and `null` is accepted. -/
theorem verifySignedLog_true_null :
    verifySignedLog Platform.ideal "alice" (.bool true) = .error .typeError
      ∧ ¬ TotalAndSound Platform.ideal "alice" Set.univ (.bool true)
      ∧ verifySignedLog Platform.ideal "alice" .null = .ok (.ok ())
      ∧ ¬ TotalAndSound Platform.ideal "alice" Set.univ .null :=
  ⟨rfl, not_totalAndSound (by decide) (fun _ h => by cases h) fun _ => rfl, rfl,
    not_totalAndSound (by decide) (fun _ h => by cases h) fun _ => rfl⟩

end soundness

end NeuraHash.SignedLog
