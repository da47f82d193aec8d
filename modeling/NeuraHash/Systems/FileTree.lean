import NeuraHash.Python.Dict

/-!
# File trees with links

A `FileTree` lists what stands at each physical path: a directory, a name of a file (several names
of one file share an identity), a symbolic link or a device. A path is walked from the root; a
link on the way is replaced by where it leads.

* `walk false` is `realpath`: a component that does not exist is kept as it is;
* `walk true` is how the system opens a path: every component but the last must be a directory;
* `locate` stops before the last component, as `lstat` and `unlink` do.

What is proved: where the system finds a file, `realpath` names it (`realpath_of_stat`); the name
`unlink` removes is the file's when it is no link (`locate_of_stat`); and removing names of files
changes neither `realpath` (`realpath_erase`) nor any path that leads elsewhere (`stat_erase`).
-/

namespace Systems

open Py

/-- The components of a path from the root. -/
abbrev Path := List String

instance : LawfulBEq Path := inferInstanceAs (LawfulBEq (List String))

/-- `os.path.normpath`, of a path from the root: `..` is taken back in the text. -/
def normpath (p : Path) : Path :=
  p.foldl (fun q c => if c = "" ∨ c = "." then q else if c = ".." then q.dropLast else q ++ [c]) []

/-- A component that is a name of its own. -/
def Plain (c : String) : Prop := c ≠ "" ∧ c ≠ "." ∧ c ≠ ".."

/-- A path of names. -/
def Proper (p : Path) : Prop := ∀ c ∈ p, Plain c

theorem Proper.concat {p : Path} {c : String} (hp : Proper p) (hc : Plain c) :
    Proper (p ++ [c]) := by
  intro b hb
  rcases List.mem_append.mp hb with hb | hb
  · exact hp b hb
  · rw [List.mem_singleton.mp hb]
    exact hc

theorem Proper.dropLast {p : Path} (hp : Proper p) : Proper p.dropLast :=
  fun c hc => hp c (List.dropLast_subset p hc)

theorem proper_nil : Proper [] := nofun

theorem foldl_normpath {p q : Path} (hp : Proper p) :
    p.foldl (fun q c => if c = "" ∨ c = "." then q else if c = ".." then q.dropLast else q ++ [c]) q
      = q ++ p := by
  induction p generalizing q with
  | nil => exact (List.append_nil q).symm
  | cons c p ih =>
    obtain ⟨hc, hp⟩ := List.forall_mem_cons.mp hp
    rw [List.foldl_cons, if_neg (by rw [not_or]; exact ⟨hc.1, hc.2.1⟩), if_neg hc.2.2, ih hp,
      List.append_assoc, List.singleton_append]

theorem normpath_of_proper {p : Path} (hp : Proper p) : normpath p = p := foldl_normpath hp

inductive FileEntry where
  | dir
  /-- A name of the file with this identity. -/
  | file (ino : ℕ)
  /-- A symbolic link, absolute or relative to where it stands. -/
  | link (absolute : Bool) (target : Path)
  | device
  deriving DecidableEq

def FileEntry.isLink : FileEntry → Bool
  | link _ _ => true
  | _ => false

/-- What stands at a physical path; the root is a directory. -/
def entryAt (entries : Dict Path FileEntry) (p : Path) : Option FileEntry :=
  if p = [] then some .dir else entries.get? p

/-- Listed places whose parents are directories. -/
theorem parents_of_entries {entries : Dict Path FileEntry}
    (h : ∀ e ∈ entries.entries, entryAt entries e.1.dropLast = some .dir) (p : Path) (c : String)
    (e : FileEntry) (he : entryAt entries (p ++ [c]) = some e) : entryAt entries p = some .dir := by
  rw [entryAt, if_neg (List.concat_ne_nil c p)] at he
  have hdir := h (p ++ [c], e) (Dict.mem_entries_iff.mpr he)
  rw [List.dropLast_concat] at hdir
  exact hdir

/-- A file tree with contents in `β`. -/
structure FileTree (β : Type) where
  entries : Dict Path FileEntry
  /-- What stands anywhere stands in a directory. -/
  parents : ∀ p c e, entryAt entries (p ++ [c]) = some e → entryAt entries p = some .dir
  content : ℕ → β
  readable : ℕ → Bool
  /-- The name cannot be removed. -/
  locked : Path → Bool

namespace FileTree

variable {β : Type}

def at? (t : FileTree β) (p : Path) : Option FileEntry := entryAt t.entries p

/-- The number of links: a walk that enters more of them is in a loop. -/
def links (t : FileTree β) : ℕ := t.entries.entries.countP fun e => e.2.isLink

/-- What a walk needs of a component: a strict one goes on from directories only. -/
def passable (t : FileTree β) (strict : Bool) (p rest : Path) : Bool :=
  !strict || (if rest = [] then (t.at? p).isSome else decide (t.at? p = some .dir))

/-- A walk of what a link stands for, by the links being resolved, the start and the target. -/
abbrev Enter := List Path → Path → Path → Path × Bool

/-- Where the component `c` leads from `cur`, and whether the walk can go on with `rest`; `enter`
walks what a link stands for. -/
def component (t : FileTree β) (strict : Bool)
    (enter : Enter) (busy : List Path) (cur : Path) (c : String)
    (rest : Path) : Path × Bool :=
  if c = "" ∨ c = "." then (cur, true)
  else if c = ".." then (cur.dropLast, true)
  else match t.at? (cur ++ [c]) with
    | some (.link absolute target) =>
      -- a link that is being resolved already is a loop
      if cur ++ [c] ∈ busy then (cur ++ [c], false)
      else
        let r := enter ((cur ++ [c]) :: busy) (if absolute then [] else cur) target
        (r.1, r.2 && t.passable strict r.1 rest)
    | _ => (cur ++ [c], t.passable strict (cur ++ [c]) rest)

/-- Walk the components from `cur`: the path reached, and whether the walk came to its end. -/
def walkFrom (t : FileTree β) (strict : Bool)
    (enter : Enter) (busy : List Path) : Path → Path → Path × Bool
  | cur, [] => (cur, true)
  | cur, c :: rest =>
    let r := t.component strict enter busy cur c rest
    if r.2 then walkFrom t strict enter busy r.1 rest else (r.1 ++ rest, false)

/-- Walk with at most `n` links inside each other. -/
def walk (t : FileTree β) (strict : Bool) : ℕ → List Path → Path → Path → Path × Bool
  | 0 => walkFrom t strict (fun _ cur target => (cur ++ target, false))
  | n + 1 => walkFrom t strict (walk t strict n)

/-- `os.path.realpath`: what a walk that ends in a loop leaves is still made normal. -/
def realpath (t : FileTree β) (p : Path) : Path := normpath (t.walk false t.links [] [] p).1

/-- Where the system finds the path, links followed; `none` raises `OSError`. -/
def stat (t : FileTree β) (p : Path) : Option Path :=
  let r := t.walk true t.links [] [] p
  if r.2 then some r.1 else none

/-- The physical name the path spells, its last component not followed. -/
def locate (t : FileTree β) (p : Path) : Option Path :=
  match p.getLast? with
  | none => none
  | some c => match t.stat p.dropLast with
    | some d => if t.at? d = some .dir then some (d ++ [c]) else none
    | none => none

/-- `os.path.islink`. -/
def islink (t : FileTree β) (p : Path) : Bool :=
  match t.locate p with
  | some l => (t.at? l).any FileEntry.isLink
  | none => false

/-- The file the path leads to. -/
def fileId (t : FileTree β) (p : Path) : Option ℕ :=
  match t.stat p with
  | some q => match t.at? q with
    | some (.file ino) => some ino
    | _ => none
  | none => none

/-- The bytes a reader of the path gets; `none` when it cannot be opened. -/
def read (t : FileTree β) (p : Path) : Option β :=
  match t.fileId p with
  | some ino => if t.readable ino then some (t.content ino) else none
  | none => none

theorem entryAt_erase (entries : Dict Path FileEntry) {l : Path} (hl : l ≠ []) (p : Path) :
    entryAt (entries.erase l) p = if p = l then none else entryAt entries p := by
  unfold entryAt
  by_cases hp : p = []
  · rw [if_pos hp, if_pos hp, hp, if_neg (Ne.symm hl)]
  · rw [if_neg hp, if_neg hp, Dict.get?_erase]
    by_cases hpl : l = p
    · rw [if_pos hpl, if_pos hpl.symm]
    · rw [if_neg hpl, if_neg (Ne.symm hpl)]

/-- The tree without the name `l`, which is no directory. -/
def erase (t : FileTree β) (l : Path) (hl : t.at? l ≠ some .dir) : FileTree β :=
  { t with
    entries := t.entries.erase l
    parents := by
      have hroot : l ≠ [] := by
        rintro rfl
        exact hl rfl
      intro p c e h
      rw [entryAt_erase _ hroot] at h ⊢
      split_ifs at h
      have hdir := t.parents p c e h
      rw [if_neg (fun hp => hl (by rw [← hp]; exact hdir)), hdir] }

/-- `os.remove`: a directory, a locked name and one that is not there are refused. -/
def remove (t : FileTree β) (p : Path) : Option (FileTree β) :=
  match t.locate p with
  | none => none
  | some l =>
    if h : t.at? l ≠ some .dir then
      if (t.at? l).isSome && !t.locked l then some (t.erase l h) else none
    else none

/-! ## Strict and lax walks -/

variable {t : FileTree β}

variable {enter enter' : Enter} {busy : List Path} {strict : Bool} {cur p q : Path}

theorem walkFrom_cons (c : String) (rest : Path) :
    t.walkFrom strict enter busy cur (c :: rest) = (q, true) ↔
      ∃ d, t.component strict enter busy cur c rest = (d, true) ∧
        t.walkFrom strict enter busy d rest = (q, true) := by
  rw [walkFrom]
  constructor
  · intro h
    split at h
    · next hgo => exact ⟨_, Prod.ext rfl hgo, h⟩
    · cases h
  · rintro ⟨d, hd, h⟩
    rw [hd, if_pos rfl]
    exact h

/-- A link leads where the walk of its target ends. -/
theorem component_link {c : String} {rest : Path} {absolute : Bool} {target : Path}
    (hc : c ≠ "" ∧ c ≠ "." ∧ c ≠ "..")
    (hlink : t.at? (cur ++ [c]) = some (.link absolute target)) :
    t.component strict enter busy cur c rest = (q, true) ↔ cur ++ [c] ∉ busy ∧
      enter ((cur ++ [c]) :: busy) (if absolute then [] else cur) target = (q, true) ∧
        t.passable strict q rest = true := by
  unfold component
  rw [if_neg (by rw [not_or]; exact ⟨hc.1, hc.2.1⟩), if_neg hc.2.2, hlink]
  dsimp only
  by_cases hbusy : cur ++ [c] ∈ busy
  · simp [hbusy]
  · rw [if_neg hbusy]
    constructor
    · intro h
      have h₁ := congrArg Prod.fst h
      have h₂ := congrArg Prod.snd h
      dsimp only at h₁ h₂
      rw [Bool.and_eq_true] at h₂
      exact ⟨hbusy, Prod.ext h₁ h₂.1, h₁ ▸ h₂.2⟩
    · rintro ⟨-, henter, hpass⟩
      rw [henter, Bool.true_and, hpass]

/-- Any other name leads to itself. -/
theorem component_name {c : String} {rest : Path} (hc : c ≠ "" ∧ c ≠ "." ∧ c ≠ "..")
    (hlink : ¬ (t.at? (cur ++ [c])).any FileEntry.isLink = true) :
    t.component strict enter busy cur c rest = (cur ++ [c], t.passable strict (cur ++ [c]) rest) := by
  unfold component
  rw [if_neg (by rw [not_or]; exact ⟨hc.1, hc.2.1⟩), if_neg hc.2.2]
  split
  · next habs htarget h =>
    rw [h] at hlink
    exact absurd rfl hlink
  · rfl

theorem component_dot {c : String} {rest : Path} (hc : c = "" ∨ c = ".") :
    t.component strict enter busy cur c rest = (cur, true) := if_pos hc

theorem component_up {rest : Path} :
    t.component strict enter busy cur ".." rest = (cur.dropLast, true) := rfl

/-- The kinds of components. -/
theorem component_kinds (t : FileTree β) (cur : Path) (c : String) :
    (c = "" ∨ c = ".") ∨ c = ".." ∨ ((c ≠ "" ∧ c ≠ "." ∧ c ≠ "..") ∧
      ((∃ absolute target, t.at? (cur ++ [c]) = some (.link absolute target)) ∨
        ¬ (t.at? (cur ++ [c])).any FileEntry.isLink = true)) := by
  by_cases hdot : c = "" ∨ c = "."
  · exact .inl hdot
  by_cases hup : c = ".."
  · exact .inr (.inl hup)
  rw [not_or] at hdot
  refine .inr (.inr ⟨⟨hdot.1, hdot.2, hup⟩, ?_⟩)
  cases h : t.at? (cur ++ [c]) with
  | none => exact .inr nofun
  | some e =>
    cases e with
    | link absolute target => exact .inl ⟨absolute, target, rfl⟩
    | _ => exact .inr nofun

theorem passable_lax (p rest : Path) : t.passable false p rest = true := rfl

/-- A strict walk that comes to its end is the lax one. -/
theorem walkFrom_lax (henter : ∀ busy cur target q, enter busy cur target = (q, true) →
      enter' busy cur target = (q, true))
    (h : t.walkFrom true enter busy cur p = (q, true)) :
    t.walkFrom false enter' busy cur p = (q, true) := by
  induction p generalizing cur with
  | nil => exact h
  | cons c rest ih =>
    obtain ⟨d, hd, h⟩ := (walkFrom_cons c rest).mp h
    refine (walkFrom_cons c rest).mpr ⟨d, ?_, ih h⟩
    rcases component_kinds t cur c with hdot | rfl | ⟨hc, ⟨absolute, target, hlink⟩ | hname⟩
    · rw [component_dot hdot] at hd ⊢
      exact hd
    · exact hd
    · obtain ⟨hbusy, hr, -⟩ := (component_link hc hlink).mp hd
      exact (component_link hc hlink).mpr ⟨hbusy, henter _ _ _ _ hr, passable_lax _ _⟩
    · rw [component_name hc hname] at hd ⊢
      exact Prod.ext (Prod.mk.inj hd).1 rfl

theorem walk_lax {n : ℕ} (h : t.walk true n busy cur p = (q, true)) : t.walk false n busy cur p = (q, true) := by
  induction n generalizing busy cur p q with
  | zero => exact walkFrom_lax (fun _ _ _ _ h => by cases h) h
  | succ n ih => exact walkFrom_lax (fun _ _ _ _ h => ih h) h

theorem component_proper {c : String} {rest : Path}
    (henter : ∀ busy cur target q, Proper cur → enter busy cur target = (q, true) → Proper q)
    (hcur : Proper cur) (h : t.component strict enter busy cur c rest = (q, true)) : Proper q := by
  rcases component_kinds t cur c with hdot | rfl | ⟨hc, ⟨absolute, target, hlink⟩ | hname⟩
  · rw [component_dot hdot] at h
    rw [← (Prod.mk.inj h).1]
    exact hcur
  · rw [component_up] at h
    rw [← (Prod.mk.inj h).1]
    exact hcur.dropLast
  · have hstart : Proper (if absolute then [] else cur) := by
      split_ifs
      · exact proper_nil
      · exact hcur
    exact henter _ _ _ _ hstart ((component_link hc hlink).mp h).2.1
  · rw [component_name hc hname] at h
    rw [← (Prod.mk.inj h).1]
    exact hcur.concat hc

theorem walkFrom_proper
    (henter : ∀ busy cur target q, Proper cur → enter busy cur target = (q, true) → Proper q)
    (hcur : Proper cur) (h : t.walkFrom strict enter busy cur p = (q, true)) : Proper q := by
  induction p generalizing cur with
  | nil =>
    rw [← (Prod.mk.inj h).1]
    exact hcur
  | cons c rest ih =>
    obtain ⟨d, hd, h⟩ := (walkFrom_cons c rest).mp h
    exact ih (component_proper henter hcur hd) h

/-- A walk that comes to its end has met names only. -/
theorem walk_proper {n : ℕ} (hcur : Proper cur) (h : t.walk strict n busy cur p = (q, true)) :
    Proper q := by
  induction n generalizing busy cur p q with
  | zero => exact walkFrom_proper (fun _ _ _ _ _ h => by cases h) hcur h
  | succ n ih => exact walkFrom_proper (fun _ _ _ _ hcur h => ih hcur h) hcur h

theorem stat_eq_some : t.stat p = some q ↔ t.walk true t.links [] [] p = (q, true) := by
  unfold stat
  dsimp only
  constructor
  · intro h
    split_ifs at h with hok
    exact Prod.ext (Option.some.inj h) hok
  · intro h
    rw [h, if_pos rfl]

theorem proper_of_stat (h : t.stat p = some q) : Proper q :=
  walk_proper proper_nil (stat_eq_some.mp h)

/-- **Where the system finds a file, `realpath` names it.** -/
theorem realpath_of_stat (h : t.stat p = some q) : t.realpath p = q := by
  rw [realpath, walk_lax (stat_eq_some.mp h)]
  exact normpath_of_proper (proper_of_stat h)

/-! ## The name a path spells -/

theorem at?_dropLast (h : t.at? cur = some .dir) : t.at? cur.dropLast = some .dir := by
  induction cur using List.reverseRecOn with
  | nil => exact h
  | append_singleton p c _ =>
    rw [List.dropLast_concat]
    exact t.parents p c .dir h

/-- A strict walk that goes on stands in a directory. -/
theorem dir_of_component {c : String} {rest : Path} (hrest : rest ≠ [])
    (hcur : t.at? cur = some .dir)
    (h : t.component true enter busy cur c rest = (q, true)) : t.at? q = some .dir := by
  have hpass : ∀ d, t.passable true d rest = true → t.at? d = some .dir := by
    intro d hd
    unfold passable at hd
    rw [Bool.not_true, Bool.false_or, if_neg hrest] at hd
    exact of_decide_eq_true hd
  rcases component_kinds t cur c with hdot | rfl | ⟨hc, ⟨absolute, target, hlink⟩ | hname⟩
  · rw [component_dot hdot] at h
    rw [← (Prod.mk.inj h).1, hcur]
  · rw [component_up] at h
    rw [← (Prod.mk.inj h).1, at?_dropLast hcur]
  · exact hpass q ((component_link hc hlink).mp h).2.2
  · rw [component_name hc hname] at h
    obtain ⟨rfl, hgo⟩ := Prod.mk.inj h
    exact hpass _ hgo

theorem passable_shorter {d rest : Path} {c : String}
    (h : t.passable true d (rest ++ [c]) = true) : t.passable true d rest = true := by
  have hne : rest ++ [c] ≠ [] := List.concat_ne_nil c rest
  unfold passable at h ⊢
  rw [Bool.not_true, Bool.false_or, if_neg hne] at h
  rw [Bool.not_true, Bool.false_or]
  split_ifs
  · rw [of_decide_eq_true h]
    rfl
  · exact h

/-- Walking up to the last component. -/
theorem walkFrom_concat {c : String} (hcur : t.at? cur = some .dir)
    (h : t.walkFrom true enter busy cur (p ++ [c]) = (q, true)) :
    ∃ d, t.walkFrom true enter busy cur p = (d, true) ∧ t.at? d = some .dir ∧
      t.component true enter busy d c [] = (q, true) := by
  induction p generalizing cur with
  | nil =>
    obtain ⟨d, hd, hend⟩ := (walkFrom_cons c []).mp h
    refine ⟨cur, rfl, hcur, ?_⟩
    rw [hd]
    exact hend
  | cons b rest ih =>
    obtain ⟨d, hd, h⟩ := (walkFrom_cons b (rest ++ [c])).mp h
    have hdir : t.at? d = some .dir := dir_of_component (List.concat_ne_nil c rest) hcur hd
    obtain ⟨e, he, hedir, hlast⟩ := ih hdir h
    refine ⟨e, (walkFrom_cons b rest).mpr ⟨d, ?_, he⟩, hedir, hlast⟩
    rcases component_kinds t cur b with hdot | rfl | ⟨hb, ⟨absolute, target, hlink⟩ | hname⟩
    · rw [component_dot hdot] at hd ⊢
      exact hd
    · exact hd
    · obtain ⟨hbusy, hr, hpass⟩ := (component_link hb hlink).mp hd
      exact (component_link hb hlink).mpr ⟨hbusy, hr, passable_shorter hpass⟩
    · rw [component_name hb hname] at hd ⊢
      obtain ⟨rfl, hpass⟩ := Prod.mk.inj hd
      exact Prod.ext rfl (passable_shorter hpass)

theorem walk_eq_walkFrom (t : FileTree β) (strict : Bool) (n : ℕ) :
    ∃ enter : Enter, t.walk strict n = t.walkFrom strict enter := by
  cases n with
  | zero => exact ⟨_, rfl⟩
  | succ n => exact ⟨_, rfl⟩

/-- **The name a path spells is the file's**, when it is no link. -/
theorem locate_of_stat {c : String} (hc : Plain c) (h : t.stat (p ++ [c]) = some q) :
    ∃ l, t.locate (p ++ [c]) = some l ∧
      (¬ (t.at? l).any FileEntry.isLink = true → l = q ∧ (t.at? q).isSome = true) := by
  obtain ⟨enter, henter⟩ := walk_eq_walkFrom t true t.links
  rw [stat_eq_some, henter] at h
  have hroot : t.at? [] = some .dir := rfl
  obtain ⟨d, hd, hdir, hlast⟩ := walkFrom_concat hroot h
  have hparent : t.stat p = some d := by
    rw [stat_eq_some, henter]
    exact hd
  refine ⟨d ++ [c], ?_, fun hlink => ?_⟩
  · unfold locate
    rw [List.getLast?_concat, List.dropLast_concat]
    dsimp only
    rw [hparent]
    exact if_pos hdir
  · rw [component_name hc hlink] at hlast
    obtain ⟨rfl, hsome⟩ := Prod.mk.inj hlast
    exact ⟨rfl, hsome⟩

/-- What is above something is a directory. -/
theorem dir_of_append {r : Path} {e : FileEntry} (hr : r ≠ []) (h : t.at? (p ++ r) = some e) :
    t.at? p = some .dir := by
  induction r using List.reverseRecOn generalizing e with
  | nil => exact absurd rfl hr
  | append_singleton r c ih =>
    rw [← List.append_assoc] at h
    have hdir : t.at? (p ++ r) = some .dir := t.parents _ c e h
    by_cases hr : r = []
    · rw [hr, List.append_nil] at hdir
      exact hdir
    · exact ih hr hdir

theorem walkFrom_self {e : FileEntry} (he : e.isLink = false) (hp : Proper p)
    (h : t.at? (cur ++ p) = some e) :
    t.walkFrom true enter busy cur p = (cur ++ p, true) := by
  induction p generalizing cur with
  | nil => rw [walkFrom, List.append_nil]
  | cons c rest ih =>
    obtain ⟨hc, hp⟩ := List.forall_mem_cons.mp hp
    rw [List.append_cons] at h ⊢
    refine (walkFrom_cons c rest).mpr ⟨cur ++ [c], ?_, ih hp h⟩
    by_cases hrest : rest = []
    · rw [hrest, List.append_nil] at h
      rw [component_name hc (by rw [h]; simp [he])]
      simp [passable, hrest, h]
    · have hdir : t.at? (cur ++ [c]) = some .dir := dir_of_append hrest h
      rw [component_name hc (by rw [hdir]; exact nofun)]
      simp [passable, hrest, hdir]

/-- A physical path leads to itself. -/
theorem stat_self {e : FileEntry} (hp : Proper p) (he : e.isLink = false) (h : t.at? p = some e) :
    t.stat p = some p := by
  obtain ⟨enter, henter⟩ := walk_eq_walkFrom t true t.links
  rw [stat_eq_some, henter]
  have hfrom : t.at? ([] ++ p) = some e := h
  exact walkFrom_self he hp hfrom

/-! ## Removing names of files -/

section Erase

variable {l : Path} {hl : t.at? l ≠ some .dir}

theorem ne_nil_of_not_dir (hl : t.at? l ≠ some .dir) : l ≠ [] := by
  rintro rfl
  exact hl rfl

theorem at?_erase (p : Path) : (t.erase l hl).at? p = if p = l then none else t.at? p :=
  entryAt_erase _ (ne_nil_of_not_dir hl) p

theorem at?_erase_of_ne (h : p ≠ l) : (t.erase l hl).at? p = t.at? p := by
  rw [at?_erase, if_neg h]

/-- Removing a name that is no link leaves the number of links. -/
theorem links_erase (hlink : ¬ (t.at? l).any FileEntry.isLink = true) :
    (t.erase l hl).links = t.links := by
  have hroot := ne_nil_of_not_dir hl
  show (t.entries.erase l).entries.countP _ = t.entries.entries.countP _
  show (t.entries.entries.filter _).countP _ = _
  rw [List.countP_filter]
  refine List.countP_congr fun e he => ?_
  have hget : t.entries.get? e.1 = some e.2 := Dict.mem_entries_iff.mp he
  by_cases hel : e.1 = l
  · have hat : t.at? l = some e.2 := by
      show entryAt t.entries l = some e.2
      rw [entryAt, if_neg hroot, ← hel, hget]
    rw [hat] at hlink
    have hno : e.2.isLink = false := Bool.eq_false_iff.mpr hlink
    simp [hno]
  · simp [hel]

theorem walkFrom_erase_lax (hlink : ¬ (t.at? l).any FileEntry.isLink = true) :
    (t.erase l hl).walkFrom false enter busy cur p = t.walkFrom false enter busy cur p := by
  induction p generalizing cur with
  | nil => rfl
  | cons c rest ih =>
    have hcomponent : (t.erase l hl).component false enter busy cur c rest
        = t.component false enter busy cur c rest := by
      by_cases hcl : cur ++ [c] = l
      · rcases component_kinds t cur c with hdot | rfl | ⟨hc, -⟩
        · rw [component_dot hdot, component_dot hdot]
        · rfl
        · have hgone : ¬ ((t.erase l hl).at? (cur ++ [c])).any FileEntry.isLink = true := by
            rw [at?_erase, if_pos hcl]
            exact nofun
          rw [component_name hc hgone, component_name hc (hcl ▸ hlink), passable_lax, passable_lax]
      · unfold component
        rw [at?_erase_of_ne hcl]
        rfl
    rw [walkFrom, walkFrom, hcomponent]
    rw [ih]

theorem walk_erase_lax (hlink : ¬ (t.at? l).any FileEntry.isLink = true) (n : ℕ) :
    (t.erase l hl).walk false n = t.walk false n := by
  induction n with
  | zero =>
    funext busy cur p
    exact walkFrom_erase_lax hlink
  | succ n ih =>
    funext busy cur p
    show (t.erase l hl).walkFrom false ((t.erase l hl).walk false n) busy cur p = _
    rw [ih]
    exact walkFrom_erase_lax hlink

/-- **Removing a file changes no resolved path.** -/
theorem realpath_erase (hlink : ¬ (t.at? l).any FileEntry.isLink = true) (p : Path) :
    (t.erase l hl).realpath p = t.realpath p := by
  unfold realpath
  rw [links_erase hlink, walk_erase_lax hlink]

/-- A name that is removed is no place to pass. -/
theorem passable_erase {d rest : Path} :
    (t.erase l hl).passable true d rest = true ↔ t.passable true d rest = true ∧ d ≠ l := by
  unfold passable
  rw [Bool.not_true, Bool.false_or, Bool.false_or, at?_erase]
  by_cases hdl : d = l
  · simp [hdl]
  · simp [hdl]

theorem passable_not_dir {rest : Path} (h : t.passable true l rest = true)
    (hl : t.at? l ≠ some .dir) : rest = [] := by
  by_contra hrest
  unfold passable at h
  rw [Bool.not_true, Bool.false_or, if_neg hrest] at h
  exact hl (of_decide_eq_true h)

theorem ne_of_dir (hl : t.at? l ≠ some .dir) (h : t.at? cur = some .dir) : cur ≠ l := by
  rintro rfl
  exact hl h

theorem component_erase {c : String} {rest : Path}
    (hlink : ¬ (t.at? l).any FileEntry.isLink = true)
    (henter : ∀ busy cur target q, t.at? cur = some .dir →
      (enter' busy cur target = (q, true) ↔ enter busy cur target = (q, true) ∧ q ≠ l))
    (hcur : t.at? cur = some .dir) :
    (t.erase l hl).component true enter' busy cur c rest = (q, true) ↔
      t.component true enter busy cur c rest = (q, true) ∧ q ≠ l := by
  rcases component_kinds t cur c with hdot | rfl | ⟨hc, hkind⟩
  · rw [component_dot hdot, component_dot hdot]
    simp only [Prod.mk.injEq, and_true]
    exact ⟨fun h => ⟨h, h ▸ ne_of_dir hl hcur⟩, And.left⟩
  · rw [component_up, component_up]
    simp only [Prod.mk.injEq, and_true]
    exact ⟨fun h => ⟨h, h ▸ ne_of_dir hl (at?_dropLast hcur)⟩, And.left⟩
  by_cases hcl : cur ++ [c] = l
  · -- the removed name itself: no walk goes through it
    have hgone : ¬ ((t.erase l hl).at? (cur ++ [c])).any FileEntry.isLink = true := by
      rw [at?_erase, if_pos hcl]
      exact nofun
    rw [component_name hc hgone, component_name hc (hcl ▸ hlink), Prod.mk.injEq, Prod.mk.injEq,
      passable_erase]
    constructor
    · rintro ⟨-, -, hne⟩
      exact absurd hcl hne
    · rintro ⟨⟨hq, -⟩, hne⟩
      exact absurd (hq.symm.trans hcl) hne
  · have hat : (t.erase l hl).at? (cur ++ [c]) = t.at? (cur ++ [c]) := at?_erase_of_ne hcl
    rcases hkind with ⟨absolute, target, htarget⟩ | hname
    · have hstart : t.at? (if absolute then [] else cur) = some .dir := by
        split_ifs
        · rfl
        · exact hcur
      rw [component_link hc (hat.trans htarget), component_link hc htarget, henter _ _ _ _ hstart,
        passable_erase]
      constructor
      · rintro ⟨hbusy, ⟨hr, hne⟩, hpass, -⟩
        exact ⟨⟨hbusy, hr, hpass⟩, hne⟩
      · rintro ⟨⟨hbusy, hr, hpass⟩, hne⟩
        exact ⟨hbusy, ⟨hr, hne⟩, hpass, hne⟩
    · rw [component_name hc (hat ▸ hname), component_name hc hname, Prod.mk.injEq, Prod.mk.injEq,
        passable_erase]
      constructor
      · rintro ⟨rfl, hpass, hne⟩
        exact ⟨⟨rfl, hpass⟩, hne⟩
      · rintro ⟨⟨rfl, hpass⟩, hne⟩
        exact ⟨rfl, hpass, hne⟩

/-- A strict walk from a directory comes to its end without the name exactly when it ended
elsewhere with it. -/
theorem walkFrom_erase (hlink : ¬ (t.at? l).any FileEntry.isLink = true)
    (henter : ∀ busy cur target q, t.at? cur = some .dir →
      (enter' busy cur target = (q, true) ↔ enter busy cur target = (q, true) ∧ q ≠ l))
    (hcur : t.at? cur = some .dir) :
    (t.erase l hl).walkFrom true enter' busy cur p = (q, true) ↔
      t.walkFrom true enter busy cur p = (q, true) ∧ q ≠ l := by
  induction p generalizing cur with
  | nil =>
    rw [walkFrom, walkFrom]
    simp only [Prod.mk.injEq, and_true]
    exact ⟨fun h => ⟨h, h ▸ ne_of_dir hl hcur⟩, And.left⟩
  | cons c rest ih =>
    rw [walkFrom_cons, walkFrom_cons]
    -- on the way the walk stands in a directory; at the end it stands where it is going
    have hrest : ∀ d, t.component true enter busy cur c rest = (d, true) → d ≠ l →
        ((t.erase l hl).walkFrom true enter' busy d rest = (q, true) ↔
          t.walkFrom true enter busy d rest = (q, true) ∧ q ≠ l) := by
      intro d hd hne
      cases rest with
      | nil =>
        rw [walkFrom, walkFrom]
        simp only [Prod.mk.injEq, and_true]
        exact ⟨fun h => ⟨h, h ▸ hne⟩, And.left⟩
      | cons b rest => exact ih (dir_of_component (List.cons_ne_nil b rest) hcur hd)
    constructor
    · rintro ⟨d, hd, h⟩
      obtain ⟨hd', hne⟩ := (component_erase hlink henter hcur).mp hd
      obtain ⟨h', hq⟩ := (hrest d hd' hne).mp h
      exact ⟨⟨d, hd', h'⟩, hq⟩
    · rintro ⟨⟨d, hd, h⟩, hq⟩
      -- a walk that passes the removed name ends there
      have hne : d ≠ l := by
        rintro rfl
        cases rest with
        | nil => exact hq (Prod.mk.inj h).1.symm
        | cons b rest => exact hl (dir_of_component (List.cons_ne_nil b rest) hcur hd)
      exact ⟨d, (component_erase hlink henter hcur).mpr ⟨hd, hne⟩, (hrest d hd hne).mpr ⟨h, hq⟩⟩

theorem walk_erase (hlink : ¬ (t.at? l).any FileEntry.isLink = true) (n : ℕ)
    (hcur : t.at? cur = some .dir) :
    (t.erase l hl).walk true n busy cur p = (q, true) ↔
      t.walk true n busy cur p = (q, true) ∧ q ≠ l := by
  induction n generalizing busy cur p q with
  | zero =>
    refine walkFrom_erase hlink (fun busy cur target q _ => ?_) hcur
    simp
  | succ n ih => exact walkFrom_erase hlink (fun busy cur target q h => ih h) hcur

/-- **Paths that lead elsewhere still lead there**, and no path leads to the removed name. -/
theorem stat_erase (hlink : ¬ (t.at? l).any FileEntry.isLink = true) :
    (t.erase l hl).stat p = some q ↔ t.stat p = some q ∧ q ≠ l := by
  rw [stat_eq_some, stat_eq_some, links_erase hlink]
  exact walk_erase hlink t.links rfl

theorem locate_erase (hlink : ¬ (t.at? l).any FileEntry.isLink = true) :
    (t.erase l hl).locate p = t.locate p := by
  unfold locate
  cases p.getLast? with
  | none => rfl
  | some c =>
    dsimp only
    cases hd : t.stat p.dropLast with
    | none =>
      have hgone : (t.erase l hl).stat p.dropLast = none := by
        by_contra hne
        obtain ⟨d, hd'⟩ := Option.ne_none_iff_exists'.mp hne
        rw [((stat_erase hlink).mp hd').1] at hd
        cases hd
      rw [hgone]
    | some d =>
      dsimp only
      by_cases hdl : d = l
      · -- the name removed was no directory
        have hgone : (t.erase l hl).stat p.dropLast = none := by
          by_contra hne
          obtain ⟨d', hd'⟩ := Option.ne_none_iff_exists'.mp hne
          obtain ⟨hstat, hne'⟩ := (stat_erase hlink).mp hd'
          rw [hd] at hstat
          exact hne' (Option.some.inj hstat ▸ hdl)
        rw [hgone, if_neg (hdl ▸ hl)]
      · rw [(stat_erase hlink).mpr ⟨hd, hdl⟩]
        dsimp only
        rw [at?_erase_of_ne hdl]

theorem fileId_eq_some {ino : ℕ} :
    t.fileId p = some ino ↔ ∃ q, t.stat p = some q ∧ t.at? q = some (.file ino) := by
  unfold fileId
  cases hq : t.stat p with
  | none => simp
  | some q =>
    dsimp only
    constructor
    · intro h
      split at h
      · next ino' hat =>
        cases h
        exact ⟨q, rfl, hat⟩
      · cases h
    · rintro ⟨q', hq', hat⟩
      cases hq'
      rw [hat]

theorem read_eq_some {b : β} :
    t.read p = some b ↔ ∃ ino, t.fileId p = some ino ∧ t.readable ino = true ∧ t.content ino = b := by
  unfold read
  cases hi : t.fileId p with
  | none => simp
  | some ino =>
    dsimp only
    cases hr : t.readable ino <;> simp [hr]

end Erase

theorem remove_eq_some {t' : FileTree β} :
    t.remove p = some t' ↔ ∃ l, ∃ h : t.at? l ≠ some .dir, t.locate p = some l ∧
      (t.at? l).isSome = true ∧ t.locked l = false ∧ t' = t.erase l h := by
  unfold remove
  cases hl : t.locate p with
  | none => simp
  | some l =>
    dsimp only
    by_cases h : t.at? l ≠ some .dir
    · rw [dif_pos h]
      constructor
      · intro hr
        split_ifs at hr with hgo
        rw [Bool.and_eq_true, Bool.not_eq_true'] at hgo
        exact ⟨l, h, rfl, hgo.1, hgo.2, (Option.some.inj hr).symm⟩
      · rintro ⟨l', h', hl', hsome, hlocked, rfl⟩
        cases hl'
        rw [hsome, hlocked]
        rfl
    · rw [dif_neg h]
      constructor
      · intro hr
        cases hr
      · rintro ⟨l', h', hl', -⟩
        cases hl'
        exact absurd h' h

/-! ## A tree without some names of files -/

/-- `t'` is `t` without the names in `gone`, which are no links and no directories. -/
structure Erased (t t' : FileTree β) (gone : List Path) : Prop where
  at? : ∀ p, t'.at? p = if p ∈ gone then none else t.at? p
  stat : ∀ p q, t'.stat p = some q ↔ t.stat p = some q ∧ q ∉ gone
  locate : ∀ p, t'.locate p = t.locate p
  content : t'.content = t.content
  readable : t'.readable = t.readable
  locked : t'.locked = t.locked

theorem Erased.refl (t : FileTree β) : Erased t t [] where
  at? p := by rw [if_neg List.not_mem_nil]
  stat p q := by
    rw [and_iff_left_of_imp]
    exact fun _ => List.not_mem_nil
  locate p := rfl
  content := rfl
  readable := rfl
  locked := rfl

variable {t' : FileTree β} {gone : List Path}

theorem Erased.erase (h : Erased t t' gone) {l : Path} (hl : t'.at? l ≠ some .dir)
    (hlink : ¬ (t'.at? l).any FileEntry.isLink = true) :
    Erased t (t'.erase l hl) (gone ++ [l]) where
  at? p := by
    rw [at?_erase, h.at?]
    by_cases hp : p = l
    · simp [hp]
    · simp [hp]
  stat p q := by
    rw [stat_erase hlink, h.stat, List.mem_append, List.mem_singleton, not_or, and_assoc]
  locate p := by rw [locate_erase hlink, h.locate]
  content := h.content
  readable := h.readable
  locked := h.locked

/-- A path to a file that is still there. -/
theorem Erased.fileId_eq_some (h : Erased t t' gone) {ino : ℕ} :
    t'.fileId p = some ino ↔
      ∃ q, t.stat p = some q ∧ q ∉ gone ∧ t.at? q = some (.file ino) := by
  rw [FileTree.fileId_eq_some]
  constructor
  · rintro ⟨q, hq, hat⟩
    obtain ⟨hstat, hgone⟩ := (h.stat p q).mp hq
    rw [h.at?, if_neg hgone] at hat
    exact ⟨q, hstat, hgone, hat⟩
  · rintro ⟨q, hstat, hgone, hat⟩
    refine ⟨q, (h.stat p q).mpr ⟨hstat, hgone⟩, ?_⟩
    rw [h.at?, if_neg hgone, hat]

end FileTree

end Systems
