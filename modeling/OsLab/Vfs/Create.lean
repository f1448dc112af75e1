import OsLab.Vfs.Paths

/-!
# Create — locks and references of `new_node`

`new_node` of `vfs/open.c` makes a file or finds the one that is there.  It follows a dangling symbolic
link by calling itself, and starts again when a link leads to an absolute path.

* A run is given by one `Level` for each call of `new_node`: what the lookups, `get_free_vnode`, the
  permission check, `req_create` and `req_rdlink` bring.
* A level whose list ends before the recursion does is `unfinished`.
-/

namespace OsLab
namespace Vfs
namespace Create

open OsLab.Lib
open OsLab.Lib.Holding
open OsLab.Mfs (OK)
open Lookups
open Paths

/-! ## The function -/

structure Level where
  /-- The lookup of the directory. -/
  lastDir : Lookup
  /-- The lookup of the last component. -/
  advance : Lookup
  /-- Whether the path is absolute afterwards. -/
  absolute : Bool
  /-- `get_free_vnode`: a vnode, or `err_code`. -/
  freeVnode : Except ErrCode Node
  forbidden : Int
  reqCreate : Int
  /-- The lookup of the symbolic link. -/
  link : Lookup
  /-- The length of the link, or an error. -/
  reqRdlink : Int

/-- The vnode that `new_node` returns, and `err_code`. -/
structure Result where
  errCode : Int
  vp : Option Node

/-- The way out for the directory: `unlock_vnode(dirp); unlock_vmnt(dir_vmp); put_vnode(dirp);`, where
`dirp` stays locked if it is the vnode that is returned. -/
def finish (dirp : Handle) (errCode : Int) (vp : Option Node) : Holding Resource Result := do
  if vp.map Node.slot ≠ some dirp.node.slot then unlockVnode dirp.node
  unlockVmnt dirp.vmp
  putVnode dirp.node
  return ⟨errCode, vp⟩

/-- Read the symbolic link that is in the way.  On an error the function returns at once. -/
def readSymlink (l : Level) (dirp : Handle) : Holding Resource (Option Result) := do
  match ← lookup l.link with
  | .error _ => return none
  | .ok slp =>
    if slp.node.type = S_IFLNK ∧ l.reqRdlink < 0 then
      unlockVnode slp.node
      unlockVnode dirp.node
      unlockVmnt dirp.vmp
      putVnode slp.node
      putVnode dirp.node
      return some ⟨l.reqRdlink, none⟩
    else
      unlockVnode slp.node
      putVnode slp.node
      return none

/-- What permissions and the server say about making the file. -/
def Level.created (l : Level) : Int :=
  if l.forbidden ≠ OK then l.forbidden else l.reqCreate

/-- The last component does not exist: make it. -/
def makeEntry (l : Level) (dirp : Handle) (again : Holding Resource Result) : Holding Resource Result :=
  match l.freeVnode with
  | .error e => do
      leave dirp
      return ⟨e.1, none⟩
  | .ok vp => do
      hold (.vnodeLock vp.slot)
      if l.created = OK then
        hold (.vnodeRef vp.slot)
        finish dirp OK (some vp)
      else if l.created = EEXIST then
        match ← readSymlink l dirp with
        | some r => return r
        | none =>
          unlockVnode dirp.node
          unlockVnode vp
          unlockVmnt dirp.vmp
          let r ← again
          match r.vp with
          | some _ =>
            putVnode dirp.node
            return r
          | none =>
            -- `vp` is `NULL` here, and everything is unlocked already.
            unlockVmnt dirp.vmp
            unlockVnode dirp.node
            fault .nullPointer
      else
        unlockVmnt dirp.vmp
        unlockVnode dirp.node
        unlockVnode vp
        putVnode dirp.node
        return ⟨l.created, none⟩

def newNode : List Level → Holding Resource Result
  | [] => fault .unfinished
  | l :: ls => do
      match ← lookup l.lastDir with
      | .error e => return ⟨e.1, none⟩
      | .ok dirp =>
        match ← lookup l.advance with
        | .error e =>
          if l.absolute then
            leave dirp
            newNode ls
          else if e.1 = ENOENT then makeEntry l dirp (newNode ls)
          else finish dirp e.1 none
        | .ok vp =>
          if vp.vmp ≠ none then fault .assertion
          else if l.absolute then
            leave dirp
            unlockVnode vp.node
            putVnode vp.node
            newNode ls
          else finish dirp EEXIST (some vp.node)

/-! ## Traps -/

/-- A vnode from `get_free_vnode` is none of those in use, and the symbolic link is a file in the
directory, on the same file system. -/
structure Level.Sane (l : Level) : Prop where
  fresh : ∀ f vp, l.lastDir = .ok f → l.freeVnode = .ok vp → vp.slot ≠ f.node.slot
  link : ∀ f s, l.lastDir = .ok f → l.link = .ok s → s.vmnt = f.vmnt ∧ s.node.slot ≠ f.node.slot
  linkFresh : ∀ vp s, l.freeVnode = .ok vp → l.link = .ok s → s.node.slot ≠ vp.slot

/-- Whether `new_node` returns a vnode. -/
def returnsNode : List Level → Bool
  | [] => false
  | l :: ls =>
    match l.lastDir with
    | .error _ => false
    | .ok _ =>
      if l.absolute then returnsNode ls
      else
        match l.advance with
        | .ok _ => true
        | .error e =>
          if e.1 = ENOENT then
            match l.freeVnode with
            | .error _ => false
            | .ok _ =>
              if l.created = OK then true
              else if l.created = EEXIST then returnsNode ls
              else false
          else false

/-- The symbolic link cannot be read. -/
def Level.LinkLost (l : Level) : Prop :=
  ∃ s, l.link = .ok s ∧ s.node.type = S_IFLNK ∧ l.reqRdlink < 0

/-- The recursion ends, and on the way no lookup leaves the file system, an absolute path is not found
to be the directory itself, and where another file has been made in the meantime the link to it can be
read and the next level returns a vnode. -/
def Good : List Level → Prop
  | [] => False
  | l :: ls => ∀ f, l.lastDir = .ok f →
      (∀ v, l.advance = .ok v → v.vmnt = f.vmnt ∧ (l.absolute = true → v.node.slot ≠ f.node.slot)) ∧
      (l.absolute = true → Good ls) ∧
      ∀ e vp, l.absolute = false → l.advance = .error e → e.1 = ENOENT → l.freeVnode = .ok vp →
        l.created ≠ OK → l.created = EEXIST →
        ¬ l.LinkLost ∧ Good ls ∧ returnsNode ls = true

/-- The recursion goes on at every level, also at the last one: the path is absolute, or there is another
symbolic link to follow. -/
def RunsOut : List Level → Prop
  | [] => True
  | l :: ls => RunsOut ls ∧ ∃ f, l.lastDir = .ok f ∧
      ((l.absolute = true ∧ ∀ v, l.advance = .ok v → v.vmnt = f.vmnt ∧ v.node.slot ≠ f.node.slot) ∨
        (l.absolute = false ∧ ∃ e vp, l.advance = .error e ∧ e.1 = ENOENT ∧ l.freeVnode = .ok vp ∧
          l.created ≠ OK ∧ l.created = EEXIST ∧ ¬ l.LinkLost))

/-! ## Evaluation -/

/-- Only references are held. -/
def RefsOnly (held : List Resource) : Prop :=
  ∀ x ∈ held, ∃ slot, x = .vnodeRef slot

variable {held : List Resource}

theorem RefsOnly.vnodeLock (h : RefsOnly held) (slot : Nat) : Resource.vnodeLock slot ∉ held := by
  intro hmem
  rcases h _ hmem with ⟨slot', heq⟩
  exact absurd heq (by simp)

theorem RefsOnly.vmntLock (h : RefsOnly held) (slot : Nat) : Resource.vmntLock slot ∉ held := by
  intro hmem
  rcases h _ hmem with ⟨slot', heq⟩
  exact absurd heq (by simp)

theorem RefsOnly.cons (h : RefsOnly held) (slot : Nat) : RefsOnly (.vnodeRef slot :: held) := by
  intro x hx
  rcases List.mem_cons.1 hx with rfl | hmem
  · exact ⟨slot, rfl⟩
  · exact h x hmem

/-- What is held after the lookup of the directory. -/
theorem lookup_dir (h : RefsOnly held) (f : Found) : lookup (.ok f) held =
    .ok (.ok ⟨f.node, true, some f.vmnt⟩,
      .vnodeRef f.node.slot :: .vnodeLock f.node.slot :: .vmntLock f.vmnt :: held) := by
  simp [lookup, tryHold, h.vnodeLock, h.vmntLock]

theorem lookup_other (f v : Found) (hvmnt : v.vmnt = f.vmnt) (hslot : v.node.slot ≠ f.node.slot)
    (h : RefsOnly held) : lookup (.ok v)
      (.vnodeRef f.node.slot :: .vnodeLock f.node.slot :: .vmntLock f.vmnt :: held) =
    .ok (.ok ⟨v.node, true, none⟩, .vnodeRef v.node.slot :: .vnodeLock v.node.slot ::
      .vnodeRef f.node.slot :: .vnodeLock f.node.slot :: .vmntLock f.vmnt :: held) := by
  simp [lookup, tryHold, hvmnt, hslot, h.vnodeLock]

theorem lookup_self (f v : Found) (hvmnt : v.vmnt = f.vmnt) (hslot : v.node.slot = f.node.slot) :
    lookup (.ok v) (.vnodeRef f.node.slot :: .vnodeLock f.node.slot :: .vmntLock f.vmnt :: held) =
    .ok (.ok ⟨v.node, false, none⟩, .vnodeRef f.node.slot ::
      .vnodeRef f.node.slot :: .vnodeLock f.node.slot :: .vmntLock f.vmnt :: held) := by
  simp [lookup, tryHold, hvmnt, hslot]

theorem lookup_elsewhere (f v : Found) (hvmnt : v.vmnt ≠ f.vmnt) (h : RefsOnly held) :
    ∃ locked held', lookup (.ok v)
        (.vnodeRef f.node.slot :: .vnodeLock f.node.slot :: .vmntLock f.vmnt :: held) =
      .ok (.ok ⟨v.node, locked, some v.vmnt⟩, held') := by
  by_cases hslot : v.node.slot = f.node.slot
  · simp [lookup, tryHold, hvmnt, hslot, h.vmntLock]
  · simp [lookup, tryHold, hvmnt, hslot, h.vnodeLock, h.vmntLock]

theorem leave_dir (f : Found) : leave ⟨f.node, true, some f.vmnt⟩
    (.vnodeRef f.node.slot :: .vnodeLock f.node.slot :: .vmntLock f.vmnt :: held) = .ok ((), held) := by
  simp [leave, unlockVnode, unlockVmnt, putVnode, release]

theorem finish_none (f : Found) (errCode : Int) : finish ⟨f.node, true, some f.vmnt⟩ errCode none
    (.vnodeRef f.node.slot :: .vnodeLock f.node.slot :: .vmntLock f.vmnt :: held) =
      .ok (⟨errCode, none⟩, held) := by
  simp [finish, unlockVnode, unlockVmnt, putVnode, release]

theorem finish_other (f : Found) {vp : Node} (errCode : Int) (hslot : vp.slot ≠ f.node.slot) :
    finish ⟨f.node, true, some f.vmnt⟩ errCode (some vp) (.vnodeRef vp.slot :: .vnodeLock vp.slot ::
        .vnodeRef f.node.slot :: .vnodeLock f.node.slot :: .vmntLock f.vmnt :: held) =
      .ok (⟨errCode, some vp⟩, .vnodeRef vp.slot :: .vnodeLock vp.slot :: held) := by
  have hslot' : f.node.slot ≠ vp.slot := Ne.symm hslot
  simp [finish, unlockVnode, unlockVmnt, putVnode, release, hslot, hslot']

theorem finish_self (f : Found) {vp : Node} (errCode : Int) (hslot : vp.slot = f.node.slot) :
    finish ⟨f.node, true, some f.vmnt⟩ errCode (some vp) (.vnodeRef f.node.slot ::
        .vnodeRef f.node.slot :: .vnodeLock f.node.slot :: .vmntLock f.vmnt :: held) =
      .ok (⟨errCode, some vp⟩, .vnodeRef f.node.slot :: .vnodeLock f.node.slot :: held) := by
  simp [finish, unlockVmnt, putVnode, release, hslot]

/-- What is held on account of the result. -/
def Result.holds (r : Result) : List Resource :=
  match r.vp with
  | some vp => [.vnodeRef vp.slot, .vnodeLock vp.slot]
  | none => []

/-- The run returns, and holds the vnode it returns and nothing else of its own. -/
def Balanced (held : List Resource) (found : Bool)
    (out : Except (Fault Resource) (Result × List Resource)) : Prop :=
  ∃ r held', out = .ok (r, held') ∧ held'.Perm (r.holds ++ held) ∧ r.vp.isSome = found

/-- The run fails, or it returns `NULL` and the lock of a vnode from `get_free_vnode` is left. -/
def Broken (ls : List Level) (held : List Resource)
    (out : Except (Fault Resource) (Result × List Resource)) : Prop :=
  (∃ e, e ≠ .unfinished ∧ out = .error e) ∨
    ∃ l ∈ ls, ∃ errCode vp, l.freeVnode = .ok vp ∧
      out = .ok (⟨errCode, none⟩, .vnodeLock vp.slot :: held)

section Ends

variable {ls : List Level} {out : Except (Fault Resource) (Result × List Resource)} {found : Bool}

theorem Broken.not_balanced (h : Broken ls held out) : ¬ Balanced held found out := by
  rintro ⟨r, held', hok, hperm, -⟩
  rcases h with ⟨e, -, he⟩ | ⟨l, -, errCode, vp, -, hleak⟩
  · rw [he] at hok
    exact absurd hok (by simp)
  · rw [hleak] at hok
    cases hok
    have hlength := hperm.length_eq
    simp [Result.holds] at hlength

theorem Broken.ne_unfinished (h : Broken ls held out) : out ≠ .error .unfinished := by
  rcases h with ⟨e, hne, he⟩ | ⟨l, -, errCode, vp, -, hleak⟩
  · rw [he]
    intro heq
    exact hne (Except.error.inj heq)
  · rw [hleak]
    simp

theorem Balanced.ne_unfinished (h : Balanced held found out) : out ≠ .error .unfinished := by
  rcases h with ⟨r, held', hok, -, -⟩
  rw [hok]
  simp

theorem Broken.cons (h : Broken ls held out) (l : Level) : Broken (l :: ls) held out := by
  rcases h with hfails | ⟨l', hl', hleak⟩
  · exact Or.inl hfails
  · exact Or.inr ⟨l', List.mem_cons_of_mem _ hl', hleak⟩

end Ends

/-! ## Making the entry -/

section Entry

variable {l : Level} {f : Found} {again : Holding Resource Result}

/-- The link is read, or it is not there any more. -/
theorem readSymlink_none (hl : l.Sane) (hf : l.lastDir = .ok f) {vp : Node} (hvp : l.freeVnode = .ok vp)
    (hlink : ¬ l.LinkLost) (h : RefsOnly held) :
    readSymlink l ⟨f.node, true, some f.vmnt⟩ (.vnodeLock vp.slot :: .vnodeRef f.node.slot ::
        .vnodeLock f.node.slot :: .vmntLock f.vmnt :: held) =
      .ok (none, .vnodeLock vp.slot :: .vnodeRef f.node.slot :: .vnodeLock f.node.slot ::
        .vmntLock f.vmnt :: held) := by
  unfold readSymlink
  cases hs : l.link with
  | error e => simp [lookup_error]
  | ok s =>
      rcases hl.link f s hf hs with ⟨hvmnt, hslot⟩
      have hfresh := hl.linkFresh vp s hvp hs
      have hread : ¬ (s.node.type = S_IFLNK ∧ l.reqRdlink < 0) := by
        rintro ⟨htype, hneg⟩
        exact hlink ⟨s, hs, htype, hneg⟩
      simp [lookup, tryHold, hvmnt, hslot, hfresh, h.vnodeLock, hread, unlockVnode, putVnode, release]

/-- The lock of the free vnode is not given back. -/
theorem readSymlink_lost (hl : l.Sane) (hf : l.lastDir = .ok f) {vp : Node}
    (hvp : l.freeVnode = .ok vp) (hlink : l.LinkLost) (h : RefsOnly held) :
    readSymlink l ⟨f.node, true, some f.vmnt⟩ (.vnodeLock vp.slot :: .vnodeRef f.node.slot ::
        .vnodeLock f.node.slot :: .vmntLock f.vmnt :: held) =
      .ok (some ⟨l.reqRdlink, none⟩, .vnodeLock vp.slot :: held) := by
  rcases hlink with ⟨s, hs, htype, hneg⟩
  rcases hl.link f s hf hs with ⟨hvmnt, hslot⟩
  have hfresh := hl.linkFresh vp s hvp hs
  have hvp' : vp.slot ≠ f.node.slot := hl.fresh f vp hf hvp
  unfold readSymlink
  rw [hs]
  simp [lookup, tryHold, hvmnt, hslot, hfresh, hvp', h.vnodeLock, htype, hneg, unlockVnode, unlockVmnt,
    putVnode, release]

theorem makeEntry_full {e : ErrCode} (hvp : l.freeVnode = .error e) : Balanced held false
    (makeEntry l ⟨f.node, true, some f.vmnt⟩ again
      (.vnodeRef f.node.slot :: .vnodeLock f.node.slot :: .vmntLock f.vmnt :: held)) := by
  refine ⟨⟨e.1, none⟩, held, ?_, List.Perm.refl _, rfl⟩
  simp [makeEntry, hvp, leave_dir]

theorem makeEntry_made {vp : Node} (hvp : l.freeVnode = .ok vp) (hslot : vp.slot ≠ f.node.slot)
    (hcreated : l.created = OK) : Balanced held true
    (makeEntry l ⟨f.node, true, some f.vmnt⟩ again
      (.vnodeRef f.node.slot :: .vnodeLock f.node.slot :: .vmntLock f.vmnt :: held)) := by
  refine ⟨⟨OK, some vp⟩, .vnodeRef vp.slot :: .vnodeLock vp.slot :: held, ?_, List.Perm.refl _, rfl⟩
  simp [makeEntry, hvp, hcreated, finish_other f OK hslot]

theorem makeEntry_refused {vp : Node} (hvp : l.freeVnode = .ok vp) (hslot : vp.slot ≠ f.node.slot)
    (hcreated : l.created ≠ OK) (hexist : l.created ≠ EEXIST) : Balanced held false
    (makeEntry l ⟨f.node, true, some f.vmnt⟩ again
      (.vnodeRef f.node.slot :: .vnodeLock f.node.slot :: .vmntLock f.vmnt :: held)) := by
  refine ⟨⟨l.created, none⟩, held, ?_, List.Perm.refl _, rfl⟩
  simp [makeEntry, hvp, hcreated, hexist, hslot, unlockVnode, unlockVmnt, putVnode, release]

theorem makeEntry_lost (hl : l.Sane) (hf : l.lastDir = .ok f) {vp : Node} (hvp : l.freeVnode = .ok vp)
    (hcreated : l.created ≠ OK) (hexist : l.created = EEXIST) (hlink : l.LinkLost) (h : RefsOnly held)
    (ls : List Level) : Broken (l :: ls) held (makeEntry l ⟨f.node, true, some f.vmnt⟩ again
      (.vnodeRef f.node.slot :: .vnodeLock f.node.slot :: .vmntLock f.vmnt :: held)) := by
  refine Or.inr ⟨l, List.mem_cons_self .., l.reqRdlink, vp, hvp, ?_⟩
  rw [hexist] at hcreated
  simp [makeEntry, hvp, hexist, hcreated, readSymlink_lost hl hf hvp hlink h]

section Retry

variable (hl : l.Sane) (hf : l.lastDir = .ok f) {vp : Node} (hvp : l.freeVnode = .ok vp)
  (hcreated : l.created ≠ OK) (hexist : l.created = EEXIST) (hlink : ¬ l.LinkLost) (h : RefsOnly held)

include hl hf hvp hcreated hexist hlink h

theorem makeEntry_retry_error {e : Fault Resource}
    (hagain : again (.vnodeRef f.node.slot :: held) = .error e) :
    makeEntry l ⟨f.node, true, some f.vmnt⟩ again
      (.vnodeRef f.node.slot :: .vnodeLock f.node.slot :: .vmntLock f.vmnt :: held) = .error e := by
  have hslot := hl.fresh f vp hf hvp
  have hread := readSymlink_none hl hf hvp hlink h
  rw [hexist] at hcreated
  simp [makeEntry, hvp, hexist, hcreated, hread, hslot, hagain, unlockVnode, unlockVmnt, release]

theorem makeEntry_retry_null {errCode : Int} {held' : List Resource}
    (hagain : again (.vnodeRef f.node.slot :: held) = .ok (⟨errCode, none⟩, held'))
    (hheld : Resource.vmntLock f.vmnt ∉ held') :
    makeEntry l ⟨f.node, true, some f.vmnt⟩ again
        (.vnodeRef f.node.slot :: .vnodeLock f.node.slot :: .vmntLock f.vmnt :: held) =
      .error (.notHeld (.vmntLock f.vmnt)) := by
  have hslot := hl.fresh f vp hf hvp
  have hread := readSymlink_none hl hf hvp hlink h
  rw [hexist] at hcreated
  simp [makeEntry, hvp, hexist, hcreated, hread, hslot, hagain, hheld, unlockVnode, unlockVmnt, release]

theorem makeEntry_retry_found {r : Result} {vp' : Node} {held' : List Resource} (hr : r.vp = some vp')
    (hagain : again (.vnodeRef f.node.slot :: held) = .ok (r, held'))
    (hheld : Resource.vnodeRef f.node.slot ∈ held') :
    makeEntry l ⟨f.node, true, some f.vmnt⟩ again
        (.vnodeRef f.node.slot :: .vnodeLock f.node.slot :: .vmntLock f.vmnt :: held) =
      .ok (r, held'.erase (.vnodeRef f.node.slot)) := by
  have hslot := hl.fresh f vp hf hvp
  have hread := readSymlink_none hl hf hvp hlink h
  rw [hexist] at hcreated
  simp [makeEntry, hvp, hexist, hcreated, hread, hslot, hagain, hr, hheld, unlockVnode, unlockVmnt,
    putVnode, release]

theorem makeEntry_retry_balanced
    (hagain : Balanced (.vnodeRef f.node.slot :: held) true (again (.vnodeRef f.node.slot :: held))) :
    Balanced held true (makeEntry l ⟨f.node, true, some f.vmnt⟩ again
      (.vnodeRef f.node.slot :: .vnodeLock f.node.slot :: .vmntLock f.vmnt :: held)) := by
  rcases hagain with ⟨r, held', hok, hperm, hsome⟩
  rcases Option.isSome_iff_exists.1 hsome with ⟨vp', hr⟩
  have hmem : Resource.vnodeRef f.node.slot ∈ held' := by
    refine hperm.mem_iff.2 (List.mem_append_right _ ?_)
    exact List.mem_cons_self ..
  refine ⟨r, _, makeEntry_retry_found hl hf hvp hcreated hexist hlink h hr hok hmem, ?_, hsome⟩
  -- The reference to the directory is given back.
  have herase := hperm.erase (Resource.vnodeRef f.node.slot)
  have hmiddle : (r.holds ++ Resource.vnodeRef f.node.slot :: held).Perm
      (Resource.vnodeRef f.node.slot :: (r.holds ++ held)) := List.perm_middle
  have htail := hmiddle.erase (Resource.vnodeRef f.node.slot)
  rw [List.erase_cons_head] at htail
  exact herase.trans htail

theorem makeEntry_retry_broken (ls : List Level)
    (hagain : Balanced (.vnodeRef f.node.slot :: held) false (again (.vnodeRef f.node.slot :: held)) ∨
      Broken ls (.vnodeRef f.node.slot :: held) (again (.vnodeRef f.node.slot :: held))) :
    Broken (l :: ls) held (makeEntry l ⟨f.node, true, some f.vmnt⟩ again
      (.vnodeRef f.node.slot :: .vnodeLock f.node.slot :: .vmntLock f.vmnt :: held)) := by
  have hvmnt : Resource.vmntLock f.vmnt ∉ Resource.vnodeRef f.node.slot :: held :=
    (h.cons f.node.slot).vmntLock f.vmnt
  have hnotHeld : Fault.notHeld (Resource.vmntLock f.vmnt) ≠ .unfinished := by simp
  rcases hagain with ⟨r, held', hok, hperm, hnone⟩ | ⟨e, hne, he⟩ | ⟨l', -, errCode, vp', -, hleak⟩
  · rcases r with ⟨errCode, vp'⟩
    have hvp' : vp' = none := by simpa using hnone
    subst hvp'
    refine Or.inl ⟨_, hnotHeld, makeEntry_retry_null hl hf hvp hcreated hexist hlink h hok ?_⟩
    intro hmem
    exact hvmnt (hperm.mem_iff.1 hmem)
  · exact Or.inl ⟨e, hne, makeEntry_retry_error hl hf hvp hcreated hexist hlink h he⟩
  · refine Or.inl ⟨_, hnotHeld, makeEntry_retry_null hl hf hvp hcreated hexist hlink h hleak ?_⟩
    intro hmem
    rcases List.mem_cons.1 hmem with heq | hmem'
    · exact absurd heq (by simp)
    · exact hvmnt hmem'

end Retry

end Entry

/-! ## Whole runs -/

/-- How a run of `new_node` comes out. -/
def ComesOut (ls : List Level) (held : List Resource) : Prop :=
  (Good ls → Balanced held (returnsNode ls) (newNode ls held)) ∧
    (RunsOut ls → newNode ls held = .error .unfinished) ∧
    (¬ Good ls → ¬ RunsOut ls → Broken ls held (newNode ls held))

section Levels

variable {l : Level} {ls : List Level} {f : Found}

theorem good_found_iff (ls : List Level) {v : Found} (hf : l.lastDir = .ok f) (hv : l.advance = .ok v) :
    Good (l :: ls) ↔ v.vmnt = f.vmnt ∧
      (l.absolute = true → v.node.slot ≠ f.node.slot ∧ Good ls) := by
  constructor
  · intro hgood
    rcases hgood f hf with ⟨hadvance, habsolute, -⟩
    exact ⟨(hadvance v hv).1, fun habs => ⟨(hadvance v hv).2 habs, habsolute habs⟩⟩
  · rintro ⟨hvmnt, habsolute⟩ f' hf'
    rw [hf] at hf'
    cases hf'
    refine ⟨?_, fun habs => (habsolute habs).2, ?_⟩
    · intro v' hv'
      rw [hv] at hv'
      cases hv'
      exact ⟨hvmnt, fun habs => (habsolute habs).1⟩
    · intro e vp _ hadvance
      rw [hv] at hadvance
      exact absurd hadvance (by simp)

theorem good_missing_iff (ls : List Level) {e : ErrCode} (hf : l.lastDir = .ok f)
    (he : l.advance = .error e) :
    Good (l :: ls) ↔ (l.absolute = true → Good ls) ∧
      ∀ vp, l.absolute = false → e.1 = ENOENT → l.freeVnode = .ok vp → l.created ≠ OK →
        l.created = EEXIST → ¬ l.LinkLost ∧ Good ls ∧ returnsNode ls = true := by
  constructor
  · intro hgood
    rcases hgood f hf with ⟨-, habsolute, hentry⟩
    exact ⟨habsolute, fun vp habs hnoent => hentry e vp habs he hnoent⟩
  · rintro ⟨habsolute, hentry⟩ f' hf'
    rw [hf] at hf'
    cases hf'
    refine ⟨?_, habsolute, ?_⟩
    · intro v hv
      rw [he] at hv
      exact absurd hv (by simp)
    · intro e' vp habs he' hnoent
      rw [he] at he'
      cases he'
      exact hentry vp habs hnoent

theorem runsOut_found_iff (ls : List Level) {v : Found} (hf : l.lastDir = .ok f)
    (hv : l.advance = .ok v) :
    RunsOut (l :: ls) ↔
      RunsOut ls ∧ l.absolute = true ∧ v.vmnt = f.vmnt ∧ v.node.slot ≠ f.node.slot := by
  constructor
  · rintro ⟨hnext, f', hf', ⟨habs, hadvance⟩ | ⟨-, e, vp, he, -⟩⟩
    · rw [hf] at hf'
      cases hf'
      exact ⟨hnext, habs, hadvance v hv⟩
    · rw [hv] at he
      cases he
  · rintro ⟨hnext, habs, hfound⟩
    refine ⟨hnext, f, hf, Or.inl ⟨habs, ?_⟩⟩
    intro v' hv'
    rw [hv] at hv'
    cases hv'
    exact hfound

theorem runsOut_missing_iff (ls : List Level) {e : ErrCode} (hf : l.lastDir = .ok f)
    (he : l.advance = .error e) :
    RunsOut (l :: ls) ↔ RunsOut ls ∧ (l.absolute = true ∨ l.absolute = false ∧ e.1 = ENOENT ∧
      ∃ vp, l.freeVnode = .ok vp ∧ l.created ≠ OK ∧ l.created = EEXIST ∧ ¬ l.LinkLost) := by
  constructor
  · rintro ⟨hnext, f', hf', ⟨habs, -⟩ | ⟨habs, e', vp, he', hnoent, hentry⟩⟩
    · exact ⟨hnext, Or.inl habs⟩
    · rw [he] at he'
      cases he'
      exact ⟨hnext, Or.inr ⟨habs, hnoent, vp, hentry⟩⟩
  · rintro ⟨hnext, habs | ⟨habs, hnoent, vp, hentry⟩⟩
    · refine ⟨hnext, f, hf, Or.inl ⟨habs, ?_⟩⟩
      intro v hv
      rw [he] at hv
      cases hv
    · exact ⟨hnext, f, hf, Or.inr ⟨habs, e, vp, he, hnoent, hentry⟩⟩

theorem Good.not_runsOut : ∀ {ls : List Level}, Good ls → ¬ RunsOut ls
  | [], hgood => hgood.elim
  | l :: ls, hgood => by
      rintro ⟨hnext, f, hf, ⟨habs, -⟩ | ⟨habs, e, vp, he, hnoent, hvp, hcreated, hexist, -⟩⟩
      · exact Good.not_runsOut ((hgood f hf).2.1 habs) hnext
      · exact Good.not_runsOut ((hgood f hf).2.2 e vp habs he hnoent hvp hcreated hexist).2.1 hnext

theorem comesOut_balanced (hgood : Good ls) (hout : Balanced held (returnsNode ls) (newNode ls held)) :
    ComesOut ls held :=
  ⟨fun _ => hout, fun hruns => absurd hruns hgood.not_runsOut, fun hbad => absurd hgood hbad⟩

theorem comesOut_broken (hbad : ¬ Good ls) (hruns : ¬ RunsOut ls)
    (hout : Broken ls held (newNode ls held)) : ComesOut ls held :=
  ⟨fun hgood => absurd hgood hbad, fun h => absurd h hruns, fun _ _ => hout⟩

/-- Start again: the level leaves nothing behind. -/
theorem comesOut_again (hls : ComesOut ls held) (hrun : newNode (l :: ls) held = newNode ls held)
    (hreturns : returnsNode (l :: ls) = returnsNode ls) (hgood : Good (l :: ls) ↔ Good ls)
    (hruns : RunsOut (l :: ls) ↔ RunsOut ls) : ComesOut (l :: ls) held := by
  unfold ComesOut
  rw [hrun, hreturns, hgood, hruns]
  exact ⟨hls.1, hls.2.1, fun hbad hends => (hls.2.2 hbad hends).cons l⟩

/-- The last component is there. -/
theorem comesOut_found {v : Found} (hf : l.lastDir = .ok f) (hv : l.advance = .ok v) (h : RefsOnly held)
    (hls : ComesOut ls held) : ComesOut (l :: ls) held := by
  have hiff := good_found_iff ls hf hv
  have hruns := runsOut_found_iff ls hf hv
  by_cases hvmnt : v.vmnt = f.vmnt
  · cases habs : l.absolute with
    | true =>
        by_cases hslot : v.node.slot = f.node.slot
        · -- The lock of the directory is given back twice.
          refine comesOut_broken (fun hgood => ((hiff.1 hgood).2 habs).1 hslot)
            (fun hgoes => (hruns.1 hgoes).2.2.2 hslot)
            (Or.inl ⟨.notHeld (.vnodeLock f.node.slot), by simp, ?_⟩)
          simp [newNode, hf, hv, lookup_dir h, lookup_self f v hvmnt hslot, habs, leave, unlockVnode,
            unlockVmnt, putVnode, release, hslot, h.vnodeLock]
        · refine comesOut_again hls ?_ ?_ ?_ ?_
          · have hslot' : f.node.slot ≠ v.node.slot := Ne.symm hslot
            simp [newNode, hf, hv, lookup_dir h, lookup_other f v hvmnt hslot h, habs, leave, unlockVnode,
              unlockVmnt, putVnode, release, hslot, hslot']
          · simp [returnsNode, hf, habs]
          · rw [hiff]
            exact ⟨fun hgood => (hgood.2 habs).2, fun hgood => ⟨hvmnt, fun _ => ⟨hslot, hgood⟩⟩⟩
          · rw [hruns]
            exact ⟨fun hgoes => hgoes.1, fun hgoes => ⟨hgoes, habs, hvmnt, hslot⟩⟩
    | false =>
        have hreturns : returnsNode (l :: ls) = true := by
          simp [returnsNode, hf, habs, hv]
        refine comesOut_balanced (hiff.2 ⟨hvmnt, fun htrue => ?_⟩) ?_
        · rw [habs] at htrue
          exact absurd htrue (by decide)
        · rw [hreturns]
          by_cases hslot : v.node.slot = f.node.slot
          · refine ⟨⟨EEXIST, some v.node⟩, .vnodeRef f.node.slot :: .vnodeLock f.node.slot :: held, ?_, ?_,
              rfl⟩
            · simp [newNode, hf, hv, lookup_dir h, lookup_self f v hvmnt hslot, habs,
                finish_self f EEXIST hslot]
            · simp [Result.holds, hslot]
          · refine ⟨⟨EEXIST, some v.node⟩, .vnodeRef v.node.slot :: .vnodeLock v.node.slot :: held, ?_,
              List.Perm.refl _, rfl⟩
            simp [newNode, hf, hv, lookup_dir h, lookup_other f v hvmnt hslot h, habs,
              finish_other f EEXIST hslot]
  · rcases lookup_elsewhere f v hvmnt h with ⟨locked, held', hlookup⟩
    refine comesOut_broken (fun hgood => hvmnt (hiff.1 hgood).1)
      (fun hgoes => hvmnt (hruns.1 hgoes).2.2.1) (Or.inl ⟨.assertion, by simp, ?_⟩)
    simp [newNode, hf, hv, lookup_dir h, hlookup]

/-- Another file has been made in the meantime. -/
theorem comesOut_retry {e : ErrCode} {vp : Node} (hl : l.Sane) (hf : l.lastDir = .ok f)
    (he : l.advance = .error e) (habs : l.absolute = false) (hnoent : e.1 = ENOENT) (h : RefsOnly held)
    (hvp : l.freeVnode = .ok vp) (hcreated : l.created ≠ OK) (hexist : l.created = EEXIST)
    (hls : ComesOut ls (.vnodeRef f.node.slot :: held)) : ComesOut (l :: ls) held := by
  have hiff := good_missing_iff ls hf he
  have hruns := runsOut_missing_iff ls hf he
  have hrun : newNode (l :: ls) held = makeEntry l ⟨f.node, true, some f.vmnt⟩ (newNode ls)
      (.vnodeRef f.node.slot :: .vnodeLock f.node.slot :: .vmntLock f.vmnt :: held) := by
    simp [newNode, hf, he, lookup_dir h, lookup_error, habs, hnoent]
  have hreturns : returnsNode (l :: ls) = returnsNode ls := by
    have hne : ¬ EEXIST = OK := by decide
    simp [returnsNode, hf, habs, he, hnoent, hvp, hexist, hne]
  refine ⟨?_, ?_, ?_⟩
  · intro hgood
    rcases (hiff.1 hgood).2 vp habs hnoent hvp hcreated hexist with ⟨hlink, hnext, hfound⟩
    have hagain := hls.1 hnext
    rw [hreturns, hrun]
    rw [hfound] at hagain ⊢
    exact makeEntry_retry_balanced hl hf hvp hcreated hexist hlink h hagain
  · intro hgoes
    rcases hruns.1 hgoes with ⟨hnext, htrue | ⟨-, -, -, -, -, -, hlink⟩⟩
    · rw [habs] at htrue
      exact absurd htrue (by decide)
    · rw [hrun]
      exact makeEntry_retry_error hl hf hvp hcreated hexist hlink h (hls.2.1 hnext)
  · intro hbad hends
    rw [hrun]
    by_cases hlink : l.LinkLost
    · exact makeEntry_lost hl hf hvp hcreated hexist hlink h ls
    · refine makeEntry_retry_broken hl hf hvp hcreated hexist hlink h ls ?_
      by_cases hnext : Good ls
      · refine Or.inl ?_
        have hagain := hls.1 hnext
        cases hfound : returnsNode ls with
        | false =>
            rw [hfound] at hagain
            exact hagain
        | true =>
            exfalso
            refine hbad (hiff.2 ⟨fun _ => hnext, ?_⟩)
            exact fun _ _ _ _ _ _ => ⟨hlink, hnext, hfound⟩
      · refine Or.inr (hls.2.2 hnext fun hgoes => hends (hruns.2 ⟨hgoes, Or.inr ?_⟩))
        exact ⟨habs, hnoent, vp, hvp, hcreated, hexist, hlink⟩

/-- The last component is not there, and the path is not absolute. -/
theorem comesOut_entry {e : ErrCode} (hl : l.Sane) (hf : l.lastDir = .ok f) (he : l.advance = .error e)
    (habs : l.absolute = false) (hnoent : e.1 = ENOENT) (h : RefsOnly held)
    (hls : ComesOut ls (.vnodeRef f.node.slot :: held)) : ComesOut (l :: ls) held := by
  have hiff := good_missing_iff ls hf he
  have hrun : newNode (l :: ls) held = makeEntry l ⟨f.node, true, some f.vmnt⟩ (newNode ls)
      (.vnodeRef f.node.slot :: .vnodeLock f.node.slot :: .vmntLock f.vmnt :: held) := by
    simp [newNode, hf, he, lookup_dir h, lookup_error, habs, hnoent]
  -- Where the recursion is not needed, the level is good.
  have hgood_of : (∀ vp, l.freeVnode = .ok vp → l.created ≠ OK → l.created ≠ EEXIST) → Good (l :: ls) := by
    intro hnever
    refine hiff.2 ⟨?_, ?_⟩
    · intro htrue
      rw [habs] at htrue
      exact absurd htrue (by decide)
    · intro vp _ _ hvp hcreated hexist
      exact absurd hexist (hnever vp hvp hcreated)
  cases hvp : l.freeVnode with
  | error e' =>
      have hreturns : returnsNode (l :: ls) = false := by
        simp [returnsNode, hf, habs, he, hnoent, hvp]
      refine comesOut_balanced (hgood_of ?_) ?_
      · intro vp hok
        rw [hvp] at hok
        exact absurd hok (by simp)
      · rw [hreturns, hrun]
        exact makeEntry_full hvp
  | ok vp =>
      have hslot := hl.fresh f vp hf hvp
      by_cases hcreated : l.created = OK
      · have hreturns : returnsNode (l :: ls) = true := by
          simp [returnsNode, hf, habs, he, hnoent, hvp, hcreated]
        refine comesOut_balanced (hgood_of ?_) ?_
        · intro _ _ hne
          exact absurd hcreated hne
        · rw [hreturns, hrun]
          exact makeEntry_made hvp hslot hcreated
      · by_cases hexist : l.created = EEXIST
        · exact comesOut_retry hl hf he habs hnoent h hvp hcreated hexist hls
        · have hreturns : returnsNode (l :: ls) = false := by
            simp [returnsNode, hf, habs, he, hnoent, hvp, hcreated, hexist]
          refine comesOut_balanced (hgood_of fun _ _ _ => hexist) ?_
          rw [hreturns, hrun]
          exact makeEntry_refused hvp hslot hcreated hexist

/-- The last component is not there, and there is some other problem. -/
theorem comesOut_problem {e : ErrCode} (hf : l.lastDir = .ok f) (he : l.advance = .error e)
    (habs : l.absolute = false) (hnoent : e.1 ≠ ENOENT) (h : RefsOnly held) : ComesOut (l :: ls) held := by
  have hiff := good_missing_iff ls hf he
  have hreturns : returnsNode (l :: ls) = false := by
    simp [returnsNode, hf, habs, he, hnoent]
  refine comesOut_balanced (hiff.2 ⟨fun htrue => ?_, fun _ _ hno => absurd hno hnoent⟩) ?_
  · rw [habs] at htrue
    exact absurd htrue (by decide)
  · rw [hreturns]
    refine ⟨⟨e.1, none⟩, held, ?_, List.Perm.refl _, rfl⟩
    simp [newNode, hf, he, lookup_dir h, lookup_error, habs, hnoent, finish_none]

end Levels

theorem newNode_comesOut : ∀ (ls : List Level), (∀ l ∈ ls, l.Sane) → ∀ (held : List Resource),
    RefsOnly held → ComesOut ls held
  | [], _, held, _ =>
      ⟨fun hgood => hgood.elim, fun _ => rfl, fun _ hends => absurd trivial hends⟩
  | l :: ls, hsane, held, h => by
      have hl := hsane l (List.mem_cons_self ..)
      have hls := newNode_comesOut ls (fun l' hl' => hsane l' (List.mem_cons_of_mem _ hl'))
      cases hf : l.lastDir with
      | error e =>
          have hreturns : returnsNode (l :: ls) = false := by
            simp [returnsNode, hf]
          refine comesOut_balanced (fun f hok => ?_) ?_
          · rw [hf] at hok
            exact absurd hok (by simp)
          · rw [hreturns]
            refine ⟨⟨e.1, none⟩, held, ?_, List.Perm.refl _, rfl⟩
            simp [newNode, hf, lookup_error]
      | ok f =>
          cases he : l.advance with
          | ok v => exact comesOut_found hf he h (hls held h)
          | error e =>
              cases habs : l.absolute with
              | true =>
                  refine comesOut_again (hls held h) ?_ ?_ ?_ ?_
                  · simp [newNode, hf, he, lookup_dir h, lookup_error, habs, leave_dir]
                  · simp [returnsNode, hf, habs]
                  · rw [good_missing_iff ls hf he]
                    refine ⟨fun hgood => hgood.1 habs, fun hgood => ⟨fun _ => hgood, ?_⟩⟩
                    intro vp hfalse
                    rw [habs] at hfalse
                    exact absurd hfalse (by decide)
                  · rw [runsOut_missing_iff ls hf he]
                    exact ⟨fun hgoes => hgoes.1, fun hgoes => ⟨hgoes, Or.inl habs⟩⟩
              | false =>
                  by_cases hnoent : e.1 = ENOENT
                  · exact comesOut_entry hl hf he habs hnoent h (hls _ (h.cons f.node.slot))
                  · exact comesOut_problem hf he habs hnoent h

/-- **Locks and references of `new_node`.**  Whatever the lookups and the server bring, over any number
of symbolic links, the function holds exactly the vnode it returns if and only if the run is good.
Otherwise it fails, or the lock of a free vnode stays behind, unless the recursion has not ended. -/
theorem new_node_clean_iff (ls : List Level) (held : List Resource) (hsane : ∀ l ∈ ls, l.Sane)
    (hheld : RefsOnly held) :
    (Balanced held (returnsNode ls) (newNode ls held) ↔ Good ls) ∧
      (newNode ls held = .error .unfinished ↔ RunsOut ls) ∧
      (Broken ls held (newNode ls held) ↔ ¬ Good ls ∧ ¬ RunsOut ls) := by
  rcases newNode_comesOut ls hsane held hheld with ⟨hgood, hruns, hbad⟩
  by_cases hg : Good ls
  · have hbalanced := hgood hg
    exact ⟨iff_of_true hbalanced hg, iff_of_false hbalanced.ne_unfinished hg.not_runsOut,
      iff_of_false (fun hbroken => hbroken.not_balanced hbalanced) fun hnot => hnot.1 hg⟩
  · by_cases hr : RunsOut ls
    · have hend := hruns hr
      exact ⟨iff_of_false (fun hbalanced => hbalanced.ne_unfinished hend) hg, iff_of_true hend hr,
        iff_of_false (fun hbroken => hbroken.ne_unfinished hend) fun hnot => hnot.2 hr⟩
    · have hbroken := hbad hg hr
      exact ⟨iff_of_false hbroken.not_balanced hg, iff_of_false hbroken.ne_unfinished hr,
        iff_of_true hbroken ⟨hg, hr⟩⟩

/-! ## A dangling symbolic link -/

def linkNode : Found :=
  { node := { slot := 2, v_mode := S_IFLNK, v_uid := 0, v_fs_e := 5, v_inode_nr := 7 }, vmnt := 0 }

def freeNode : Node :=
  { slot := 3, v_mode := 0, v_uid := 0, v_fs_e := 0, v_inode_nr := 0 }

/-- The name is a link to a file that does not exist. -/
def danglingLevel : Level where
  lastDir := .ok homeDir
  advance := .error noEntry
  absolute := false
  freeVnode := .ok freeNode
  forbidden := OK
  reqCreate := EEXIST
  link := .ok linkNode
  reqRdlink := 4

/-- The file that the link leads to is made. -/
def creatingLevel : Level :=
  { danglingLevel with reqCreate := OK }

/-- The file that the link leads to may not be made. -/
def refusedLevel : Level :=
  { danglingLevel with reqCreate := EPERM }

theorem sane_of_eq {l : Level} (hf : l.lastDir = .ok homeDir) (hs : l.link = .ok linkNode)
    (hvp : l.freeVnode = .ok freeNode) : l.Sane := by
  refine ⟨?_, ?_, ?_⟩
  · intro f vp hf' hvp'
    rw [hf] at hf'
    rw [hvp] at hvp'
    cases hf'
    cases hvp'
    decide
  · intro f s hf' hs'
    rw [hf] at hf'
    rw [hs] at hs'
    cases hf'
    cases hs'
    decide
  · intro vp s hvp' hs'
    rw [hvp] at hvp'
    rw [hs] at hs'
    cases hvp'
    cases hs'
    decide

/-- The run through the link ends well, and the one in which the second file cannot be made does not. -/
theorem new_node_clean_iff_dangling :
    Balanced [] true (newNode [danglingLevel, creatingLevel] []) ∧
      Broken [danglingLevel, refusedLevel] [] (newNode [danglingLevel, refusedLevel] []) := by
  have hrefs : RefsOnly [] := by simp [RefsOnly]
  have hgood : Good [danglingLevel, creatingLevel] := by
    rw [good_missing_iff _ rfl rfl]
    refine ⟨fun h => absurd h (by decide), fun vp _ _ _ _ _ => ⟨?_, ?_, rfl⟩⟩
    · rintro ⟨s, -, -, hneg⟩
      exact absurd hneg (by decide)
    · rw [good_missing_iff _ rfl rfl]
      exact ⟨fun h => absurd h (by decide), fun vp _ _ _ hne => absurd rfl hne⟩
  have hbad : ¬ Good [danglingLevel, refusedLevel] := by
    intro hgood
    rw [good_missing_iff _ rfl rfl] at hgood
    have hfound := (hgood.2 freeNode rfl rfl rfl (by decide) rfl).2.2
    exact absurd hfound (by decide)
  have hends : ¬ RunsOut [danglingLevel, refusedLevel] := by
    rintro ⟨⟨-, f, -, ⟨habs, -⟩ | ⟨-, e, vp, -, -, -, -, hexist, -⟩⟩, -⟩
    · exact absurd habs (by decide)
    · exact absurd hexist (by decide)
  have hsane : ∀ l ∈ [danglingLevel, creatingLevel], l.Sane := by
    intro l hl
    rcases List.mem_pair.1 hl with rfl | rfl
    · exact sane_of_eq rfl rfl rfl
    · exact sane_of_eq rfl rfl rfl
  have hsane' : ∀ l ∈ [danglingLevel, refusedLevel], l.Sane := by
    intro l hl
    rcases List.mem_pair.1 hl with rfl | rfl
    · exact sane_of_eq rfl rfl rfl
    · exact sane_of_eq rfl rfl rfl
  exact ⟨(new_node_clean_iff _ [] hsane hrefs).1.2 hgood,
    (new_node_clean_iff _ [] hsane' hrefs).2.2.2 ⟨hbad, hends⟩⟩

end Create
end Vfs
end OsLab
