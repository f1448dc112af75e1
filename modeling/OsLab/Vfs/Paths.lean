import OsLab.Vfs.Lookups

/-!
# Paths — locks and references of the calls that take path names

`do_link`, `do_rename`, `do_truncate`, `do_slink`, `do_rdlink` and `rdlink_direct` of `vfs/link.c`, and
`do_mknod` and `do_mkdir` of `vfs/open.c`, as programs that take and give back locks and references.

* Lookups, permission checks and file system servers are code outside these files: `Calls` holds what
  they bring in one run, any outcome with any other.
* What a lookup locks is taken from its callers, as in the module on lookups: that a vnode which
  is locked already is not locked again holds for any two modes, also in `do_link`, where the first name
  locks for reading and the second for writing.
-/

namespace OsLab
namespace Vfs
namespace Paths

open OsLab.Lib
open OsLab.Lib.Holding
open OsLab.Mfs (OK EINVAL)
open Lookups

def ENAMETOOLONG : Int := -63
def EXDEV : Int := -18

def S_IFLNK : Nat := 0o120000
def S_IFSOCK : Nat := 0o140000

def PATH_MAX : Nat := 1024
def POSIX_SYMLINK_MAX : Nat := 255

/-! ## Calls -/

structure Calls where
  effuid : Nat
  /-- `fetch_name` or `copy_path`: an error, or none. -/
  fetchName1 : Option ErrCode
  fetchName2 : Option ErrCode
  /-- The lookup of the first name. -/
  first : Lookup
  /-- The lookup of the second name. -/
  second : Lookup
  /-- The lookup for the sticky bit. -/
  sticky : Lookup
  /-- The length of the last component of the first name. -/
  nameLength : Nat
  forbidden : Node → Int
  /-- The answer of the file system server. -/
  reply : Int

variable (c : Calls)

/-- The calls with one name: fetch it, look it up, do the work and leave. -/
def withNode (work : Node → Int) : Holding Resource Int :=
  match c.fetchName1 with
  | some e => pure e.1
  | none => do
      match ← lookup c.first with
      | .error e => return e.1
      | .ok vp =>
        let r := work vp.node
        leave vp
        return r

/-- `forbidden` first, and then the request. -/
def ifAllowed (vp : Node) : Int :=
  if c.forbidden vp = OK then c.reply else c.forbidden vp

def doTruncate (length vsize : Int) : Holding Resource Int :=
  if length < 0 then pure EINVAL
  else
    withNode c fun vp =>
      if c.forbidden vp = OK then
        if vp.type = S_IFREG ∧ vsize = length then OK
        else if vp.type ≠ S_IFIFO ∧ vp.type ≠ S_IFREG ∧ vp.type ≠ S_IFIMM then EINVAL
        else c.reply
      else c.forbidden vp

def doSlink (vname1Length : Nat) : Holding Resource Int :=
  if vname1Length ≤ 1 then pure ENOENT
  else if POSIX_SYMLINK_MAX ≤ vname1Length then pure ENAMETOOLONG
  else withNode c (ifAllowed c)

/-- The work of both readlink calls. -/
def readLink (vp : Node) : Int :=
  if vp.type ≠ S_IFLNK then EINVAL else c.reply

def doRdlink (bufSize : Nat) : Holding Resource Int :=
  if SSIZE_MAX < bufSize then pure EINVAL
  else withNode c (readLink c)

/-- `rdlink_direct`, which is given the path. -/
def rdlinkDirect : Holding Resource Int :=
  withNode { c with fetchName1 := none } (readLink c)

/-- The work of `do_mknod` and `do_mkdir`. -/
def makeNode (vp : Node) : Int :=
  if vp.type ≠ S_IFDIR then ENOTDIR else ifAllowed c vp

def doMknod (superUser : Bool) (modeBits : Nat) : Holding Resource Int :=
  if ¬ superUser ∧ modeBits &&& S_IFMT ≠ S_IFIFO ∧ modeBits &&& S_IFMT ≠ S_IFSOCK then pure EPERM
  else withNode c (makeNode c)

def doMkdir : Holding Resource Int :=
  withNode c (makeNode c)

def doLink : Holding Resource Int :=
  match c.fetchName1 with
  | some e => pure e.1
  | none => do
      match ← lookup c.first with
      | .error e => return e.1
      | .ok vp =>
        let found ← match c.fetchName2 with
          | some e => pure (.error e)
          | none => lookup c.second
        match found with
        | .error e =>
          leave vp
          return e.1
        | .ok dirp =>
          -- No links across devices.
          let r :=
            if vp.node.v_fs_e ≠ dirp.node.v_fs_e then EXDEV
            else ifAllowed c dirp.node
          unlockVnode vp.node
          unlockVnode dirp.node
          if dirp.vmp ≠ none then unlockVmnt dirp.vmp
          unlockVmnt vp.vmp
          putVnode vp.node
          putVnode dirp.node
          return r

/-- The end of `do_rename`: both directories are there. -/
def renameIn (oldDirp newDirp : Handle) : Holding Resource Int := do
  let r := if oldDirp.node.v_fs_e ≠ newDirp.node.v_fs_e then EXDEV else OK
  let r :=
    if c.forbidden oldDirp.node ≠ OK then c.forbidden oldDirp.node
    else if c.forbidden newDirp.node ≠ OK then c.forbidden newDirp.node
    else r
  let r := if r = OK then c.reply else r
  unlockVnode oldDirp.node
  unlockVmnt oldDirp.vmp
  if newDirp.locked then unlockVnode newDirp.node
  if newDirp.vmp ≠ none then unlockVmnt newDirp.vmp
  putVnode oldDirp.node
  putVnode newDirp.node
  return r

def doRename : Holding Resource Int :=
  match c.fetchName1 with
  | some e => pure e.1
  | none => do
      match ← lookup c.first with
      | .error e => return e.1
      | .ok oldDirp =>
        let r ← stickyCheck c.effuid c.sticky oldDirp
        if r ≠ OK then
          leave oldDirp
          return r
        else if PATH_MAX ≤ c.nameLength then
          leave oldDirp
          return ENAMETOOLONG
        else
          let found ← match c.fetchName2 with
            | some e => pure (.error e)
            | none => lookup c.second
          match found with
          | .error e =>
            leave oldDirp
            return e.1
          | .ok newDirp =>
            -- The lock of one directory is not taken twice.
            if newDirp.node.slot = oldDirp.node.slot ∧ newDirp.locked then fault .assertion
            else renameIn c oldDirp newDirp

/-! ## Nothing is left behind -/

/-- The program returns, and holds nothing afterwards. -/
def Clean (m : Holding Resource Int) : Prop :=
  ∃ r, m [] = .ok (r, [])

/-- The program fails: it unlocks a vnode that it has not locked, or an assertion does not hold. -/
def Fails (m : Holding Resource Int) : Prop :=
  (∃ slot, m [] = .error (.notHeld (.vnodeLock slot))) ∨ m [] = .error .assertion

theorem withNode_clean (c : Calls) (work : Node → Int) : Clean (withNode c work) := by
  unfold withNode Clean
  cases c.fetchName1 with
  | some e => exact ⟨e.1, rfl⟩
  | none =>
      cases c.first with
      | error e => exact ⟨e.1, rfl⟩
      | ok f =>
          refine ⟨work f.node, ?_⟩
          simp [lookup_fresh, leave_fresh]

/-- Two names for one vnode: then it is locked once and unlocked twice. -/
def SameVnode (c : Calls) : Prop :=
  ∃ f g, c.fetchName1 = none ∧ c.first = .ok f ∧ c.fetchName2 = none ∧ c.second = .ok g ∧
    g.node.slot = f.node.slot

theorem doLink_both (c : Calls) {f g : Found} (h₁ : c.fetchName1 = none) (hf : c.first = .ok f)
    (h₂ : c.fetchName2 = none) (hg : c.second = .ok g) :
    (g.node.slot = f.node.slot → Fails (doLink c)) ∧ (g.node.slot ≠ f.node.slot → Clean (doLink c)) := by
  unfold doLink Fails Clean
  rw [h₁, hf, h₂, hg]
  refine ⟨?_, ?_⟩
  · intro hslot
    refine Or.inl ⟨f.node.slot, ?_⟩
    by_cases hvmnt : g.vmnt = f.vmnt
    · simp [lookup_fresh, lookup_second, hslot, hvmnt, unlockVnode, release]
    · simp [lookup_fresh, lookup_second, hslot, hvmnt, unlockVnode, release]
  · intro hslot
    have hslot' : f.node.slot ≠ g.node.slot := Ne.symm hslot
    refine ⟨if f.node.v_fs_e ≠ g.node.v_fs_e then EXDEV else ifAllowed c g.node, ?_⟩
    by_cases hvmnt : g.vmnt = f.vmnt
    · simp [lookup_fresh, lookup_second, hslot, hslot', hvmnt, unlockVnode, unlockVmnt, putVnode, release]
    · simp [lookup_fresh, lookup_second, hslot, hslot', hvmnt, unlockVnode, unlockVmnt, putVnode, release]

theorem doLink_clean (c : Calls) (h : ¬ SameVnode c) : Clean (doLink c) := by
  cases h₁ : c.fetchName1 with
  | some e =>
      refine ⟨e.1, ?_⟩
      simp [doLink, h₁]
  | none =>
      cases hf : c.first with
      | error e =>
          refine ⟨e.1, ?_⟩
          simp [doLink, h₁, hf, lookup_error]
      | ok f =>
          cases h₂ : c.fetchName2 with
          | some e =>
              refine ⟨e.1, ?_⟩
              simp [doLink, h₁, hf, h₂, lookup_fresh, leave_fresh]
          | none =>
              cases hg : c.second with
              | error e =>
                  refine ⟨e.1, ?_⟩
                  simp [doLink, h₁, hf, h₂, hg, lookup_fresh, lookup_error, leave_fresh]
              | ok g =>
                  refine (doLink_both c h₁ hf h₂ hg).2 ?_
                  intro hslot
                  exact h ⟨f, g, h₁, hf, h₂, hg, hslot⟩

/-! ## do_rename -/

/-- The file whose owner is checked is the directory itself, or on another file system. -/
def StickyTrap (c : Calls) : Prop :=
  ∃ f v, c.fetchName1 = none ∧ c.first = .ok f ∧ f.node.v_mode &&& S_ISVTX = S_ISVTX ∧
    c.sticky = .ok v ∧ (v.vmnt ≠ f.vmnt ∨ v.node.slot = f.node.slot)

/-- What the check of the sticky bit returns. -/
def stickyResult (c : Calls) (f : Found) : Int :=
  if f.node.v_mode &&& S_ISVTX = S_ISVTX then
    match c.sticky with
    | .error e => e.1
    | .ok v => ownerCheck c.effuid v.node
  else OK

theorem stickyCheck_eq (c : Calls) {f : Found} (h₁ : c.fetchName1 = none) (hf : c.first = .ok f)
    (hsticky : ¬ StickyTrap c) :
    stickyCheck c.effuid c.sticky ⟨f.node, true, some f.vmnt⟩
        [.vnodeRef f.node.slot, .vnodeLock f.node.slot, .vmntLock f.vmnt] =
      .ok (stickyResult c f, [.vnodeRef f.node.slot, .vnodeLock f.node.slot, .vmntLock f.vmnt]) := by
  unfold stickyResult
  by_cases hbit : f.node.v_mode &&& S_ISVTX = S_ISVTX
  · rw [if_pos hbit]
    cases hv : c.sticky with
    | error e => exact stickyCheck_missing _ hbit rfl
    | ok v =>
        have hvmnt : v.vmnt = f.vmnt := by
          by_contra hne
          exact hsticky ⟨f, v, h₁, hf, hbit, hv, Or.inl hne⟩
        have hslot : v.node.slot ≠ f.node.slot := by
          intro heq
          exact hsticky ⟨f, v, h₁, hf, hbit, hv, Or.inr heq⟩
        exact stickyCheck_other hbit rfl hvmnt hslot
  · rw [if_neg hbit]
    exact stickyCheck_plain _ hbit

theorem renameIn_clean (c : Calls) (f g : Found) : ∃ r,
    renameIn c ⟨f.node, true, some f.vmnt⟩
        ⟨g.node, g.node.slot ≠ f.node.slot, if g.vmnt = f.vmnt then none else some g.vmnt⟩
        (.vnodeRef g.node.slot ::
          ((if g.node.slot = f.node.slot then [] else [.vnodeLock g.node.slot]) ++
            ((if g.vmnt = f.vmnt then [] else [.vmntLock g.vmnt]) ++
              [.vnodeRef f.node.slot, .vnodeLock f.node.slot, .vmntLock f.vmnt]))) = .ok (r, []) := by
  unfold renameIn
  by_cases hvmnt : g.vmnt = f.vmnt
  · by_cases hslot : g.node.slot = f.node.slot
    · simp [hvmnt, hslot, unlockVnode, unlockVmnt, putVnode, release]
    · have hslot' : f.node.slot ≠ g.node.slot := Ne.symm hslot
      simp [hvmnt, hslot, hslot', unlockVnode, unlockVmnt, putVnode, release]
  · have hvmnt' : f.vmnt ≠ g.vmnt := Ne.symm hvmnt
    by_cases hslot : g.node.slot = f.node.slot
    · simp [hvmnt, hvmnt', hslot, unlockVnode, unlockVmnt, putVnode, release]
    · have hslot' : f.node.slot ≠ g.node.slot := Ne.symm hslot
      simp [hvmnt, hvmnt', hslot, hslot', unlockVnode, unlockVmnt, putVnode, release]

theorem doRename_clean (c : Calls) (h : ¬ StickyTrap c) : Clean (doRename c) := by
  unfold Clean
  cases h₁ : c.fetchName1 with
  | some e =>
      refine ⟨e.1, ?_⟩
      simp [doRename, h₁]
  | none =>
      cases hf : c.first with
      | error e =>
          refine ⟨e.1, ?_⟩
          simp [doRename, h₁, hf, lookup_error]
      | ok f =>
          have hcheck := stickyCheck_eq c h₁ hf h
          by_cases hr : stickyResult c f = OK
          · by_cases hlength : PATH_MAX ≤ c.nameLength
            · refine ⟨ENAMETOOLONG, ?_⟩
              simp [doRename, h₁, hf, lookup_fresh, hcheck, hr, hlength, leave_fresh]
            · cases h₂ : c.fetchName2 with
              | some e =>
                  refine ⟨e.1, ?_⟩
                  simp [doRename, h₁, hf, lookup_fresh, hcheck, hr, hlength, h₂, leave_fresh]
              | none =>
                  cases hg : c.second with
                  | error e =>
                      refine ⟨e.1, ?_⟩
                      simp [doRename, h₁, hf, lookup_fresh, hcheck, hr, hlength, h₂, hg, lookup_error,
                        leave_fresh]
                  | ok g =>
                      rcases renameIn_clean c f g with ⟨r, hrename⟩
                      refine ⟨r, ?_⟩
                      simpa [doRename, h₁, hf, lookup_fresh, hcheck, hr, hlength, h₂, hg, lookup_second]
                        using hrename
          · refine ⟨stickyResult c f, ?_⟩
            simp [doRename, h₁, hf, lookup_fresh, hcheck, hr, leave_fresh]

/-- The rest of `do_rename` without the lock of the old directory. -/
theorem doRename_unlocked (c : Calls) {f : Found} {r : Int} (h₁ : c.fetchName1 = none)
    (hf : c.first = .ok f)
    (hcheck : stickyCheck c.effuid c.sticky ⟨f.node, true, some f.vmnt⟩
        [.vnodeRef f.node.slot, .vnodeLock f.node.slot, .vmntLock f.vmnt] =
      .ok (r, [.vnodeRef f.node.slot, .vmntLock f.vmnt])) : Fails (doRename c) := by
  unfold Fails
  by_cases hr : r = OK
  · by_cases hlength : PATH_MAX ≤ c.nameLength
    · refine Or.inl ⟨f.node.slot, ?_⟩
      simp [doRename, h₁, hf, lookup_fresh, hcheck, hr, hlength, leave_unlocked]
    · cases h₂ : c.fetchName2 with
      | some e =>
          refine Or.inl ⟨f.node.slot, ?_⟩
          simp [doRename, h₁, hf, lookup_fresh, hcheck, hr, hlength, h₂, leave_unlocked]
      | none =>
          cases hg : c.second with
          | error e =>
              refine Or.inl ⟨f.node.slot, ?_⟩
              simp [doRename, h₁, hf, lookup_fresh, hcheck, hr, hlength, h₂, hg, lookup_error,
                leave_unlocked]
          | ok g =>
              by_cases hslot : g.node.slot = f.node.slot
              · refine Or.inr ?_
                by_cases hvmnt : g.vmnt = f.vmnt
                · simp [doRename, h₁, hf, hcheck, hr, hlength, h₂, hg, lookup, tryHold, hslot,
                    hvmnt]
                · simp [doRename, h₁, hf, hcheck, hr, hlength, h₂, hg, lookup, tryHold, hslot,
                    hvmnt]
              · have hslot' : f.node.slot ≠ g.node.slot := Ne.symm hslot
                refine Or.inl ⟨f.node.slot, ?_⟩
                by_cases hvmnt : g.vmnt = f.vmnt
                · simp [doRename, h₁, hf, hcheck, hr, hlength, h₂, hg, lookup, tryHold, hslot,
                    hslot', hvmnt, renameIn, unlockVnode, release]
                · simp [doRename, h₁, hf, hcheck, hr, hlength, h₂, hg, lookup, tryHold, hslot,
                    hslot', hvmnt, renameIn, unlockVnode, release]
  · refine Or.inl ⟨f.node.slot, ?_⟩
    simp [doRename, h₁, hf, lookup_fresh, hcheck, hr, leave_unlocked]

theorem doRename_fails (c : Calls) (h : StickyTrap c) : Fails (doRename c) := by
  rcases h with ⟨f, v, h₁, hf, hbit, hv, htrap⟩
  by_cases hvmnt : v.vmnt = f.vmnt
  · have hslot : v.node.slot = f.node.slot := htrap.resolve_left (not_not.2 hvmnt)
    exact doRename_unlocked c h₁ hf (stickyCheck_self hbit hv hvmnt hslot)
  · have hcheck : stickyCheck c.effuid c.sticky ⟨f.node, true, some f.vmnt⟩
        [.vnodeRef f.node.slot, .vnodeLock f.node.slot, .vmntLock f.vmnt] = .error .assertion :=
      stickyCheck_elsewhere hbit hv hvmnt
    refine Or.inr ?_
    simp [doRename, h₁, hf, lookup_fresh, hcheck]

/-! ## All calls -/

/-- The calls with path names, with their other arguments. -/
inductive PathCall
  | link
  | rename
  | truncate (length vsize : Int)
  | slink (vname1Length : Nat)
  | rdlink (bufSize : Nat)
  | rdlinkDirect
  | mknod (superUser : Bool) (modeBits : Nat)
  | mkdir

def PathCall.run (c : Calls) : PathCall → Holding Resource Int
  | .link => doLink c
  | .rename => doRename c
  | .truncate length vsize => doTruncate c length vsize
  | .slink vname1Length => doSlink c vname1Length
  | .rdlink bufSize => doRdlink c bufSize
  | .rdlinkDirect => Paths.rdlinkDirect c
  | .mknod superUser modeBits => doMknod c superUser modeBits
  | .mkdir => doMkdir c

/-- A vnode that is found twice: by both names of `link`, or by the sticky check of `rename`. -/
def PathCall.Trap (c : Calls) : PathCall → Prop
  | .link => SameVnode c
  | .rename => StickyTrap c
  | _ => False

theorem pure_clean (r : Int) : Clean (pure r) :=
  ⟨r, rfl⟩

theorem clean_of_no_trap (c : Calls) (call : PathCall) (h : ¬ call.Trap c) : Clean (call.run c) := by
  cases call with
  | link => exact doLink_clean c h
  | rename => exact doRename_clean c h
  | truncate length vsize =>
      unfold PathCall.run doTruncate
      dsimp only
      split
      · exact pure_clean _
      · exact withNode_clean c _
  | slink vname1Length =>
      unfold PathCall.run doSlink
      dsimp only
      split
      · exact pure_clean _
      · split
        · exact pure_clean _
        · exact withNode_clean c _
  | rdlink bufSize =>
      unfold PathCall.run doRdlink
      dsimp only
      split
      · exact pure_clean _
      · exact withNode_clean c _
  | rdlinkDirect => exact withNode_clean { c with fetchName1 := none } (readLink c)
  | mknod superUser modeBits =>
      unfold PathCall.run doMknod
      dsimp only
      split
      · exact pure_clean _
      · exact withNode_clean c _
  | mkdir => exact withNode_clean c _

theorem fails_of_trap (c : Calls) (call : PathCall) (h : call.Trap c) : Fails (call.run c) := by
  cases call with
  | link =>
      rcases h with ⟨f, g, h₁, hf, h₂, hg, hslot⟩
      exact (doLink_both c h₁ hf h₂ hg).1 hslot
  | rename => exact doRename_fails c h
  | truncate length vsize => exact absurd h not_false
  | slink vname1Length => exact absurd h not_false
  | rdlink bufSize => exact absurd h not_false
  | rdlinkDirect => exact absurd h not_false
  | mknod superUser modeBits => exact absurd h not_false
  | mkdir => exact absurd h not_false

/-- **Locks and references of the path calls.**  Whatever the lookups, the permission checks and the
servers answer, a call gives back exactly what it has taken, unless a vnode is found twice; then it
unlocks a vnode that it has not locked, or an assertion fails.  No call returns with a lock. -/
theorem path_calls_clean_iff (c : Calls) (call : PathCall) :
    (Clean (call.run c) ↔ ¬ call.Trap c) ∧ (¬ Clean (call.run c) ↔ Fails (call.run c)) := by
  have hexclusive : Fails (call.run c) → ¬ Clean (call.run c) := by
    rintro (⟨slot, he⟩ | he) ⟨r, hr⟩
    · rw [he] at hr
      exact absurd hr (by simp)
    · rw [he] at hr
      exact absurd hr (by simp)
  refine ⟨⟨?_, clean_of_no_trap c call⟩, ⟨?_, hexclusive⟩⟩
  · intro hclean htrap
    exact hexclusive (fails_of_trap c call htrap) hclean
  · intro hclean
    refine fails_of_trap c call ?_
    by_contra htrap
    exact hclean (clean_of_no_trap c call htrap)

/-- A directory on file system 0, under the slot 1. -/
def homeDir : Found :=
  { node := { slot := 1, v_mode := S_IFDIR, v_uid := 0, v_fs_e := 5, v_inode_nr := 1 }, vmnt := 0 }

/-- `link` of a directory to a name inside it: its lock is given back twice. -/
example : doLink
    { effuid := 0, fetchName1 := none, fetchName2 := none, first := .ok homeDir, second := .ok homeDir,
      sticky := .ok homeDir, nameLength := 1, forbidden := fun _ => OK, reply := OK } [] =
      .error (.notHeld (.vnodeLock 1)) := by
  rfl

end Paths
end Vfs
end OsLab
