import OsLab.Lib.Holdings
import OsLab.Vfs.Model

/-!
# Lookups — the locks and the reference that a path lookup takes

`eat_path`, `last_dir` and `advance` are in `path.c`, and the locks in `tll.c`; neither is here.  Both are
taken to work as their callers in `link.c` and `open.c` say:

* A lookup takes the locks of the vnode and of its file system, unless the caller holds them already, in
  whatever mode; then the pointer `l_vnode` or `l_vmp` is set to `NULL`.  "A vp is locked only once."
* It takes a reference each time.  A lookup that fails leaves nothing behind.
* Giving back a lock that is not held is a failed assertion of `tll_unlock`.
-/

namespace OsLab
namespace Vfs
namespace Lookups

open OsLab.Lib
open OsLab.Lib.Holding
open OsLab.Mfs (OK)

def S_ISVTX : Nat := 0o1000
def SU_UID : Nat := 0
def EPERM : Int := -1
def ENOTDIR : Int := -20

/-- The fields of `struct vnode` that the callers read.  `slot` tells vnodes apart. -/
structure Node where
  slot : Nat
  v_mode : Nat
  v_uid : Nat
  v_fs_e : Nat
  v_inode_nr : Nat
  deriving DecidableEq, Repr

def Node.type (vp : Node) : Nat :=
  vp.v_mode &&& S_IFMT

inductive Resource
  | vnodeLock (slot : Nat)
  | vnodeRef (slot : Nat)
  | vmntLock (slot : Nat)
  deriving DecidableEq, Repr

abbrev ErrCode : Type :=
  { e : Int // e ≠ OK }

def noEntry : ErrCode :=
  ⟨ENOENT, by decide⟩

/-- The vnode at the end of a path, and the file system it is on. -/
structure Found where
  node : Node
  vmnt : Nat

/-- What a lookup brings: an error, or a vnode. -/
abbrev Lookup : Type :=
  Except ErrCode Found

/-- A vnode as the caller knows it: `locked` if `l_vnode` is set, and `l_vmp`. -/
structure Handle where
  node : Node
  locked : Bool
  vmp : Option Nat

/-- `eat_path`, `last_dir` or `advance`. -/
def lookup : Lookup → Holding Resource (Except ErrCode Handle)
  | .error e => pure (.error e)
  | .ok f => do
      let vmp ← tryHold (.vmntLock f.vmnt)
      let locked ← tryHold (.vnodeLock f.node.slot)
      hold (.vnodeRef f.node.slot)
      return .ok ⟨f.node, locked, if vmp then some f.vmnt else none⟩

def unlockVnode (vp : Node) : Holding Resource Unit :=
  release (.vnodeLock vp.slot)

def putVnode (vp : Node) : Holding Resource Unit :=
  release (.vnodeRef vp.slot)

def unlockVmnt : Option Nat → Holding Resource Unit
  | none => fault .nullPointer
  | some vmp => release (.vmntLock vmp)

/-- `unlock_vnode(vp); unlock_vmnt(vmp); put_vnode(vp);` -/
def leave (h : Handle) : Holding Resource Unit := do
  unlockVnode h.node
  unlockVmnt h.vmp
  putVnode h.node

/-- Only the owner of the file or the superuser is allowed. -/
def ownerCheck (effuid : Nat) (vp : Node) : Int :=
  if vp.v_uid ≠ effuid ∧ effuid ≠ SU_UID then EPERM else OK

/-- The check of the sticky bit, which is the same in `do_unlink` and `do_rename`. -/
def stickyCheck (effuid : Nat) (sticky : Lookup) (dirp : Handle) : Holding Resource Int := do
  if dirp.node.v_mode &&& S_ISVTX = S_ISVTX then
    match ← lookup sticky with
    | .error e => return e.1
    | .ok vp =>
      if vp.vmp ≠ none then fault .assertion
      else
        let r := ownerCheck effuid vp.node
        unlockVnode vp.node
        putVnode vp.node
        return r
  else return OK

/-! ## What is held afterwards -/

theorem lookup_error (e : ErrCode) (held : List Resource) :
    lookup (.error e) held = .ok (.error e, held) := rfl

theorem lookup_fresh (f : Found) : lookup (.ok f) [] =
    .ok (.ok ⟨f.node, true, some f.vmnt⟩,
      [.vnodeRef f.node.slot, .vnodeLock f.node.slot, .vmntLock f.vmnt]) := by
  simp [lookup, tryHold]

theorem leave_fresh (f : Found) : leave ⟨f.node, true, some f.vmnt⟩
    [.vnodeRef f.node.slot, .vnodeLock f.node.slot, .vmntLock f.vmnt] = .ok ((), []) := by
  simp [leave, unlockVnode, unlockVmnt, putVnode, release]

/-- The second of two lookups takes the locks that the first has not. -/
theorem lookup_second (f g : Found) : lookup (.ok g)
    [.vnodeRef f.node.slot, .vnodeLock f.node.slot, .vmntLock f.vmnt] =
    .ok (.ok ⟨g.node, g.node.slot ≠ f.node.slot, if g.vmnt = f.vmnt then none else some g.vmnt⟩,
      .vnodeRef g.node.slot ::
        ((if g.node.slot = f.node.slot then [] else [.vnodeLock g.node.slot]) ++
          ((if g.vmnt = f.vmnt then [] else [.vmntLock g.vmnt]) ++
            [.vnodeRef f.node.slot, .vnodeLock f.node.slot, .vmntLock f.vmnt]))) := by
  by_cases hvmnt : g.vmnt = f.vmnt
  · by_cases hslot : g.node.slot = f.node.slot
    · simp [lookup, tryHold, hvmnt, hslot]
    · simp [lookup, tryHold, hvmnt, hslot]
  · by_cases hslot : g.node.slot = f.node.slot
    · simp [lookup, tryHold, hvmnt, hslot]
    · simp [lookup, tryHold, hvmnt, hslot]

/-- Without the lock of the directory there is no way out. -/
theorem leave_unlocked (f : Found) : leave ⟨f.node, true, some f.vmnt⟩
    [.vnodeRef f.node.slot, .vmntLock f.vmnt] = .error (.notHeld (.vnodeLock f.node.slot)) := by
  simp [leave, unlockVnode, release]

/-! ## The sticky bit -/

section Sticky

variable {effuid : Nat} {sticky : Lookup} {f v : Found}

theorem stickyCheck_plain (held : List Resource) (hbit : f.node.v_mode &&& S_ISVTX ≠ S_ISVTX) :
    stickyCheck effuid sticky ⟨f.node, true, some f.vmnt⟩ held = .ok (OK, held) := by
  unfold stickyCheck
  rw [if_neg hbit]
  rfl

theorem stickyCheck_missing {e : ErrCode} (held : List Resource)
    (hbit : f.node.v_mode &&& S_ISVTX = S_ISVTX) (he : sticky = .error e) :
    stickyCheck effuid sticky ⟨f.node, true, some f.vmnt⟩ held = .ok (e.1, held) := by
  unfold stickyCheck
  rw [if_pos hbit, he]
  rfl

/-- The file is in another file system. -/
theorem stickyCheck_elsewhere (hbit : f.node.v_mode &&& S_ISVTX = S_ISVTX) (hv : sticky = .ok v)
    (hvmnt : v.vmnt ≠ f.vmnt) :
    stickyCheck effuid sticky ⟨f.node, true, some f.vmnt⟩
        [.vnodeRef f.node.slot, .vnodeLock f.node.slot, .vmntLock f.vmnt] = .error .assertion := by
  unfold stickyCheck
  rw [if_pos hbit, hv]
  simp [lookup_second, hvmnt]

theorem stickyCheck_other (hbit : f.node.v_mode &&& S_ISVTX = S_ISVTX) (hv : sticky = .ok v)
    (hvmnt : v.vmnt = f.vmnt) (hslot : v.node.slot ≠ f.node.slot) :
    stickyCheck effuid sticky ⟨f.node, true, some f.vmnt⟩
        [.vnodeRef f.node.slot, .vnodeLock f.node.slot, .vmntLock f.vmnt] =
      .ok (ownerCheck effuid v.node,
        [.vnodeRef f.node.slot, .vnodeLock f.node.slot, .vmntLock f.vmnt]) := by
  unfold stickyCheck
  rw [if_pos hbit, hv]
  simp [lookup_second, hvmnt, hslot, unlockVnode, putVnode, release]

/-- The file is the directory itself: the check gives its lock away. -/
theorem stickyCheck_self (hbit : f.node.v_mode &&& S_ISVTX = S_ISVTX) (hv : sticky = .ok v)
    (hvmnt : v.vmnt = f.vmnt) (hslot : v.node.slot = f.node.slot) :
    stickyCheck effuid sticky ⟨f.node, true, some f.vmnt⟩
        [.vnodeRef f.node.slot, .vnodeLock f.node.slot, .vmntLock f.vmnt] =
      .ok (ownerCheck effuid v.node, [.vnodeRef f.node.slot, .vmntLock f.vmnt]) := by
  unfold stickyCheck
  rw [if_pos hbit, hv]
  simp [lookup_second, hvmnt, hslot, unlockVnode, putVnode, release]

end Sticky

end Lookups
end Vfs
end OsLab
