import OsLab.Vfs.Lookups

/-!
# Unlink — `do_unlink` with and without the log line

`do_unlink` of Lab-09's `link.c` looks the file up once more, between the permission checks and the
request, to print its inode number.  The same function in Lab-10's `vfs/link.c` does not.

* The path lookups, the permission check and the file system server are code outside these files.
  `Calls` holds what each of their calls brings in one run of `do_unlink`: any outcome, with any other.
* A lookup may also change the path in the buffer, which the request takes its name from.
-/

namespace OsLab
namespace Vfs
namespace Unlink

open OsLab.Lib
open OsLab.Lib.Holding
open OsLab.Mfs (OK)
open Lookups

/-! ## Calls -/

/-- `VFS_UNLINK` or `VFS_RMDIR` -/
inductive CallNr
  | unlink
  | rmdir
  deriving DecidableEq, Repr

/-- `req_unlink` or `req_rmdir`, with its arguments. -/
structure Request where
  kind : CallNr
  fs_e : Nat
  inode_nr : Nat
  lastc : String
  deriving DecidableEq, Repr

structure Calls where
  jobCallNr : CallNr
  effuid : Nat
  /-- `copy_path`: an error, or none. -/
  copyPath : Option ErrCode
  lastDir : Lookup
  /-- The path in the buffer after `last_dir`. -/
  path : String
  /-- `m_mount_path` of the file system that the directory is on. -/
  mountPath : String
  /-- `forbidden(fp, dirp, X_BIT | W_BIT)` -/
  forbidden : Int
  /-- The lookup for the sticky bit, and the path afterwards. -/
  sticky : Lookup
  stickyPath : String
  /-- The lookup for the log line, and the path afterwards. -/
  logged : Lookup
  loggedPath : String
  /-- The answer of the file system server. -/
  reply : Request → Int

/-! ## The two functions -/

/-- The directory, and the path that is in the buffer `fullpath`. -/
structure Checked where
  dirp : Handle
  path : String

/-- `upgrade_vmnt_lock(vmp)`: the lock stays one lock. -/
def upgradeVmntLock : Option Nat → Holding Resource Unit
  | none => fault .nullPointer
  | some _ => pure ()

section Functions

variable (c : Calls)

/-- Everything up to `upgrade_vmnt_lock`, which is the same in both functions. -/
def checks : Holding Resource (Int ⊕ Checked) :=
  match c.copyPath with
  | some e => pure (.inl e.1)
  | none => do
      match ← lookup c.lastDir with
      | .error e => return .inl e.1
      | .ok dirp =>
        if dirp.node.type ≠ S_IFDIR then
          leave dirp
          return .inl ENOTDIR
        else if c.forbidden ≠ OK then
          leave dirp
          return .inl c.forbidden
        else
          let r ← stickyCheck c.effuid c.sticky dirp
          if r ≠ OK then
            leave dirp
            return .inl r
          else
            upgradeVmntLock dirp.vmp
            let path := if dirp.node.v_mode &&& S_ISVTX = S_ISVTX then c.stickyPath else c.path
            return .inr ⟨dirp, path⟩

/-- The lines that Lab-09 adds. -/
def logging (k : Checked) : Holding Resource Checked := do
  match ← lookup c.logged with
  | .error _ =>
    -- `vp->v_inode_nr` is printed for a file in `/home`.
    if c.mountPath = "/home" then fault .nullPointer
    else return { k with path := c.loggedPath }
  | .ok vp =>
    unlockVnode vp.node
    putVnode vp.node
    return { k with path := c.loggedPath }

/-- What Lab-09 does before the request. -/
def checksAndLogging : Holding Resource (Int ⊕ Checked) := do
  match ← checks c with
  | .inl r => return .inl r
  | .inr k =>
    let k ← logging c k
    return .inr k

def Checked.request (k : Checked) : Request :=
  ⟨c.jobCallNr, k.dirp.node.v_fs_e, k.dirp.node.v_inode_nr, k.path⟩

/-- The request, after what comes `before` it, and the way out. -/
def sendAfter (before : Holding Resource (Int ⊕ Checked)) : Holding Resource Int := do
  match ← before with
  | .inl r => return r
  | .inr k =>
    let r := c.reply (k.request c)
    leave k.dirp
    return r

/-- `do_unlink` of Lab-10. -/
def doUnlinkLab10 : Holding Resource Int :=
  sendAfter c (checks c)

/-- `do_unlink` of Lab-09. -/
def doUnlinkLab09 : Holding Resource Int :=
  sendAfter c (checksAndLogging c)

end Functions

/-! ## Transparency -/

/-- The request that is sent. -/
def issued (c : Calls) (before : Holding Resource (Int ⊕ Checked)) : Option Request :=
  match before [] with
  | .ok (.inr k, _) => some (k.request c)
  | _ => none

/-- Both return the same code and hold the same, or both fail with the same fault. -/
inductive SameEnd : Except (Fault Resource) (Int × List Resource) →
    Except (Fault Resource) (Int × List Resource) → Prop
  | returned (r : Int) {held held' : List Resource} (hheld : held.Perm held') :
      SameEnd (.ok (r, held)) (.ok (r, held'))
  | failed (e : Fault Resource) : SameEnd (.error e) (.error e)

theorem SameEnd.refl (out : Except (Fault Resource) (Int × List Resource)) : SameEnd out out := by
  cases out with
  | error e => exact .failed e
  | ok res => exact .returned res.1 (List.Perm.refl _)

theorem SameEnd.eq_of_nil {out : Except (Fault Resource) (Int × List Resource)} {r : Int}
    (h : SameEnd out (.ok (r, []))) : out = .ok (r, []) := by
  cases h with
  | returned r hheld => rw [List.perm_nil.1 hheld]

/-- The log line makes no difference. -/
structure Transparent (c : Calls) : Prop where
  noNull : doUnlinkLab09 c [] ≠ .error .nullPointer
  request : issued c (checksAndLogging c) = issued c (checks c)
  ends : SameEnd (doUnlinkLab09 c []) (doUnlinkLab10 c [])

/-- The checks come to the request for a file in the directory. -/
structure Passes (c : Calls) (dir : Found) : Prop where
  copyPath : c.copyPath = none
  lastDir : c.lastDir = .ok dir
  isDir : dir.node.type = S_IFDIR
  allowed : c.forbidden = OK
  sticky : dir.node.v_mode &&& S_ISVTX = S_ISVTX → ∃ v, c.sticky = .ok v ∧ v.vmnt = dir.vmnt ∧
    (v.node.v_uid = c.effuid ∨ c.effuid = SU_UID)

/-- The check of the sticky bit finds the directory itself. -/
def StickySelf (c : Calls) (dir : Found) : Prop :=
  dir.node.v_mode &&& S_ISVTX = S_ISVTX ∧ ∃ v, c.sticky = .ok v ∧ v.node.slot = dir.node.slot

/-- The path that is in the buffer after the checks. -/
def Calls.pathLeft (c : Calls) (dir : Found) : String :=
  if dir.node.v_mode &&& S_ISVTX = S_ISVTX then c.stickyPath else c.path

/-! ## The checks -/

/-- The checks end without a request: they return with nothing held, or the process fails, but not on a
null pointer. -/
inductive Stopped : Except (Fault Resource) ((Int ⊕ Checked) × List Resource) → Prop
  | returned (r : Int) : Stopped (.ok (.inl r, []))
  | failed {e : Fault Resource} (h : e ≠ .nullPointer) : Stopped (.error e)

section Rules

variable {c : Calls} {dir : Found}

theorem ownerCheck_eq_ok_iff (effuid : Nat) (vp : Node) :
    ownerCheck effuid vp = OK ↔ vp.v_uid = effuid ∨ effuid = SU_UID := by
  unfold ownerCheck
  split
  · rename_i hother
    exact iff_of_false (by decide) (not_or.2 hother)
  · rename_i hown
    exact iff_of_true rfl (by tauto)

/-- The checks from the sticky bit on. -/
theorem checks_eq (hcopy : c.copyPath = none) (hdir : c.lastDir = .ok dir)
    (htype : dir.node.type = S_IFDIR) (hallowed : c.forbidden = OK) {r : Int} {held : List Resource}
    (hsticky : stickyCheck c.effuid c.sticky ⟨dir.node, true, some dir.vmnt⟩
      [.vnodeRef dir.node.slot, .vnodeLock dir.node.slot, .vmntLock dir.vmnt] = .ok (r, held)) :
    checks c [] =
      if r ≠ OK then (leave ⟨dir.node, true, some dir.vmnt⟩ held).bind fun out => .ok (.inl r, out.2)
      else .ok (.inr ⟨⟨dir.node, true, some dir.vmnt⟩, c.pathLeft dir⟩, held) := by
  by_cases hr : r = OK
  · simp [checks, hcopy, hdir, htype, hallowed, lookup_fresh, hsticky, hr, upgradeVmntLock,
      Calls.pathLeft]
  · simp [checks, hcopy, hdir, htype, hallowed, lookup_fresh, hsticky, hr]

/-- What is held when the checks have passed. -/
theorem checks_passed (h : Passes c dir) : ∃ held,
    checks c [] = .ok (.inr ⟨⟨dir.node, true, some dir.vmnt⟩, c.pathLeft dir⟩, held) ∧
      (StickySelf c dir → held = [.vnodeRef dir.node.slot, .vmntLock dir.vmnt]) ∧
      (¬ StickySelf c dir →
        held = [.vnodeRef dir.node.slot, .vnodeLock dir.node.slot, .vmntLock dir.vmnt]) := by
  by_cases hbit : dir.node.v_mode &&& S_ISVTX = S_ISVTX
  · rcases h.sticky hbit with ⟨v, hv, hvmnt, howner⟩
    have hok := (ownerCheck_eq_ok_iff c.effuid v.node).2 howner
    by_cases hslot : v.node.slot = dir.node.slot
    · have hself : StickySelf c dir := ⟨hbit, v, hv, hslot⟩
      refine ⟨_, ?_, fun _ => rfl, fun hnot => absurd hself hnot⟩
      rw [checks_eq h.copyPath h.lastDir h.isDir h.allowed (stickyCheck_self hbit hv hvmnt hslot),
        if_neg (not_not.2 hok)]
    · have hother : ¬ StickySelf c dir := by
        rintro ⟨-, v', hv', hslot'⟩
        rw [hv] at hv'
        cases hv'
        exact hslot hslot'
      refine ⟨_, ?_, fun hself => absurd hself hother, fun _ => rfl⟩
      rw [checks_eq h.copyPath h.lastDir h.isDir h.allowed (stickyCheck_other hbit hv hvmnt hslot),
        if_neg (not_not.2 hok)]
  · refine ⟨_, ?_, fun hself => absurd hself.1 hbit, fun _ => rfl⟩
    rw [checks_eq h.copyPath h.lastDir h.isDir h.allowed (stickyCheck_plain _ hbit),
      if_neg (not_not.2 rfl)]

/-- The sticky bit stops the checks. -/
theorem checks_stopped_sticky (hcopy : c.copyPath = none) (hdir : c.lastDir = .ok dir)
    (htype : dir.node.type = S_IFDIR) (hallowed : c.forbidden = OK) (h : ¬ Passes c dir) :
    Stopped (checks c []) := by
  have hsticky : ¬ (dir.node.v_mode &&& S_ISVTX = S_ISVTX → ∃ v, c.sticky = .ok v ∧
      v.vmnt = dir.vmnt ∧ (v.node.v_uid = c.effuid ∨ c.effuid = SU_UID)) :=
    fun hsticky => h ⟨hcopy, hdir, htype, hallowed, hsticky⟩
  rcases Classical.not_imp.1 hsticky with ⟨hbit, hnone⟩
  cases hv : c.sticky with
  | error e =>
      rw [checks_eq hcopy hdir htype hallowed (stickyCheck_missing _ hbit hv), if_pos e.2, leave_fresh]
      exact .returned e.1
  | ok v =>
      by_cases hvmnt : v.vmnt = dir.vmnt
      · have hrefused : ownerCheck c.effuid v.node ≠ OK :=
          fun hok => hnone ⟨v, hv, hvmnt, (ownerCheck_eq_ok_iff c.effuid v.node).1 hok⟩
        by_cases hslot : v.node.slot = dir.node.slot
        · rw [checks_eq hcopy hdir htype hallowed (stickyCheck_self hbit hv hvmnt hslot),
            if_pos hrefused, leave_unlocked]
          exact .failed (by simp)
        · rw [checks_eq hcopy hdir htype hallowed (stickyCheck_other hbit hv hvmnt hslot),
            if_pos hrefused, leave_fresh]
          exact .returned _
      · have hassert : stickyCheck c.effuid c.sticky ⟨dir.node, true, some dir.vmnt⟩
            [.vnodeRef dir.node.slot, .vnodeLock dir.node.slot, .vmntLock dir.vmnt] =
              .error .assertion :=
          stickyCheck_elsewhere hbit hv hvmnt
        have hchecks : checks c [] = .error .assertion := by
          simp [checks, hcopy, hdir, htype, hallowed, lookup_fresh, hassert]
        rw [hchecks]
        exact .failed (by simp)

theorem checks_stopped (h : ∀ dir, ¬ Passes c dir) : Stopped (checks c []) := by
  cases hcopy : c.copyPath with
  | some e =>
      have hchecks : checks c [] = .ok (.inl e.1, []) := by
        simp [checks, hcopy]
      rw [hchecks]
      exact .returned e.1
  | none =>
      cases hdir : c.lastDir with
      | error e =>
          have hchecks : checks c [] = .ok (.inl e.1, []) := by
            simp [checks, hcopy, hdir, lookup_error]
          rw [hchecks]
          exact .returned e.1
      | ok dir =>
          by_cases htype : dir.node.type = S_IFDIR
          · by_cases hallowed : c.forbidden = OK
            · exact checks_stopped_sticky hcopy hdir htype hallowed (h dir)
            · have hchecks : checks c [] = .ok (.inl c.forbidden, []) := by
                simp [checks, hcopy, hdir, lookup_fresh, htype, hallowed, leave_fresh]
              rw [hchecks]
              exact .returned c.forbidden
          · have hchecks : checks c [] = .ok (.inl ENOTDIR, []) := by
              simp [checks, hcopy, hdir, lookup_fresh, htype, leave_fresh]
            rw [hchecks]
            exact .returned ENOTDIR

/-! ## The log line -/

theorem logging_null (k : Checked) (held : List Resource) {e : ErrCode} (he : c.logged = .error e)
    (hhome : c.mountPath = "/home") : logging c k held = .error .nullPointer := by
  simp [logging, he, lookup_error, hhome]

theorem logging_missing (k : Checked) (held : List Resource) {e : ErrCode} (he : c.logged = .error e)
    (hhome : c.mountPath ≠ "/home") :
    logging c k held = .ok ({ k with path := c.loggedPath }, held) := by
  simp [logging, he, lookup_error, hhome]

/-- The directory is locked: it can be left with nothing held if the log line has found another vnode on
the same file system, or none. -/
theorem logging_locked (dir : Found) (k : Checked)
    (hfound : c.mountPath = "/home" → ∃ v, c.logged = .ok v) : ∃ held,
    logging c k [.vnodeRef dir.node.slot, .vnodeLock dir.node.slot, .vmntLock dir.vmnt] =
        .ok ({ k with path := c.loggedPath }, held) ∧
      (leave ⟨dir.node, true, some dir.vmnt⟩ held = .ok ((), []) ↔
        ∀ v, c.logged = .ok v → v.vmnt = dir.vmnt ∧ v.node.slot ≠ dir.node.slot) := by
  cases hv : c.logged with
  | error e =>
      have hhome : c.mountPath ≠ "/home" := by
        intro hhome
        rcases hfound hhome with ⟨v, hok⟩
        rw [hok] at hv
        cases hv
      exact ⟨_, logging_missing k _ hv hhome, iff_of_true (leave_fresh dir) (by simp)⟩
  | ok v =>
      by_cases hslot : v.node.slot = dir.node.slot
      · -- The lock of the directory is given away.
        by_cases hvmnt : v.vmnt = dir.vmnt
        · refine ⟨[.vnodeRef dir.node.slot, .vmntLock dir.vmnt], ?_, ?_⟩
          · simp [logging, hv, lookup_second, hslot, hvmnt, unlockVnode, putVnode, release]
          · simp [leave_unlocked, hslot]
        · refine ⟨[.vmntLock v.vmnt, .vnodeRef dir.node.slot, .vmntLock dir.vmnt], ?_, ?_⟩
          · simp [logging, hv, lookup_second, hslot, hvmnt, unlockVnode, putVnode, release]
          · simp [leave, unlockVnode, release, hslot]
      · by_cases hvmnt : v.vmnt = dir.vmnt
        · refine ⟨[.vnodeRef dir.node.slot, .vnodeLock dir.node.slot, .vmntLock dir.vmnt], ?_, ?_⟩
          · simp [logging, hv, lookup_second, hslot, hvmnt, unlockVnode, putVnode, release]
          · simp [leave_fresh, hslot, hvmnt]
        · -- The lock of the other file system stays.
          have hvmnt' : dir.vmnt ≠ v.vmnt := Ne.symm hvmnt
          refine ⟨[.vmntLock v.vmnt, .vnodeRef dir.node.slot, .vnodeLock dir.node.slot,
            .vmntLock dir.vmnt], ?_, ?_⟩
          · simp [logging, hv, lookup_second, hslot, hvmnt, unlockVnode, putVnode, release]
          · simp [leave, unlockVnode, unlockVmnt, putVnode, release, hvmnt, hvmnt']

/-- The directory is not locked: the way out fails, whatever the log line has found. -/
theorem logging_unlocked (dir : Found) (k : Checked)
    (hfound : c.mountPath = "/home" → ∃ v, c.logged = .ok v) : ∃ held,
    logging c k [.vnodeRef dir.node.slot, .vmntLock dir.vmnt] =
        .ok ({ k with path := c.loggedPath }, held) ∧
      leave ⟨dir.node, true, some dir.vmnt⟩ held = .error (.notHeld (.vnodeLock dir.node.slot)) := by
  cases hv : c.logged with
  | error e =>
      have hhome : c.mountPath ≠ "/home" := by
        intro hhome
        rcases hfound hhome with ⟨v, hok⟩
        rw [hok] at hv
        cases hv
      exact ⟨_, logging_missing k _ hv hhome, leave_unlocked dir⟩
  | ok v =>
      by_cases hvmnt : v.vmnt = dir.vmnt
      · refine ⟨[.vnodeRef dir.node.slot, .vmntLock dir.vmnt], ?_, leave_unlocked dir⟩
        simp [logging, hv, lookup, tryHold, hvmnt, unlockVnode, putVnode, release]
      · refine ⟨[.vmntLock v.vmnt, .vnodeRef dir.node.slot, .vmntLock dir.vmnt], ?_, ?_⟩
        · simp [logging, hv, lookup, tryHold, hvmnt, unlockVnode, putVnode, release]
        · simp [leave, unlockVnode, release]

/-! ## The request -/

theorem sendAfter_eq {before : Holding Resource (Int ⊕ Checked)} {k : Checked} {held : List Resource}
    (hbefore : before [] = .ok (.inr k, held)) : sendAfter c before [] =
      (leave k.dirp held).bind fun out => .ok (c.reply (k.request c), out.2) := by
  simp [sendAfter, hbefore]

theorem issued_eq {before : Holding Resource (Int ⊕ Checked)} {k : Checked} {held : List Resource}
    (hbefore : before [] = .ok (.inr k, held)) : issued c before = some (k.request c) := by
  unfold issued
  rw [hbefore]

theorem checksAndLogging_eq {k k' : Checked} {held held' : List Resource}
    (hchecks : checks c [] = .ok (.inr k, held)) (hlogging : logging c k held = .ok (k', held')) :
    checksAndLogging c [] = .ok (.inr k', held') := by
  simp [checksAndLogging, hchecks, hlogging]

/-- The requests are the same if the paths are. -/
theorem issued_iff {dirp : Handle} {path path' : String} {held held' : List Resource}
    (hchecks : checks c [] = .ok (.inr ⟨dirp, path⟩, held))
    (hall : checksAndLogging c [] = .ok (.inr ⟨dirp, path'⟩, held')) :
    issued c (checksAndLogging c) = issued c (checks c) ↔ path' = path := by
  rw [issued_eq hchecks, issued_eq hall]
  simp [Checked.request]

/-- A transparent log line finds the file in `/home`. -/
theorem Transparent.found (h : Transparent c) {k : Checked} {held : List Resource}
    (hchecks : checks c [] = .ok (.inr k, held)) : c.mountPath = "/home" → ∃ v, c.logged = .ok v := by
  intro hhome
  cases hv : c.logged with
  | ok v => exact ⟨v, rfl⟩
  | error e =>
      refine absurd ?_ h.noNull
      simp [doUnlinkLab09, sendAfter, checksAndLogging, hchecks, logging_null k held hv hhome]

/-- The directory is not locked when the log line is reached: both functions fail on the way out. -/
theorem transparent_iff_unlocked {path : String}
    (hchecks : checks c [] = .ok (.inr ⟨⟨dir.node, true, some dir.vmnt⟩, path⟩,
      [.vnodeRef dir.node.slot, .vmntLock dir.vmnt]))
    (hfound : c.mountPath = "/home" → ∃ v, c.logged = .ok v) :
    Transparent c ↔ c.loggedPath = path := by
  rcases logging_unlocked dir ⟨⟨dir.node, true, some dir.vmnt⟩, path⟩ hfound with
    ⟨held', hlogging, hleave⟩
  have hall := checksAndLogging_eq hchecks hlogging
  have h10 : doUnlinkLab10 c [] = .error (.notHeld (.vnodeLock dir.node.slot)) := by
    rw [doUnlinkLab10, sendAfter_eq hchecks, leave_unlocked]
    rfl
  have h09 : doUnlinkLab09 c [] = .error (.notHeld (.vnodeLock dir.node.slot)) := by
    rw [doUnlinkLab09, sendAfter_eq hall, hleave]
    rfl
  constructor
  · intro htransparent
    exact (issued_iff hchecks hall).1 htransparent.request
  · intro hpath
    refine ⟨?_, (issued_iff hchecks hall).2 hpath, ?_⟩
    · rw [h09]
      simp
    · rw [h09, h10]
      exact .failed _

/-- The directory is locked when the log line is reached: Lab-10 returns with nothing held, and Lab-09
has to. -/
theorem transparent_iff_locked {path : String}
    (hchecks : checks c [] = .ok (.inr ⟨⟨dir.node, true, some dir.vmnt⟩, path⟩,
      [.vnodeRef dir.node.slot, .vnodeLock dir.node.slot, .vmntLock dir.vmnt]))
    (hfound : c.mountPath = "/home" → ∃ v, c.logged = .ok v) :
    Transparent c ↔ c.loggedPath = path ∧
      ∀ v, c.logged = .ok v → v.vmnt = dir.vmnt ∧ v.node.slot ≠ dir.node.slot := by
  rcases logging_locked dir ⟨⟨dir.node, true, some dir.vmnt⟩, path⟩ hfound with
    ⟨held', hlogging, hleave⟩
  have hall := checksAndLogging_eq hchecks hlogging
  have h10 : doUnlinkLab10 c [] =
      .ok (c.reply (Checked.request c ⟨⟨dir.node, true, some dir.vmnt⟩, path⟩), []) := by
    rw [doUnlinkLab10, sendAfter_eq hchecks, leave_fresh]
    rfl
  have h09 : doUnlinkLab09 c [] = (leave ⟨dir.node, true, some dir.vmnt⟩ held').bind fun out =>
      .ok (c.reply (Checked.request c ⟨⟨dir.node, true, some dir.vmnt⟩, c.loggedPath⟩), out.2) := by
    rw [doUnlinkLab09, sendAfter_eq hall]
  constructor
  · intro htransparent
    refine ⟨(issued_iff hchecks hall).1 htransparent.request, hleave.1 ?_⟩
    have hends := htransparent.ends
    rw [h09, h10] at hends
    have hsame := hends.eq_of_nil
    cases hout : leave ⟨dir.node, true, some dir.vmnt⟩ held' with
    | error e =>
        rw [hout] at hsame
        cases hsame
    | ok out =>
        rw [hout] at hsame
        have hheld : out.2 = [] := congrArg Prod.snd (Except.ok.inj hsame)
        rw [← hheld]
  · rintro ⟨hpath, hcond⟩
    rw [hleave.2 hcond, hpath] at h09
    refine ⟨?_, (issued_iff hchecks hall).2 hpath, ?_⟩
    · rw [h09]
      simp
    · rw [h09, h10]
      exact .returned _ (List.Perm.refl _)

/-- Once the checks are passed. -/
theorem transparent_iff_of_passes (h : Passes c dir) :
    Transparent c ↔
      (c.mountPath = "/home" → ∃ v, c.logged = .ok v) ∧ c.loggedPath = c.pathLeft dir ∧
      (¬ StickySelf c dir →
        ∀ v, c.logged = .ok v → v.vmnt = dir.vmnt ∧ v.node.slot ≠ dir.node.slot) := by
  rcases checks_passed h with ⟨held, hchecks, hself, hother⟩
  by_cases hfound : c.mountPath = "/home" → ∃ v, c.logged = .ok v
  · rw [and_iff_right hfound]
    by_cases hsticky : StickySelf c dir
    · rw [hself hsticky] at hchecks
      rw [transparent_iff_unlocked hchecks hfound]
      exact ⟨fun hpath => ⟨hpath, fun hnot => absurd hsticky hnot⟩, fun hcond => hcond.1⟩
    · rw [hother hsticky] at hchecks
      rw [transparent_iff_locked hchecks hfound]
      exact and_congr_right fun _ => ⟨fun hcond _ => hcond, fun hcond => hcond hsticky⟩
  · exact iff_of_false (fun htransparent => hfound (htransparent.found hchecks))
      fun hcond => hfound hcond.1

/-- Where the checks stop, the log line is not reached. -/
theorem doUnlink_stopped (h : Stopped (checks c [])) :
    doUnlinkLab09 c [] = doUnlinkLab10 c [] ∧ issued c (checksAndLogging c) = issued c (checks c) ∧
      doUnlinkLab10 c [] ≠ .error .nullPointer ∧
      ∀ r held, doUnlinkLab10 c [] = .ok (r, held) → held = [] := by
  unfold doUnlinkLab09 doUnlinkLab10 issued
  generalize hchecks : checks c [] = out at h
  cases h with
  | returned r => simp [sendAfter, checksAndLogging, hchecks]
  | failed hnull => simp [sendAfter, checksAndLogging, hchecks, hnull]

end Rules

/-- Lab-09 does what Lab-10 does, which returns with nothing held, if and only if one of the checks
returns first, or the second lookup finds the file where it is in `/home`, leaves the path in the buffer
as it is, and finds no vnode of another file system and not the directory itself, unless the check of the
sticky bit has found that already. -/
theorem logging_transparent_iff (c : Calls) :
    (Transparent c ↔ ∀ dir, Passes c dir →
      (c.mountPath = "/home" → ∃ v, c.logged = .ok v) ∧ c.loggedPath = c.pathLeft dir ∧
      (¬ StickySelf c dir →
        ∀ v, c.logged = .ok v → v.vmnt = dir.vmnt ∧ v.node.slot ≠ dir.node.slot)) ∧
    ∀ r held, doUnlinkLab10 c [] = .ok (r, held) → held = [] := by
  by_cases hpasses : ∃ dir, Passes c dir
  · rcases hpasses with ⟨dir, h⟩
    refine ⟨?_, ?_⟩
    · rw [transparent_iff_of_passes h]
      constructor
      · intro hcond dir' h'
        have hdir : dir' = dir := by
          have hlast := h'.lastDir
          rw [h.lastDir] at hlast
          cases hlast
          rfl
        rw [hdir]
        exact hcond
      · intro hcond
        exact hcond dir h
    · intro r held hreturns
      rcases checks_passed h with ⟨held', hchecks, hself, hother⟩
      rw [doUnlinkLab10, sendAfter_eq hchecks] at hreturns
      by_cases hsticky : StickySelf c dir
      · rw [hself hsticky, leave_unlocked] at hreturns
        cases hreturns
      · rw [hother hsticky, leave_fresh] at hreturns
        cases hreturns
        rfl
  · have hnone : ∀ dir, ¬ Passes c dir := not_exists.1 hpasses
    rcases doUnlink_stopped (checks_stopped hnone) with ⟨hsame, hissued, hnull, hheld⟩
    refine ⟨iff_of_true ⟨?_, hissued, ?_⟩ fun dir h => absurd h (hnone dir), hheld⟩
    · rw [hsame]
      exact hnull
    · rw [hsame]
      exact SameEnd.refl _

/-- `unlink` of a file that is not there, in the top directory of the file system on `/home`. -/
def missingInHome : Calls where
  jobCallNr := .unlink
  effuid := 0
  copyPath := none
  lastDir := .ok ⟨⟨3, 0o040755, 0, 5, 1⟩, 2⟩
  path := "nofile"
  mountPath := "/home"
  forbidden := OK
  sticky := .error noEntry
  stickyPath := "nofile"
  logged := .error noEntry
  loggedPath := "nofile"
  reply := fun _ => ENOENT

/-- Lab-09 reads `vp->v_inode_nr` of no vnode.  Lab-10 returns `ENOENT`. -/
theorem missing_file_null_deref :
    doUnlinkLab09 missingInHome [] = .error .nullPointer ∧
      doUnlinkLab10 missingInHome [] = .ok (ENOENT, []) ∧
      ¬ Transparent missingInHome := by
  have hnull : doUnlinkLab09 missingInHome [] = .error .nullPointer := rfl
  exact ⟨hnull, rfl, fun htransparent => htransparent.noNull hnull⟩

end Unlink
end Vfs
end OsLab
