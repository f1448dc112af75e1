import OsLab.Vfs.Create

/-!
# Open — locks, references and devices of `common_open`

`common_open` of `vfs/open.c` takes a file descriptor, finds or makes the file and opens it as its type
asks for.  `Held` is what it can hold on the way; `new_node` is the one of `Create`.

* `Answers` holds what the code outside brings.  The lock of the slot `filp` is `filpLock`; the
  descriptor stands for the slot of `fp_filp` and the count of its own `filp`.
* The message about files under `/home` is left out.
-/

namespace OsLab
namespace Vfs
namespace Open

open OsLab.Lib
open OsLab.Lib.Holding
open OsLab.Mfs (OK EINVAL)
open Lookups
open Create (Level Result)

def ENXIO : Int := -6
def O_NONBLOCK : Nat := 0x4

/-! ## What is held -/

inductive Held
  | path (x : Resource)
  | filpLock
  | bsfLock
  | descriptor (fd : Nat)
  /-- A count of the `filp` of another opener. -/
  | coFilp
  /-- A device that was opened. -/
  | device
  deriving DecidableEq, Repr

def faultInside : Fault Resource → Fault Held
  | .notHeld x => .notHeld (.path x)
  | .nullPointer => .nullPointer
  | .assertion => .assertion
  | .unfinished => .unfinished

/-- A part that takes locks and references of paths only, and does not know of the others. -/
def inside {α : Type} (m : Holding Resource α) : Holding Held α := fun held =>
  match m [] with
  | .error e => .error (faultInside e)
  | .ok (x, got) => .ok (x, got.map .path ++ held)

def unlockVnode (vp : Node) : Holding Held Unit :=
  release (.path (.vnodeLock vp.slot))

def putVnode (vp : Node) : Holding Held Unit :=
  release (.path (.vnodeRef vp.slot))

/-! ## The function -/

structure Answers where
  getFd : Except ErrCode Nat
  /-- What `new_node` meets. -/
  levels : List Level
  eatPath : Lookup
  forbidden : Nat → Int
  cdevOpen : Int
  /-- The vnode of the device, if it was cloned. -/
  clone : Option Node
  bdevOpen : Int
  /-- Whether `dmap_driver` is set. -/
  driver : Bool
  /-- Whether `ROOT_FS` is responsible for the device. -/
  rootBsf : Bool
  reqNewdriver : Int
  mapVnode : Int
  /-- Whether the FIFO has one user and some bytes. -/
  stale : Bool
  truncate : Int
  /-- `find_filp` for the other end of the FIFO. -/
  otherEnd : Bool
  /-- `find_filp` for the same end. -/
  coOpener : Bool

/-- `r`, `vp` and `filp->filp_count`. -/
structure Opened where
  r : Int
  vp : Node
  filpCount : Nat

variable (a : Answers) (oflags bits : Nat)

/-- `pipe_open` -/
def pipeOpen : Int :=
  if bits &&& (R_BIT ||| W_BIT) = R_BIT ||| W_BIT then ENXIO
  else if a.otherEnd then OK
  else if oflags &&& O_NONBLOCK ≠ 0 then
    if bits &&& W_BIT ≠ 0 then ENXIO else OK
  else SUSPEND

/-- The case `S_IFBLK`. -/
def openBlock : Holding Held Int := do
  hold .bsfLock
  if a.bdevOpen ≠ OK then
    release .bsfLock
    return a.bdevOpen
  else
    hold .device
    if a.driver = false then
      release .bsfLock
      return ENXIO
    else if a.rootBsf = false then
      release .bsfLock
      return OK
    else if a.reqNewdriver ≠ OK then
      release .device
      release .bsfLock
      return ENXIO
    else
      release .bsfLock
      return OK

/-- The case `S_IFCHR`.  A clone takes the place of the vnode. -/
def openChar (vp : Node) : Holding Held Opened :=
  if a.cdevOpen ≠ OK then pure ⟨a.cdevOpen, vp, 1⟩
  else do
    hold .device
    match a.clone with
    | none => return ⟨OK, vp, 1⟩
    | some vp' =>
      unlockVnode vp
      putVnode vp
      hold (.path (.vnodeLock vp'.slot))
      hold (.path (.vnodeRef vp'.slot))
      return ⟨OK, vp', 1⟩

/-- `r` in the case `S_IFIFO`. -/
def fifoResult : Int :=
  if a.mapVnode ≠ OK then a.mapVnode
  else if a.stale = true ∧ a.truncate ≠ OK then a.truncate
  else pipeOpen a oflags bits

/-- The case `S_IFIFO`. -/
def openFifo (vp : Node) : Holding Held Opened :=
  if fifoResult a oflags bits ≠ ENXIO ∧ a.coOpener = true then do
    hold .coFilp
    unlockVnode vp
    putVnode vp
    return ⟨fifoResult a oflags bits, vp, 0⟩
  else pure ⟨fifoResult a oflags bits, vp, 1⟩

/-- The code that is skipped for a file just made. -/
def openExisting (vp : Node) : Holding Held Opened :=
  if a.forbidden bits ≠ OK then pure ⟨a.forbidden bits, vp, 1⟩
  else if vp.type = S_IFREG ∨ vp.type = S_IFIMM then
    -- The result of `truncate_vnode` is not looked at.
    pure ⟨if oflags &&& O_TRUNC ≠ 0 then a.forbidden W_BIT else OK, vp, 1⟩
  else if vp.type = S_IFDIR then pure ⟨if bits &&& W_BIT ≠ 0 then EISDIR else OK, vp, 1⟩
  else if vp.type = S_IFCHR then openChar a vp
  else if vp.type = S_IFBLK then do
    let r ← openBlock a
    return ⟨r, vp, 1⟩
  else if vp.type = S_IFIFO then openFifo a oflags bits vp
  else pure ⟨OK, vp, 1⟩

/-- `unlock_filp(filp)` and the end of the function.  The vnode is unlocked if `filp` is in use. -/
def finish (fd : Nat) (o : Opened) : Holding Held Int := do
  if 0 < o.filpCount then unlockVnode o.vp
  release .filpLock
  if o.r = OK then return (fd : Int)
  else if o.r = SUSPEND then return SUSPEND
  else
    release (.descriptor fd)
    putVnode o.vp
    return o.r

/-- Claim the descriptor and open the file, unless it was just made. -/
def claim (fd : Nat) (opening : Holding Held Opened) : Holding Held Int := do
  hold (.descriptor fd)
  let o ← opening
  finish fd o

def commonOpen : Holding Held Int :=
  let bits := modeMap (oflags &&& O_ACCMODE)
  if bits = 0 then pure EINVAL
  else
    match a.getFd with
    | .error e => pure e.1
    | .ok fd => do
        hold .filpLock
        if oflags &&& O_CREAT ≠ 0 then
          let made ← inside (Create.newNode a.levels)
          match made.vp with
          | none =>
            -- `vp` is used if `err_code` is `OK` or `EEXIST`.
            if made.errCode = OK ∨ made.errCode = EEXIST then fault .nullPointer
            else
              release .filpLock
              return made.errCode
          | some vp =>
            if made.errCode = OK then claim fd (pure ⟨OK, vp, 1⟩)
            else if made.errCode ≠ EEXIST then
              unlockVnode vp
              release .filpLock
              return made.errCode
            else if oflags &&& O_EXCL ≠ 0 then claim fd (pure ⟨EEXIST, vp, 1⟩)
            else claim fd (openExisting a oflags bits vp)
        else
          match ← inside (lookup a.eatPath) with
          | .error e =>
            release .filpLock
            return e.1
          | .ok h =>
            match h.vmp with
            | none => pure ()
            | some vmp => release (.path (.vmntLock vmp))
            claim fd (openExisting a oflags bits h.node)

/-! ## Traps -/

/-- What is left when a file is open: the descriptor, and a reference to the vnode with the device, if it
is one, or else a count of the other opener of a FIFO. -/
def IsOpen (fd : Nat) (held : List Held) : Prop :=
  ∃ rest, held.Perm (.descriptor fd :: rest) ∧
    (rest = [.coFilp] ∨ ∃ slot, rest = [.path (.vnodeRef slot)] ∨ rest = [.path (.vnodeRef slot), .device])

/-- The call returns with an error and nothing in its hands, or with an open file; a call that waits for
the other end of a FIFO has its file. -/
def Clean (out : Except (Fault Held) (Int × List Held)) : Prop :=
  ∃ r held, out = .ok (r, held) ∧
    (r < 0 ∧ r ≠ SUSPEND ∧ held = [] ∨ ∃ fd : Nat, (r = fd ∨ r = SUSPEND) ∧ IsOpen fd held)

/-- The block driver disappears after `bdev_open`, or a FIFO that has another opener of the same kind
cannot be opened. -/
def ExistingTrap (vp : Node) : Prop :=
  a.forbidden bits = OK ∧
    (vp.type = S_IFBLK ∧ a.bdevOpen = OK ∧ a.driver = false ∨
      vp.type = S_IFIFO ∧ a.coOpener = true ∧ fifoResult a oflags bits ≠ OK ∧
        fifoResult a oflags bits ≠ ENXIO ∧ fifoResult a oflags bits ≠ SUSPEND)

/-- Errors are negative, and none of them is `SUSPEND`. -/
def IsError (r : Int) : Prop :=
  r < 0 ∧ r ≠ SUSPEND

/-- The errors that `new_node` meets. -/
structure LevelErrors (l : Level) : Prop where
  lastDir : ∀ e, l.lastDir = .error e → IsError e.1
  advance : ∀ e, l.advance = .error e → IsError e.1
  freeVnode : ∀ e, l.freeVnode = .error e → IsError e.1
  created : l.created = OK ∨ IsError l.created
  reqRdlink : l.reqRdlink ≠ SUSPEND

structure Answers.Sane : Prop where
  levels : ∀ l ∈ a.levels, l.Sane ∧ LevelErrors l
  getFd : ∀ e, a.getFd = .error e → IsError e.1
  eatPath : ∀ e, a.eatPath = .error e → IsError e.1
  forbidden : ∀ b, a.forbidden b = OK ∨ IsError (a.forbidden b)
  cdevOpen : a.cdevOpen = OK ∨ IsError a.cdevOpen
  bdevOpen : a.bdevOpen = OK ∨ IsError a.bdevOpen
  mapVnode : a.mapVnode = OK ∨ IsError a.mapVnode
  truncate : a.truncate = OK ∨ IsError a.truncate

/-! ## An existing file -/

section Existing

variable {a : Answers} {oflags bits fd : Nat} {vp : Node} {mid : List Held}

/-- The vnode is locked and has a reference; the order does not matter. -/
def Owned (vp : Node) (mid : List Held) : Prop :=
  mid = [.path (.vnodeRef vp.slot), .path (.vnodeLock vp.slot)] ∨
    mid = [.path (.vnodeLock vp.slot), .path (.vnodeRef vp.slot)]

theorem finish_owned (fd : Nat) (hmid : Owned vp mid) (extra : List Held)
    (hextra : extra = [] ∨ extra = [.device]) (r : Int) :
    finish fd ⟨r, vp, 1⟩ (extra ++ .descriptor fd :: (mid ++ [.filpLock])) =
      if r = OK then .ok ((fd : Int), extra ++ [.descriptor fd, .path (.vnodeRef vp.slot)])
      else if r = SUSPEND then .ok (SUSPEND, extra ++ [.descriptor fd, .path (.vnodeRef vp.slot)])
      else .ok (r, extra) := by
  have hne : ¬ SUSPEND = OK := by decide
  rcases hmid with rfl | rfl <;> rcases hextra with rfl | rfl
  all_goals
    by_cases hr : r = OK
    · simp [finish, unlockVnode, release, hr]
    · by_cases hsuspend : r = SUSPEND
      · simp [finish, unlockVnode, release, hsuspend, hne]
      · simp [finish, unlockVnode, putVnode, release, hr, hsuspend]

end Existing

/-! ## The whole function -/

section Whole

variable {a : Answers} {oflags : Nat}

/-- The traps of `common_open`: the run of `new_node` is not good, it returns `EEXIST` without a vnode, or
the file that is there has a trap. -/
def Trap (a : Answers) (oflags : Nat) : Prop :=
  let bits := modeMap (oflags &&& O_ACCMODE)
  bits ≠ 0 ∧ (∃ fd, a.getFd = .ok fd) ∧
    if oflags &&& O_CREAT ≠ 0 then
      ¬ Create.Good a.levels ∨
        ∃ r got, Create.newNode a.levels [] = .ok (r, got) ∧ r.errCode = EEXIST ∧
          (r.vp = none ∨ oflags &&& O_EXCL = 0 ∧ ∃ vp, r.vp = some vp ∧ ExistingTrap a oflags bits vp)
    else ∃ f, a.eatPath = .ok f ∧ ExistingTrap a oflags bits f.node

/-- A vnode that was looked up is locked, and the file system is not any more. -/
theorem lookup_inside (f : Found) :
    inside (lookup (.ok f)) [.filpLock] =
      .ok (.ok ⟨f.node, true, some f.vmnt⟩, [.path (.vnodeRef f.node.slot),
        .path (.vnodeLock f.node.slot), .path (.vmntLock f.vmnt), .filpLock]) := by
  simp [inside, lookup, tryHold]

/-- The rest of the function when `O_CREAT` is not set. -/
theorem open_lookup (a : Answers) {fd : Nat} (hbits : modeMap (oflags &&& O_ACCMODE) ≠ 0)
    (hfd : a.getFd = .ok fd) (hcreat : ¬ oflags &&& O_CREAT ≠ 0) :
    commonOpen a oflags [] =
      match a.eatPath with
      | .error e => .ok (e.1, [])
      | .ok f => claim fd (openExisting a oflags (modeMap (oflags &&& O_ACCMODE)) f.node)
          [.path (.vnodeRef f.node.slot), .path (.vnodeLock f.node.slot), .filpLock] := by
  unfold commonOpen
  dsimp only
  rw [if_neg hbits, hfd]
  dsimp only
  rw [if_neg hcreat]
  cases hpath : a.eatPath with
  | error e => simp [inside, lookup, release]
  | ok f =>
      rw [bind_apply, hold_apply, except_bind_ok, bind_apply]
      dsimp only
      rw [lookup_inside]
      simp [release]

/-- The rest of the function when `O_CREAT` is set. -/
theorem open_create (a : Answers) {fd : Nat} (hbits : modeMap (oflags &&& O_ACCMODE) ≠ 0)
    (hfd : a.getFd = .ok fd) (hcreat : oflags &&& O_CREAT ≠ 0) :
    commonOpen a oflags [] =
      match Create.newNode a.levels [] with
      | .error e => .error (faultInside e)
      | .ok (made, got) =>
        match made.vp with
        | none =>
          if made.errCode = OK ∨ made.errCode = EEXIST then .error .nullPointer
          else
            (release .filpLock (got.map Held.path ++ [.filpLock])).bind fun out =>
              .ok (made.errCode, out.2)
        | some vp =>
          if made.errCode = OK then claim fd (pure ⟨OK, vp, 1⟩) (got.map Held.path ++ [.filpLock])
          else if made.errCode ≠ EEXIST then
            (do
              unlockVnode vp
              release .filpLock
              return made.errCode : Holding Held Int) (got.map Held.path ++ [.filpLock])
          else if oflags &&& O_EXCL ≠ 0 then
            claim fd (pure ⟨EEXIST, vp, 1⟩) (got.map Held.path ++ [.filpLock])
          else
            claim fd (openExisting a oflags (modeMap (oflags &&& O_ACCMODE)) vp)
              (got.map Held.path ++ [.filpLock]) := by
  unfold commonOpen
  dsimp only
  rw [if_neg hbits, hfd]
  dsimp only
  rw [if_pos hcreat, bind_apply, hold_apply, except_bind_ok, bind_apply]
  dsimp only
  unfold inside
  cases Create.newNode a.levels [] with
  | error e => rfl
  | ok out =>
      rcases out with ⟨⟨errCode, vp⟩, got⟩
      cases vp with
      | none =>
          dsimp only [except_bind_ok]
          split <;> rfl
      | some vp =>
          dsimp only [except_bind_ok]
          split
          · rfl
          · split
            · rfl
            · split <;> rfl

end Whole

end Open
end Vfs
end OsLab
